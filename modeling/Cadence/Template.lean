import Cadence.Directory.Place
import Cadence.Outcome

/-!
Templates: the arithmetically coded bodies of skipped pictures, one for each picture size. They are
kept as files that are named for the size, such as 1920x1080.bin.
-/

namespace Cadence

/-- The name of a file up to its last dot, and what follows that dot. A dot in front of everything does
not count, and a name may have no dot at all. -/
def FileName.splitExtension (name : List Char) : List Char × Option (List Char) :=
  match name.reverse.dropWhile (· != '.') with
  | [] | ['.'] => (name, none)
  | _ :: stem => (stem.reverse, some (name.reverse.takeWhile (· != '.')).reverse)

namespace Resolution

/-- Sizes are ordered by width, then by height. -/
def le (a b : Resolution) : Bool :=
  a.width < b.width || (a.width == b.width && a.height ≤ b.height)

private def isCross (c : Char) : Bool :=
  c == 'x' || c == 'X'

/-- The largest width and height that a name can give. -/
def largest : Nat := UInt32.size - 1

/-- Reads width and height with a cross between them, both positive. -/
def ofChars? (text : List Char) : Option Resolution :=
  match text.dropWhile (!isCross ·) with
  | [] => none
  | _ :: height => do
    let width ← Decimal.nat? largest (text.takeWhile (!isCross ·))
    let height ← Decimal.nat? largest height
    if 0 < width ∧ 0 < height then some ⟨width, height⟩ else none

end Resolution

/-- Templates by picture size. -/
abbrev TemplateTable := Table Resolution Bytes

namespace TemplateTable

/-- The sizes that there are templates for, in order. -/
def resolutions (table : TemplateTable) : List Resolution :=
  (table.sorted Resolution.le).map Prod.fst

/-- Adds the template in a file of the directory at `path`. Folders and files of another kind are
passed over; files without a size in their name and empty ones are reported. -/
def loadEntry (path : String) (table : TemplateTable) : String × Node Bytes → Outcome Fault TemplateTable
  | (name, .file data) =>
    match FileName.splitExtension name.toList with
    | (stem, some ['b', 'i', 'n']) =>
      let place := Path.join path name
      match Resolution.ofChars? stem with
      | none => do
        Outcome.note [.templateName place]
        return table
      | some size =>
        if data.isEmpty then do
          Outcome.note [.templateEmpty place]
          return table
        else do
          Outcome.note [.templateLoaded size data.length]
          return table.put size data
    | _ => pure table
  | _ => pure table

/-- The templates in the directory at a path, read in the order of its list. If two files are named
for one size, the later one counts. -/
def load (root : Directory Bytes) (path : String) : Outcome Fault TemplateTable :=
  match root.list path with
  | .error fault => Outcome.ofExcept (.error (.file fault))
  | .ok entries => entries.foldlM (loadEntry path) []

end TemplateTable

end Cadence
