import Cadence.Archive.Checksum
import Cadence.Archive.Deflate
import Cadence.Archive.Inflate

/-!
Archives of a single file: packed data between a heading, which may name the file, and a check of what
was packed.
-/

namespace Cadence.Archive.Gzip

/-- The start of every archive: its mark and the method of packing. -/
def mark : Bytes := [0x1F, 0x8B, 8]

/-- The number of bytes that an optional part of the heading may have. -/
def maxText : Nat := 65535

/-- The low bytes of a number, lowest first. -/
def littleEndian : (count value : Nat) → Bytes
  | 0, _ => []
  | count + 1, value => UInt8.ofNat value :: littleEndian count (value >>> 8)

/-- Reads a number, lowest byte first. -/
def readNumber (count : Nat) (data : Bytes) : Option (Nat × Bytes) :=
  if data.length < count then none
  else some (toNat (ofBytes (data.take count)), data.drop count)

/-- Drops a text up to the zero byte that ends it. -/
def dropText (data : Bytes) : Option Bytes :=
  match data.dropWhile (· != 0) with
  | [] => none
  | _ :: rest => if data.length - rest.length ≤ maxText then some rest else none

/-- Drops a part of the heading if its flag is set. -/
def dropIf (flags : UInt8) (flag : UInt8) (drop : Bytes → Option Bytes) (data : Bytes) : Option Bytes :=
  if flags &&& flag = 0 then some data else drop data

/-- Drops additional data behind its length. -/
def dropExtra (data : Bytes) : Option Bytes := do
  let (length, rest) ← readNumber 2 data
  if rest.length < length then none else some (rest.drop length)

/-- Drops the check of the heading `archive` in front of the data, if it is right. -/
def dropCheck (archive data : Bytes) : Option Bytes := do
  let heading := archive.take (archive.length - data.length)
  let (check, rest) ← readNumber 2 data
  if check = (checksum heading).toNat % 65536 then some rest else none

/-- The packed data of an archive and what follows. -/
def dropHeading (archive : Bytes) : Option Bytes := do
  let rest ← mark.isPrefixOf? archive
  let flags ← rest.head?
  if flags &&& 0xE0 ≠ 0 ∨ rest.length < 7 then none
  let rest ← dropIf flags 4 dropExtra (rest.drop 7)
  let rest ← dropIf flags 8 dropText rest
  let rest ← dropIf flags 16 dropText rest
  dropIf flags 2 (dropCheck archive) rest

/-- Unpacks an archive. Its check and its length have to be right; what follows them is ignored. -/
def decode (archive : Bytes) : Option Bytes := do
  let packed ← dropHeading archive
  let (data, bits) ← inflate (ofBytes packed)
  let rest := packed.drop (packed.length - bits.length / 8)
  let (check, rest) ← readNumber 4 rest
  let (length, _) ← readNumber 4 rest
  if check = (checksum data).toNat ∧ length = data.length % UInt32.size then some data else none

/-- Packs data. The archive gives neither a name nor a time. -/
def encode (data : Bytes) : Bytes :=
  mark ++ [0, 0, 0, 0, 0, 0, 0xFF] ++ deflate data ++ littleEndian 4 (checksum data).toNat
    ++ littleEndian 4 data.length

end Cadence.Archive.Gzip
