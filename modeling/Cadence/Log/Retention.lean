import Cadence.Config
import Cadence.Directory
import Cadence.Log.Content
import Cadence.Log.FileName

/-!
Housekeeping among old log files. Files from before a cutoff day are deleted; of the others, those of
earlier days than today are compressed.
-/

namespace Cadence.Log

/-- The number of the first day whose files are kept. If there is no such day in the calendar, files
are kept from today on. -/
def keepFrom (retentionDays : Int64) (today : Date) : Int :=
  let first := today.dayNumber - retentionDays.toInt
  if 0 ≤ retentionDays.toInt ∧ Date.firstDay ≤ first then first else today.dayNumber

/-- Work on a directory, which stays as far as it got when it fails. -/
abbrev Housekeeping := EStateM Failure (Directory Content) Unit

/-- Deletes the file `name` of the directory at `base`. -/
def deleteFile (base name : String) : Housekeeping := do
  match (← get).lookup name with
  | some (.file _) => modify (Table.erase · name)
  | entry =>
    let fault : FileFault := if entry.isSome then .isDirectory else .notFound
    throw ⟨[s!"删除过期日志失败, path={Path.join base name}"], some (.file fault)⟩

/-- Replaces the file `name` by a compressed one, which is written under another name first. -/
def compressFile (base name : String) : Housekeeping := do
  let target := name ++ ".gz"
  let partialName := target ++ ".tmp"
  let source ← match (← get).lookup name with
    | some node => pure node
    | none => throw ⟨[s!"打开日志失败, path={Path.join base name}"], some (.file .notFound)⟩
  if !Path.fits Path.maxName partialName then
    throw ⟨[s!"创建压缩文件失败, path={Path.join base partialName}"], some (.file .nameTooLong)⟩
  if (← get).hasFolder partialName then
    throw ⟨[s!"创建压缩文件失败, path={Path.join base partialName}"], some (.file .isDirectory)⟩
  match source with
  | .folder _ =>
    modify (Table.put · partialName (.file (.packed (.plain []))))
    throw ⟨[], some (.file .isDirectory)⟩
  | .file content =>
    modify (Table.put · partialName (.file (.packed content)))
    if (← get).hasFolder target then
      throw ⟨[s!"重命名压缩文件失败, path={Path.join base target}"], some (.file .isDirectory)⟩
    modify fun directory =>
      ((directory.erase partialName).put target (.file (.packed content))).erase name

/-- Deletes or compresses the file `name`, if it is a log file with the prefix and its time has
come. -/
def tidy (config : LogConfig) (base : String) (today : Date) (name : String) : Housekeeping := do
  match FileName.ofChars? config.filePrefix.toList name.toList with
  | none => pure ()
  | some file =>
    let day := file.date.dayNumber
    if day < keepFrom config.retentionDays today then deleteFile base name
    else if config.compressHistory && !file.compressed && day < today.dayNumber then
      compressFile base name

/-- Goes through the directory at `base` in the order of its list. -/
def cleanup (config : LogConfig) (base : String) (today : Date) : Housekeeping := do
  for (name, _) in ← get do
    tidy config base today name

end Cadence.Log
