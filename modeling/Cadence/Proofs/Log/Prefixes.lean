import Cadence.Proofs.Date
import Cadence.Proofs.Log.Housekeeping
import Cadence.Proofs.Path
import Cadence.Proofs.Text.Bytes

/-!
Log files of several prefixes in one directory. A name is that of a log file for one prefix at most
(`eq_of_ofChars?_eq_some`), and the name that is written for a day tells the day (`ofChars?_spelling`). So
housekeeping with one prefix leaves the log files of all others alone (`lookup_cleanup_of_other`). The prefix
that counts is the part behind the last slash, since the rest leads to another directory.
-/

namespace Cadence.Log

namespace FileName

variable {filePrefix other name : List Char} {date : Date}

/-- The end of a file name says whether the log is compressed. -/
theorem compressed_eq_of_spelling_eq {day otherDay : List Char} {compressed otherCompressed : Bool}
    (h : spelling filePrefix day compressed = spelling other otherDay otherCompressed) :
    compressed = otherCompressed := by
  have hBack := congrArg List.reverse h
  cases compressed <;> cases otherCompressed <;> simp [spelling] at hBack ⊢

/-- The text of the day has a fixed length, so what stands in front of it can be one prefix only. -/
theorem eq_of_ofChars?_eq_some {file otherFile : FileName} (h : ofChars? filePrefix name = some file)
    (hOther : ofChars? other name = some otherFile) : filePrefix = other := by
  obtain ⟨day, hLength, -, rfl⟩ := ofChars?_eq_some_iff.mp h
  obtain ⟨otherDay, hOtherLength, -, hName⟩ := ofChars?_eq_some_iff.mp hOther
  rw [spelling, spelling, compressed_eq_of_spelling_eq hName, ← List.append_assoc, ← List.append_assoc,
    ← List.append_assoc, ← List.append_assoc, List.append_left_inj, List.append_left_inj] at hName
  have hFront := (Text.append_inj_of_utf8Length_eq hName (hLength.trans hOtherLength.symm)).1
  exact (List.append_left_inj _).mp hFront

/-- The name that is written for a day is read as one of the same day. -/
theorem ofChars?_spelling (filePrefix : List Char) (hFrom : 0 ≤ date.year) (hTill : date.year ≤ 9999)
    (compressed : Bool) :
    ofChars? filePrefix (spelling filePrefix date.toChars compressed) = some ⟨date, compressed⟩ :=
  ofChars?_eq_some_iff.mpr
    ⟨date.toChars, Date.utf8Length_toChars hFrom hTill, Date.ofChars?_toChars hFrom hTill, rfl⟩

/-- With another prefix it is not read at all. -/
theorem ofChars?_spelling_iff (hFrom : 0 ≤ date.year) (hTill : date.year ≤ 9999) {compressed : Bool}
    {file : FileName} : ofChars? other (spelling filePrefix date.toChars compressed) = some file
      ↔ other = filePrefix ∧ file = ⟨date, compressed⟩ := by
  have hOwn := ofChars?_spelling filePrefix hFrom hTill compressed
  constructor
  · intro h
    obtain rfl := eq_of_ofChars?_eq_some h hOwn
    exact ⟨rfl, Option.some.inj (h.symm.trans hOwn)⟩
  · rintro ⟨rfl, rfl⟩
    exact hOwn

end FileName

section Names

variable {date : Date}

theorem toList_fileName (filePrefix : String) (date : Date) :
    (fileName filePrefix date.toText).toList = FileName.spelling filePrefix.toList date.toChars false := by
  simp [fileName, Date.toText, FileName.spelling]

theorem toList_fileName_gz (filePrefix : String) (date : Date) :
    (fileName filePrefix date.toText ++ ".gz").toList
      = FileName.spelling filePrefix.toList date.toChars true := by
  rw [String.toList_append, toList_fileName]
  simp [FileName.spelling]

theorem slash_not_mem_toChars (hFrom : 0 ≤ date.year) (hTill : date.year ≤ 9999) : '/' ∉ date.toChars :=
  fun hMem => (Date.isDigit_or_eq_of_mem_toChars hFrom hTill hMem).elim (by decide) (by decide)

/-- The path to a log file ends with a name for the part of the prefix behind its last slash. -/
theorem getLast?_steps_filePath (base filePrefix : String) (hFrom : 0 ≤ date.year) (hTill : date.year ≤ 9999) :
    (Path.steps (filePath base filePrefix date.toText)).getLast?
      = some (fileName (Path.behindSlash filePrefix) date.toText) := by
  have hText (front : String) :
      fileName front date.toText = front ++ ("." ++ date.toText ++ ".log") := by
    rw [fileName, String.append_assoc, String.append_assoc, String.append_assoc]
  have hSome : "." ++ date.toText ++ ".log" ≠ "" := by
    rw [Ne, String.append_eq_empty_iff]
    exact fun hEmpty => absurd hEmpty.2 (by decide)
  have hSlash : '/' ∉ ("." ++ date.toText ++ ".log").toList := by
    simpa [Date.toText] using slash_not_mem_toChars hFrom hTill
  rw [filePath, hText, hText]
  exact Path.getLast?_steps_join base (Path.getLast?_steps_append filePrefix hSlash hSome)

/-- The name of the file behind a path is that of the log with the part of the prefix behind its
last slash. -/
theorem fileName?_filePath (base filePrefix : String) (hFrom : 0 ≤ date.year) (hTill : date.year ≤ 9999) :
    Path.fileName? (filePath base filePrefix date.toText)
      = some (fileName (Path.behindSlash filePrefix) date.toText) := by
  refine Path.fileName?_of_getLast? (getLast?_steps_filePath base filePrefix hFrom hTill) ?_ ?_
  all_goals
    intro hSame
    have hBack := congrArg (List.reverse ∘ String.toList) hSame
    simp [toList_fileName, FileName.spelling, Path.here, Path.parent] at hBack

/-- Without a slash in its prefix, a log file is in the directory itself. -/
theorem steps_filePath (base : String) {filePrefix : String} (hFrom : 0 ≤ date.year) (hTill : date.year ≤ 9999)
    (hSlash : '/' ∉ filePrefix.toList) :
    Path.steps (filePath base filePrefix date.toText)
      = Path.steps base ++ [fileName filePrefix date.toText] := by
  have hName : '/' ∉ (fileName filePrefix date.toText).toList := by
    have hDate := slash_not_mem_toChars hFrom hTill
    simp [toList_fileName, FileName.spelling, hSlash, hDate]
  have hSome : fileName filePrefix date.toText ≠ "" := by
    rw [fileName, Ne, String.append_eq_empty_iff]
    exact fun hEmpty => absurd hEmpty.2 (by decide)
  have hStart : ¬ (fileName filePrefix date.toText).startsWith "/" := by
    rw [String.startsWith_string_iff]
    exact fun hFront => hName (hFront.subset (by decide))
  rw [filePath, Path.steps_join base hStart, Path.steps_of_not_mem hName hSome]

end Names

section Others

variable {config other : LogConfig} {today : Date} {name tidied : String} {file : FileName}
  {directory : Directory Content}

/-- What is done with a log file touches no log file of another prefix. -/
theorem lookup_of_tidies_of_other (hNone : logFile? config name = none) (hOther : logFile? other name = some file)
    {result : EStateM.Result Failure (Directory Content) Unit} (h : Tidies config today tidied directory result) :
    (Housekeeping.left result).lookup name = directory.lookup name := by
  have hPartial : name ≠ tidied ++ ".gz" ++ ".tmp" := by
    rintro rfl
    cases (logFile?_tmp other (tidied ++ ".gz")).symm.trans hOther
  cases h with
  | kept | failed => rfl
  | deleted hName =>
      refine Table.lookup_erase_of_ne directory ?_
      rintro rfl
      cases hNone.symm.trans hName
  | begun => exact Table.lookup_put_of_ne directory _ hPartial
  | compressed _ hName =>
      have hSource : name ≠ tidied := by
        rintro rfl
        cases hNone.symm.trans hName
      have hTarget : name ≠ tidied ++ ".gz" := by
        rintro rfl
        cases hNone.symm.trans (logFile?_gz hName)
      rw [Housekeeping.left, lookup_compressed hOther, if_neg hSource, if_neg hTarget]

/-- Housekeeping with one prefix leaves the log files of every other prefix alone, however it ends. -/
theorem lookup_cleanup_of_other (base : String) (hOther : logFile? other name = some file)
    (hPrefix : config.filePrefix ≠ other.filePrefix) :
    (Housekeeping.left (cleanup config base today directory)).lookup name = directory.lookup name := by
  have hNone : logFile? config name = none := by
    rw [Option.eq_none_iff_forall_not_mem]
    intro own hOwn
    exact hPrefix (String.toList_inj.mp (FileName.eq_of_ofChars?_eq_some hOwn hOther))
  rw [cleanup_eq]
  refine @tidyAll_induction (fun after => after.lookup name = directory.lookup name) config base today
    (fun tidied before hBefore => ?_) _ directory rfl
  exact (lookup_of_tidies_of_other hNone hOther (tidies config base today tidied before)).trans hBefore

end Others

section Prefixes

variable {date : Date}

/-- The file that is written for a day, and the compressed one, are log files of that day for the part of the
prefix behind its last slash, and for no other prefix. A prefix without a slash is that part itself, and its
files are in the directory that housekeeping goes through. With any other prefix, housekeeping neither deletes
nor compresses the file, whatever dots, dates or beginnings the prefixes have in common. -/
theorem ofChars?_filePath_iff (base filePrefix : String) (hFrom : 0 ≤ date.year) (hTill : date.year ≤ 9999) :
    ∃ name, Path.fileName? (filePath base filePrefix date.toText) = some name ∧
      (∀ (other : String) (file : FileName), FileName.ofChars? other.toList name.toList = some file
        ↔ other = Path.behindSlash filePrefix ∧ file = ⟨date, false⟩) ∧
      (∀ (other : String) (file : FileName), FileName.ofChars? other.toList (name ++ ".gz").toList = some file
        ↔ other = Path.behindSlash filePrefix ∧ file = ⟨date, true⟩) ∧
      ('/' ∉ filePrefix.toList → Path.behindSlash filePrefix = filePrefix ∧
        Path.steps (filePath base filePrefix date.toText) = Path.steps base ++ [name]) ∧
      ∀ (config : LogConfig) (place : String) (today : Date) (directory : Directory Content),
        config.filePrefix ≠ Path.behindSlash filePrefix → ∀ found ∈ [name, name ++ ".gz"],
          (Housekeeping.left (cleanup config place today directory)).lookup found
            = directory.lookup found := by
  have hPlain (other : String) (file : FileName) :
      FileName.ofChars? other.toList (fileName (Path.behindSlash filePrefix) date.toText).toList = some file
        ↔ other = Path.behindSlash filePrefix ∧ file = ⟨date, false⟩ := by
    rw [toList_fileName, FileName.ofChars?_spelling_iff hFrom hTill, String.toList_inj]
  have hPacked (other : String) (file : FileName) :
      FileName.ofChars? other.toList (fileName (Path.behindSlash filePrefix) date.toText ++ ".gz").toList
        = some file ↔ other = Path.behindSlash filePrefix ∧ file = ⟨date, true⟩ := by
    rw [toList_fileName_gz, FileName.ofChars?_spelling_iff hFrom hTill, String.toList_inj]
  refine ⟨_, fileName?_filePath base filePrefix hFrom hTill, hPlain, hPacked, fun hSlash => ?_,
    fun config place today directory hPrefix found hFound => ?_⟩
  · rw [Path.behindSlash_of_not_mem hSlash]
    exact ⟨rfl, steps_filePath base hFrom hTill hSlash⟩
  · -- The log file belongs to housekeeping with its own prefix.
    have hOwn : ∃ file, logFile? { config with filePrefix := Path.behindSlash filePrefix } found = some file := by
      rcases List.mem_pair.mp hFound with rfl | rfl
      · exact ⟨_, (hPlain _ _).mpr ⟨rfl, rfl⟩⟩
      · exact ⟨_, (hPacked _ _).mpr ⟨rfl, rfl⟩⟩
    obtain ⟨file, hFile⟩ := hOwn
    exact lookup_cleanup_of_other place hFile hPrefix

def sampleDay : Date := ⟨2026, 1, 31, by decide⟩

/-- A prefix that looks like the name of a log file of another one. -/
theorem ofChars?_filePath_iff_sampleDotted :
    Path.fileName? (filePath "logs" "cam.2026-01-31.log" sampleDay.toText)
      = some "cam.2026-01-31.log.2026-01-31.log" ∧
    FileName.ofChars? "cam".toList "cam.2026-01-31.log.2026-01-31.log".toList = none ∧
    FileName.ofChars? "cam.2026-01-31.log".toList "cam.2026-01-31.log.2026-01-31.log.gz".toList
      = some ⟨sampleDay, true⟩ := by
  have hBehind : Path.behindSlash "cam.2026-01-31.log" = "cam.2026-01-31.log" := by decide +kernel
  have hText : Path.fileName? (filePath "logs" "cam.2026-01-31.log" sampleDay.toText)
      = some "cam.2026-01-31.log.2026-01-31.log" := by decide +kernel
  obtain ⟨name, hName, hPlain, hPacked, -, -⟩ :=
    @ofChars?_filePath_iff sampleDay "logs" "cam.2026-01-31.log" (by decide) (by decide)
  obtain rfl := Option.some.inj (hName.symm.trans hText)
  refine ⟨hText, ?_, (hPacked _ _).mpr ⟨hBehind.symm, rfl⟩⟩
  rw [Option.eq_none_iff_forall_not_mem]
  intro file hFile
  have hSame := ((hPlain "cam" file).mp hFile).1
  rw [hBehind] at hSame
  exact absurd hSame (by decide)

/-- With a slash in the prefix, the log file is one of another prefix. -/
theorem ofChars?_filePath_sampleSlash :
    Path.fileName? (filePath "logs" "sub/cam" sampleDay.toText) = some "cam.2026-01-31.log" ∧
    FileName.ofChars? "sub/cam".toList "cam.2026-01-31.log".toList = none ∧
    FileName.ofChars? "cam".toList "cam.2026-01-31.log".toList = some ⟨sampleDay, false⟩ := by
  decide +kernel

end Prefixes

end Cadence.Log
