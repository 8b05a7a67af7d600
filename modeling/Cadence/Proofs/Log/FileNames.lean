import Mathlib.Data.List.Infix
import Cadence.Log.FileName

/-!
Which names are those of log files (`ofChars?_eq_some_iff`), and what becomes of such a name when the
ending of compressed files is put behind it.
-/

namespace Cadence.Log.FileName

/-- The text of the name of a log file. -/
def spelling (filePrefix day : List Char) (compressed : Bool) : List Char :=
  filePrefix ++ ['.'] ++ (day ++ ['.', 'l', 'o', 'g'] ++ if compressed then ['.', 'g', 'z'] else [])

variable {filePrefix name : List Char}

theorem isSuffixOf?_gz_of_log (day : List Char) :
    ['.', 'g', 'z'].isSuffixOf? (day ++ ['.', 'l', 'o', 'g']) = none := by
  rw [Option.eq_none_iff_forall_not_mem]
  intro rest hRest
  have hEnds := List.append_eq_of_isSuffixOf?_eq_some hRest
  have hLast := congrArg List.getLast? hEnds
  simp at hLast

/-- A name is accepted exactly if it is spelled as one, with a day that can be read. -/
theorem ofChars?_eq_some_iff {file : FileName} : ofChars? filePrefix name = some file ↔
    ∃ day, Text.utf8Length day = dayLength ∧ Date.ofChars? day = some file.date ∧
      name = spelling filePrefix day file.compressed := by
  constructor
  · intro h
    obtain ⟨rest, hRest, h⟩ := Option.bind_eq_some_iff.mp h
    obtain ⟨day, hDay, h⟩ := Option.bind_eq_some_iff.mp h
    split at h
    case isTrue => cases h
    case isFalse hLength =>
      obtain ⟨date, hDate, h⟩ := Option.bind_eq_some_iff.mp h
      cases h
      refine ⟨day, not_not.mp hLength, hDate, ?_⟩
      have hName := List.append_eq_of_isPrefixOf?_eq_some hRest
      have hLog := List.append_eq_of_isSuffixOf?_eq_some hDay
      cases hEnding : ['.', 'g', 'z'].isSuffixOf? rest with
      | none => simp_all [spelling]
      | some stem =>
          have hStem := List.append_eq_of_isSuffixOf?_eq_some hEnding
          simp_all [spelling]
  · rintro ⟨day, hLength, hDate, rfl⟩
    obtain ⟨date, compressed⟩ := file
    have hRest : (filePrefix ++ ['.']).isPrefixOf? (spelling filePrefix day compressed)
        = some (day ++ ['.', 'l', 'o', 'g'] ++ if compressed then ['.', 'g', 'z'] else []) :=
      List.isPrefixOf?_eq_some_iff_append_eq.mpr rfl
    have hEnding : ['.', 'g', 'z'].isSuffixOf?
          (day ++ ['.', 'l', 'o', 'g'] ++ if compressed then ['.', 'g', 'z'] else [])
        = if compressed then some (day ++ ['.', 'l', 'o', 'g']) else none := by
      cases compressed with
      | false => simpa using isSuffixOf?_gz_of_log day
      | true => exact List.isSuffixOf?_eq_some_iff_append_eq.mpr rfl
    have hLog : ['.', 'l', 'o', 'g'].isSuffixOf? (day ++ ['.', 'l', 'o', 'g']) = some day :=
      List.isSuffixOf?_eq_some_iff_append_eq.mpr rfl
    refine Option.bind_eq_some_iff.mpr ⟨_, hRest, Option.bind_eq_some_iff.mpr ⟨day, ?_, ?_⟩⟩
    · rw [hEnding]
      cases compressed with
      | false => rw [if_neg Bool.false_ne_true, if_neg Bool.false_ne_true, List.append_nil]; exact hLog
      | true => exact hLog
    · rw [if_neg (not_not.mpr hLength), hEnding]
      refine Option.bind_eq_some_iff.mpr ⟨date, hDate, ?_⟩
      cases compressed <;> rfl

/-- A compressed log file is one of the same day. -/
theorem ofChars?_gz {date : Date} (h : ofChars? filePrefix name = some ⟨date, false⟩) :
    ofChars? filePrefix (name ++ ['.', 'g', 'z']) = some ⟨date, true⟩ := by
  obtain ⟨day, hLength, hDate, rfl⟩ := ofChars?_eq_some_iff.mp h
  exact ofChars?_eq_some_iff.mpr ⟨day, hLength, hDate, by simp [spelling]⟩

/-- A file that is being written is none of the log files. -/
theorem ofChars?_tmp : ofChars? filePrefix (name ++ ['.', 't', 'm', 'p']) = none := by
  rw [Option.eq_none_iff_forall_not_mem]
  intro file hFile
  obtain ⟨day, _, _, hName⟩ := ofChars?_eq_some_iff.mp hFile
  have hBack := congrArg List.reverse hName
  cases hCompressed : file.compressed <;> simp [spelling, hCompressed] at hBack

end Cadence.Log.FileName
