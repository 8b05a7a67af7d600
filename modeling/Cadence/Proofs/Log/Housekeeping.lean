import Cadence.Log.Retention
import Cadence.Proofs.Log.FileNames

/-!
What housekeeping does to the log files of a directory. Seeing to one name can delete the file of that
name, or compress it (`tidies`). So log files that are old enough never come back once they are gone
(`gone_cleanup`), and the contents of the others stay (`holds_cleanup`), also if a fault ends the work.
-/

namespace Cadence.Log

section Steps

variable {ε σ α β : Type}

theorem get_bind_apply (next : σ → EStateM ε σ β) (s : σ) : (get >>= next) s = next s s := rfl

theorem modify_bind_apply (change : σ → σ) (next : Unit → EStateM ε σ β) (s : σ) :
    (modify change >>= next) s = next () (change s) := rfl

theorem throw_bind_apply (fault : ε) (next : α → EStateM ε σ β) (s : σ) :
    ((throw fault : EStateM ε σ α) >>= next) s = .error fault s := rfl

theorem pure_bind_apply (a : α) (next : α → EStateM ε σ β) (s : σ) :
    ((pure a : EStateM ε σ α) >>= next) s = next a s := rfl

theorem ite_apply_state {condition : Prop} [Decidable condition] (first second : EStateM ε σ α) (s : σ) :
    (if condition then first else second) s = if condition then first s else second s := by
  split <;> rfl

end Steps

/-- What a name says about a log file. -/
def logFile? (config : LogConfig) (name : String) : Option FileName :=
  FileName.ofChars? config.filePrefix.toList name.toList

theorem logFile?_gz {config : LogConfig} {name : String} {date : Date}
    (h : logFile? config name = some ⟨date, false⟩) :
    logFile? config (name ++ ".gz") = some ⟨date, true⟩ := by
  rw [logFile?, String.toList_append]
  exact FileName.ofChars?_gz h

theorem logFile?_tmp (config : LogConfig) (name : String) : logFile? config (name ++ ".tmp") = none := by
  rw [logFile?, String.toList_append]
  exact FileName.ofChars?_tmp

/-- The directory in which work ends, finished or not. -/
def Housekeeping.left : EStateM.Result Failure (Directory Content) Unit → Directory Content
  | .ok _ directory | .error _ directory => directory

open Housekeeping (left)

/-- The file `name` is replaced by a compressed one. -/
def compressed (directory : Directory Content) (name : String) (content : Content) :
    Directory Content :=
  (((directory.put (name ++ ".gz" ++ ".tmp") (.file (.packed content))).erase
    (name ++ ".gz" ++ ".tmp")).put (name ++ ".gz") (.file (.packed content))).erase name

theorem gz_ne (name : String) : name ++ ".gz" ≠ name := by
  intro h
  have hLength := congrArg String.length h
  simp [String.length_append] at hLength

/-- The file being written is gone again, so a log file is only touched as the source or the target. -/
theorem lookup_compressed {config : LogConfig} {other : String} {file : FileName}
    (hOther : logFile? config other = some file) (directory : Directory Content) (name : String)
    (content : Content) : (compressed directory name content).lookup other
      = if other = name then none
        else if other = name ++ ".gz" then some (.file (.packed content))
        else directory.lookup other := by
  have hPartial : other ≠ name ++ ".gz" ++ ".tmp" := by
    rintro rfl
    cases (logFile?_tmp config (name ++ ".gz")).symm.trans hOther
  rw [compressed]
  split
  case isTrue hSource => rw [hSource, Table.lookup_erase_self]
  case isFalse hSource =>
    rw [Table.lookup_erase_of_ne _ hSource]
    split
    case isTrue hTarget => rw [hTarget, Table.lookup_put_self]
    case isFalse hTarget =>
      rw [Table.lookup_put_of_ne _ _ hTarget, Table.lookup_erase_of_ne _ hPartial,
        Table.lookup_put_of_ne _ _ hPartial]

/-- What comes of seeing to one name. -/
inductive Tidies (config : LogConfig) (today : Date) (name : String) (directory : Directory Content) :
    EStateM.Result Failure (Directory Content) Unit → Prop
  | kept (hKeep : ∀ file, logFile? config name = some file →
      keepFrom config.retentionDays today ≤ file.date.dayNumber) :
      Tidies config today name directory (.ok () directory)
  | deleted {file : FileName} {content : Content} (hName : logFile? config name = some file)
      (hOld : file.date.dayNumber < keepFrom config.retentionDays today)
      (hFile : directory.lookup name = some (.file content)) :
      Tidies config today name directory (.ok () (directory.erase name))
  | compressed {date : Date} {content : Content} (hCompress : config.compressHistory)
      (hName : logFile? config name = some ⟨date, false⟩)
      (hKeep : keepFrom config.retentionDays today ≤ date.dayNumber)
      (hPast : date.dayNumber < today.dayNumber)
      (hFile : directory.lookup name = some (.file content)) :
      Tidies config today name directory (.ok () (compressed directory name content))
  | failed (failure : Failure) : Tidies config today name directory (.error failure directory)
  /-- A file is left behind that is not finished. -/
  | begun (failure : Failure) (node : Node Content) :
      Tidies config today name directory
        (.error failure (directory.put (name ++ ".gz" ++ ".tmp") node))

variable {config : LogConfig} {today : Date} {name : String} {directory : Directory Content}

/-- Deleting an old log succeeds where there is a file, and changes nothing otherwise. -/
theorem tidies_deleteFile (base : String) {file : FileName}
    (hName : logFile? config name = some file)
    (hOld : file.date.dayNumber < keepFrom config.retentionDays today) :
    Tidies config today name directory (deleteFile base name directory) := by
  rw [deleteFile, get_bind_apply]
  cases hEntry : directory.lookup name with
  | none => exact .failed _
  | some node =>
      cases node with
      | folder => exact .failed _
      | file content => exact .deleted hName hOld hEntry

/-- A past log is replaced by its compressed form, or it stays and at most an unfinished file is
left behind. -/
theorem tidies_compressFile (base : String) {date : Date} (hCompress : config.compressHistory)
    (hName : logFile? config name = some ⟨date, false⟩)
    (hKeep : keepFrom config.retentionDays today ≤ date.dayNumber)
    (hPast : date.dayNumber < today.dayNumber) :
    Tidies config today name directory (compressFile base name directory) := by
  unfold compressFile
  simp only [get_bind_apply]
  cases hEntry : directory.lookup name with
  | none => exact .failed _
  | some node =>
      simp only [pure_bind_apply, get_bind_apply, throw_bind_apply, ite_apply_state]
      split
      case isTrue => exact .failed _
      case isFalse =>
        split
        case isTrue => exact .failed _
        case isFalse =>
          cases node with
          | folder => exact .begun _ _
          | file content =>
              simp only [modify_bind_apply, get_bind_apply, throw_bind_apply, ite_apply_state]
              split
              case isTrue => exact .begun _ _
              case isFalse => exact .compressed hCompress hName hKeep hPast hEntry

/-- Seeing to a name comes to nothing else. -/
theorem tidies (config : LogConfig) (base : String) (today : Date) (name : String)
    (directory : Directory Content) :
    Tidies config today name directory (tidy config base today name directory) := by
  unfold tidy
  cases hName : FileName.ofChars? config.filePrefix.toList name.toList with
  | none =>
      refine .kept fun file hFile => ?_
      cases hName.symm.trans hFile
  | some file =>
      dsimp only
      split
      case isTrue hOld => exact tidies_deleteFile base hName hOld
      case isFalse hNew =>
        have hKeep : keepFrom config.retentionDays today ≤ file.date.dayNumber := Int.not_lt.mp hNew
        split
        case isTrue hDue =>
          simp only [Bool.and_eq_true, Bool.not_eq_true', decide_eq_true_eq] at hDue
          obtain ⟨⟨hCompress, hPlain⟩, hPast⟩ := hDue
          obtain ⟨date, _⟩ := file
          cases hPlain
          exact tidies_compressFile base hCompress hName hKeep hPast
        case isFalse =>
          refine .kept fun other hOther => ?_
          cases hName.symm.trans hOther
          exact hKeep

/-- Either a file is compressed, or nothing happens to log files but that some are deleted. -/
theorem lookup_of_tidies {result : EStateM.Result Failure (Directory Content) Unit}
    (h : Tidies config today name directory result) :
    (∀ other file, logFile? config other = some file →
      (left result).lookup other = directory.lookup other ∨
      file.date.dayNumber < keepFrom config.retentionDays today ∧ (left result).lookup other = none) ∨
    ∃ date content, logFile? config name = some ⟨date, false⟩ ∧
      keepFrom config.retentionDays today ≤ date.dayNumber ∧
      directory.lookup name = some (.file content) ∧ left result = compressed directory name content := by
  cases h with
  | kept | failed => exact .inl fun _ _ _ => .inl rfl
  | deleted hName hOld _ =>
      refine .inl fun other file hOther => ?_
      by_cases hSame : other = name
      · subst hSame
        cases hName.symm.trans hOther
        exact .inr ⟨hOld, Table.lookup_erase_self _ _⟩
      · exact .inl (Table.lookup_erase_of_ne _ hSame)
  | begun =>
      refine .inl fun other file hOther => .inl (Table.lookup_put_of_ne _ _ ?_)
      rintro rfl
      cases (logFile?_tmp config (name ++ ".gz")).symm.trans hOther
  | compressed _ hName hKeep _ hFile => exact .inr ⟨_, _, hName, hKeep, hFile, rfl⟩

/-- The contents of a log file are there, in the file itself or compressed. A compressed file can be
replaced by another one of the same day. -/
def Holds (directory : Directory Content) (name : String) (file : FileName) (content : Content) :
    Prop :=
  match file.compressed with
  | true => ∃ other, directory.lookup name = some (.file other)
  | false => directory.lookup name = some (.file content) ∨
      directory.lookup name = none ∧
        directory.lookup (name ++ ".gz") = some (.file (.packed content))

section Invariants

variable {other : String} {result : EStateM.Result Failure (Directory Content) Unit}

/-- Log files whose time has come are not created. -/
theorem gone_of_tidies {file : FileName} (hOther : logFile? config other = some file)
    (hOld : file.date.dayNumber < keepFrom config.retentionDays today)
    (h : Tidies config today name directory result) (hGone : directory.lookup other = none) :
    (left result).lookup other = none := by
  rcases lookup_of_tidies h with hRest | ⟨date, content, hName, hKeep, _, hLeft⟩
  · rcases hRest other file hOther with hSame | ⟨_, hNone⟩
    · rw [hSame, hGone]
    · exact hNone
  · have hTarget : other ≠ name ++ ".gz" := by
      rintro rfl
      cases (logFile?_gz hName).symm.trans hOther
      exact Int.not_le.mpr hOld hKeep
    rw [hLeft, lookup_compressed hOther, if_neg hTarget, hGone, ite_self]

/-- Compressing a file keeps what the log files hold. -/
theorem holds_compressed {file : FileName} {date : Date} {content source : Content}
    (hOther : logFile? config other = some file) (hName : logFile? config name = some ⟨date, false⟩)
    (hFile : directory.lookup name = some (.file source))
    (hHolds : Holds directory other file content) :
    Holds (compressed directory name source) other file content := by
  obtain ⟨day, packed⟩ := file
  cases packed with
  | true =>
      obtain ⟨found, hFound⟩ := hHolds
      have hSource : other ≠ name := by
        rintro rfl
        cases hName.symm.trans hOther
      by_cases hTarget : other = name ++ ".gz"
      · exact ⟨.packed source, by rw [lookup_compressed hOther, if_neg hSource, if_pos hTarget]⟩
      · exact ⟨found, by rw [lookup_compressed hOther, if_neg hSource, if_neg hTarget, hFound]⟩
  | false =>
      have hGz := logFile?_gz hOther
      have hTarget : other ≠ name ++ ".gz" := by
        rintro rfl
        cases (logFile?_gz hName).symm.trans hOther
      rw [Holds, lookup_compressed hOther, lookup_compressed hGz]
      by_cases hSource : other = name
      · subst hSource
        obtain hFound | ⟨hNone, _⟩ := hHolds
        · cases hFile.symm.trans hFound
          exact .inr ⟨if_pos rfl, by rw [if_neg (gz_ne other), if_pos rfl]⟩
        · cases hFile.symm.trans hNone
      · have hGzSource : other ++ ".gz" ≠ name := by
          rintro rfl
          cases hName.symm.trans hGz
        have hGzTarget : other ++ ".gz" ≠ name ++ ".gz" := fun h =>
          hSource (String.append_left_inj _ |>.mp h)
        rw [if_neg hSource, if_neg hTarget, if_neg hGzSource, if_neg hGzTarget]
        exact hHolds

/-- Log files whose time has not come keep what they hold. -/
theorem holds_of_tidies {file : FileName} {content : Content}
    (hOther : logFile? config other = some file)
    (hNew : keepFrom config.retentionDays today ≤ file.date.dayNumber)
    (h : Tidies config today name directory result) (hHolds : Holds directory other file content) :
    Holds (left result) other file content := by
  rcases lookup_of_tidies h with hRest | ⟨date, source, hName, _, hFile, hLeft⟩
  · have hSame (found : String) (kind : FileName) (hFound : logFile? config found = some kind)
        (hDay : kind.date = file.date) : (left result).lookup found = directory.lookup found :=
      (hRest found kind hFound).resolve_right fun hOld => Int.not_lt.mpr hNew (hDay ▸ hOld.1)
    obtain ⟨day, packed⟩ := file
    cases packed with
    | true => rwa [Holds, hSame other _ hOther rfl]
    | false => rwa [Holds, hSame other _ hOther rfl, hSame _ _ (logFile?_gz hOther) rfl]
  · rw [hLeft]
    exact holds_compressed hOther hName hFile hHolds

end Invariants

section Runs

/-- Sees to names one after the other, up to the first fault. -/
def tidyAll (config : LogConfig) (base : String) (today : Date) : List String → Housekeeping
  | [] => pure ()
  | name :: names => do
    tidy config base today name
    tidyAll config base today names

/-- The names are gone through in order, down to the first failure. -/
theorem tidyAll_cons (config : LogConfig) (base : String) (today : Date) (name : String)
    (names : List String) (directory : Directory Content) :
    tidyAll config base today (name :: names) directory
      = match tidy config base today name directory with
        | .ok _ after => tidyAll config base today names after
        | .error failure after => .error failure after := by
  rw [tidyAll]
  show EStateM.bind _ _ directory = _
  unfold EStateM.bind
  cases tidy config base today name directory <;> rfl

theorem cleanup_eq (config : LogConfig) (base : String) (today : Date)
    (directory : Directory Content) : cleanup config base today directory
      = tidyAll config base today (directory.map Prod.fst) directory := by
  have hLoop (entries : Directory Content) :
      (forIn entries PUnit.unit fun entry _ => do
        tidy config base today entry.1
        pure (.yield PUnit.unit) : Housekeeping)
        = tidyAll config base today (entries.map Prod.fst) := by
    induction entries with
    | nil => rfl
    | cons entry entries ih =>
        rw [List.forIn_cons, List.map_cons, tidyAll, bind_assoc]
        simp only [pure_bind, ih]
  rw [cleanup, get_bind_apply, bind_pure_unit]
  exact congrFun (hLoop directory) directory

/-- What stays when single names are seen to stays over the whole run. -/
theorem tidyAll_induction {holds : Directory Content → Prop} (config : LogConfig) (base : String)
    (today : Date)
    (hStep : ∀ name directory, holds directory → holds (left (tidy config base today name directory)))
    (names : List String) (directory : Directory Content) (h : holds directory) :
    holds (left (tidyAll config base today names directory)) := by
  induction names generalizing directory with
  | nil => exact h
  | cons name names ih =>
      have hName := hStep name directory h
      rw [tidyAll_cons]
      cases hRun : tidy config base today name directory with
      | ok _ after =>
          rw [hRun] at hName
          exact ih after hName
      | error failure after => rwa [hRun] at hName

/-- Whatever ends the run, files whose time has not come keep what they hold. -/
theorem holds_cleanup {file : FileName} {content : Content} (base : String)
    (hName : logFile? config name = some file)
    (hNew : keepFrom config.retentionDays today ≤ file.date.dayNumber)
    (hFile : directory.lookup name = some (.file content)) :
    Holds (left (cleanup config base today directory)) name file content := by
  rw [cleanup_eq]
  refine @tidyAll_induction (fun directory => Holds directory name file content) config base today
    (fun other before hBefore => ?_) _ directory ?_
  · exact holds_of_tidies hName hNew (tidies config base today other before) hBefore
  · obtain ⟨day, packed⟩ := file
    cases packed with
    | true => exact ⟨content, hFile⟩
    | false => exact .inl hFile

/-- An old log is gone once its name has been gone through. -/
theorem gone_of_tidy_ok {file : FileName} {base : String} {after : Directory Content}
    (hName : logFile? config name = some file)
    (hOld : file.date.dayNumber < keepFrom config.retentionDays today)
    (hRun : tidy config base today name directory = .ok () after) : after.lookup name = none := by
  have hTidies := tidies config base today name directory
  rw [hRun] at hTidies
  cases hTidies with
  | kept hKeep => exact absurd (hKeep file hName) (Int.not_le.mpr hOld)
  | deleted => exact Table.lookup_erase_self _ _
  | compressed _ hPlain hKeep _ _ =>
      cases hPlain.symm.trans hName
      exact absurd hKeep (Int.not_le.mpr hOld)

/-- By induction over the names, every old log among them is gone. -/
theorem gone_of_tidyAll_ok {file : FileName} {base : String} {names : List String}
    {after : Directory Content} (hName : logFile? config name = some file)
    (hOld : file.date.dayNumber < keepFrom config.retentionDays today)
    (hRun : tidyAll config base today names directory = .ok () after)
    (hSeen : name ∈ names ∨ directory.lookup name = none) : after.lookup name = none := by
  induction names generalizing directory with
  | nil =>
      cases hRun
      exact hSeen.resolve_left List.not_mem_nil
  | cons other names ih =>
      rw [tidyAll_cons] at hRun
      cases hStep : tidy config base today other directory with
      | error failure between =>
          rw [hStep] at hRun
          cases hRun
      | ok _ between =>
          rw [hStep] at hRun
          refine ih hRun ?_
          rcases hSeen with hMem | hGone
          · rcases List.mem_cons.mp hMem with rfl | hLater
            · exact .inr (gone_of_tidy_ok hName hOld hStep)
            · exact .inl hLater
          · have hNone := gone_of_tidies hName hOld (tidies config base today other directory) hGone
            rw [hStep] at hNone
            exact .inr hNone

/-- When the run is finished, no file is there whose time has come. -/
theorem gone_cleanup {file : FileName} {base : String} {after : Directory Content}
    (hName : logFile? config name = some file)
    (hOld : file.date.dayNumber < keepFrom config.retentionDays today)
    (hRun : cleanup config base today directory = .ok () after) : after.lookup name = none := by
  rw [cleanup_eq] at hRun
  refine gone_of_tidyAll_ok hName hOld hRun ?_
  rw [or_iff_not_imp_left]
  intro hUnlisted
  rw [List.lookup_eq_none_iff]
  intro entry hEntry
  simp only [bne_iff_ne, ne_eq]
  rintro rfl
  exact hUnlisted (List.mem_map_of_mem hEntry)

end Runs

end Cadence.Log
