import Cadence.Proofs.Log.Retained
import Cadence.Proofs.Table

/-!
What a finished run of housekeeping makes of a directory of files (`Tidied`). A run can be followed by its
lookups only, as each name is seen to once and by itself (`tidied_of_covers`). So all orders of the list
lead to the same directory, also if files that appear or vanish meanwhile are listed or not, and another
run on the same day changes nothing (`cleanup_tidied`).
-/

namespace Cadence.Log

open Housekeeping (left)

section Due

variable (config : LogConfig) (today : Date)

/-- The time of a log file has come. -/
def IsOld (name : String) : Prop :=
  ∃ file, logFile? config name = some file ∧
    file.date.dayNumber < keepFrom config.retentionDays today

/-- A log file of an earlier day stays, but not as it is. -/
def IsPast (name : String) : Prop :=
  config.compressHistory = true ∧ ∃ date, logFile? config name = some ⟨date, false⟩ ∧
    keepFrom config.retentionDays today ≤ date.dayNumber ∧ date.dayNumber < today.dayNumber

/-- The name is that of a log file that is deleted or compressed. -/
def IsDue (name : String) : Prop :=
  IsOld config today name ∨ IsPast config today name

/-- The names under which the compressed form of `source` is written and kept. -/
def IsTwin (source name : String) : Prop :=
  name = source ++ ".gz" ∨ name = source ++ ".gz" ++ ".tmp"

/-- The directory `after` is what housekeeping is meant to make of `before`. -/
structure Tidied (before after : Directory Content) : Prop where
  deleted : ∀ name, IsOld config today name → after.lookup name = none
  compressed : ∀ name content, IsPast config today name → before.lookup name = some (.file content) →
    after.lookup name = none ∧
    after.lookup (name ++ ".gz") = some (.file (.packed content)) ∧
    after.lookup (name ++ ".gz" ++ ".tmp") = none
  unchanged : ∀ name, ¬ IsOld config today name →
    (∀ source content, IsPast config today source → before.lookup source = some (.file content) →
      name ≠ source ∧ ¬ IsTwin source name) →
    after.lookup name = before.lookup name

/-- The names `names` go through a directory: those of files that are deleted or compressed are listed
once if they are there, and else not. All others may be listed or not, and more than once. -/
def Covers (directory : Directory Content) (names : List String) : Prop :=
  ∀ name, IsDue config today name →
    names.count name = if (directory.lookup name).isSome then 1 else 0

end Due

/-- Nothing in the directory is a directory. -/
def HoldsFiles (directory : Directory Content) : Prop :=
  ∀ name node, directory.lookup name = some node → ∃ content, node = .file content

variable {config : LogConfig} {today : Date} {name source : String} {content : Content}
  {directory before after : Directory Content}

section Names

/-- What is compressed is not deleted. -/
theorem IsPast.not_isOld (h : IsPast config today name) : ¬ IsOld config today name := by
  obtain ⟨_, date, hName, hKeep, _⟩ := h
  rintro ⟨file, hFile, hOld⟩
  cases hName.symm.trans hFile
  exact Int.not_lt.mpr hKeep hOld

/-- A past log does not have the name of a compressed form. -/
theorem IsPast.not_isTwin (h : IsPast config today name) (hSource : IsPast config today source) :
    ¬ IsTwin source name := by
  obtain ⟨_, date, hName, _⟩ := h
  obtain ⟨_, day, hPlain, _⟩ := hSource
  rintro (rfl | rfl)
  · cases (logFile?_gz hPlain).symm.trans hName
  · cases (logFile?_tmp config (source ++ ".gz")).symm.trans hName

/-- The compressed form of a file is of the same day. -/
theorem IsOld.not_isTwin (h : IsOld config today name) (hSource : IsPast config today source) :
    ¬ IsTwin source name := by
  obtain ⟨file, hName, hOld⟩ := h
  obtain ⟨_, day, hPlain, hKeep, _⟩ := hSource
  rintro (rfl | rfl)
  · cases (logFile?_gz hPlain).symm.trans hName
    exact Int.not_lt.mpr hKeep hOld
  · cases (logFile?_tmp config (source ++ ".gz")).symm.trans hName

/-- A compressed form belongs to one log only. -/
theorem IsTwin.source_eq {other : String} (h : IsTwin source name) (hOther : IsTwin other name)
    (hSource : IsPast config today source) (hPast : IsPast config today other) : source = other := by
  obtain ⟨_, date, hPlain, _⟩ := hSource
  obtain ⟨_, day, hName, _⟩ := hPast
  obtain hGz | hTmp := h
  · obtain hGz' | hTmp' := hOther
    · exact String.append_left_inj _ |>.mp (hGz.symm.trans hGz')
    · cases (logFile?_tmp config (other ++ ".gz")).symm.trans
        (hTmp' ▸ hGz ▸ logFile?_gz hPlain)
  · obtain hGz' | hTmp' := hOther
    · cases (logFile?_tmp config (source ++ ".gz")).symm.trans
        (hTmp ▸ hGz' ▸ logFile?_gz hName)
    · exact String.append_left_inj _ |>.mp (String.append_left_inj _ |>.mp (hTmp.symm.trans hTmp'))

theorem keepFrom_le (days : Int64) (today : Date) : keepFrom days today ≤ today.dayNumber := by
  rw [keepFrom]
  split <;> omega

end Names

section Steps

/-- A name that is not due is passed over. -/
theorem tidy_of_kept (base : String) (hOld : ¬ IsOld config today name)
    (hPast : ¬ IsPast config today name) :
    tidy config base today name directory = .ok () directory := by
  unfold tidy
  cases hName : FileName.ofChars? config.filePrefix.toList name.toList with
  | none => rfl
  | some file =>
      have hKeep : ¬ file.date.dayNumber < keepFrom config.retentionDays today := fun h =>
        hOld ⟨file, hName, h⟩
      have hStays : ¬ (config.compressHistory && !file.compressed
          && decide (file.date.dayNumber < today.dayNumber)) = true := by
        simp only [Bool.and_eq_true, Bool.not_eq_true', decide_eq_true_eq]
        rintro ⟨⟨hCompress, hPlain⟩, hBefore⟩
        obtain ⟨date, _⟩ := file
        cases hPlain
        exact hPast ⟨hCompress, date, hName, Int.not_lt.mp hKeep, hBefore⟩
      dsimp only
      rw [if_neg hKeep, if_neg hStays]
      rfl

/-- An old log is deleted. -/
theorem tidy_of_isOld (base : String) (hOld : IsOld config today name)
    (hFile : directory.lookup name = some (.file content)) :
    tidy config base today name directory = .ok () (directory.erase name) := by
  obtain ⟨file, hName, hDay⟩ := hOld
  rw [logFile?] at hName
  rw [tidy, hName]
  dsimp only
  rw [if_pos hDay, deleteFile, get_bind_apply, hFile]
  rfl

theorem HoldsFiles.hasFolder (h : HoldsFiles directory) (name : String) :
    directory.hasFolder name = false := by
  unfold Directory.hasFolder
  cases hNode : directory.lookup name with
  | none => rfl
  | some node =>
      obtain ⟨content, rfl⟩ := h name node hNode
      rfl

theorem HoldsFiles.erase (h : HoldsFiles directory) (name : String) :
    HoldsFiles (directory.erase name) := by
  intro other node hNode
  by_cases hSame : other = name
  · subst hSame
    cases (Table.lookup_erase_self directory other).symm.trans hNode
  · exact h other node (Table.lookup_erase_of_ne directory hSame ▸ hNode)

theorem HoldsFiles.put (h : HoldsFiles directory) (name : String) (content : Content) :
    HoldsFiles (directory.put name (.file content)) := by
  intro other node hNode
  by_cases hSame : other = name
  · subst hSame
    cases (Table.lookup_put_self directory other (Node.file content)).symm.trans hNode
    exact ⟨content, rfl⟩
  · exact h other node (Table.lookup_put_of_ne directory (.file content) hSame ▸ hNode)

theorem HoldsFiles.compressed (h : HoldsFiles directory) (name : String) (content : Content) :
    HoldsFiles (compressed directory name content) :=
  (((h.put _ _).erase _).put _ _).erase _

/-- Among files, only a name that is too long stops the compression. -/
theorem tidy_of_isPast (base : String) (hPast : IsPast config today name)
    (hFiles : HoldsFiles directory) (hFile : directory.lookup name = some (.file content)) :
    if Path.fits Path.maxName (name ++ ".gz" ++ ".tmp") then
      tidy config base today name directory = .ok () (compressed directory name content)
    else ∃ failure, tidy config base today name directory = .error failure directory := by
  have hNew := hPast.not_isOld
  obtain ⟨hCompress, date, hName, _, hBefore⟩ := hPast
  have hKeep : ¬ date.dayNumber < keepFrom config.retentionDays today := fun h => hNew ⟨_, hName, h⟩
  have hTidy : tidy config base today name directory = compressFile base name directory := by
    rw [logFile?] at hName
    rw [tidy, hName]
    dsimp only
    rw [if_neg hKeep, if_pos (by simp [hCompress, hBefore])]
  have hPartial := hFiles.hasFolder (name ++ ".gz" ++ ".tmp")
  have hTarget := (hFiles.put (name ++ ".gz" ++ ".tmp") (.packed content)).hasFolder (name ++ ".gz")
  rw [hTidy, compressFile]
  simp only [get_bind_apply, hFile, pure_bind_apply, throw_bind_apply, ite_apply_state]
  split
  case isTrue hFits =>
    simp only [hFits, hPartial, hTarget, modify_bind_apply, get_bind_apply, Bool.not_true,
      Bool.false_eq_true, if_false]
    rfl
  case isFalse hLong => exact ⟨_, if_pos (by simpa using hLong)⟩

end Steps

section Lookups

theorem tmp_ne (name : String) : name ++ ".tmp" ≠ name := by
  intro h
  have hLength := congrArg String.length h
  simp [String.length_append] at hLength

theorem lookup_compressed_self (directory : Directory Content) (name : String) (content : Content) :
    (compressed directory name content).lookup name = none :=
  Table.lookup_erase_self _ _

theorem lookup_compressed_gz (directory : Directory Content) (name : String) (content : Content) :
    (compressed directory name content).lookup (name ++ ".gz") = some (.file (.packed content)) := by
  rw [compressed, Table.lookup_erase_of_ne _ (gz_ne name), Table.lookup_put_self]

/-- No unfinished file is left behind. -/
theorem lookup_compressed_tmp (directory : Directory Content) (content : Content)
    (hName : name ++ ".gz" ++ ".tmp" ≠ name) :
    (compressed directory name content).lookup (name ++ ".gz" ++ ".tmp") = none := by
  rw [compressed, Table.lookup_erase_of_ne _ hName, Table.lookup_put_of_ne _ _ (tmp_ne _),
    Table.lookup_erase_self]

theorem lookup_compressed_of_ne (directory : Directory Content) (content : Content) {other : String}
    (hName : other ≠ name) (hTwin : ¬ IsTwin name other) :
    (compressed directory name content).lookup other = directory.lookup other := by
  have hGz : other ≠ name ++ ".gz" := fun h => hTwin (.inl h)
  have hTmp : other ≠ name ++ ".gz" ++ ".tmp" := fun h => hTwin (.inr h)
  rw [compressed, Table.lookup_erase_of_ne _ hName, Table.lookup_put_of_ne _ _ hGz,
    Table.lookup_erase_of_ne _ hTmp, Table.lookup_put_of_ne _ _ hTmp]

end Lookups

section Tidied

/-- A directory in which no name is due is tidy already. -/
theorem Tidied.refl (h : ∀ name, IsDue config today name → directory.lookup name = none) :
    Tidied config today directory directory where
  deleted name hOld := h name (.inl hOld)
  compressed name content hPast hFile := by cases (h name (.inr hPast)).symm.trans hFile
  unchanged _ _ _ := rfl

/-- A run that goes on behind deleting an old log has tidied the whole directory. -/
theorem Tidied.of_erase (hOld : IsOld config today name)
    (h : Tidied config today (directory.erase name) after) : Tidied config today directory after where
  deleted := h.deleted
  compressed other content hPast hFile := by
    have hOther : other ≠ name := fun hSame => hPast.not_isOld (hSame ▸ hOld)
    exact h.compressed other content hPast
      ((Table.lookup_erase_of_ne directory hOther).trans hFile)
  unchanged other hNew hFree := by
    have hOther : other ≠ name := fun hSame => hNew (hSame ▸ hOld)
    rw [h.unchanged other hNew, Table.lookup_erase_of_ne directory hOther]
    intro source content hPast hFile
    have hSource : source ≠ name := fun hSame => hPast.not_isOld (hSame ▸ hOld)
    exact hFree source content hPast (Table.lookup_erase_of_ne directory hSource ▸ hFile)

/-- What is there of the other files that are to be compressed does not change. -/
theorem IsPast.lookup_compressed {source : String} (hPast : IsPast config today name)
    (hSource : IsPast config today source) (hNe : source ≠ name) :
    (Log.compressed directory name content).lookup source = directory.lookup source :=
  lookup_compressed_of_ne directory content hNe (hSource.not_isTwin hPast)

theorem ne_of_lookup_compressed {source : String} {node : Node Content}
    (h : (Log.compressed directory name content).lookup source = some node) : source ≠ name := by
  rintro rfl
  cases (lookup_compressed_self directory source content).symm.trans h

/-- What housekeeping finds compressed stays compressed. -/
theorem Tidied.lookup_twin {other : String}
    (h : Tidied config today (Log.compressed directory name content) after)
    (hPast : IsPast config today name) (hTwin : IsTwin name other) :
    after.lookup other = (Log.compressed directory name content).lookup other := by
  refine h.unchanged other (fun hOld => hOld.not_isTwin hPast hTwin) ?_
  intro source found hSource hThere
  refine ⟨fun hSame => hSource.not_isTwin hPast (hSame ▸ hTwin), fun hOther => ?_⟩
  exact ne_of_lookup_compressed hThere (hOther.source_eq hTwin hSource hPast)

theorem Tidied.lookup_source (h : Tidied config today (Log.compressed directory name content) after)
    (hPast : IsPast config today name) : after.lookup name = none := by
  rw [h.unchanged name hPast.not_isOld, lookup_compressed_self]
  exact fun source found hSource hFound =>
    ⟨(ne_of_lookup_compressed hFound).symm, hPast.not_isTwin hSource⟩

/-- A run that goes on behind compressing a past log has tidied the whole directory. -/
theorem Tidied.of_compressed (hPast : IsPast config today name)
    (hFile : directory.lookup name = some (.file content))
    (h : Tidied config today (Log.compressed directory name content) after) :
    Tidied config today directory after where
  deleted := h.deleted
  compressed other found hOther hThere := by
    by_cases hSame : other = name
    · subst hSame
      cases hFile.symm.trans hThere
      have hTmpName : other ++ ".gz" ++ ".tmp" ≠ other := fun hSame =>
        hPast.not_isTwin hPast (.inr hSame.symm)
      refine ⟨h.lookup_source hPast, ?_, ?_⟩
      · rw [h.lookup_twin hPast (.inl rfl), lookup_compressed_gz]
      · rw [h.lookup_twin hPast (.inr rfl), lookup_compressed_tmp directory content hTmpName]
    · exact h.compressed other found hOther ((hPast.lookup_compressed hOther hSame).trans hThere)
  unchanged other hNew hFree := by
    obtain ⟨hName, hTwin⟩ := hFree name content hPast hFile
    rw [h.unchanged other hNew, lookup_compressed_of_ne directory content hName hTwin]
    intro source found hSource hFound
    have hNe := ne_of_lookup_compressed hFound
    exact hFree source found hSource (hPast.lookup_compressed hSource hNe ▸ hFound)

/-- There is only one directory that housekeeping is meant to make of another one. -/
theorem Tidied.lookup_eq {other result : Directory Content}
    (hSame : ∀ name, before.lookup name = other.lookup name) (h : Tidied config today before after)
    (hOther : Tidied config today other result) (name : String) :
    after.lookup name = result.lookup name := by
  by_cases hOld : IsOld config today name
  · rw [h.deleted name hOld, hOther.deleted name hOld]
  by_cases hFree : ∀ source content, IsPast config today source →
      before.lookup source = some (.file content) → name ≠ source ∧ ¬ IsTwin source name
  · have hFree' : ∀ source content, IsPast config today source →
        other.lookup source = some (.file content) → name ≠ source ∧ ¬ IsTwin source name :=
      fun source content hPast hFile => hFree source content hPast ((hSame source).trans hFile)
    rw [h.unchanged name hOld hFree, hOther.unchanged name hOld hFree', hSame]
  · push Not at hFree
    obtain ⟨source, content, hPast, hFile, hName⟩ := hFree
    obtain ⟨hGone, hGz, hTmp⟩ := h.compressed source content hPast hFile
    obtain ⟨hGone', hGz', hTmp'⟩ := hOther.compressed source content hPast (hSame source ▸ hFile)
    by_cases hSource : name = source
    · rw [hSource, hGone, hGone']
    · obtain rfl | rfl := hName hSource
      · rw [hGz, hGz']
      · rw [hTmp, hTmp']

end Tidied

section Runs

variable {names : List String}

/-- A file that was due is gone; the other ones that are due are there as before. -/
structure Seen (config : LogConfig) (today : Date) (name : String) (before after : Directory Content) :
    Prop where
  gone : after.lookup name = none
  others : ∀ other, IsDue config today other → other ≠ name → after.lookup other = before.lookup other

theorem seen_erase (config : LogConfig) (today : Date) (name : String) (directory : Directory Content) :
    Seen config today name directory (directory.erase name) where
  gone := Table.lookup_erase_self _ _
  others _ _ hNe := Table.lookup_erase_of_ne _ hNe

theorem seen_compressed (hPast : IsPast config today name) (directory : Directory Content)
    (content : Content) : Seen config today name directory (compressed directory name content) where
  gone := lookup_compressed_self _ _ _
  others _ hDue hNe := lookup_compressed_of_ne directory content hNe <|
    hDue.elim (·.not_isTwin hPast) (·.not_isTwin hPast)

/-- A name that has been seen to need not be covered any longer. -/
theorem Covers.next (h : Covers config today before (name :: names)) (hDue : IsDue config today name)
    (hSeen : Seen config today name before after) : Covers config today after names := by
  intro other hOther
  have hCount := h other hOther
  by_cases hSame : other = name
  · subst hSame
    rw [List.count_cons_self] at hCount
    have hOnce : names.count other = 0 := by
      split at hCount <;> omega
    simp [hSeen.gone, hOnce]
  · rw [hSeen.others other hOther hSame, ← hCount, List.count_cons_of_ne (Ne.symm hSame)]

/-- Other names take nothing away from what is left to do. -/
theorem Covers.tail (h : Covers config today directory (name :: names))
    (hFree : ¬ IsDue config today name) : Covers config today directory names := by
  intro other hOther
  have hNe : name ≠ other := fun hSame => hFree (hSame ▸ hOther)
  rw [← h other hOther, List.count_cons_of_ne hNe]

/-- A name that is due and still to come is that of a file. -/
theorem Covers.head (h : Covers config today directory (name :: names)) (hFiles : HoldsFiles directory)
    (hDue : IsDue config today name) : ∃ content, directory.lookup name = some (.file content) := by
  have hCount := h name hDue
  rw [List.count_cons_self] at hCount
  cases hNode : directory.lookup name with
  | none => simp [hNode] at hCount
  | some node =>
      obtain ⟨content, rfl⟩ := hFiles name node hNode
      exact ⟨content, rfl⟩

/-- The files that are to be compressed have names with room for the endings. -/
def HasRoom (config : LogConfig) (today : Date) (directory : Directory Content) : Prop :=
  ∀ name, IsPast config today name → (directory.lookup name).isSome →
    Path.fits Path.maxName (name ++ ".gz" ++ ".tmp") = true

theorem Seen.hasRoom_iff (hSeen : Seen config today name before after)
    (hFits : IsPast config today name → Path.fits Path.maxName (name ++ ".gz" ++ ".tmp") = true) :
    HasRoom config today after ↔ HasRoom config today before := by
  constructor
  · intro h other hPast hThere
    by_cases hSame : other = name
    · subst hSame
      exact hFits hPast
    · exact h other hPast (hSeen.others other (.inr hPast) hSame ▸ hThere)
  · intro h other hPast hThere
    have hNe : other ≠ name := by
      rintro rfl
      simp [hSeen.gone] at hThere
    exact h other hPast (hSeen.others other (.inr hPast) hNe ▸ hThere)

/-- A run over all names of a directory of files either does what it is meant to do, or comes upon a name
without room for the endings. The induction is on the names still to come, which cover what is still
there. -/
theorem tidied_of_covers (base : String) (hFiles : HoldsFiles directory)
    (hCovers : Covers config today directory names) :
    HasRoom config today directory ∧
      (∃ after, tidyAll config base today names directory = .ok () after ∧
        Tidied config today directory after) ∨
    ¬ HasRoom config today directory ∧
      ∃ failure after, tidyAll config base today names directory = .error failure after := by
  induction names generalizing directory with
  | nil =>
      have hNone (name : String) (hDue : IsDue config today name) : directory.lookup name = none := by
        rw [← Option.not_isSome_iff_eq_none]
        intro hThere
        cases (hCovers name hDue).trans (if_pos hThere)
      refine .inl ⟨fun name hPast hThere => ?_, directory, rfl, .refl hNone⟩
      simp [hNone name (.inr hPast)] at hThere
  | cons name names ih =>
      rw [tidyAll_cons]
      by_cases hOld : IsOld config today name
      · obtain ⟨content, hFile⟩ := hCovers.head hFiles (.inl hOld)
        have hSeen := seen_erase config today name directory
        have hRoom := hSeen.hasRoom_iff fun hPast => absurd hOld hPast.not_isOld
        rw [tidy_of_isOld base hOld hFile, ← hRoom]
        refine (ih (hFiles.erase name) (hCovers.next (.inl hOld) hSeen)).imp_left ?_
        exact fun ⟨hFits, after, hRun, hAfter⟩ => ⟨hFits, after, hRun, hAfter.of_erase hOld⟩
      by_cases hPast : IsPast config today name
      · obtain ⟨content, hFile⟩ := hCovers.head hFiles (.inr hPast)
        have hStep := tidy_of_isPast base hPast hFiles hFile
        split at hStep
        case isTrue hFits =>
          have hSeen := seen_compressed hPast directory content
          rw [hStep, ← hSeen.hasRoom_iff fun _ => hFits]
          refine (ih (hFiles.compressed name content) (hCovers.next (.inr hPast) hSeen)).imp_left ?_
          exact fun ⟨hRoom, after, hRun, hAfter⟩ => ⟨hRoom, after, hRun, hAfter.of_compressed hPast hFile⟩
        case isFalse hLong =>
          obtain ⟨failure, hStep⟩ := hStep
          rw [hStep]
          exact .inr ⟨fun hRoom => hLong (hRoom name hPast (by simp [hFile])), failure, directory, rfl⟩
      · rw [tidy_of_kept base hOld hPast]
        exact ih hFiles (hCovers.tail fun hDue => hDue.elim hOld hPast)

theorem covers_keys (h : (Table.keys directory).Nodup) :
    Covers config today directory (Table.keys directory) :=
  fun name _ => Table.count_keys h name

theorem keys_nodup_of_tidies {result : EStateM.Result Failure (Directory Content) Unit}
    (h : Tidies config today name directory result) (hKeys : (Table.keys directory).Nodup) :
    (Table.keys (left result)).Nodup := by
  cases h with
  | kept | failed => exact hKeys
  | deleted => exact Table.keys_nodup_erase hKeys name
  | begun _ node => exact Table.keys_nodup_put hKeys _ node
  | compressed =>
      refine Table.keys_nodup_erase (Table.keys_nodup_put (Table.keys_nodup_erase ?_ _) _ _) _
      exact Table.keys_nodup_put hKeys _ _

/-- However far it gets, tidying leaves one entry for each name. -/
theorem keys_nodup_tidyAll (config : LogConfig) (today : Date) (base : String)
    (hKeys : (Table.keys directory).Nodup) (names : List String) :
    (Table.keys (left (tidyAll config base today names directory))).Nodup :=
  @tidyAll_induction (fun directory => (Table.keys directory).Nodup) config base today
    (fun name before => keys_nodup_of_tidies (tidies config base today name before)) names directory hKeys

/-- Today's log stays as it is, whatever is done for another name. -/
theorem lookup_of_tidies_of_today {file : FileName} {other : String}
    {result : EStateM.Result Failure (Directory Content) Unit} (hName : logFile? config name = some file)
    (hToday : today.dayNumber ≤ file.date.dayNumber) (h : Tidies config today other directory result) :
    (left result).lookup name = directory.lookup name := by
  cases h with
  | kept | failed => rfl
  | @deleted kind _ hOther hOld =>
      refine Table.lookup_erase_of_ne directory ?_
      rintro rfl
      cases hOther.symm.trans hName
      exact absurd (keepFrom_le config.retentionDays today) (by omega)
  | begun =>
      refine Table.lookup_put_of_ne directory _ ?_
      rintro rfl
      cases (logFile?_tmp config (other ++ ".gz")).symm.trans hName
  | compressed _ hOther _ hPast =>
      refine lookup_compressed_of_ne directory _ ?_ ?_
      · rintro rfl
        cases hOther.symm.trans hName
        exact absurd hToday (Int.not_le.mpr hPast)
      · rintro (rfl | rfl)
        · cases (logFile?_gz hOther).symm.trans hName
          exact absurd hToday (Int.not_le.mpr hPast)
        · cases (logFile?_tmp config (other ++ ".gz")).symm.trans hName

/-- Log files of today are not touched, however the run ends. -/
theorem lookup_tidyAll_of_today {file : FileName} (base : String) (names : List String)
    (directory : Directory Content) (hName : logFile? config name = some file)
    (hToday : today.dayNumber ≤ file.date.dayNumber) :
    (left (tidyAll config base today names directory)).lookup name = directory.lookup name := by
  refine @tidyAll_induction (fun after => after.lookup name = directory.lookup name) config base today
    (fun other before hBefore => ?_) names directory rfl
  have hStep := tidies config base today other before
  exact (lookup_of_tidies_of_today hName hToday hStep).trans hBefore

/-- Nothing is left that is due. -/
theorem Tidied.lookup_of_isDue (h : Tidied config today before after) (hFiles : HoldsFiles before)
    (hDue : IsDue config today name) : after.lookup name = none := by
  rcases hDue with hOld | hPast
  · exact h.deleted name hOld
  · cases hNode : before.lookup name with
    | some node =>
        obtain ⟨content, rfl⟩ := hFiles name node hNode
        exact (h.compressed name content hPast hNode).1
    | none =>
        rw [h.unchanged name hPast.not_isOld, hNode]
        intro source content hSource hFile
        refine ⟨?_, hPast.not_isTwin hSource⟩
        rintro rfl
        cases hNode.symm.trans hFile

/-- Names of which none is due are gone through without a change. -/
theorem tidyAll_of_kept (base : String) (hNames : ∀ name ∈ names, ¬ IsDue config today name)
    (directory : Directory Content) :
    tidyAll config base today names directory = .ok () directory := by
  induction names with
  | nil => rfl
  | cons name names ih =>
      obtain ⟨hName, hRest⟩ := List.forall_mem_cons.mp hNames
      rw [tidyAll_cons, tidy_of_kept base (fun h => hName (.inl h)) (fun h => hName (.inr h))]
      exact ih hRest

/-- A second run on the same day changes nothing. -/
theorem Tidied.cleanup_eq (base : String) (h : Tidied config today before after)
    (hFiles : HoldsFiles before) {again : Directory Content} (hAgain : again.Perm after) :
    cleanup config base today again = .ok () again := by
  rw [Log.cleanup_eq]
  refine tidyAll_of_kept base (fun name hMem hDue => ?_) again
  have hThere := (Table.isSome_lookup_iff after name).mpr ((Table.keys_perm hAgain).mem_iff.mp hMem)
  rw [h.lookup_of_isDue hFiles hDue] at hThere
  cases hThere

/-- A run without a failure leaves the directory tidied, by induction over the names. -/
theorem tidied_of_run {base : String} (hFiles : HoldsFiles directory)
    (hCovers : Covers config today directory names)
    (hRun : tidyAll config base today names directory = .ok () after) :
    HasRoom config today directory ∧ Tidied config today directory after := by
  obtain ⟨hRoom, other, hOk, hTidied⟩ | ⟨_, failure, other, hError⟩ :=
    tidied_of_covers base hFiles hCovers
  · cases hOk.symm.trans hRun
    exact ⟨hRoom, hTidied⟩
  · cases hError.symm.trans hRun

/-- Runs that go through the same directory end in the same directory. -/
theorem tidyAll_perm {base : String} {listed : Directory Content} {names order : List String}
    (hFiles : HoldsFiles directory) (hKeys : (Table.keys directory).Nodup)
    (hCovers : Covers config today directory names)
    (hRun : tidyAll config base today names directory = .ok () after) (hListed : listed.Perm directory)
    (hOrder : Covers config today listed order) :
    ∃ other, tidyAll config base today order listed = .ok () other ∧ other.Perm after := by
  obtain ⟨hRoom, hTidied⟩ := tidied_of_run hFiles hCovers hRun
  have hListedKeys : (Table.keys listed).Nodup := (Table.keys_perm hListed).nodup_iff.mpr hKeys
  have hSame (name : String) : listed.lookup name = directory.lookup name :=
    Table.lookup_eq_of_perm hListedKeys hListed name
  have hListedFiles : HoldsFiles listed := fun name node hNode =>
    hFiles name node ((hSame name).symm.trans hNode)
  have hListedRoom : HasRoom config today listed := fun name hPast hThere =>
    hRoom name hPast (hSame name ▸ hThere)
  obtain ⟨_, other, hOther, hOtherTidied⟩ | ⟨hNoRoom, _⟩ :=
    tidied_of_covers base hListedFiles hOrder
  · have hAfterKeys := keys_nodup_tidyAll config today base hKeys names
    have hOtherKeys := keys_nodup_tidyAll config today base hListedKeys order
    rw [hRun] at hAfterKeys
    rw [hOther] at hOtherKeys
    exact ⟨other, hOther,
      Table.perm_of_lookup_eq hOtherKeys hAfterKeys (hOtherTidied.lookup_eq hSame hTidied)⟩
  · exact absurd hListedRoom hNoRoom

/-- Housekeeping of a directory of files is finished unless a name has no room for the endings. It deletes the
log files whose time has come, puts a compressed file in the place of each other one of an earlier day,
and changes nothing else. The order of the list does not matter, nor do names that are listed because they
appear meanwhile; another run on the same day changes nothing. Log files of today stay as they are in
any case. -/
theorem cleanup_tidied (base : String) (hFiles : HoldsFiles directory)
    (hKeys : (Table.keys directory).Nodup) :
    ((∃ after, cleanup config base today directory = .ok () after) ↔ HasRoom config today directory) ∧
    (∀ after, cleanup config base today directory = .ok () after →
      Tidied config today directory after ∧
      (∀ listed, listed.Perm directory →
        ∃ other, cleanup config base today listed = .ok () other ∧ other.Perm after) ∧
      (∀ names, Covers config today directory names →
        ∃ other, tidyAll config base today names directory = .ok () other ∧ other.Perm after) ∧
      ∀ again, again.Perm after → cleanup config base today again = .ok () again) ∧
    ∀ name file, logFile? config name = some file → today.dayNumber ≤ file.date.dayNumber →
      (left (cleanup config base today directory)).lookup name = directory.lookup name := by
  have hCovers : Covers config today directory (Table.keys directory) := covers_keys hKeys
  refine ⟨?_, fun after hRun => ?_, fun name file hName hToday => ?_⟩
  · rw [cleanup_eq]
    obtain ⟨hRoom, after, hRun, _⟩ | ⟨hRoom, failure, after, hRun⟩ :=
      tidied_of_covers base hFiles hCovers
    · exact iff_of_true ⟨after, hRun⟩ hRoom
    · refine iff_of_false ?_ hRoom
      rintro ⟨other, hOk⟩
      cases hRun.symm.trans hOk
  · rw [cleanup_eq] at hRun
    have hTidied := (tidied_of_run hFiles hCovers hRun).2
    refine ⟨hTidied, fun listed hListed => ?_, fun names hNames => ?_, fun again hAgain => ?_⟩
    · rw [cleanup_eq]
      exact tidyAll_perm hFiles hKeys hCovers hRun hListed
        (covers_keys ((Table.keys_perm hListed).nodup_iff.mpr hKeys))
    · exact tidyAll_perm hFiles hKeys hCovers hRun (.refl directory) hNames
    · exact hTidied.cleanup_eq base hFiles hAgain
  · rw [cleanup_eq]
    exact lookup_tidyAll_of_today base _ directory hName hToday

/-- Log files are deleted after a week, and compressed after a day. -/
def sampleCompressing : LogConfig :=
  { filePrefix := "cam", retentionDays := 7, compressHistory := true }

/-- The log file of the day before stands among others that have the names of its compressed form. -/
def sampleTwins : Directory Content :=
  [("cam.2026-03-09.log.gz", .file (.packed (.plain [0x78]))),
    ("cam.2026-03-09.log", .file (.plain [0x79])),
    ("cam.2026-03-09.log.gz.tmp", .file (.plain [0x1F])),
    ("cam.2026-02-01.log.gz", .file (.packed (.plain [0x65]))),
    ("cam.2026-03-10.log", .file (.plain [0x7A])), ("notes.txt", .file (.plain [0x6E]))]

def sampleTidied : Directory Content :=
  [("cam.2026-03-09.log.gz", .file (.packed (.plain [0x79]))),
    ("cam.2026-03-10.log", .file (.plain [0x7A])), ("notes.txt", .file (.plain [0x6E]))]

/-- In either order of listing the log replaces the file with the name of its compressed form, what
is old is gone, and a second run changes nothing. -/
theorem cleanup_tidied_sampleTwins :
    HoldsFiles sampleTwins ∧ (Table.keys sampleTwins).Nodup ∧
      cleanup sampleCompressing "logs" sampleToday sampleTwins = .ok () sampleTidied ∧
      Tidied sampleCompressing sampleToday sampleTwins sampleTidied ∧
      (∃ other, cleanup sampleCompressing "logs" sampleToday sampleTwins.reverse = .ok () other ∧
        other.Perm sampleTidied) ∧
      cleanup sampleCompressing "logs" sampleToday sampleTidied = .ok () sampleTidied := by
  have hKeys : (Table.keys sampleTwins).Nodup := by decide
  have hFiles : HoldsFiles sampleTwins := by
    intro name node hNode
    have hMem := (Table.lookup_eq_some_iff hKeys).mp hNode
    simp only [sampleTwins, List.mem_cons, Prod.mk.injEq, List.not_mem_nil, or_false] at hMem
    rcases hMem with h | h | h | h | h | h <;> exact ⟨_, h.2⟩
  have hRun : cleanup sampleCompressing "logs" sampleToday sampleTwins = .ok () sampleTidied := rfl
  obtain ⟨hTidied, hOrders, _, hAgain⟩ := (cleanup_tidied "logs" hFiles hKeys).2.1 _ hRun
  exact ⟨hFiles, hKeys, hRun, hTidied, hOrders _ (List.reverse_perm _), hAgain _ (.refl _)⟩

end Runs

end Cadence.Log
