import Cadence.Proofs.Log.Housekeeping

/-!
How long log files are kept. A log file that is deleted is older than the number of days asked for, unless
the calendar does not go back that many days from today (`deletes_iff`). Then files are kept from today
on only, so that asking for more days deletes more.
-/

namespace Cadence

namespace Date

theorem daysBeforeYear_le {first later : Int} (h : first ≤ later) :
    daysBeforeYear first ≤ daysBeforeYear later := by
  unfold daysBeforeYear
  rcases Int.lt_or_eq_of_le h with hLess | rfl
  · dsimp only
    omega
  · exact Int.le_refl _

/-- No date is before the first day of the calendar. -/
theorem firstDay_le (date : Date) : firstDay ≤ date.dayNumber := by
  have hYear : firstYear ≤ date.year := by
    have hValid := date.valid
    simp only [isDay, Bool.and_eq_true, decide_eq_true_eq] at hValid
    exact hValid.1.1.1.1.1
  have hYears := daysBeforeYear_le hYear
  rw [firstDay, dayNumber]
  omega

end Date

namespace Log

open Housekeeping (left)

/-- Housekeeping deletes a log file: it is gone afterwards, and was not replaced by a compressed file. -/
def Deletes (config : LogConfig) (base : String) (today : Date) (directory : Directory Content)
    (name : String) (file : FileName) : Prop :=
  ∃ content, logFile? config name = some file ∧ directory.lookup name = some (.file content) ∧
    (left (cleanup config base today directory)).lookup name = none ∧
    ¬ (file.compressed = false ∧ (left (cleanup config base today directory)).lookup (name ++ ".gz")
      = some (.file (.packed content)))

variable {config : LogConfig} {base : String} {today : Date} {directory : Directory Content}
  {name : String} {file : FileName}

/-- What is deleted is older than all that is kept. -/
theorem Deletes.lt_keepFrom (h : Deletes config base today directory name file) :
    file.date.dayNumber < keepFrom config.retentionDays today := by
  obtain ⟨content, hName, hFile, hGone, hPlain⟩ := h
  by_contra hNew
  have hHolds := holds_cleanup base hName (Int.not_lt.mp hNew) hFile
  obtain ⟨day, packed⟩ := file
  cases packed with
  | true =>
      obtain ⟨other, hOther⟩ := hHolds
      cases hGone.symm.trans hOther
  | false =>
      rcases hHolds with hThere | ⟨_, hGz⟩
      · cases hGone.symm.trans hThere
      · exact hPlain ⟨rfl, hGz⟩

/-- A finished run deletes all files whose time has come. -/
theorem deletes_of_lt_keepFrom {content : Content} {after : Directory Content}
    (hName : logFile? config name = some file) (hFile : directory.lookup name = some (.file content))
    (hOld : file.date.dayNumber < keepFrom config.retentionDays today)
    (hRun : cleanup config base today directory = .ok () after) :
    Deletes config base today directory name file := by
  have hLeft : left (cleanup config base today directory) = after := by rw [hRun]; rfl
  refine ⟨content, hName, hFile, hLeft ▸ gone_cleanup hName hOld hRun, ?_⟩
  rintro ⟨hPlain, hGz⟩
  obtain ⟨day, packed⟩ := file
  cases hPlain
  rw [hLeft, gone_cleanup (logFile?_gz hName) hOld hRun] at hGz
  cases hGz

/-- The time of a file has come if it is old enough. If the calendar does not go back that far, the time
of all files of earlier days has come. -/
theorem lt_keepFrom_iff {days : Int64} (hDays : 0 ≤ days) (date : Date) :
    date.dayNumber < keepFrom days today ↔
      days.toInt < today.dayNumber - date.dayNumber ∨
      today.dayNumber - days.toInt < Date.firstDay ∧ date.dayNumber < today.dayNumber := by
  have hSome : 0 ≤ days.toInt := Int64.le_iff_toInt_le.mp hDays
  have hFirst := date.firstDay_le
  rw [keepFrom]
  split
  case isTrue hIn => omega
  case isFalse hOut =>
    rw [not_and, Int.not_le] at hOut
    have hBefore := hOut hSome
    omega

/-- A file that is deleted is older than the days asked for exactly if the calendar goes back that far.
A finished run deletes the files that are older, and if the calendar does not go back that far, all files
of earlier days. So fewer days keep no more files, if the calendar goes back far enough. -/
theorem deletes_iff {content : Content} (base : String) (hDays : 0 ≤ config.retentionDays)
    (hName : logFile? config name = some file)
    (hFile : directory.lookup name = some (.file content)) :
    (Deletes config base today directory name file →
      (config.retentionDays.toInt < today.dayNumber - file.date.dayNumber ↔
        Date.firstDay ≤ today.dayNumber - config.retentionDays.toInt)) ∧
    (∀ after, cleanup config base today directory = .ok () after →
      (Deletes config base today directory name file ↔
        config.retentionDays.toInt < today.dayNumber - file.date.dayNumber ∨
        today.dayNumber - config.retentionDays.toInt < Date.firstDay ∧
          file.date.dayNumber < today.dayNumber)) ∧
    (Date.firstDay ≤ today.dayNumber - config.retentionDays.toInt →
      ∀ days, 0 ≤ days → days ≤ config.retentionDays → ∀ after,
        cleanup { config with retentionDays := days } base today directory = .ok () after →
        Deletes config base today directory name file →
        Deletes { config with retentionDays := days } base today directory name file) := by
  have hTime := @lt_keepFrom_iff today _ hDays file.date
  have hFirst := file.date.firstDay_le
  refine ⟨fun h => ?_, fun after hRun => ?_, fun hIn days hSome hFewer after hRun h => ?_⟩
  · have hOld := hTime.mp h.lt_keepFrom
    omega
  · rw [← hTime]
    exact ⟨Deletes.lt_keepFrom, fun hOld => deletes_of_lt_keepFrom hName hFile hOld hRun⟩
  · have hOld := hTime.mp h.lt_keepFrom
    have hStep : days.toInt ≤ config.retentionDays.toInt := Int64.le_iff_toInt_le.mp hFewer
    exact deletes_of_lt_keepFrom hName hFile ((lt_keepFrom_iff hSome file.date).mpr (by omega)) hRun

/-- Log files are deleted after a week, and not compressed. -/
def sampleConfig : LogConfig :=
  { filePrefix := "cam", retentionDays := 7, compressHistory := false }

def sampleToday : Date := ⟨2026, 3, 10, by decide⟩

/-- A log file of the day before, and one of the month before. -/
def sampleLogs : Directory Content :=
  [("cam.2026-03-09.log", .file (.plain [0x79])), ("cam.2026-02-01.log", .file (.plain [0x65]))]

def sampleYesterday : FileName := ⟨⟨2026, 3, 9, by decide⟩, false⟩

def sampleOld : FileName := ⟨⟨2026, 2, 1, by decide⟩, false⟩

/-- A log of the month before is deleted, and with three days of retention too. -/
theorem deletes_iff_sampleOld :
    0 ≤ sampleConfig.retentionDays ∧ logFile? sampleConfig "cam.2026-02-01.log" = some sampleOld ∧
      Deletes sampleConfig "logs" sampleToday sampleLogs "cam.2026-02-01.log" sampleOld ∧
      sampleConfig.retentionDays.toInt < sampleToday.dayNumber - sampleOld.date.dayNumber ∧
      Deletes { sampleConfig with retentionDays := 3 } "logs" sampleToday sampleLogs
        "cam.2026-02-01.log" sampleOld := by
  have hDays : 0 ≤ sampleConfig.retentionDays := by decide
  have hName : logFile? sampleConfig "cam.2026-02-01.log" = some sampleOld := by decide +kernel
  have hAge : sampleConfig.retentionDays.toInt < sampleToday.dayNumber - sampleOld.date.dayNumber := by
    decide
  have hFile : sampleLogs.lookup "cam.2026-02-01.log" = some (.file (.plain [0x65])) := rfl
  obtain ⟨_, hFinished, hFewer⟩ := @deletes_iff _ sampleToday _ _ _ _ "logs" hDays hName hFile
  have hDeletes := (hFinished _ rfl).mpr (.inl hAge)
  exact ⟨hDays, hName, hDeletes, hAge,
    hFewer (by decide) 3 (by decide) (by decide) _ rfl hDeletes⟩

/-- The most days that can be asked for. -/
def sampleForever : LogConfig :=
  { sampleConfig with retentionDays := Int64.maxValue }

/-- A file that is one day old is deleted then, which is kept if seven days are asked for. -/
theorem deletes_sampleYesterday :
    Deletes sampleForever "logs" sampleToday sampleLogs "cam.2026-03-09.log" sampleYesterday ∧
      ¬ sampleForever.retentionDays.toInt
        < sampleToday.dayNumber - sampleYesterday.date.dayNumber ∧
      sampleConfig.retentionDays ≤ sampleForever.retentionDays ∧
      ¬ Deletes sampleConfig "logs" sampleToday sampleLogs "cam.2026-03-09.log" sampleYesterday := by
  refine ⟨⟨.plain [0x79], by decide +kernel, rfl, rfl, fun ⟨_, hGz⟩ => by cases hGz⟩, by decide,
    by decide, ?_⟩
  rintro ⟨_, _, _, hGone, _⟩
  cases hGone

end Log

end Cadence
