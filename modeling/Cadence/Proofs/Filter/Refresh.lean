import Cadence.Proofs.Filter.Continuity
import Cadence.Proofs.Filter.Pending

/-!
Where decoding starts anew, the past is forgotten. A filter that has given out such a packet remembers its
time and nothing else, so two filters with different histories cannot be told apart from then on
(`turns_eq_of_isGopStart`).
-/

namespace Cadence

namespace Filter

/-- Of all that came before a fresh start, only the set-up is left. -/
theorem drain_of_isGopStart {f : Filter} {packet : Packet} {drained : List Packet}
    (hState : f.state = .idle) (hDrained : (f.drain packet).result = .ok drained)
    (hStart : f.setup.isGopStart packet) :
    (f.drain packet).filter = { start f.setup with lastDts := packet.dts } := by
  have hDrains := drains hState packet
  rw [hDrained] at hDrains
  obtain ⟨_, _, _, _, _, _, hDelivers⟩ := hDrains.of_ok
  obtain ⟨hAdjustment, hNumber⟩ := hDelivers.of_isGopStart hStart
  obtain ⟨hIdle, hSetup, hLast⟩ := hDelivers.frame
  generalize (f.drain packet).filter = after at hAdjustment hNumber hIdle hSetup hLast ⊢
  cases after
  cases hAdjustment
  cases hNumber
  cases hIdle
  cases hSetup
  cases hLast
  rfl

/-- Two filters for one stream give out a packet at which decoding starts anew, each after calls of its
own. They are in the same state then, and whatever is called afterwards is answered alike. -/
theorem turns_eq_of_isGopStart {info : StreamInfo} {timeBase frameRate : Rational}
    {templates : TemplateTable} {f g : Filter} {calls others : List Call} {packet : Packet}
    {drained otherDrained : List Packet}
    (hCreate : (create info timeBase frameRate templates).result = .ok f)
    (hOther : (create info timeBase frameRate templates).result = .ok g)
    (hIdle : (f.afterCalls calls).state = .idle) (hOtherIdle : (g.afterCalls others).state = .idle)
    (hDrained : ((f.afterCalls calls).drain packet).result = .ok drained)
    (hOtherDrained : ((g.afterCalls others).drain packet).result = .ok otherDrained)
    (hStart : f.setup.isGopStart packet) :
    ((f.afterCalls calls).drain packet).filter = { start f.setup with lastDts := packet.dts } ∧
      ((g.afterCalls others).drain packet).filter = { start f.setup with lastDts := packet.dts } ∧
      ∀ later, ((f.afterCalls calls).drain packet).filter.turns later
        = ((g.afterCalls others).drain packet).filter.turns later := by
  obtain rfl : f = g := Except.ok.inj (hCreate.symm.trans hOther)
  have hFresh : f.Settled := .inl (by rw [(checked_of_create hCreate).1, start])
  have hSetup := (afterCalls_frame hFresh calls).2
  have hOtherSetup := (afterCalls_frame hFresh others).2
  have hLeft := drain_of_isGopStart hIdle hDrained (hSetup.symm ▸ hStart)
  have hRight := drain_of_isGopStart hOtherIdle hOtherDrained (hOtherSetup.symm ▸ hStart)
  rw [hSetup] at hLeft
  rw [hOtherSetup] at hRight
  refine ⟨hLeft, hRight, fun later => ?_⟩
  rw [hLeft, hRight]

/-- A refresh picture that is not marked as a key packet. -/
def sampleUnmarked (dts : Ticks) : Packet :=
  { data := [0, 0, 0, 1, 0x65, 0x9A, 0x00, 0x11], pts := dts, dts }

/-- Two pictures have been put in, and numbers are being moved by two. -/
def sampleMoved : List Call :=
  [.send (sampleKey 0), .receive, .send (samplePicture 1 10800), .receive, .receive, .receive]

/-- One filter puts a picture in before the refresh and ends the renumbering there; the other one has
seen nothing yet and only reads the packet. -/
theorem turns_eq_of_isGopStart_sampleUnmarked :
    (sample.afterCalls sampleMoved).adjustment = 2 ∧
      sample.setup.isGopStart (sampleUnmarked 18000) ∧
      ∀ later, ((sample.afterCalls sampleMoved).drain (sampleUnmarked 18000)).filter.turns later
        = ((sample.afterCalls []).drain (sampleUnmarked 18000)).filter.turns later := by
  have hStart : sample.setup.isGopStart (sampleUnmarked 18000) := by decide +kernel
  have hMoved : (sample.afterCalls sampleMoved).state = .idle :=
    (isIdle_iff _).mp (by decide +kernel)
  have hFresh : (sample.afterCalls []).state = .idle := (isIdle_iff _).mp (by decide +kernel)
  refine ⟨by decide +kernel, hStart, ?_⟩
  exact (turns_eq_of_isGopStart create_sample create_sample hMoved hFresh
    (except_eq_ok_get (by decide +kernel)) (except_eq_ok_get (by decide +kernel)) hStart).2.2

end Filter

end Cadence
