import Cadence.Proofs.Filter.Pending
import Cadence.Proofs.FrameNum.CutHeaders
import Cadence.Proofs.ParameterSets.Ranges

/-!
What kind of fault a call of `receive` gives. An idle filter, and no other, asks for more data. Any other
fault says that the stream is damaged, except where a packet ends within the header of a slice: there
the end of the packet is taken for the end of the stream (`category_of_receive`).
-/

namespace Cadence

namespace Filter

/-- The next packet to be given out has to be read, and it ends within the header of a slice. While
numbers are being moved a packet with a refresh picture is not read. -/
def CutOff (f : Filter) : Prop :=
  ∃ packet run scan, f.state = .holding packet run ∧ run.remaining = 0 ∧ ¬ packet.key ∧
    Nal.scan f.setup.sets.framing packet.data = .ok scan ∧
    (f.adjustment ≠ 0 → ∀ span ∈ FrameNum.slices scan, ¬ span.type.isIdr) ∧
    FrameNum.CutOffFirst f.setup.sets packet.data (FrameNum.slices scan)

/-- A packet that is only read fails exactly if its units cannot be told apart or one of its slices
cannot be read, and with the fault that comes first. -/
theorem release_eq_error_iff (f : Filter) {packet : Packet} (hKey : ¬ packet.key) (fault : Fault) :
    (f.release packet).result = .error fault ↔
      Nal.scan f.setup.sets.framing packet.data = .error fault ∨
      ∃ scan, Nal.scan f.setup.sets.framing packet.data = .ok scan ∧
        FrameNum.FirstFault f.setup.sets packet.data (FrameNum.slices scan) fault := by
  have hRead : (f.release packet).result = .error fault ↔
      (FrameNum.ofPacket f.setup.sets packet.data).result = .error fault := by
    rw [release, if_neg hKey]
    dsimp only
    split <;> simp_all
  rw [hRead, FrameNum.result_ofPacket, except_bind_eq_error]
  simp only [FrameNum.ofSlices_eq_error_iff]

/-- A packet to be renumbered fails in the same ways, but with a refresh picture in it its slices
are not read. -/
theorem renumber_eq_error_iff (f : Filter) (packet : Packet) (fault : Fault) :
    (f.renumber packet).result = .error fault ↔
      Nal.scan f.setup.sets.framing packet.data = .error fault ∨
      ∃ scan, Nal.scan f.setup.sets.framing packet.data = .ok scan ∧
        (∀ span ∈ FrameNum.slices scan, ¬ span.type.isIdr) ∧
        FrameNum.FirstFault f.setup.sets packet.data (FrameNum.slices scan) fault := by
  have hRenumber : (f.renumber packet).result = .error fault ↔
      (Renumbered.ofPacket f.setup.sets f.adjustment packet.data).outcome.result
        = .error fault := by
    unfold renumber
    dsimp only
    split <;> simp_all
  rw [hRenumber]
  cases hScan : Nal.scan f.setup.sets.framing packet.data with
  | error other => simp [Renumbered.ofPacket_of_fault hScan]
  | ok scan =>
      by_cases hAlone : Renumbered.LeftAlone scan
      · -- Such a packet is left alone, and none of its slices counts.
        have hNone : ¬ ((∀ span ∈ FrameNum.slices scan, ¬ span.type.isIdr) ∧
            FrameNum.FirstFault f.setup.sets packet.data (FrameNum.slices scan) fault) := by
          rintro ⟨hIdr, front, span, back, hSpans, _⟩
          rcases hAlone with hEmpty | ⟨other, hOther, hRefresh⟩
          · rw [hEmpty] at hSpans
            exact List.append_ne_nil_of_right_ne_nil front (List.cons_ne_nil span back) hSpans.symm
          · exact hIdr other hOther hRefresh
        rw [(Renumbered.ofPacket_of_leftAlone hScan hAlone).1]
        simpa using hNone
      · obtain ⟨_, hIdr⟩ := Renumbered.not_leftAlone_iff.mp hAlone
        rw [(Renumbered.ofPacket_of_not_leftAlone hScan hAlone).1,
          Renumbered.ofSlices_eq_error_iff (FrameNum.slices_laid hScan) hIdr]
        refine ⟨fun hFirst => .inr ⟨scan, rfl, hIdr, hFirst⟩, ?_⟩
        rintro (⟨⟨⟩⟩ | ⟨_, ⟨⟩, _, hFirst⟩)
        exact hFirst

/-- A packet that is due fails exactly if it is no key packet, and its units cannot be told apart or one of
its slices cannot be read. With a refresh picture in it, its slices are not read while numbers are moved. -/
theorem deliver_eq_error_iff (f : Filter) (packet : Packet) (fault : Fault) :
    (f.deliver packet).result = .error fault ↔ ¬ packet.key ∧
      (Nal.scan f.setup.sets.framing packet.data = .error fault ∨
      ∃ scan, Nal.scan f.setup.sets.framing packet.data = .ok scan ∧
        (f.adjustment ≠ 0 → ∀ span ∈ FrameNum.slices scan, ¬ span.type.isIdr) ∧
        FrameNum.FirstFault f.setup.sets packet.data (FrameNum.slices scan) fault) := by
  rw [deliver]
  by_cases hKey : packet.key
  · simp [hKey]
  · by_cases hAdjustment : 0 < f.adjustment
    · rw [if_neg hKey, if_pos hAdjustment, renumber_eq_error_iff]
      simp [hKey, UInt32.pos_iff_ne_zero.mp hAdjustment]
    · have hZero : f.adjustment = 0 := by simpa using hAdjustment
      rw [if_neg hKey, if_neg hAdjustment, release_eq_error_iff f hKey]
      simp [hKey, hZero]

/-- A packet that is held is given out, or it is damaged or cut off. -/
theorem fault_of_receive {f : Filter} (h : f.Settled) (hSets : FrameNum.Readable f.setup.sets)
    {fault : Fault} (hFault : f.receive.result = .error fault) :
    f.state = .idle ∧ fault = .needMoreData ∨
      f.state ≠ .idle ∧ (fault.category = .invalidData ∨ fault = .endOfData ∧ f.CutOff) := by
  have hReceives := receives h
  rw [hFault] at hReceives
  generalize f.receive.filter = after at hReceives
  cases hReceives with
  | drained hState => exact .inl ⟨hState, rfl⟩
  | skipFault hState _ hSkip =>
      obtain ⟨_, _, rfl⟩ := Setup.skip_eq_error hSkip
      exact .inr ⟨by simp [hState], .inl rfl⟩
  | @due packet run _ _ hState hRun _ =>
      refine .inr ⟨by simp [hState], ?_⟩
      rw [receive_of_due hState hRun, deliver_eq_error_iff] at hFault
      obtain ⟨hKey, hScan | ⟨scan, hScan, hIdr, hFirst⟩⟩ := hFault
      · exact .inl (Nal.category_of_scan hScan)
      · rcases FrameNum.category_of_firstFault hSets hFirst with hData | rfl
        · exact .inl hData
        · exact .inr ⟨rfl, packet, run, scan, hState, hRun, hKey, hScan, hIdr,
            (FrameNum.firstFault_endOfData_iff hSets _ _).mp hFirst⟩

/-- A packet that ends within a slice header is answered with the end of the data. -/
theorem receive_of_cutOff {f : Filter} (hSets : FrameNum.Readable f.setup.sets) (h : f.CutOff) :
    f.receive.result = .error .endOfData := by
  obtain ⟨packet, run, scan, hState, hRun, hKey, hScan, hIdr, hCut⟩ := h
  rw [receive_of_due hState hRun, deliver_eq_error_iff]
  exact ⟨hKey, .inr ⟨scan, hScan, hIdr, (FrameNum.firstFault_endOfData_iff hSets _ _).mpr hCut⟩⟩

/-- The parameter sets that a filter is created with give frame numbers that can be read at once. -/
theorem readable_of_create {info : StreamInfo} {timeBase frameRate : Rational}
    {templates : TemplateTable} {f : Filter}
    (hCreate : (create info timeBase frameRate templates).result = .ok f) :
    FrameNum.Readable f.setup.sets := by
  obtain ⟨_, _, sets, _, hSets, hSetup⟩ := exists_ofSets_of_create hCreate
  obtain ⟨rfl, _⟩ := Setup.of_ofSets hSetup
  intro ppsId pps sps hActive
  exact Nat.le_trans ((ParameterSets.inRange_of_ofExtradata hSets).active hActive).2.numberWidth.2
    (by decide)

/-- After any calls, a packet is asked for exactly if there is none, and the end of the stream is
reported exactly for a packet that is cut off. Any other fault is one of the data. -/
theorem category_of_receive {info : StreamInfo} {timeBase frameRate : Rational}
    {templates : TemplateTable} {f : Filter}
    (hCreate : (create info timeBase frameRate templates).result = .ok f) (calls : List Call) :
    let g := f.afterCalls calls
    let kind := g.receive.result.mapError Fault.category
    (kind = .error .needMoreData ↔ g.isIdle) ∧ (kind = .error .endOfStream ↔ g.CutOff) ∧
      ∀ category, kind = .error category → ¬ g.isIdle → ¬ g.CutOff → category = .invalidData := by
  obtain ⟨hStart, _⟩ := checked_of_create hCreate
  have hFirst : f.Settled := hStart ▸ .inl rfl
  obtain ⟨hSettled, hSetup⟩ := afterCalls_frame hFirst calls
  have hSets : FrameNum.Readable (f.afterCalls calls).setup.sets :=
    hSetup ▸ readable_of_create hCreate
  intro g kind
  have hKind (category : Fault.Category) : kind = .error category ↔
      ∃ fault, g.receive.result = .error fault ∧ fault.category = category := by
    cases hResult : g.receive.result <;> simp [kind, hResult, Except.mapError]
  have hCut : g.CutOff → g.receive.result = .error .endOfData := receive_of_cutOff hSets
  simp only [hKind, g.isIdle_iff]
  refine ⟨⟨?_, fun hState => ⟨_, by rw [receive_of_idle hState], rfl⟩⟩, ⟨?_, fun h => ⟨_, hCut h, rfl⟩⟩,
    ?_⟩
  · rintro ⟨fault, hFault, hCategory⟩
    rcases fault_of_receive hSettled hSets hFault with ⟨hState, _⟩ | ⟨_, hData | ⟨rfl, _⟩⟩
    · exact hState
    · cases hData.symm.trans hCategory
    · cases hCategory
  · rintro ⟨fault, hFault, hCategory⟩
    rcases fault_of_receive hSettled hSets hFault with ⟨_, rfl⟩ | ⟨_, hData | ⟨_, hCutOff⟩⟩
    · cases hCategory
    · cases hData.symm.trans hCategory
    · exact hCutOff
  · rintro category ⟨fault, hFault, rfl⟩ hBusy hWhole
    rcases fault_of_receive hSettled hSets hFault with ⟨hState, _⟩ | ⟨_, hData | ⟨_, hCutOff⟩⟩
    · exact absurd hState hBusy
    · exact hData
    · exact absurd hCutOff hWhole

/-- The only slice of the packet ends behind its header byte. -/
def sampleCut : Packet :=
  { data := [0, 0, 0, 1, 0x61], pts := 0, dts := 0 }

/-- The packet that is cut off is reported as the end of the stream. -/
theorem category_of_receive_sampleCut :
    (sample.afterCalls [.send sampleCut]).receive.result.mapError Fault.category
        = .error .endOfStream ∧
      (sample.afterCalls [.send sampleCut]).CutOff := by
  have hEnd : (sample.afterCalls [.send sampleCut]).receive.result.mapError Fault.category
      = .error .endOfStream := by decide +kernel
  exact ⟨hEnd, (category_of_receive create_sample [.send sampleCut]).2.1.mp hEnd⟩

/-- A packet that is damaged is reported as the end of the stream. -/
theorem endOfStream_sampleCut :
    (create sampleInfo ⟨1, 90000⟩ ⟨25, 1⟩ []).result = .ok sample ∧
      ¬ ∀ category, (sample.afterCalls [.send sampleCut]).receive.result.mapError Fault.category
          = .error category →
        ¬ (sample.afterCalls [.send sampleCut]).isIdle → category = .invalidData := by
  have hEnd : (sample.afterCalls [.send sampleCut]).receive.result.mapError Fault.category
      = .error .endOfStream := by decide +kernel
  have hBusy : ¬ (sample.afterCalls [.send sampleCut]).isIdle := by decide +kernel
  refine ⟨create_sample, fun hAll => ?_⟩
  cases hAll _ hEnd hBusy

end Filter

end Cadence
