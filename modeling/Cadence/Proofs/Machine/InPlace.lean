import Cadence.Proofs.Bits.Steps
import Cadence.Proofs.Machine.SliceHeader

/-!
Overwriting bits in place on a machine. The bits are set one after the other in a buffer that is shared with
the caller, so what has been written when a computation stops is there to be seen. It is seen that nothing
has: a range is refused before the first bit is set. A range that is accepted is written whole, and no bit
beside it is touched (`editBits_exact`).
-/

namespace Cadence.Machine

/-- A computation on words that changes data in place. What it has changed stays when it stops. -/
abbrev Editing (α : Type) := EStateM Halt Bytes α

/-- A computation that changes nothing. -/
def unedited {α : Type} (machine : Machine α) : Editing α := fun data =>
  match machine with
  | .ok a => .ok a data
  | .error halt => .error halt data

instance : MonadLift Machine Editing := ⟨unedited⟩

/-- The byte at a place of the data, with the bit that `place` bits precede replaced by the one that
`done` bits of the value precede. -/
def replacedByte (width value done place : Nat) (data : Bytes) : Machine UInt8 := do
  let bit := (← shr 32 value (← sub (← sub width 1) done)) % 2
  let shift ← sub 7 (place % 8)
  replaceIn (← index data (place / 8)) bit shift

def editRun (width value : Nat) : (count done place : Nat) → Editing Unit
  | 0, _, _ => pure ()
  | count + 1, done, place => do
    let byte ← replacedByte width value done place (← get)
    modify fun data => data.set (place / 8) byte
    editRun width value count (done + 1) (place + 1)

def editBits (offset width value : Nat) : Editing Unit := do
  if 32 < width then (ofExcept (.error (.overwriteWidth width)) : Machine Unit)
  let total ← mul 64 8 (← get).length
  if 2 ^ 64 ≤ offset + width ∨ total < offset + width then
    (ofExcept (.error (.overwriteRange offset width total)) : Machine Unit)
  editRun width value width 0 offset

variable {data written : Bytes} {width value : Nat}

/-- The first bit of a run is replaced before the others. -/
theorem replaceRun_succ (width value count done place : Nat) (data : Bytes) :
    replaceRun width value (count + 1) done place data = (do
      let byte ← replacedByte width value done place data
      replaceRun width value count (done + 1) (place + 1) (data.set (place / 8) byte)) := by
  simp only [replaceRun, replacedByte, bind_assoc]

/-- In place, the same bits are set as in a copy. -/
theorem editRun_of_ok {count done place : Nat}
    (h : replaceRun width value count done place data = .ok written) :
    editRun width value count done place data = .ok () written := by
  induction count generalizing done place data with
  | zero =>
      cases h
      rfl
  | succ count ih =>
      rw [replaceRun_succ] at h
      obtain ⟨byte, hByte, hRest⟩ := except_bind_eq_ok.mp h
      have hEdited : unedited (replacedByte width value done place data) data = .ok byte data := by
        rw [hByte]
        rfl
      have hStep : editRun width value (count + 1) done place data
          = editRun width value count (done + 1) (place + 1) (data.set (place / 8) byte) := by
        change EStateM.bind (unedited (replacedByte width value done place data)) _ data = _
        rw [EStateM.bind, hEdited]
        rfl
      rw [hStep, ih hRest]

/-- Editing gives the data that overwriting gives, or leaves the data as it was. -/
theorem editBits_eq (hSize : data.length < 2 ^ 60) (offset width value : Nat) :
    editBits offset width value data
      = match Bits.overwrite data offset width value with
        | .ok written => .ok () written
        | .error fault => .error (.fault fault) data := by
  by_cases hWidth : 32 < width
  · rw [Bits.overwrite, if_pos hWidth, editBits, if_pos hWidth]
    rfl
  · have hTotal : unedited (mul 64 8 data.length) data = .ok (8 * data.length) data := by
      rw [mul_of_lt (by omega)]
      rfl
    rw [editBits, if_neg hWidth]
    change EStateM.bind (unedited (mul 64 8 data.length)) _ data = _
    rw [EStateM.bind, hTotal]
    dsimp only
    by_cases hRange : 8 * data.length < offset + width
    · rw [if_pos (.inr hRange), Bits.overwrite, if_neg hWidth, if_pos hRange]
      rfl
    · have hRun := @replaceRun_eq width value (Nat.le_of_not_lt hWidth) width 0 offset
        (Nat.zero_add width) data (Nat.le_of_not_lt hRange)
      rw [if_neg (by omega), Bits.overwrite_eq_setRun hWidth hRange]
      exact editRun_of_ok hRun

/-- Behind the bits in front of the range, its new value is read. -/
theorem read_of_overwrite {offset : Nat}
    (h : Bits.overwrite data offset width value = .ok written) :
    (BitReader.skipBits offset >>= fun _ => BitReader.readBits width) (BitReader.ofBytes written)
      = .ok (value % 2 ^ width) ⟨written.toArray, offset + width⟩ := by
  obtain ⟨hWidth, hRange, -, hBits⟩ := Bits.overwrite_eq_ok h
  have hFront : ((Bits.ofBytes data).take offset).length = offset := by
    rw [List.length_take, Bits.length_ofBytes]
    omega
  have hReads := @BitReader.Reads.bind _ _ _ (fun _ => BitReader.readBits width) _ _ _ _
    (BitReader.Reads.skipBits ((Bits.ofBytes data).take offset))
    (BitReader.Reads.readNat hWidth value)
  have hRest := (BitReader.rest_ofBytes written).trans hBits
  have hRead := hReads _ _ hRest
  rw [hFront, List.length_append, hFront, Bits.length_ofNat] at hRead
  rw [hRead, BitReader.ofBytes, Nat.zero_add]

/-- A range of at most 32 bits that lies in the data is overwritten, and the low bits of the value are read
there. No other bit is touched. Any other range is refused, and the data is as it was. -/
theorem editBits_exact {data : Bytes} (hSize : data.length < 2 ^ 60) (offset width value : Nat) :
    if width ≤ 32 ∧ offset + width ≤ 8 * data.length then
      ∃ written, Bits.overwrite data offset width value = .ok written ∧
        editBits offset width value data = .ok () written ∧ written.length = data.length ∧
        (∀ index, index < offset ∨ offset + width ≤ index →
          (Bits.ofBytes written)[index]? = (Bits.ofBytes data)[index]?) ∧
        (BitReader.skipBits offset >>= fun _ => BitReader.readBits width) (BitReader.ofBytes written)
          = .ok (value % 2 ^ width) ⟨written.toArray, offset + width⟩
    else
      ∃ fault, Bits.overwrite data offset width value = .error fault ∧
        fault.category = .invalidArgument ∧
        editBits offset width value data = .error (.fault fault) data := by
  have hEdit := editBits_eq hSize offset width value
  split
  case isTrue hRange =>
    obtain ⟨written, hWrite⟩ : ∃ written, Bits.overwrite data offset width value = .ok written := by
      rw [Bits.overwrite, if_neg (by omega), if_neg (by omega)]
      exact ⟨_, rfl⟩
    obtain ⟨-, -, hLength, -⟩ := Bits.overwrite_eq_ok hWrite
    rw [hWrite] at hEdit
    exact ⟨written, hWrite, hEdit, hLength, fun index => Bits.getElem?_of_overwrite hWrite,
      read_of_overwrite hWrite⟩
  case isFalse hRange =>
    obtain ⟨fault, hRefused, hFault⟩ : ∃ fault, Bits.overwrite data offset width value = .error fault ∧
        fault.category = .invalidArgument := by
      rw [Bits.overwrite]
      by_cases hWidth : width > 32
      · exact ⟨_, if_pos hWidth, rfl⟩
      · rw [if_neg hWidth, if_pos (by omega)]
        exact ⟨_, rfl, rfl⟩
    rw [hRefused] at hEdit
    exact ⟨fault, hRefused, hFault, hEdit⟩

/-- Eight bits are written across a byte boundary. A range that begins just below `2 ^ 64` is refused. -/
theorem editBits_exact_samples :
    ([0xFF, 0, 0xFF] : Bytes).length < 2 ^ 60 ∧
    editBits 6 8 0xA5 [0xFF, 0, 0xFF] = .ok () [0xFE, 0x94, 0xFF] ∧
    (BitReader.skipBits 6 >>= fun _ => BitReader.readBits 8) (BitReader.ofBytes [0xFE, 0x94, 0xFF])
      = .ok 0xA5 ⟨#[0xFE, 0x94, 0xFF], 14⟩ ∧
    ∃ fault, fault.category = .invalidArgument ∧
      editBits (2 ^ 64 - 1) 2 3 [0, 0] = .error (.fault fault) [0, 0] := by
  have hExact := @editBits_exact [0xFF, 0, 0xFF] (by decide) 6 8 0xA5
  rw [if_pos (by decide)] at hExact
  obtain ⟨written, hWrite, hEdit, -, -, hRead⟩ := hExact
  have hWritten : Bits.overwrite [0xFF, 0, 0xFF] 6 8 0xA5 = .ok [0xFE, 0x94, 0xFF] := by decide
  cases hWritten.symm.trans hWrite
  have hRefused := @editBits_exact [0, 0] (by decide) (2 ^ 64 - 1) 2 3
  rw [if_neg (by decide)] at hRefused
  obtain ⟨fault, -, hCategory, hFault⟩ := hRefused
  exact ⟨by decide, hEdit, hRead, fault, hCategory, hFault⟩

end Cadence.Machine
