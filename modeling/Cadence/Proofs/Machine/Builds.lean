import Cadence.Proofs.Bits.Steps
import Cadence.Proofs.Machine.Reader

/-!
Computing with checks and without. A program is built so that a result that does not fit its word stops
it, or so that such a result is cut to the word (`Build`). As long as results fit, both builds compute the
same; reading bits and unsigned code words meets no hazard at all, and is not told apart. A read that may
come to a result that does not fit agrees with the read of bits elsewhere (`AgreesUnless`), and there the
two builds diverge: one stops, as the read of bits breaks off, and the other goes on (`DivergesIf`).
-/

namespace Cadence.Machine

/-- What becomes of a result that does not fit its word. -/
inductive Build
  | checked
  | wrapping
  deriving DecidableEq, Repr

theorem lift_ok_bind {α β : Type} (a : α) (after : α → Reader β) :
    (liftM (Except.ok a : Machine α) >>= after) = after a := rfl

namespace Agrees

variable {α β : Type} {condition : Prop} [Decidable condition]

/-- A value that is refused ends both readers with the same fault. -/
theorem refused {γ : Type} {fault : Fault} (hData : fault.category = .invalidData) (after : β → Reader α)
    (next : γ → BitReader.Read α) :
    Agrees (liftM (ofExcept (.error fault) : Machine β) >>= after) (throw fault >>= next) where
  eq _ _ := rfl
  steady := by
    have hThrow : BitReader.Read.Steady (· ≠ .overflow) (throw fault : BitReader.Read γ) :=
      .throw (ne_overflow_of_category hData)
    exact hThrow.bind fun _ _ _ hOk => nomatch hOk

/-- Both readers check the same condition before they go on. -/
theorem guard {fault : Fault} {after : Unit → Reader α} {next : Unit → BitReader.Read α}
    (hData : fault.category = .invalidData) (h : ¬ condition → Agrees (after ()) (next ())) :
    Agrees (if condition then liftM (ofExcept (.error fault) : Machine Unit) >>= after else after ())
      (if condition then throw fault >>= next else next ()) := by
  split
  case isTrue => exact .refused hData after next
  case isFalse hFails => exact h hFails

/-- Both readers go the same of two ways, and on alike behind it. -/
theorem either {first second : Reader β} {read other : BitReader.Read β} {after : β → Reader α}
    {next : β → BitReader.Read α} (hFirst : condition → Agrees first read)
    (hSecond : ¬ condition → Agrees second other) (h : ∀ b, Agrees (after b) (next b)) :
    Agrees (if condition then first >>= after else second >>= after)
      (if condition then read >>= next else other >>= next) := by
  split
  case isTrue hHolds => exact (hFirst hHolds).bind fun b _ _ _ => h b
  case isFalse hFails => exact (hSecond hFails).bind fun b _ _ _ => h b

/-- What is only read under a condition is read by both or by neither. -/
theorem onlyIf {first : Reader Unit} {read : BitReader.Read Unit} {after : Unit → Reader α}
    {next : Unit → BitReader.Read α} (hFirst : Agrees first read) (h : Agrees (after ()) (next ())) :
    Agrees (if condition then first >>= after else after ())
      (if condition then read >>= next else next ()) := by
  split
  case isTrue => exact hFirst.bind fun _ _ _ _ => h
  case isFalse => exact h

end Agrees

namespace Build

variable {bits : Nat} (build : Build)

section Operations

def fit (bits value : Nat) : Machine Nat :=
  match build with
  | checked => Machine.fit bits value
  | wrapping => .ok (value % 2 ^ bits)

def add (bits a b : Nat) : Machine Nat :=
  build.fit bits (a + b)

def mul (bits a b : Nat) : Machine Nat :=
  build.fit bits (a * b)

/-- What is below zero is counted down from the end of the word. -/
def sub (bits a b : Nat) : Machine Nat :=
  match build with
  | checked => Machine.sub a b
  | wrapping => .ok ((2 ^ bits + a - b) % 2 ^ bits)

def fitSigned (bits : Nat) (value : Int) : Machine Int :=
  match build with
  | checked => Machine.fitSigned bits value
  | wrapping => .ok (value.bmod (2 ^ bits))

def addSigned (bits : Nat) (a b : Int) : Machine Int :=
  build.fitSigned bits (a + b)

def negate (bits : Nat) (a : Int) : Machine Int :=
  build.fitSigned bits (-a)

/-- In either build a value that fits its word stays as it is. -/
theorem fit_of_lt {value : Nat} (h : value < 2 ^ bits) : build.fit bits value = .ok value := by
  cases build with
  | checked => exact Machine.fit_of_lt h
  | wrapping => rw [fit, Nat.mod_eq_of_lt h]

theorem add_of_lt {a b : Nat} (h : a + b < 2 ^ bits) : build.add bits a b = .ok (a + b) :=
  build.fit_of_lt h

theorem mul_of_lt {a b : Nat} (h : a * b < 2 ^ bits) : build.mul bits a b = .ok (a * b) :=
  build.fit_of_lt h

theorem sub_of_le {a b : Nat} (h : b ≤ a) (hWord : a < 2 ^ bits) : build.sub bits a b = .ok (a - b) := by
  cases build with
  | checked => exact Machine.sub_of_le h
  | wrapping =>
      rw [sub, Nat.add_sub_assoc h, Nat.add_mod_left, Nat.mod_eq_of_lt (by omega)]

/-- A word has at least its sign. -/
theorem bmod_of_mem {value : Int} (hFrom : -2 ^ bits ≤ value) (hTill : value < 2 ^ bits) :
    value.bmod (2 ^ (bits + 1)) = value := by
  have hHalf : ((2 ^ (bits + 1) : Nat) : Int) = 2 * 2 ^ bits := by
    rw [Nat.pow_succ']
    norm_cast
  exact Int.bmod_eq_of_le (by omega) (by omega)

/-- In either build a signed value within its range stays as it is. -/
theorem fitSigned_of_mem {value : Int} (hFrom : -2 ^ bits ≤ value) (hTill : value < 2 ^ bits) :
    build.fitSigned (bits + 1) value = .ok value := by
  cases build with
  | checked => exact Machine.fitSigned_of_mem hFrom hTill
  | wrapping => rw [fitSigned, bmod_of_mem hFrom hTill]

end Operations

section Reading

/-- A signed code word, whose number is worked out in 64 bits and kept in 32. -/
def readSe : Reader Int := do
  let code ← readUe
  let magnitude := (← build.addSigned 64 code 1).tdiv 2
  let value ← if code % 2 = 1 then pure magnitude else build.negate 64 magnitude
  return value.bmod (2 ^ 32)

def skipBits (count : Nat) : Reader Unit := fun r => do
  if (← build.mul 64 8 r.data.size) - r.position < count then ofExcept (.error .endOfData)
  let position ← build.add 64 r.position count
  return ((), { r with position })

/-- The signed number of a code word, as a reader works it out. -/
def seValue (code : Nat) : Machine Int := do
  let magnitude := (← build.addSigned 64 code 1).tdiv 2
  let value ← if code % 2 = 1 then pure magnitude else build.negate 64 magnitude
  return value.bmod (2 ^ 32)

/-- The number of a code fits its word, and so does every number on the way to it. -/
theorem seValue_eq {code : Nat} (hLess : code + 1 < 2 ^ 32) :
    build.seValue code = .ok (BitReader.signed code) := by
  have hHalf : ((code : Int) + 1).tdiv 2 = (code + 1) / 2 := Int.tdiv_eq_ediv_of_nonneg (by omega)
  have hSum : build.addSigned 64 code 1 = .ok (code + 1) := build.fitSigned_of_mem (by omega) (by omega)
  rw [seValue, hSum, ok_bind, hHalf]
  dsimp only
  split
  case isTrue hOdd =>
    have hValue : ((code + 1 : Int) / 2).bmod (2 ^ 32) = BitReader.signed code := by
      rw [bmod_of_mem (by omega) (by omega), BitReader.signed, if_pos hOdd]
      rfl
    exact congrArg Except.ok hValue
  case isFalse hEven =>
    have hNegative : build.negate 64 ((code + 1 : Int) / 2) = .ok (-((code + 1) / 2)) :=
      build.fitSigned_of_mem (by omega) (by omega)
    have hValue : (-((code + 1 : Int) / 2)).bmod (2 ^ 32) = BitReader.signed code := by
      rw [bmod_of_mem (by omega) (by omega), BitReader.signed, if_neg hEven, Int.ofNat_eq_natCast]
      omega
    rw [hNegative]
    exact congrArg Except.ok hValue

/-- A signed code is an unsigned one, mapped to its value. -/
theorem readSe_eq : build.readSe = readUe >>= fun code => liftM (build.seValue code) := by
  refine congrArg (readUe >>= ·) (funext fun code => ?_)
  rw [seValue]
  cases build.addSigned 64 code 1 with
  | error halt => rfl
  | ok sum =>
      rw [lift_ok_bind, ok_bind]
      dsimp only
      split
      · rfl
      · cases build.negate 64 (sum.tdiv 2) <;> rfl

/-- In either build signed codes are read as on integers: no mapped value leaves its word. -/
theorem agrees_readSe : Agrees build.readSe BitReader.readSe := by
  rw [readSe_eq]
  exact Agrees.readUe.bind fun code r s hCode => .value (build.seValue_eq (BitReader.readUe_eq_ok hCode).1)

/-- In either build bits are skipped as on integers. -/
theorem agrees_skipBits (count : Nat) : Agrees (build.skipBits count) (BitReader.skipBits count) where
  eq := by
    intro r hSized
    have hSize := hSized.size
    have hWithin : r.position ≤ 8 * r.data.size := hSized.within
    rw [skipBits, BitReader.skipBits, build.mul_of_lt (by omega), ok_bind]
    by_cases hLeft : 8 * r.data.size - r.position < count
    · rw [if_pos hLeft, if_pos (show count > r.left from hLeft)]
      rfl
    · rw [if_neg hLeft, if_neg (show ¬ count > r.left from hLeft), build.add_of_lt (by omega)]
      rfl
  steady := .skipBits nofun count

/-- A number that is coded as one less. -/
theorem agrees_oneMore {α : Type} {after : Nat → Reader α} {next : Nat → BitReader.Read α}
    (hWide : 32 ≤ bits) (h : ∀ code, code + 1 < 2 ^ 32 → Agrees (after (code + 1)) (next code)) :
    Agrees (readUe >>= fun code => liftM (build.add bits code 1) >>= after)
      (BitReader.readUe >>= next) := by
  refine Agrees.readUe.bind fun code r s hCode => ?_
  have hLess : code + 1 < 2 ^ 32 := (BitReader.readUe_eq_ok hCode).1
  rw [build.add_of_lt (Nat.lt_of_lt_of_le hLess (Nat.pow_le_pow_right Nat.two_pos hWide)), lift_ok_bind]
  exact h code hLess

end Reading

end Build

/-- The result of a read from the start of some bytes. -/
def Reader.value? {α : Type} (read : Reader α) (data : Bytes) : Machine α := do
  let (value, _) ← read (BitReader.ofBytes data)
  return value

/-- A read on words that meets no hazard, and leaves the cursor on the data. -/
def Reader.Passes {α : Type} (machine : Reader α) : Prop :=
  ∀ r, Sized r → (∃ fault, machine r = .error (.fault fault)) ∨ ∃ a s, machine r = .ok (a, s) ∧ Sized s

section Passing

variable {α β : Type} {machine : Reader α} {after : α → Reader β} {read : BitReader.Read α}

/-- A reader that agrees with one on integers passes on cursors that lie within the data. -/
theorem Agrees.passes (h : Agrees machine read) : machine.Passes := by
  intro r hSized
  rw [h.eq r hSized]
  cases hRead : read r with
  | error fault s => exact .inl ⟨fault, rfl⟩
  | ok a s => exact .inr ⟨a, s, rfl, hSized.follows (h.steady.ok r a s hRead)⟩

/-- One reader behind another passes if both do, the second one for the values that the first can give. -/
theorem Reader.Passes.bind (first : machine.Passes)
    (later : ∀ r a s, Sized r → machine r = .ok (a, s) → (after a).Passes) :
    (machine >>= after).Passes := by
  intro r hSized
  rw [Reader.bind_apply]
  rcases first r hSized with ⟨fault, hFault⟩ | ⟨a, s, hOk, hNext⟩
  · rw [hFault]
    exact .inl ⟨fault, rfl⟩
  · rw [hOk]
    exact later r a s hSized hOk s hNext

/-- A whole read that meets no hazard ends with a value or with a fault. -/
theorem Reader.Passes.value? {data : Bytes} (h : machine.Passes) (hSize : data.length < 2 ^ 60) :
    ∃ result, machine.value? data = ofExcept result := by
  have hSized : Sized (BitReader.ofBytes data) := ⟨Nat.zero_le _, by simpa [BitReader.ofBytes]⟩
  rw [Reader.value?]
  rcases h _ hSized with ⟨fault, hFault⟩ | ⟨a, s, hOk, -⟩
  · rw [hFault]
    exact ⟨.error fault, rfl⟩
  · rw [hOk]
    exact ⟨.ok a, rfl⟩

end Passing

/-- A result on words that does not fit in some cases. A build with checks stops there, one without goes on
with another number, and the read of bits breaks off. -/
structure Computes {α : Type} (build : Build) (leaves : Prop) (result : Machine α) (read : BitReader.Read α) :
    Prop where
  stops : build = .checked → leaves → result = stop .overflow
  goesOn : build = .wrapping → ∃ a, result = .ok a
  breaksOff : leaves → read = throw .overflow
  value : ¬ leaves → ∃ a, result = .ok a ∧ read = pure a

/-- A number is computed in 32 bits, and has no word from 2 ^ 32 on. -/
theorem Computes.fit (build : Build) (value : Nat) :
    Computes build (2 ^ 32 ≤ value) (build.fit 32 value) (BitReader.fit value) where
  stops := by
    rintro rfl hLarge
    exact if_neg (Nat.not_lt.mpr hLarge)
  goesOn := by
    rintro rfl
    exact ⟨_, rfl⟩
  breaksOff hLarge := BitReader.fit_of_ge hLarge
  value hSmall :=
    ⟨value, build.fit_of_lt (Nat.not_le.mp hSmall), BitReader.fit_of_lt (Nat.not_le.mp hSmall)⟩

/-- A signed number that is not too small has no word from 2 ^ 31 on. -/
theorem Computes.fitSigned (build : Build) {value : Int} (hFrom : -2 ^ 31 ≤ value) :
    Computes build (2 ^ 31 ≤ value) (build.fitSigned 32 value) (BitReader.fitSigned value) where
  stops := by
    rintro rfl hLarge
    exact if_neg (by omega)
  goesOn := by
    rintro rfl
    exact ⟨_, rfl⟩
  breaksOff hLarge := BitReader.fitSigned_of_ge hLarge
  value hSmall :=
    ⟨value, build.fitSigned_of_mem hFrom (Int.not_le.mp hSmall),
      BitReader.fitSigned_of_mem hFrom (Int.not_le.mp hSmall)⟩

/-- A read on words gives what a read of bits gives, unless a result does not fit. Then the read of bits breaks
off and a build with checks stops, and one without goes on. Whether there is such a result depends on the bits
in front of the cursor. -/
structure AgreesUnless {α : Type} (build : Build) (leaves : List Bool → Prop) (machine : Reader α)
    (read : BitReader.Read α) : Prop where
  stops : build = .checked → ∀ r, Sized r → leaves r.rest → machine r = stop .overflow
  passes : build = .wrapping → machine.Passes
  breaksOff : ∀ r, (∃ s, read r = .error .overflow s) ↔ leaves r.rest
  eq : ∀ r, Sized r → ¬ leaves r.rest → machine r = outcome (read r)
  follows : ∀ r a s, read r = .ok a s → s.Follows r

/-- A read that always agrees leaves its words in no case. -/
theorem Agrees.unless {α : Type} {build : Build} {machine : Reader α} {read : BitReader.Read α}
    (h : Agrees machine read) : AgreesUnless build (fun _ => False) machine read where
  stops _ _ _ := False.elim
  passes _ := h.passes
  breaksOff r := iff_of_false (fun ⟨s, hRead⟩ => (h.steady.error r _ s hRead).2 rfl) id
  eq r hSized _ := h.eq r hSized
  follows := h.steady.ok

namespace AgreesUnless

variable {α β Item : Type} {build : Build} {leaves : List Bool → Prop} {machine : Reader α}
  {read : BitReader.Read α} {after : α → Reader β} {next : α → BitReader.Read β}

/-- Where a reader leaves its words may be said in any equivalent way. -/
theorem congr {other : List Bool → Prop} (h : AgreesUnless build leaves machine read)
    (hSame : ∀ word, leaves word ↔ other word) : AgreesUnless build other machine read := by
  obtain rfl : leaves = other := funext fun word => propext (hSame word)
  exact h

/-- What is read first meets no hazard. Whether the rest does is up to the bits behind it. -/
theorem behind {bits : Item → List Bool} {value : Item → α} {leaves : Item → List Bool → Prop}
    (first : Agrees machine read) (decodes : BitReader.Decodes read bits value)
    (later : ∀ item, AgreesUnless build (leaves item) (after (value item)) (next (value item))) :
    AgreesUnless build (fun word => ∃ item back, word = bits item ++ back ∧ leaves item back)
      (machine >>= after) (read >>= next) where
  stops := by
    rintro hBuild r hSized ⟨item, back, hWord, hLeaves⟩
    have hRead := decodes.reads item r back hWord
    have hNext := hSized.follows (first.steady.ok r _ _ hRead)
    rw [Reader.bind_apply, first.eq r hSized, hRead]
    exact (later item).stops hBuild _ hNext (BitReader.rest_advance hWord ▸ hLeaves)
  passes := by
    intro hBuild
    refine first.passes.bind fun r a s hSized hRun => ?_
    rw [first.eq r hSized] at hRun
    obtain ⟨item, rfl, -⟩ := decodes.exists_item (eq_ok_of_outcome hRun)
    exact (later item).passes hBuild
  breaksOff := by
    intro r
    constructor
    · rintro ⟨t, hBreaks⟩
      rcases BitReader.bind_eq_error.mp hBreaks with hFirst | ⟨a, s, hRead, hLater⟩
      · exact absurd rfl (first.steady.error r _ t hFirst).2
      · obtain ⟨item, rfl, hRest⟩ := decodes.exists_item hRead
        exact ⟨item, s.rest, hRest, ((later item).breaksOff s).mp ⟨t, hLater⟩⟩
    · rintro ⟨item, back, hWord, hLeaves⟩
      obtain ⟨t, hLater⟩ := ((later item).breaksOff _).mpr (BitReader.rest_advance hWord ▸ hLeaves)
      exact ⟨t, BitReader.bind_eq_error.mpr (.inr ⟨_, _, decodes.reads item r back hWord, hLater⟩)⟩
  eq := by
    intro r hSized hFits
    rw [Reader.bind_apply, outcome_bind, first.eq r hSized]
    cases hRead : read r with
    | error fault s => rfl
    | ok a s =>
        obtain ⟨item, rfl, hRest⟩ := decodes.exists_item hRead
        have hNext := hSized.follows (first.steady.ok r _ s hRead)
        exact (later item).eq s hNext fun hLeaves => hFits ⟨item, s.rest, hRest, hLeaves⟩
  follows := by
    intro r b t h
    obtain ⟨a, s, hRead, hNext⟩ := BitReader.bind_eq_ok.mp h
    obtain ⟨item, rfl, -⟩ := decodes.exists_item hRead
    exact ((later item).follows s b t hNext).trans (first.steady.ok r _ s hRead)

/-- What comes behind meets no hazard, whatever it goes on with. -/
theorem bind (first : AgreesUnless build leaves machine read) (later : ∀ a, Agrees (after a) (next a)) :
    AgreesUnless build leaves (machine >>= after) (read >>= next) where
  stops := by
    intro hBuild r hSized hLeaves
    rw [Reader.bind_apply, first.stops hBuild r hSized hLeaves]
    rfl
  passes hBuild := (first.passes hBuild).bind fun _ a _ _ _ => (later a).passes
  breaksOff := by
    intro r
    rw [← first.breaksOff r]
    constructor
    · rintro ⟨t, hBreaks⟩
      rcases BitReader.bind_eq_error.mp hBreaks with hFirst | ⟨a, s, -, hLater⟩
      · exact ⟨t, hFirst⟩
      · exact absurd rfl ((later a).steady.error s _ t hLater).2
    · rintro ⟨t, hFirst⟩
      exact ⟨t, BitReader.bind_eq_error.mpr (.inl hFirst)⟩
  eq := by
    intro r hSized hFits
    rw [Reader.bind_apply, outcome_bind, first.eq r hSized hFits]
    cases hRead : read r with
    | ok a s => exact (later a).eq s (hSized.follows (first.follows r a s hRead))
    | error fault s => rfl
  follows := by
    intro r b t h
    obtain ⟨a, s, hRead, hNext⟩ := BitReader.bind_eq_ok.mp h
    exact ((later a).steady.ok s b t hNext).trans (first.follows r a s hRead)

section Computing

variable {result : Machine α} {fails : Prop}

/-- A result is worked out that may not fit, and perhaps others behind it. -/
theorem compute (first : Computes build fails result read)
    (later : ∀ a, AgreesUnless build leaves (after a) (next a)) :
    AgreesUnless build (fun word => fails ∨ leaves word) (liftM result >>= after) (read >>= next) := by
  by_cases hFails : fails
  · have hThrow := first.breaksOff hFails
    refine ⟨?_, ?_, ?_, ?_, ?_⟩
    · intro hBuild r hSized _
      rw [first.stops hBuild hFails]
      rfl
    · intro hBuild
      obtain ⟨a, hResult⟩ := first.goesOn hBuild
      rw [hResult]
      exact (later a).passes hBuild
    · intro r
      rw [hThrow]
      exact iff_of_true ⟨r, rfl⟩ (.inl hFails)
    · intro r _ hFits
      exact absurd (.inl hFails) hFits
    · intro r b t hRead
      rw [hThrow] at hRead
      cases hRead
  · obtain ⟨a, hResult, hPure⟩ := first.value hFails
    rw [hResult, hPure, lift_ok_bind, pure_bind]
    exact (later a).congr fun word => (or_iff_right hFails).symm

/-- The last result that may not fit. -/
theorem last (first : Computes build fails result read) (later : ∀ a, Agrees (after a) (next a)) :
    AgreesUnless build (fun _ => fails) (liftM result >>= after) (read >>= next) :=
  (compute first fun a => (later a).unless).congr fun _ => or_iff_left id

end Computing

/-- Both readers check the same condition before they go on. -/
theorem guard {condition : Prop} [Decidable condition] {fault : Fault} {after : Unit → Reader β}
    {next : Unit → BitReader.Read β} (hData : fault.category = .invalidData)
    (h : ¬ condition → AgreesUnless build leaves (after ()) (next ())) :
    AgreesUnless build (fun word => ¬ condition ∧ leaves word)
      (if condition then liftM (ofExcept (.error fault) : Machine Unit) >>= after else after ())
      (if condition then throw fault >>= next else next ()) := by
  split
  case isTrue hHolds =>
    exact (Agrees.refused hData after next).unless.congr fun word =>
      iff_of_false id fun hPassed => hPassed.1 hHolds
  case isFalse hFails => exact (h hFails).congr fun word => (and_iff_right hFails).symm

end AgreesUnless

/-- What two builds and a read of bits make of some data. They come to the same, unless a result does not fit
its word. -/
structure DivergesIf {α : Type} (leaves : Prop) (machine : Build → Machine α) (result : Except Fault α) :
    Prop where
  /-- The builds return the same exactly where every result fits. -/
  same_iff : machine .checked = machine .wrapping ↔ ¬ leaves
  eq : ¬ leaves → ∀ build, machine build = ofExcept result
  stops_iff : machine .checked = stop .overflow ↔ leaves
  breaksOff_iff : result = .error .overflow ↔ leaves
  /-- Without checks the program goes on, to a value or to a fault. -/
  goesOn : ∃ other, machine .wrapping = ofExcept other

namespace DivergesIf

variable {α : Type} {leaves : Prop} {machine : Build → Machine α} {result : Except Fault α}

/-- A fault that is reported is never one of the hazards that stop a run. -/
theorem ofExcept_ne_stop (result : Except Fault α) (hazard : Hazard) : ofExcept result ≠ stop hazard := by
  cases result <;> nofun

/-- It is enough to know what the build with checks does where a result does not fit. -/
theorem of_stops (hStops : leaves → machine .checked = stop .overflow)
    (hBreaksOff : result = .error .overflow ↔ leaves) (hGoesOn : ∃ other, machine .wrapping = ofExcept other)
    (hEq : ¬ leaves → ∀ build, machine build = ofExcept result) : DivergesIf leaves machine result where
  same_iff := by
    constructor
    · intro hSame hLeaves
      obtain ⟨other, hOther⟩ := hGoesOn
      exact ofExcept_ne_stop other .overflow (hOther.symm.trans (hSame.symm.trans (hStops hLeaves)))
    · intro hFits
      rw [hEq hFits, hEq hFits]
  eq := hEq
  stops_iff := by
    refine ⟨fun hStop => ?_, hStops⟩
    by_contra hFits
    exact ofExcept_ne_stop result .overflow ((hEq hFits .checked).symm.trans hStop)
  breaksOff_iff := hBreaksOff
  goesOn := hGoesOn

/-- Data that is refused at once. -/
theorem refused {fault : Fault} (hFits : ¬ leaves) (hData : fault.category = .invalidData) :
    DivergesIf leaves (fun _ => ofExcept (.error fault)) (.error fault : Except Fault α) := by
  refine of_stops (fun hLeaves => absurd hLeaves hFits) (iff_of_false ?_ hFits) ⟨_, rfl⟩ fun _ _ => rfl
  intro hSame
  exact ne_overflow_of_category hData (Except.error.inj hSame)

end DivergesIf

/-- The two builds of a read of whole data diverge where a result does not fit. -/
theorem DivergesIf.value? {α : Type} {leaves : List Bool → Prop} {machine : Build → Reader α}
    {read : BitReader.Read α} (h : ∀ build, AgreesUnless build leaves (machine build) read) {data : Bytes}
    (hSize : data.length < 2 ^ 60) :
    DivergesIf (leaves (Bits.ofBytes data)) (fun build => (machine build).value? data) (read.value? data) := by
  have hSized : Sized (BitReader.ofBytes data) := ⟨Nat.zero_le _, by simpa [BitReader.ofBytes]⟩
  rw [← BitReader.rest_ofBytes]
  refine .of_stops ?_ ?_ (((h .wrapping).passes rfl).value? hSize) ?_
  · intro hLeaves
    rw [Reader.value?, (h .checked).stops rfl _ hSized hLeaves]
    rfl
  · rw [← (h .checked).breaksOff, BitReader.Read.value?]
    cases read (BitReader.ofBytes data) <;> simp
  · intro hFits build
    rw [Reader.value?, (h build).eq _ hSized hFits, BitReader.Read.value?]
    cases read (BitReader.ofBytes data) <;> rfl

end Cadence.Machine
