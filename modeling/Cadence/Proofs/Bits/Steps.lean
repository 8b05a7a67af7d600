import Cadence.Proofs.Bits.CutWords
import Cadence.Proofs.Bits.Elements

/-!
Reading step by step, with checks and choices. A reader that checks a value, or reads an element in some
streams only, reads a word like one that does neither, once it is known how the check ends (`Reads`).
Conversely, what has been read stood in the data: each element that is read is the word of its value, in
front of what is left (`Decodes`).
-/

namespace Cadence.BitReader

variable {α β : Type}

/-- A number that an unsigned code word can stand for. -/
abbrev Code := { value : Nat // value + 1 < 2 ^ 32 }

/-- A number that a signed code word can stand for. -/
abbrev SignedCode := { value : Int32 // Int32.minValue < value }

theorem SignedCode.toInt_range (code : SignedCode) :
    -2 ^ 31 < code.val.toInt ∧ code.val.toInt < 2 ^ 31 := by
  have hFrom : Int32.minValue.toInt < code.val.toInt := Int32.lt_iff_toInt_lt.mp code.property
  exact ⟨hFrom, code.val.toInt_lt⟩

theorem reads_byte (byte : UInt8) : Reads (readBits 8) (Bits.ofByte byte) byte.toNat := by
  have hRead := Reads.readNat (show 8 ≤ 32 by decide) byte.toNat
  rwa [Nat.mod_eq_of_lt byte.toNat_lt] at hRead

/-- Small numbers are kept in a word, and have a code. -/
theorem toInt_ofInt {value : Int} (h : -2 ^ 31 < value ∧ value < 2 ^ 31) :
    (Int32.ofInt value).toInt = value ∧ Int32.minValue < Int32.ofInt value := by
  have hValue : (Int32.ofInt value).toInt = value := Int32.toInt_ofInt_of_le (by omega) (by omega)
  refine ⟨hValue, ?_⟩
  rw [Int32.lt_iff_toInt_lt, hValue, Int32.toInt_minValue]
  omega

/-- A value that fits 32 bits is passed on. -/
theorem fit_of_lt {value : Nat} (h : value < 2 ^ 32) : fit value = pure value :=
  if_neg (Nat.not_le.mpr h)

/-- One that does not breaks the read off. -/
theorem fit_of_ge {value : Nat} (h : 2 ^ 32 ≤ value) : fit value = throw .overflow :=
  if_pos h

/-- A signed value that fits 32 bits is passed on. -/
theorem fitSigned_of_mem {value : Int} (hFrom : -2 ^ 31 ≤ value) (hTill : value < 2 ^ 31) :
    fitSigned value = pure value := by
  rw [fitSigned, Int32.toInt_minValue, Int32.toInt_maxValue, if_neg (by omega)]

/-- One that is too large breaks the read off. -/
theorem fitSigned_of_ge {value : Int} (h : 2 ^ 31 ≤ value) : fitSigned value = throw .overflow := by
  rw [fitSigned, Int32.toInt_minValue, Int32.toInt_maxValue, if_pos (by omega)]
  rfl

namespace Reads

variable {condition : Prop} [Decidable condition] {front word : List Bool} {a : α} {b : β}

theorem guard {fault : Fault} {next : Unit → Read α} (hPassed : ¬ condition)
    (h : Reads (next ()) word a) :
    Reads (if condition then throw fault >>= next else next ()) word a := by
  rwa [if_neg hPassed]

theorem onlyIf {first : Read Unit} {next : Unit → Read α} (hFirst : condition → Reads first front ())
    (hNone : ¬ condition → front = []) (h : Reads (next ()) word a) :
    Reads (if condition then first >>= next else next ()) (front ++ word) a := by
  split
  case isTrue hHolds => exact (hFirst hHolds).bind h
  case isFalse hFails => rwa [hNone hFails]

theorem either {first second : Read β} {next : β → Read α} (hFirst : condition → Reads first front b)
    (hSecond : ¬ condition → Reads second front b) (h : Reads (next b) word a) :
    Reads (if condition then first >>= next else second >>= next) (front ++ word) a := by
  split
  case isTrue hHolds => exact (hFirst hHolds).bind h
  case isFalse hFails => exact (hSecond hFails).bind h

/-- A number that has a word is kept, and no bit is looked at for it. -/
theorem fit {value : Nat} {next : Nat → Read α} (hFits : value < 2 ^ 32) (h : Reads (next value) word a) :
    Reads (BitReader.fit value >>= next) word a := by
  rwa [fit_of_lt hFits, pure_bind]

theorem fitSigned {value : Int} {next : Int → Read α} (hFrom : -2 ^ 31 ≤ value) (hTill : value < 2 ^ 31)
    (h : Reads (next value) word a) : Reads (BitReader.fitSigned value >>= next) word a := by
  rwa [fitSigned_of_mem hFrom hTill, pure_bind]

theorem readInt {value : Int} (h : -2 ^ 31 < value ∧ value < 2 ^ 31) :
    Reads readSe (Bits.se (Int32.ofInt value)) value := by
  obtain ⟨hValue, hLess⟩ := toInt_ofInt h
  have hRead := Element.reads_se hLess
  rwa [hValue] at hRead

theorem skipBits (word : List Bool) : Reads (BitReader.skipBits word.length) word () := by
  intro r back h
  have hLeft : ¬ word.length > r.left := by
    rw [← length_rest, h, List.length_append]
    omega
  exact if_neg hLeft

/-- Elements of one kind are skipped over, one word behind the other. -/
theorem skipEach {Item : Type} {read : Read α} {bits : Item → List Bool} {value : Item → α}
    (h : ∀ item, Reads read (bits item) (value item)) (items : List Item) :
    Reads (BitReader.skipMany read items.length) (items.flatMap bits) () := by
  induction items with
  | nil => exact pure ()
  | cons item items ih => exact (h item).bind ih

theorem skipOne {read : Read α} (h : Reads read word a) : Reads (BitReader.skipMany read 1) word () := by
  rw [← List.append_nil word]
  exact h.bind (pure ())

end Reads

section Cut

/-! A reader is cut in two between its steps. -/

variable {γ : Type} {back : γ → Read β}

theorem bind_cut {first : Read α} {next : α → Read β} {front : α → Read γ}
    (h : ∀ a, next a = front a >>= back) : first >>= next = (first >>= front) >>= back := by
  rw [bind_assoc]
  exact congrArg (first >>= ·) (funext h)

theorem guard_cut {condition : Prop} [Decidable condition] {fault : Fault} {next : Unit → Read β}
    {front : Unit → Read γ} (h : next () = front () >>= back) :
    (if condition then throw fault >>= next else next ())
      = (if condition then throw fault >>= front else front ()) >>= back := by
  split
  · rfl
  · exact h

theorem either_cut {condition : Prop} [Decidable condition] {first second : Read α}
    {next : α → Read β} {front : α → Read γ} (h : ∀ a, next a = front a >>= back) :
    (if condition then first >>= next else second >>= next)
      = (if condition then first >>= front else second >>= front) >>= back := by
  split <;> exact bind_cut h

end Cut

section Converse

variable {r s : BitReader}

theorem readBit_eq_ok {bit : Bool} (h : readBit r = .ok bit s) : r.rest = bit :: s.rest := by
  cases hRest : r.rest with
  | nil =>
      obtain ⟨t, hStop⟩ := Stops.readBit true r [true] (List.cons_ne_nil _ _) (by rw [hRest]; rfl)
      cases h.symm.trans hStop
  | cons first back =>
      obtain ⟨rfl, rfl⟩ := (Reads.readBit first).eq_of_ok hRest h
      rfl

theorem guard_eq_ok {condition : Prop} [Decidable condition] {fault : Fault} {next : Unit → Read α}
    {a : α} :
    (if condition then throw fault >>= next else next ()) r = .ok a s ↔
      ¬ condition ∧ next () r = .ok a s := by
  split
  case isTrue hHolds =>
    refine iff_of_false (fun h => ?_) fun h => h.1 hHolds
    obtain ⟨_, _, hThrow, _⟩ := bind_eq_ok.mp h
    cases hThrow
  case isFalse hFails => exact (and_iff_right hFails).symm

theorem either_eq_ok {condition : Prop} [Decidable condition] {first second : Read β}
    {next : β → Read α} {a : α} :
    (if condition then first >>= next else second >>= next) r = .ok a s ↔
      ∃ b t, (if condition then first else second) r = .ok b t ∧ next b t = .ok a s := by
  split <;> exact bind_eq_ok

theorem fitSigned_eq_ok {value kept : Int} (h : fitSigned value r = .ok kept s) : kept = value ∧ s = r := by
  unfold fitSigned at h
  obtain ⟨-, h⟩ := guard_eq_ok.mp h
  cases h
  exact ⟨rfl, rfl⟩

theorem exists_rest_eq {width : Nat} (h : width ≤ r.left) :
    ∃ word back, word.length = width ∧ r.rest = word ++ back :=
  ⟨r.rest.take width, r.rest.drop width, List.length_take_of_le (by rw [length_rest]; exact h),
    (List.take_append_drop ..).symm⟩

theorem rest_of_skipBits {count : Nat} (h : skipBits count r = .ok () s) :
    ∃ word : List Bool, word.length = count ∧ r.rest = word ++ s.rest := by
  have hLeft : count ≤ r.left := by
    unfold skipBits at h
    split at h
    case isTrue => cases h
    case isFalse hEnough => omega
  obtain ⟨word, back, rfl, hRest⟩ := exists_rest_eq hLeft
  obtain ⟨-, rfl⟩ := (Reads.skipBits word).eq_of_ok hRest h
  exact ⟨word, rfl, hRest⟩

/-- A number that is read stands at the cursor, in as many bits. -/
theorem rest_of_readBits {width value : Nat} (h : readBits width r = .ok value s) :
    value < 2 ^ width ∧ r.rest = Bits.ofNat width value ++ s.rest := by
  obtain ⟨hWidth, hLeft, _⟩ := readBits_eq_ok h
  obtain ⟨word, back, rfl, hRest⟩ := exists_rest_eq hLeft
  obtain ⟨rfl, rfl⟩ := (Reads.readBits hWidth).eq_of_ok hRest h
  exact ⟨Bits.toNat_lt word, by rw [Bits.ofNat_toNat, hRest]⟩

/-- An unsigned code that is read stands at the cursor. -/
theorem rest_of_readCode {code : Nat} (h : readUe r = .ok code s) :
    ∃ word : Code, word.val = code ∧ r.rest = Bits.ue word.val ++ s.rest := by
  obtain ⟨hLess, hRest, _⟩ := readUe_eq_ok h
  exact ⟨⟨code, hLess⟩, rfl, hRest⟩

theorem signed_injective : Function.Injective signed := by
  intro code other h
  simp only [signed, Int.ofNat_eq_natCast] at h
  split at h <;> split at h <;> omega

/-- Every code that fits a word is that of a signed number. -/
theorem exists_signedCode {code : Nat} (h : code + 1 < 2 ^ 32) :
    ∃ value : SignedCode, value.val.toInt = signed code ∧ (Bits.seCode value.val).toNat = code := by
  have hRange : -2 ^ 31 < signed code ∧ signed code < 2 ^ 31 := by
    simp only [signed, Int.ofNat_eq_natCast]
    split <;> omega
  obtain ⟨hValue, hLess⟩ := toInt_ofInt hRange
  refine ⟨⟨_, hLess⟩, hValue, signed_injective ?_⟩
  rw [(Element.signed_seCode hLess).2, hValue]

/-- A signed code that is read stands at the cursor. -/
theorem rest_of_readSe {value : Int} (h : readSe r = .ok value s) :
    ∃ code : SignedCode, code.val.toInt = value ∧ r.rest = Bits.se code.val ++ s.rest := by
  obtain ⟨code, t, hCode, hPure⟩ := bind_eq_ok.mp h
  cases hPure
  obtain ⟨hLess, hRest, _⟩ := readUe_eq_ok hCode
  obtain ⟨value, hSigned, hValue⟩ := exists_signedCode hLess
  exact ⟨value, hSigned, by rw [Bits.se, hValue, hRest]⟩

end Converse

/-- A read that takes the words of some items, and no others. -/
structure Decodes {Item : Type} (read : Read α) (bits : Item → List Bool) (value : Item → α) : Prop where
  reads : ∀ item, Reads read (bits item) (value item)
  exists_item : ∀ {r a s}, read r = .ok a s → ∃ item, value item = a ∧ r.rest = bits item ++ s.rest

namespace Decodes

theorem byte : Decodes (readBits 8) Bits.ofByte UInt8.toNat where
  reads := reads_byte
  exists_item := by
    intro r value s h
    obtain ⟨hLess, hRest⟩ := rest_of_readBits h
    have hValue : (UInt8.ofNat value).toNat = value := UInt8.toNat_ofNat_of_lt' hLess
    exact ⟨UInt8.ofNat value, hValue, by rw [hRest, Bits.ofByte, hValue]⟩

theorem code : Decodes readUe (fun code : Code => Bits.ue code.val) Subtype.val where
  reads code := .readUe code.property
  exists_item := rest_of_readCode

theorem signedCode :
    Decodes readSe (fun code : SignedCode => Bits.se code.val) (fun code => code.val.toInt) where
  reads code := Element.reads_se code.property
  exists_item := rest_of_readSe

variable {Item : Type} {read : Read α} {bits : Item → List Bool} {value : Item → α}

theorem skipOne (h : Decodes read bits value) : Decodes (skipMany read 1) bits fun _ => () where
  reads item := (h.reads item).skipOne
  exists_item := by
    intro r _ s hSkip
    obtain ⟨a, t, hRead, hEnd⟩ := bind_eq_ok.mp hSkip
    cases hEnd
    obtain ⟨item, -, hRest⟩ := h.exists_item hRead
    exact ⟨item, rfl, hRest⟩

/-- What is skipped over are items, one behind the other. -/
theorem exists_items (h : Decodes read bits value) {count : Nat} {r s : BitReader}
    (hSkip : skipMany read count r = .ok () s) :
    ∃ items : List Item, items.length = count ∧ r.rest = items.flatMap bits ++ s.rest := by
  induction count generalizing r with
  | zero =>
      cases hSkip
      exact ⟨[], rfl, rfl⟩
  | succ count ih =>
      obtain ⟨a, t, hFirst, hMore⟩ := bind_eq_ok.mp hSkip
      obtain ⟨item, -, hItem⟩ := h.exists_item hFirst
      obtain ⟨items, rfl, hItems⟩ := ih hMore
      exact ⟨item :: items, rfl, by rw [hItem, hItems, List.flatMap_cons, List.append_assoc]⟩

end Decodes

end Cadence.BitReader
