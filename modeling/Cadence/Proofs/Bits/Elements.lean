import Cadence.Bits.Written
import Cadence.Proofs.Bits.CodeWords

/-!
Sequences of syntax elements. Fields of any width, flags, code words, alignments and whole bytes may
follow each other in any order and start at any bit of a byte: a reader that knows their kinds reads
their values back, up to the last bit that was written (`readAll_writeAll`).
-/

namespace Cadence

open BitReader

/-- A syntax element with its value, if that can be read back. -/
inductive Element
  | field (width value : Nat) (width_le : width ≤ 32 := by decide)
  | flag (bit : Bool)
  | ue (value : Nat) (value_lt : value + 1 < 2 ^ 32 := by decide)
  | se (value : Int32) (lt_value : Int32.minValue < value := by decide)
  | align
  | bytes (data : Bytes)

namespace Element

/-- What has to be known of an element to read it. -/
inductive Kind
  | field (width : Nat)
  | flag
  | ue
  | se
  | align
  | bytes (count : Nat)
  deriving DecidableEq, Repr

/-- What is read. -/
inductive Value
  | number (value : Nat)
  | flag (bit : Bool)
  | integer (value : Int)
  | bytes (data : Bytes)
  | nothing
  deriving DecidableEq, Repr

def kind : Element → Kind
  | field width _ _ => .field width
  | flag _ => .flag
  | ue _ _ => .ue
  | se _ _ => .se
  | align => .align
  | bytes data => .bytes data.length

/-- The value of an element. A field keeps as much of a number as it has bits. -/
def value : Element → Value
  | field width value _ => .number (value % 2 ^ width)
  | flag bit => .flag bit
  | ue value _ => .number value
  | se value _ => .integer value.toInt
  | align => .nothing
  | bytes data => .bytes data

def write (w : BitWriter) : Element → BitWriter
  | field width value _ => w.writeBits value width
  | flag bit => w.writeBit bit
  | ue value _ => w.writeUe value
  | se value _ => w.writeSe value
  | align => w.align
  | bytes data => w.writeBytes data

/-- The number of bits from a place up to the next byte boundary. -/
def toBoundary (place : Nat) : Nat :=
  (8 - place % 8) % 8

/-- Whole bytes, which need not start at a byte boundary. -/
def readBytes : (count : Nat) → Read Bytes
  | 0 => return []
  | count + 1 => do
    let byte ← readBits 8
    return UInt8.ofNat byte :: (← readBytes count)

def Kind.read : Kind → Read Value
  | field width => return .number (← readBits width)
  | flag => return .flag (← readBit)
  | ue => return .number (← readUe)
  | se => return .integer (← readSe)
  | align => do
    skipBits (toBoundary (← get).position)
    return .nothing
  | bytes count => return .bytes (← readBytes count)

/-- Elements written one after the other. -/
def writeAll (elements : List Element) : BitWriter :=
  elements.foldl write .empty

/-- Elements read one after the other. -/
def readAll (kinds : List Kind) : Read (List Value) :=
  kinds.mapM Kind.read

/-- The bits of an element that stands behind `place` others. -/
def bits (place : Nat) : Element → List Bool
  | field width value _ => Bits.ofNat width value
  | flag bit => [bit]
  | ue value _ => Bits.ue value
  | se value _ => Bits.se value
  | align => List.replicate (toBoundary place) false
  | bytes data => Bits.ofBytes data

/-- The bits of elements that stand one behind the other. -/
def bitsOfAll : (place : Nat) → List Element → List Bool
  | _, [] => []
  | place, element :: elements =>
    element.bits place ++ bitsOfAll (place + (element.bits place).length) elements

theorem toBoundary_bitsWritten (w : BitWriter) : toBoundary w.bitsWritten = w.padding := by
  have := w.pending_lt
  rw [toBoundary, BitWriter.bitsWritten, BitWriter.padding]
  cases hPending : w.pending with
  | nil => simp
  | cons bit pending =>
      rw [hPending, List.length_cons] at this
      rw [List.isEmpty_cons, if_neg Bool.false_ne_true, List.length_cons]
      omega

/-- Writing an element puts its bits behind those that are there. -/
theorem bits_write (w : BitWriter) (element : Element) :
    (element.write w).bits = w.bits ++ element.bits w.bitsWritten := by
  cases element with
  | field width value _ => exact w.bits_writeBits value width
  | flag bit => exact w.bits_writeBit bit
  | ue value _ => exact w.bits_writeUe value
  | se value _ => exact w.bits_writeSe value
  | align => rw [bits, toBoundary_bitsWritten]; exact w.bits_align
  | bytes data => exact w.bits_writeBytes data

theorem bitsWritten_write (w : BitWriter) (element : Element) :
    (element.write w).bitsWritten = w.bitsWritten + (element.bits w.bitsWritten).length := by
  rw [← BitWriter.length_bits, bits_write, List.length_append, BitWriter.length_bits]

/-- Elements written one after the other put their bits behind each other, by induction over
them. -/
theorem bits_foldl_write (elements : List Element) (w : BitWriter) :
    (elements.foldl write w).bits = w.bits ++ bitsOfAll w.bitsWritten elements := by
  induction elements generalizing w with
  | nil => exact (List.append_nil _).symm
  | cons element elements ih =>
      rw [List.foldl_cons, ih, bits_write, bitsWritten_write, bitsOfAll, List.append_assoc]

theorem bits_writeAll (elements : List Element) :
    (writeAll elements).bits = bitsOfAll 0 elements :=
  bits_foldl_write elements .empty

section Reading

/-- Positive numbers take the odd codes, and only the smallest of all numbers has no code that fits. -/
theorem signed_seCode {value : Int32} (h : Int32.minValue < value) :
    (Bits.seCode value).toNat + 1 < 2 ^ 32 ∧ signed (Bits.seCode value).toNat = value.toInt := by
  have hFrom : -2 ^ 31 < value.toInt := Int32.lt_iff_toInt_lt.mp h
  have hTill : value.toInt ≤ 2 ^ 31 - 1 := value.toInt_le
  have hSign : value > 0 ↔ 0 < value.toInt := Int32.lt_iff_toInt_lt
  rw [Bits.seCode]
  by_cases hPos : 0 < value.toInt
  · rw [if_pos (hSign.mpr hPos), UInt32.toNat_ofNat_of_lt' (by rw [UInt32.size]; omega), signed,
      if_pos (by omega), Int.ofNat_eq_natCast]
    omega
  · rw [if_neg (mt hSign.mp hPos), UInt32.toNat_ofNat_of_lt' (by rw [UInt32.size]; omega), signed,
      if_neg (by omega), Int.ofNat_eq_natCast]
    omega

/-- A signed code is read back as its number, except for the least one. -/
theorem reads_se {value : Int32} (h : Int32.minValue < value) :
    Reads readSe (Bits.se value) value.toInt := by
  obtain ⟨hLess, hSigned⟩ := signed_seCode h
  rw [← hSigned]
  exact (Reads.readUe hLess).map signed

/-- Whole bytes are read back at any place, aligned or not. -/
theorem reads_bytes (data : Bytes) : Reads (readBytes data.length) (Bits.ofBytes data) data := by
  induction data with
  | nil => exact .pure []
  | cons byte data ih =>
      have hByte : Reads (readBits 8) (Bits.ofByte byte) byte.toNat := by
        have hRead := Reads.readNat (show 8 ≤ 32 by decide) byte.toNat
        rwa [Nat.mod_eq_of_lt byte.toNat_lt] at hRead
      refine @Reads.bind _ _ _ (fun byte => do return UInt8.ofNat byte :: (← readBytes data.length))
        _ _ _ _ hByte ?_
      rw [UInt8.ofNat_toNat]
      exact ih.map (byte :: ·)

/-- An element is read back where it was written. -/
theorem read_kind (element : Element) {r : BitReader} {back : List Bool}
    (h : r.rest = element.bits r.position ++ back) :
    element.kind.read r
      = .ok element.value { r with position := r.position + (element.bits r.position).length } := by
  cases element with
  | field width value hWidth => exact (Reads.readNat hWidth value).map Value.number r back h
  | flag bit => exact (Reads.readBit bit).map Value.flag r back h
  | ue value hValue => exact (Reads.readUe hValue).map Value.number r back h
  | se value hValue => exact (reads_se hValue).map Value.integer r back h
  | bytes data => exact (reads_bytes data).map Value.bytes r back h
  | align =>
      have hLeft : ¬ toBoundary r.position > r.left := by
        have hLength := congrArg List.length h
        rw [length_rest, List.length_append, bits, List.length_replicate] at hLength
        omega
      refine bind_eq_ok.mpr ⟨r, r, rfl, bind_eq_ok.mpr ⟨(), _, if_neg hLeft, ?_⟩⟩
      rw [bits, List.length_replicate]
      rfl

/-- Elements that follow each other are read back one after the other. -/
theorem readAll_map_kind (elements : List Element) {r : BitReader} {back : List Bool}
    (h : r.rest = bitsOfAll r.position elements ++ back) :
    readAll (elements.map kind) r = .ok (elements.map value)
      { r with position := r.position + (bitsOfAll r.position elements).length } := by
  induction elements generalizing r with
  | nil => rfl
  | cons element elements ih =>
      rw [bitsOfAll, List.append_assoc] at h
      have hRest := ih (rest_advance h)
      rw [readAll, List.map_cons, List.mapM_cons, List.map_cons, bitsOfAll, List.length_append,
        ← Nat.add_assoc]
      exact bind_eq_ok.mpr ⟨_, _, read_kind element h, bind_eq_ok.mpr ⟨_, _, hRest, rfl⟩⟩

/-- What was written is read back whole. Behind it there is less than a byte, which is zero. -/
theorem readAll_writeAll (elements : List Element) :
    ∃ s, readAll (elements.map kind) (ofBytes (writeAll elements).finish)
        = .ok (elements.map value) s ∧
      s.position = (writeAll elements).bitsWritten ∧ s.left < 8 ∧
      s.rest = List.replicate s.left false := by
  have hBits := (writeAll elements).ofBytes_finish
  rw [← rest_ofBytes] at hBits
  have hBehind := rest_advance hBits
  have hLeft := congrArg List.length hBehind
  rw [length_rest, List.length_replicate] at hLeft
  have hPlace : (ofBytes (writeAll elements).finish).position + (writeAll elements).bits.length
      = (writeAll elements).bitsWritten := by
    rw [BitWriter.length_bits]
    exact Nat.zero_add _
  rw [bits_writeAll] at hBits hBehind hLeft hPlace
  refine ⟨_, readAll_map_kind elements hBits, hPlace, ?_, ?_⟩
  · exact Nat.lt_of_le_of_lt (Nat.le_of_eq hLeft) (writeAll elements).padding_lt
  · exact hBehind.trans (congrArg (List.replicate · false) hLeft.symm)

example : (writeAll [.field 3 13, .ue 4, .se (-2), .align, .bytes [7]]).finish = [0xA5, 0x28, 7] := by
  decide

end Reading

end Element

end Cadence
