import Cadence.Bits.Basic

/-!
Searching for the start code 00 00 01. Four bytes are looked at together first, and only words that
hold a zero byte are searched byte by byte.
-/

namespace Cadence.Nal.StartCode

/-- The data begins with a start code. -/
def startsHere : Bytes → Bool
  | 0 :: 0 :: 1 :: _ => true
  | _ => false

/-- Four bytes as a word, the first one lowest. -/
def word (a b c d : UInt8) : UInt32 :=
  a.toUInt32 ||| b.toUInt32 <<< 8 ||| c.toUInt32 <<< 16 ||| d.toUInt32 <<< 24

/-- One of the four bytes of a word is zero: subtracting one from each byte turns on the top bit of a
byte that had it off only by borrowing. -/
def hasZeroByte (w : UInt32) : Bool :=
  (w - 0x01010101) &&& ~~~w &&& 0x80808080 != 0

/-- Index of the first start code, counted from `index` at the head of the data. -/
def search : (data : Bytes) → (index : Nat) → Option Nat
  | a :: b :: c :: d :: rest, index =>
    if hasZeroByte (word a b c d) then
      if startsHere (a :: b :: c :: d :: rest) then some index
      else if startsHere (b :: c :: d :: rest) then some (index + 1)
      else if startsHere (c :: d :: rest) then some (index + 2)
      else if startsHere (d :: rest) then some (index + 3)
      else search rest (index + 4)
    else search rest (index + 4)
  | tail, index => if startsHere tail then some index else none

/-- Index of the first start code in the data. -/
def find? (data : Bytes) : Option Nat :=
  search data 0

private theorem search_lt (data : Bytes) (start index : Nat) (h : search data start = some index) :
    index < start + data.length := by
  fun_induction search data start with
  | case1 => simp_all
  | case2 => simp_all; omega
  | case3 => simp_all; omega
  | case4 => simp_all; omega
  | case5 a b c d rest start _ _ _ _ _ ih => have := ih h; simp; omega
  | case6 a b c d rest start _ ih => have := ih h; simp; omega
  | case7 tail start _ hHere =>
      cases tail with
      | nil => simp [startsHere] at hHere
      | cons => simp_all
  | case8 => simp at h

/-- A start code that is found lies within the data. -/
theorem find?_lt {data : Bytes} {index : Nat} (h : find? data = some index) :
    index < data.length := by
  simpa using search_lt data 0 index h

end Cadence.Nal.StartCode
