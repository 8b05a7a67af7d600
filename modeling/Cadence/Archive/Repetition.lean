import Cadence.Bits.Basic

/-!
Finding what stands in data before. Places with the same key are chained, and a search follows the
chain back for a limited number of looks.
-/

namespace Cadence.Archive

/-- Bytes that stand `distance` bytes before as well. -/
structure Repetition where
  length : Nat
  distance : Nat

namespace Repetition

/-- The number of bytes that may be repeated at once. -/
def maxLength : Nat := 258

/-- The size of the data that can be reached back to, with the bytes ahead. -/
def windowSize : Nat := 32768

/-- From this length on, fewer looks are spent on a longer repetition. -/
def goodLength : Nat := 32

/-- From this distance on, repetitions of three bytes are not worth it. -/
def farDistance : Nat := 8192

end Repetition

/-- The number of keys. -/
def keys : Nat := 32768

/-- The key of a place, by the three bytes there. -/
def key (a b c : UInt8) : Nat :=
  (a.toNat <<< 10 ^^^ b.toNat <<< 5 ^^^ c.toNat) % keys

/-- Places are told apart by their remainders. -/
def placeModulus : Nat := 65536

/-- Data with chains of its places. -/
structure Chained where
  data : Array UInt8
  /-- For each place the remainder of the last one before it with the same key. Zero ends a chain. -/
  earlier : Array Nat

namespace Chained

/-- The byte at a place. -/
def byte (chained : Chained) (place : Nat) : UInt8 :=
  chained.data.getD place 0

/-- Chains one more place. `latest` has the last place with each key. -/
def chain (data : Array UInt8) (earlier latest : Array Nat) (place : Nat) : Array Nat × Array Nat :=
  let key := key (data.getD place 0) (data.getD (place + 1) 0) (data.getD (place + 2) 0)
  (earlier.push (latest.getD key 0), latest.setIfInBounds key (place % placeModulus))

/-- Chains all places that have three bytes. -/
def ofBytes (bytes : Bytes) : Chained :=
  let data := bytes.toArray
  let (earlier, _) := (List.range (data.size - 2)).foldl
    (fun (earlier, latest) place => chain data earlier latest place)
    (#[], Array.replicate keys 0)
  ⟨data, earlier⟩

/-- The number of bytes from a place on that stand at another place too, up to `limit`. -/
def common (chained : Chained) : (limit here there : Nat) → Nat
  | 0, _, _ => 0
  | limit + 1, here, there =>
    if chained.byte here = chained.byte there then
      chained.common limit (here + 1) (there + 1) + 1
    else 0

/-- The number of bytes that can be repeated at a place. -/
def limit (chained : Chained) (here : Nat) : Nat :=
  min Repetition.maxLength (chained.data.size - here)

/-- How far back a repetition at a place may start. -/
def reach (chained : Chained) (here : Nat) : Nat :=
  min here (Repetition.windowSize - chained.limit here)

/-- The bytes that would have to follow a repetition for a longer one, and those before them, are the
same at both places. -/
def mayExceed (chained : Chained) (length here there : Nat) : Bool :=
  chained.byte (here + length) == chained.byte (there + length)
    && chained.byte (here + length - 1) == chained.byte (there + length - 1)

/-- The bytes at both places start alike. -/
def startAlike (chained : Chained) (here there : Nat) : Bool :=
  chained.byte here == chained.byte there && chained.byte (here + 1) == chained.byte (there + 1)

/-- Follows the chain from `place` on for a repetition longer than `best`. A place that may be better
takes the rest of three looks. -/
def search (chained : Chained) (here : Nat) :
    (looks place : Nat) → (best : Repetition) → Repetition
  | 0, _, best => best
  | looks + 1, place, best =>
    let earlier := chained.earlier.getD place 0
    let distance := (here + (placeModulus - earlier)) % placeModulus
    let place := here - distance
    if earlier = 0 ∨ distance > chained.reach here then best
    else if !chained.mayExceed best.length here place then chained.search here looks place best
    else if distance = 0 then best
    else if !chained.startAlike here place then chained.search here (looks / 3 * 3) place best
    else
      let length := chained.common (chained.limit here) here place
      if length ≤ best.length then chained.search here (looks / 3 * 3) place best
      else if length = chained.limit here then ⟨length, distance⟩
      else chained.search here (looks / 3 * 3) place ⟨length, distance⟩
termination_by looks => looks

/-- The number of looks for a repetition of more than `least` bytes. -/
def looks (least : Nat) : Nat :=
  if least < Repetition.goodLength then 129 else 33

/-- A repetition of more than `least` bytes at a place, if one is found. One from the start of a
window is not used. -/
def find? (chained : Chained) (here least : Nat) : Option Repetition :=
  if chained.limit here ≤ least then none
  else
    let found := chained.search here (looks least) here ⟨least, 0⟩
    if found.distance = 0 ∨ found.distance = here % Repetition.windowSize
        ∨ (found.length = 3 ∧ found.distance ≥ Repetition.farDistance) then none
    else some found

end Chained

end Cadence.Archive
