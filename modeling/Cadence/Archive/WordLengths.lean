/-!
Lengths of words for symbols that are used more or less often. Trees of symbols are joined from the
rarest on; words that come out too long are then made shorter at the cost of others.
-/

namespace Cadence.Archive

/-- A tree of symbols: how often they are used together, and how far each of them is from its root. -/
structure Tree where
  weight : Nat
  depths : List Nat

namespace Tree

/-- Puts two trees under a new root. -/
def join (a b : Tree) : Tree :=
  ⟨a.weight + b.weight, (a.depths ++ b.depths).map (· + 1)⟩

/-- Puts a tree behind those that weigh no more. -/
def insert (tree : Tree) : List Tree → List Tree
  | [] => [tree]
  | other :: trees =>
    if other.weight ≤ tree.weight then other :: tree.insert trees else tree :: other :: trees

theorem length_insert (tree : Tree) (trees : List Tree) :
    (tree.insert trees).length = trees.length + 1 := by
  induction trees with
  | nil => rfl
  | cons other trees ih => rw [insert]; split <;> simp [ih]

/-- Joins trees, which are in the order of their weights, two by two into one, and gives its depths. -/
def joinAll (trees : List Tree) : List Nat :=
  match trees with
  | a :: b :: trees => joinAll ((a.join b).insert trees)
  | [tree] => tree.depths
  | [] => []
termination_by trees.length
decreasing_by simp [length_insert]

end Tree

/-- The numbers of words of some depths, for words of `most` bits and those that are too long, of one
bit less, and so on down to one bit. -/
def numbersOfWords (most : Nat) (depths : List Nat) : List Nat :=
  (List.range most).map fun missing => depths.countP fun depth => min most (max 1 depth) + missing = most

/-- How many words of the greatest length have the room that words take. -/
def roomOfWords (numbers : List Nat) : Nat :=
  numbers.foldr (fun number room => 2 * room + number) 0

/-- Makes two longer words of the longest word apart from those of the greatest length. -/
def lengthen : List Nat → List Nat
  | longer :: (number + 1) :: shorter => (longer + 2) :: number :: shorter
  | longer :: 0 :: shorter => longer :: lengthen (0 :: shorter)
  | numbers => numbers

/-- Gives up the room of one word of the greatest length. -/
def giveUp : List Nat → List Nat
  | longest :: shorter => lengthen ((longest - 1) :: shorter)
  | [] => []

/-- The lengths of words of at most `most` bits, for symbols that are used as often as `counts` says.
Symbols that are not used have no word, which is written as length zero. -/
def wordLengths (most : Nat) (counts : Array Nat) : List Nat :=
  let used := (counts.toList.zipIdx.filter fun entry => entry.1 ≠ 0).mergeSort
    fun a b => a.1 ≤ b.1
  let numbers := numbersOfWords most (Tree.joinAll (used.map fun entry => ⟨entry.1, [0]⟩))
  let numbers := Nat.repeat giveUp (roomOfWords numbers - 1 <<< most) numbers
  let lengths := numbers.zipIdx.flatMap fun entry => List.replicate entry.1 (most - entry.2)
  let longer := (used.zip lengths).foldl
    (fun lengths entry => lengths.setIfInBounds entry.1.2 entry.2) (Array.replicate counts.size 0)
  longer.toList

end Cadence.Archive
