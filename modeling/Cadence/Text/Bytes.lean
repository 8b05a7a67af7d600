/-!
Text as it is stored in UTF-8. Places in text are counted in bytes here, and lie between characters.
-/

namespace Cadence.Text

/-- The number of bytes that text takes. -/
def utf8Length : List Char → Nat
  | [] => 0
  | c :: text => c.utf8Size + utf8Length text

/-- The text behind its first `count` bytes. -/
def dropBytes : (count : Nat) → List Char → List Char
  | _, [] => []
  | count, c :: text => if count = 0 then c :: text else dropBytes (count - c.utf8Size) text

/-- The first `count` bytes of text. -/
def takeBytes : (count : Nat) → List Char → List Char
  | _, [] => []
  | count, c :: text => if count = 0 then [] else c :: takeBytes (count - c.utf8Size) text

end Cadence.Text
