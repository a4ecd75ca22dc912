/-!
# Parts of texts

What is left of a text without the blanks at its ends, the parts between its separators, of which there is one
more than separators, and what follows a marker in a text.
-/
namespace ReplicatedTable.Text

/-! ## Blanks -/

/-- Whether a character has the property `White_Space`. -/
def blankChar (c : Char) : Bool :=
  let n := c.toNat
  (9 ≤ n && n ≤ 13) || n == 0x20 || n == 0x85 || n == 0xA0 || n == 0x1680 ||
    (0x2000 ≤ n && n ≤ 0x200A) || n == 0x2028 || n == 0x2029 || n == 0x202F || n == 0x205F ||
    n == 0x3000

/-- A text without characters other than blanks. -/
def blank (s : String) : Bool := s.toList.all blankChar

/-- The characters between the blanks at the two ends. -/
def trimChars (cs : List Char) : List Char :=
  ((cs.dropWhile blankChar).reverse.dropWhile blankChar).reverse

def trim (s : String) : String := String.ofList (trimChars s.toList)

/-! ## Separators and markers -/

/-- The parts between the characters that satisfy a predicate. -/
def split (p : Char → Bool) : List Char → List (List Char)
  | [] => [[]]
  | c :: r =>
    if p c then [] :: split p r
    else
      match split p r with
      | [] => [[c]]
      | s :: ss => (c :: s) :: ss

/-- The parts of a string between the occurrences of a character. -/
def splitAt (separator : Char) (s : String) : List String :=
  (split (· == separator) s.toList).map String.ofList

/-- What follows the first occurrence of a marker. -/
def behind? (marker : List Char) : List Char → Option (List Char)
  | [] => if marker.isEmpty then some [] else none
  | c :: r => if marker.isPrefixOf (c :: r) then some ((c :: r).drop marker.length) else behind? marker r

theorem split_ne_nil (p : Char → Bool) (cs : List Char) : split p cs ≠ [] := by
  cases cs with
  | nil => simp [split]
  | cons c r =>
    rw [split]
    split
    · simp
    · split <;> simp

end ReplicatedTable.Text
