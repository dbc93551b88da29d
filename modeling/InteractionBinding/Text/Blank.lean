/-!
# Blank characters

The characters of the Unicode property `White_Space`, and the two operations that rest on it:
trimming a text at both ends and splitting it into words.
-/

namespace InteractionBinding.Text

/-- Ranges of code points with the property `White_Space`, ends included. -/
def blankRanges : List (Nat × Nat) :=
  [(0x09, 0x0D), (0x20, 0x20), (0x85, 0x85), (0xA0, 0xA0), (0x1680, 0x1680), (0x2000, 0x200A),
    (0x2028, 0x2029), (0x202F, 0x202F), (0x205F, 0x205F), (0x3000, 0x3000)]

def isBlank (c : Char) : Bool :=
  blankRanges.any fun (low, high) => decide (low ≤ c.toNat) && decide (c.toNat ≤ high)

/-- The text without the blanks at its two ends. -/
def trimChars (cs : List Char) : List Char :=
  ((cs.dropWhile isBlank).reverse.dropWhile isBlank).reverse

@[inherit_doc trimChars]
def trim (s : String) : String := String.ofList (trimChars s.toList)

/-- The maximal runs of characters that are not blank. -/
def wordsOf : List Char → List (List Char)
  | [] => []
  | c :: rest =>
    if isBlank c then wordsOf rest
    else match rest, wordsOf rest with
      | [], _ => [[c]]
      | next :: _, words =>
        if isBlank next then [c] :: words
        else match words with
          | [] => [[c]]
          | word :: more => (c :: word) :: more

/-- The maximal runs of characters of `s` that are not blank. -/
def words (s : String) : List String := (wordsOf s.toList).map String.ofList

example : isBlank '\t' ∧ isBlank '\u3000' ∧ ¬ isBlank '\u200B' ∧ ¬ isBlank 'a' := by decide

example : wordsOf " ab  c ".toList = ["ab".toList, "c".toList] := by decide

end InteractionBinding.Text
