import InteractionBinding.KeyTemplate
/-!
# Interaction ids

An interaction id names one effect of one interaction on one target: the target's key, the
effect's id and the position of the interaction among the accepted ones. It is written as
`target::effectId::index`, and read back from the right, so a target may contain the separator.
-/

namespace InteractionBinding

/-- The identity of an effect of an interaction on a target key. -/
@[ext]
structure InteractionId where
  target : String
  effectId : String
  index : Nat
deriving DecidableEq, Repr, Inhabited

namespace InteractionId

/-- The written form `target::effectId::index`. -/
def encode (id : InteractionId) : String :=
  id.target ++ "::" ++ id.effectId ++ "::" ++ toString id.index

/-- Cuts a text at its first separator `::`. -/
def cutSeparator? : List Char → Option (List Char × List Char)
  | [] => none
  | ':' :: ':' :: rest => some ([], rest)
  | c :: rest => (cutSeparator? rest).map fun (before, after) => (c :: before, after)

/-- The number written by decimal digits, the most significant one first. -/
def digitsValue (digits : List Char) : Nat :=
  digits.foldl (fun value digit => 10 * value + (digit.toNat - '0'.toNat)) 0

/-- The largest index. -/
def maxIndex : Nat := Nat.pow 2 64 - 1

/-- Reads a decimal numeral up to `maxIndex`. One plus sign may stand in front of it, and leading
zeros are allowed. -/
def parseIndex? (numeral : List Char) : Option Nat :=
  let digits := match numeral with
    | '+' :: rest => rest
    | other => other
  if digits.isEmpty || !digits.all Char.isDigit then none
  else if digitsValue digits ≤ maxIndex then some (digitsValue digits) else none

/-- Reads the written form. The index is what stands after the last separator and the effect id
what stands between the last two, both found from the right. -/
def decode? (s : String) : Option InteractionId := do
  let (index, front) ← cutSeparator? s.toList.reverse
  let (effectId, target) ← cutSeparator? front
  let index ← parseIndex? index.reverse
  return ⟨String.ofList target.reverse, String.ofList effectId.reverse, index⟩

/-- Fills indices into the placeholders of the target. -/
def interpolate (id : InteractionId) (indices : List String) : InteractionId :=
  { id with target := KeyTemplate.interpolate id.target indices }

@[simp]
theorem interpolate_nil (id : InteractionId) : id.interpolate [] = id := by
  simp [interpolate]

end InteractionId

end InteractionBinding
