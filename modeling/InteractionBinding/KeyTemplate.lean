/-!
# Element keys of list items and their templates

The key of a list item carries the positions of the item as bracketed decimal indices, as in
`row[1].cell[4]`. Its template has a placeholder `[]` in the place of each index, as in
`row[].cell[]`. The indices of one key are filled into the placeholders of another one from left
to right, the `n`-th index into the `n`-th placeholder.

An index is a bracketed, non-empty run of ASCII digits. Other brackets are plain text.
-/

namespace InteractionBinding.KeyTemplate

/-- The digits of a complete index `[digits]` at the start of a text, and the text after it. -/
def indexAt? : List Char → Option (List Char × List Char)
  | '[' :: rest =>
    match rest.takeWhile Char.isDigit, rest.dropWhile Char.isDigit with
    | digit :: digits, ']' :: after => some (digit :: digits, after)
    | _, _ => none
  | _ => none

/-- The leftmost index of a text: the text before it, its digits and the text after it. -/
def nextIndex? : List Char → Option (List Char × List Char × List Char)
  | [] => none
  | c :: rest =>
    match indexAt? (c :: rest) with
    | some (digits, after) => some ([], digits, after)
    | none => (nextIndex? rest).map fun (before, digits, after) => (c :: before, digits, after)

theorem eq_of_indexAt? {s digits after : List Char} (h : indexAt? s = some (digits, after)) :
    s = '[' :: digits ++ ']' :: after := by
  unfold indexAt? at h
  split at h
  next rest =>
    split at h
    next d ds a htake hdrop =>
      obtain ⟨rfl, rfl⟩ := Prod.mk.inj (Option.some.inj h)
      rw [List.cons_append, ← htake, ← hdrop, List.takeWhile_append_dropWhile]
    next => cases h
  next => cases h

theorem eq_of_nextIndex? {s before digits after : List Char}
    (h : nextIndex? s = some (before, digits, after)) :
    s = before ++ '[' :: digits ++ ']' :: after := by
  induction s generalizing before with
  | nil => cases h
  | cons c rest ih =>
    unfold nextIndex? at h
    split at h
    next d a hat =>
      obtain ⟨rfl, hrest⟩ := Prod.mk.inj (Option.some.inj h)
      obtain ⟨rfl, rfl⟩ := Prod.mk.inj hrest
      exact eq_of_indexAt? hat
    next =>
      obtain ⟨⟨b, d, a⟩, hnext, heq⟩ := Option.map_eq_some_iff.mp h
      obtain ⟨rfl, hrest⟩ := Prod.mk.inj heq
      obtain ⟨rfl, rfl⟩ := Prod.mk.inj hrest
      rw [ih hnext]
      rfl

theorem length_lt_of_nextIndex? {s before digits after : List Char}
    (h : nextIndex? s = some (before, digits, after)) : after.length < s.length := by
  rw [eq_of_nextIndex? h]
  simp only [List.length_append, List.length_cons]
  omega

/-- A text cut at its indices: each index with the text between it and the one before it, and
the text after the last index. -/
structure Segments where
  indexed : List (List Char × List Char)
  last : List Char
deriving DecidableEq, Repr

/-- Cuts a text at its indices, from left to right. -/
def segments (s : List Char) : Segments :=
  match h : nextIndex? s with
  | none => ⟨[], s⟩
  | some (before, digits, after) =>
    have : after.length < s.length := length_lt_of_nextIndex? h
    let rest := segments after
    ⟨(before, digits) :: rest.indexed, rest.last⟩
termination_by s.length

/-- The text with a placeholder for each index. -/
def templateChars (s : List Char) : List Char :=
  let cut := segments s
  cut.indexed.flatMap (fun (before, _) => before ++ ['[', ']']) ++ cut.last

/-- The digits of the indices of a text, from left to right. -/
def indicesChars (s : List Char) : List (List Char) := (segments s).indexed.map Prod.snd

/-- Fills indices into the placeholders from left to right. Placeholders for which no index is
left stay. -/
def interpolateChars : List Char → List (List Char) → List Char
  | '[' :: ']' :: rest, index :: indices =>
    '[' :: index ++ ']' :: interpolateChars rest indices
  | c :: rest, indices => c :: interpolateChars rest indices
  | [], _ => []

/-- Whether a placeholder stands in the text. -/
def hasPlaceholder : List Char → Bool
  | '[' :: ']' :: _ => true
  | _ :: rest => hasPlaceholder rest
  | [] => false

/-- Whether a placeholder stands in the key. -/
def isTemplate (key : String) : Bool := hasPlaceholder key.toList

/-- The key with a placeholder for each of its indices. -/
def template (key : String) : String := String.ofList (templateChars key.toList)

/-- The indices of the key, as written, from left to right. -/
def indices (key : String) : List String := (indicesChars key.toList).map String.ofList

/-- Fills `indices` into the placeholders of `template` from left to right. -/
def interpolate (template : String) (indices : List String) : String :=
  String.ofList (interpolateChars template.toList (indices.map String.toList))

/-! ### Equations -/

theorem segments_of_none {s : List Char} (h : nextIndex? s = none) : segments s = ⟨[], s⟩ := by
  rw [segments]
  split
  next => rfl
  next _ _ _ hsome => rw [h] at hsome; cases hsome

theorem segments_of_some {s before digits after : List Char}
    (h : nextIndex? s = some (before, digits, after)) :
    segments s = ⟨(before, digits) :: (segments after).indexed, (segments after).last⟩ := by
  rw [segments]
  split
  next hnone => rw [h] at hnone; cases hnone
  next b d a hsome =>
    obtain ⟨rfl, hrest⟩ := Prod.mk.inj (Option.some.inj (h.symm.trans hsome))
    obtain ⟨rfl, rfl⟩ := Prod.mk.inj hrest
    rfl

/-- A key without indices is its own template. -/
theorem template_of_none {key : String} (h : nextIndex? key.toList = none) :
    template key = key := by
  simp [template, templateChars, segments_of_none h]

/-- Without indices nothing is filled in. -/
@[simp]
theorem interpolateChars_nil (s : List Char) : interpolateChars s [] = s := by
  induction s with
  | nil => rfl
  | cons c rest ih => simp [interpolateChars, ih]

@[simp]
theorem interpolate_nil (key : String) : interpolate key [] = key := by
  simp [interpolate]

end InteractionBinding.KeyTemplate
