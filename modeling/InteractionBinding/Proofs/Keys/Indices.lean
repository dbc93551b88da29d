import InteractionBinding.KeyTemplate
/-!
# Indices and placeholders of a key

An index is a numeral in brackets. The search for the leftmost index finds one whenever there is one
(`nextIndex?_eq_none_iff`), and what stands before it has none (`not_hasIndex_before`). Two pairs of
brackets with no brackets in between never overlap (`bracket_cases`). Indices and placeholders `[]`
are such pairs, so a placeholder of a key stands before or behind its leftmost index as a whole
(`placeholder_cases`).

## Main definitions

* `KeyTemplate.IsNumeral` — a run of digits.
* `KeyTemplate.HasIndex` — a text with an index somewhere.
* `KeyTemplate.IsInner` — what stands in a pair of brackets without brackets of its own.
-/

namespace InteractionBinding.KeyTemplate

/-- A non-empty run of digits. -/
structure IsNumeral (digits : List Char) : Prop where
  ne_nil : digits ≠ []
  isDigit : ∀ c ∈ digits, c.isDigit = true

/-- An index stands somewhere in a text. -/
def HasIndex (s : List Char) : Prop :=
  ∃ before digits after, IsNumeral digits ∧ s = before ++ '[' :: digits ++ ']' :: after

/-- A text without brackets. -/
structure IsInner (inner : List Char) : Prop where
  opening : '[' ∉ inner
  closing : ']' ∉ inner

variable {s rest before digits after : List Char}

theorem IsNumeral.not_mem (h : IsNumeral digits) {c : Char} (hc : c.isDigit = false) :
    c ∉ digits :=
  fun hmem => Bool.false_ne_true (hc.symm.trans (h.isDigit c hmem))

theorem IsNumeral.isInner (h : IsNumeral digits) : IsInner digits :=
  ⟨h.not_mem (by decide), h.not_mem (by decide)⟩

theorem isInner_nil : IsInner [] := ⟨List.not_mem_nil, List.not_mem_nil⟩

/-- What is added before or behind a text takes no index away. -/
theorem HasIndex.append (h : HasIndex s) (before after : List Char) :
    HasIndex (before ++ s ++ after) := by
  obtain ⟨front, digits, back, hdigits, rfl⟩ := h
  exact ⟨before ++ front, digits, back ++ after, hdigits, by simp⟩

/-! ### The search for an index -/

theorem indexAt?_of_isNumeral (h : IsNumeral digits) (after : List Char) :
    indexAt? ('[' :: digits ++ ']' :: after) = some (digits, after) := by
  have htake : (digits ++ ']' :: after).takeWhile Char.isDigit = digits := by
    rw [List.takeWhile_append_of_pos h.isDigit]
    exact List.append_nil digits
  have hdrop : (digits ++ ']' :: after).dropWhile Char.isDigit = ']' :: after :=
    List.dropWhile_append_of_pos h.isDigit
  obtain ⟨digit, more, rfl⟩ := List.exists_cons_of_ne_nil h.ne_nil
  simp only [List.cons_append] at htake hdrop ⊢
  simp only [indexAt?, htake, hdrop]

theorem indexAt?_of_ne {c : Char} (h : c ≠ '[') (rest : List Char) :
    indexAt? (c :: rest) = none := by
  unfold indexAt?
  split
  next heq => exact absurd (List.cons.inj heq).1 h
  next => rfl

theorem isNumeral_of_indexAt? (h : indexAt? s = some (digits, after)) : IsNumeral digits := by
  unfold indexAt? at h
  split at h
  next rest =>
    split at h
    next digit more a htake hdrop =>
      obtain ⟨rfl, rfl⟩ := Prod.mk.inj (Option.some.inj h)
      have hall : (rest.takeWhile Char.isDigit).all Char.isDigit = true := List.all_takeWhile
      rw [htake] at hall
      exact ⟨List.cons_ne_nil _ _, List.all_eq_true.mp hall⟩
    next => cases h
  next => cases h

theorem isNumeral_of_nextIndex? (h : nextIndex? s = some (before, digits, after)) :
    IsNumeral digits := by
  induction s generalizing before with
  | nil => cases h
  | cons c rest ih =>
    unfold nextIndex? at h
    split at h
    next d a hat =>
      obtain ⟨-, hrest⟩ := Prod.mk.inj (Option.some.inj h)
      obtain ⟨rfl, -⟩ := Prod.mk.inj hrest
      exact isNumeral_of_indexAt? hat
    next =>
      obtain ⟨⟨b, d, a⟩, hnext, heq⟩ := Option.map_eq_some_iff.mp h
      obtain ⟨-, hrest⟩ := Prod.mk.inj heq
      obtain ⟨rfl, rfl⟩ := Prod.mk.inj hrest
      exact ih hnext

/-- An index is found in every text that has one. -/
theorem nextIndex?_isSome (h : IsNumeral digits) (before after : List Char) :
    (nextIndex? (before ++ '[' :: digits ++ ']' :: after)).isSome := by
  induction before with
  | nil =>
    rw [List.nil_append, List.cons_append, nextIndex?, ← List.cons_append,
      indexAt?_of_isNumeral h]
    rfl
  | cons c rest ih =>
    rw [List.cons_append, List.cons_append, nextIndex?]
    split
    · rfl
    · rw [Option.isSome_map]
      exact ih

theorem nextIndex?_eq_none_iff : nextIndex? s = none ↔ ¬HasIndex s := by
  constructor
  · rintro hnone ⟨before, digits, after, hdigits, rfl⟩
    have hsome := nextIndex?_isSome hdigits before after
    rw [hnone] at hsome
    cases hsome
  · intro h
    cases hnext : nextIndex? s with
    | none => rfl
    | some cut =>
      obtain ⟨before, digits, after⟩ := cut
      exact absurd ⟨before, digits, after, isNumeral_of_nextIndex? hnext, eq_of_nextIndex? hnext⟩ h

/-- A text that begins with an index has this as its leftmost one. -/
theorem nextIndex?_index (h : IsNumeral digits) (after : List Char) :
    nextIndex? ('[' :: digits ++ ']' :: after) = some ([], digits, after) := by
  rw [List.cons_append, nextIndex?, ← List.cons_append, indexAt?_of_isNumeral h]

theorem nextIndex?_cons {c : Char} (h : indexAt? (c :: s) = none) :
    nextIndex? (c :: s) =
      (nextIndex? s).map fun (before, digits, after) => (c :: before, digits, after) := by
  rw [nextIndex?, h]

/-- No index stands before the leftmost one. -/
theorem not_hasIndex_before (h : nextIndex? s = some (before, digits, after)) :
    ¬HasIndex before := by
  rw [← nextIndex?_eq_none_iff]
  have hs := eq_of_nextIndex? h
  induction s generalizing before with
  | nil => cases h
  | cons c rest ih =>
    cases hat : indexAt? (c :: rest) with
    | some cut =>
      rw [nextIndex?, hat] at h
      obtain ⟨rfl, -⟩ := Prod.mk.inj (Option.some.inj h)
      rfl
    | none =>
      rw [nextIndex?_cons hat] at h
      obtain ⟨⟨front, d, a⟩, hnext, heq⟩ := Option.map_eq_some_iff.mp h
      obtain ⟨rfl, hrest⟩ := Prod.mk.inj heq
      obtain ⟨rfl, rfl⟩ := Prod.mk.inj hrest
      -- an index at the start of what stands before would be one at the start of the text
      have hstart : indexAt? (c :: front) = none := by
        refine Option.eq_none_iff_forall_ne_some.mpr fun found hfound => ?_
        obtain ⟨digits, back⟩ := found
        have hsome := indexAt?_of_isNumeral (isNumeral_of_indexAt? hfound)
          (back ++ '[' :: d ++ ']' :: a)
        rw [hs, eq_of_indexAt? hfound] at hat
        simp only [List.append_assoc, List.cons_append] at hat hsome
        cases hat.symm.trans hsome
      rw [nextIndex?_cons hstart, ih hnext (eq_of_nextIndex? hnext), Option.map_none]

/-! ### Pairs of brackets -/

/-- What stands before the first of a character in a text, and what stands behind it. -/
theorem eq_of_append_cons_eq {c : Char} {front front' back back' : List Char} (h : c ∉ front)
    (h' : c ∉ front') (heq : front ++ c :: back = front' ++ c :: back') :
    front = front' ∧ back = back' := by
  rcases List.append_eq_append_iff.mp heq with ⟨part, rfl, hpart⟩ | ⟨part, rfl, hpart⟩ <;>
    rcases List.cons_eq_append_iff.mp hpart with ⟨rfl, hback⟩ | ⟨more, rfl, -⟩
  · exact ⟨(List.append_nil _).symm, (List.cons.inj hback).2.symm⟩
  · exact absurd (List.mem_append_right front List.mem_cons_self) h'
  · exact ⟨List.append_nil _, (List.cons.inj hback).2⟩
  · exact absurd (List.mem_append_right front' List.mem_cons_self) h

/-- Of two pairs of brackets without brackets in between, the one that opens first is the other one
or closes before it. -/
theorem bracket_first {inner inner' part after' : List Char} (h : IsInner inner)
    (h' : IsInner inner')
    (heq : '[' :: inner ++ ']' :: after = part ++ '[' :: inner' ++ ']' :: after') :
    (part = [] ∧ inner = inner' ∧ after = after') ∨
      ∃ middle, part = '[' :: inner ++ ']' :: middle ∧
        after = middle ++ '[' :: inner' ++ ']' :: after' := by
  simp only [List.cons_append, List.append_assoc] at heq
  cases part with
  | nil =>
    exact .inl ⟨rfl, eq_of_append_cons_eq h.closing h'.closing (List.cons.inj heq).2⟩
  | cons c part =>
    obtain ⟨rfl, htail⟩ := List.cons.inj heq
    rcases List.append_eq_append_iff.mp htail with ⟨tail, rfl, hclosing⟩ | ⟨tail, rfl, hopening⟩
    · rcases List.cons_eq_append_iff.mp hclosing with ⟨-, hsame⟩ | ⟨middle, rfl, hafter⟩
      · exact absurd (List.cons.inj hsame).1 (by decide)
      · exact .inr ⟨middle, rfl, by simp [hafter]⟩
    -- the other pair would open in between
    · rcases List.cons_eq_append_iff.mp hopening with ⟨-, hsame⟩ | ⟨middle, rfl, -⟩
      · exact absurd (List.cons.inj hsame).1 (by decide)
      · exact absurd (List.mem_append_right part List.mem_cons_self) h.opening

/-- Two pairs of brackets without brackets in between are the same pair, or one stands before the
other. -/
theorem bracket_cases {inner inner' before' after' : List Char} (h : IsInner inner)
    (h' : IsInner inner')
    (heq : before ++ '[' :: inner ++ ']' :: after = before' ++ '[' :: inner' ++ ']' :: after') :
    (before = before' ∧ inner = inner' ∧ after = after') ∨
      (∃ middle, before' = before ++ '[' :: inner ++ ']' :: middle ∧
        after = middle ++ '[' :: inner' ++ ']' :: after') ∨
      ∃ middle, before = before' ++ '[' :: inner' ++ ']' :: middle ∧
        after' = middle ++ '[' :: inner ++ ']' :: after := by
  rw [List.append_assoc, List.append_assoc] at heq
  rcases List.append_eq_append_iff.mp heq with ⟨part, rfl, hpart⟩ | ⟨part, rfl, hpart⟩
  · rcases bracket_first h h' (by rw [List.append_assoc, hpart]) with
      ⟨rfl, hinner, hafter⟩ | ⟨middle, rfl, hafter⟩
    · exact .inl ⟨(List.append_nil _).symm, hinner, hafter⟩
    · exact .inr (.inl ⟨middle, by simp, hafter⟩)
  · rcases bracket_first h' h (by rw [List.append_assoc, hpart]) with
      ⟨rfl, hinner, hafter⟩ | ⟨middle, rfl, hafter⟩
    · exact .inl ⟨List.append_nil _, hinner.symm, hafter.symm⟩
    · exact .inr (.inr ⟨middle, by simp, hafter⟩)

/-! ### Placeholders -/

theorem hasPlaceholder_iff :
    hasPlaceholder s = true ↔ ∃ front back, s = front ++ '[' :: ']' :: back := by
  constructor
  · intro h
    fun_induction hasPlaceholder s with
    | case1 back => exact ⟨[], back, rfl⟩
    | case2 c rest _ ih =>
      obtain ⟨front, back, rfl⟩ := ih h
      exact ⟨c :: front, back, rfl⟩
    | case3 => cases h
  · rintro ⟨front, back, rfl⟩
    induction front with
    | nil => rfl
    | cons c front ih =>
      rw [List.cons_append]
      unfold hasPlaceholder
      split
      · rfl
      next heq =>
        obtain ⟨-, rfl⟩ := List.cons.inj heq
        exact ih
      next heq => cases heq

/-- A placeholder stands before or behind an index. -/
theorem placeholder_cases (h : IsNumeral digits) {front back : List Char}
    (heq : before ++ '[' :: digits ++ ']' :: after = front ++ '[' :: ']' :: back) :
    hasPlaceholder before = true ∨
      ∃ middle, front = before ++ '[' :: digits ++ ']' :: middle ∧
        after = middle ++ '[' :: ']' :: back := by
  have hpairs : before ++ '[' :: digits ++ ']' :: after = front ++ '[' :: [] ++ ']' :: back := by
    rw [heq, List.append_assoc]
    rfl
  rcases bracket_cases h.isInner isInner_nil hpairs with
    ⟨-, hnil, -⟩ | ⟨middle, hfront, hafter⟩ | ⟨middle, hbefore, -⟩
  · exact absurd hnil h.ne_nil
  · exact .inr ⟨middle, hfront, by rw [hafter, List.append_assoc]; rfl⟩
  · exact .inl (hasPlaceholder_iff.mpr ⟨front, middle, by rw [hbefore, List.append_assoc]; rfl⟩)

end InteractionBinding.KeyTemplate
