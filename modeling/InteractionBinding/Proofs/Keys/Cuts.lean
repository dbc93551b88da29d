import InteractionBinding.Proofs.Keys.Templates
/-!
# Cutting a text at its indices

The search for an index finds the leftmost one, and this one only (`nextIndex?_eq_some_iff`). A text
is cut by taking its leftmost index off it until none is left. This comes to an end for every text,
and leaves the one cut of the text at all of its indices (`isCut_iff`), from which the template and
the indices of a key are read (`cut_template_indices`).

## Main definitions

* `Segments.fill` — the text of a cut, with something in the place of each index.
* `Segments.IsCut` — the cut of a text at all of its indices.
* `Takes` — the rounds in which the leftmost index is taken off a text.
-/

namespace InteractionBinding.KeyTemplate

/-- The text of a cut, with what `mark` makes of its digits in the place of each index. -/
def Segments.fill (cut : Segments) (mark : List Char → List Char) : List Char :=
  cut.indexed.flatMap (fun (before, digits) => before ++ mark digits) ++ cut.last

/-- An index as it is written. -/
def bracketed (digits : List Char) : List Char := '[' :: digits ++ [']']

/-- A text is cut at indices, and at all that it has. -/
structure Segments.IsCut (cut : Segments) (s : List Char) : Prop where
  text : cut.fill bracketed = s
  numeral : ∀ piece ∈ cut.indexed, IsNumeral piece.2
  before : ∀ piece ∈ cut.indexed, ¬HasIndex piece.1
  last : ¬HasIndex cut.last

/-- The leftmost index is taken off a text, with what stands before it, until no index is left. -/
inductive Takes : List Char → Segments → Prop
  | done {s : List Char} (h : nextIndex? s = none) : Takes s ⟨[], s⟩
  | round {s before digits after : List Char} {cut : Segments}
      (h : nextIndex? s = some (before, digits, after)) (rest : Takes after cut) :
      Takes s ⟨(before, digits) :: cut.indexed, cut.last⟩

variable {s before digits after : List Char} {cut : Segments}

/-! ### The leftmost index -/

/-- What is found is the index before which no other one stands. -/
theorem nextIndex?_eq_some_iff : nextIndex? s = some (before, digits, after) ↔
    s = before ++ '[' :: digits ++ ']' :: after ∧ IsNumeral digits ∧ ¬HasIndex before := by
  constructor
  · exact fun h => ⟨eq_of_nextIndex? h, isNumeral_of_nextIndex? h, not_hasIndex_before h⟩
  rintro ⟨rfl, hdigits, hbefore⟩
  cases hnext : nextIndex? (before ++ '[' :: digits ++ ']' :: after) with
  | none => exact absurd ⟨before, digits, after, hdigits, rfl⟩ (nextIndex?_eq_none_iff.mp hnext)
  | some found =>
    obtain ⟨before', digits', after'⟩ := found
    have hdigits' := isNumeral_of_nextIndex? hnext
    -- of two indices, the one on the right would have the other one before it
    rcases bracket_cases hdigits.isInner hdigits'.isInner (eq_of_nextIndex? hnext) with
      ⟨rfl, rfl, rfl⟩ | ⟨middle, rfl, -⟩ | ⟨middle, rfl, -⟩
    · rfl
    · exact absurd ⟨before, digits, middle, hdigits, rfl⟩ (not_hasIndex_before hnext)
    · exact absurd ⟨before', digits', middle, hdigits', rfl⟩ hbefore

/-- A bracket that opens no index stands before the index, and one that closes none behind it. -/
example : nextIndex? "a[[1]2][3]".toList = some (['a', '['], ['1'], "2][3]".toList) := by decide

/-! ### The cut -/

theorem fill_cons (piece : List Char × List Char) (mark : List Char → List Char) :
    Segments.fill ⟨piece :: cut.indexed, cut.last⟩ mark =
      piece.1 ++ mark piece.2 ++ cut.fill mark := by
  simp [Segments.fill]

theorem takes_iff : Takes s cut ↔ cut = segments s := by
  constructor
  · intro h
    induction h with
    | done hnext => exact (segments_of_none hnext).symm
    | round hnext _ ih => rw [segments_of_some hnext, ih]
  · rintro rfl
    induction s using cut_induction with
    | plain s hnext =>
      rw [segments_of_none hnext]
      exact .done hnext
    | cut s before digits after hnext ih =>
      rw [segments_of_some hnext]
      exact .round hnext ih

/-- Taking indices off a text cuts it at all of them. -/
theorem Takes.isCut (h : Takes s cut) : cut.IsCut s := by
  induction h with
  | done hnext =>
    exact ⟨rfl, List.forall_mem_nil _, List.forall_mem_nil _, nextIndex?_eq_none_iff.mp hnext⟩
  | @round s before digits after cut hnext _ ih =>
    obtain ⟨hs, hdigits, hbefore⟩ := nextIndex?_eq_some_iff.mp hnext
    refine ⟨?_, List.forall_mem_cons.mpr ⟨hdigits, ih.numeral⟩,
      List.forall_mem_cons.mpr ⟨hbefore, ih.before⟩, ih.last⟩
    rw [fill_cons, ih.text, hs]
    simp [bracketed]

/-- A text has one cut, that which is left when its indices are taken off. -/
theorem takes_of_isCut (h : cut.IsCut s) : Takes s cut := by
  obtain ⟨pieces, last⟩ := cut
  induction pieces generalizing s with
  | nil =>
    obtain rfl : last = s := h.text
    exact .done (nextIndex?_eq_none_iff.mpr h.last)
  | cons piece pieces ih =>
    obtain ⟨hdigits, hnumeral⟩ := List.forall_mem_cons.mp h.numeral
    obtain ⟨hplain, hbefore⟩ := List.forall_mem_cons.mp h.before
    have hrest : Takes (Segments.fill ⟨pieces, last⟩ bracketed) ⟨pieces, last⟩ :=
      ih ⟨rfl, hnumeral, hbefore, h.last⟩
    refine .round (nextIndex?_eq_some_iff.mpr ⟨?_, hdigits, hplain⟩) hrest
    rw [← h.text, @fill_cons ⟨pieces, last⟩]
    simp [bracketed]

theorem isCut_iff : cut.IsCut s ↔ cut = segments s :=
  ⟨fun h => takes_iff.mp (takes_of_isCut h), fun h => (takes_iff.mpr h).isCut⟩

/-- An index takes up three characters at least. -/
theorem length_indexed_segments (s : List Char) : 3 * (segments s).indexed.length ≤ s.length := by
  induction s using cut_induction with
  | plain s hnext => simp [segments_of_none hnext]
  | cut s before digits after hnext ih =>
    obtain ⟨hs, hdigits, -⟩ := nextIndex?_eq_some_iff.mp hnext
    have hpositive : 0 < digits.length := List.length_pos_iff.mpr hdigits.ne_nil
    rw [segments_of_some hnext, hs]
    simp only [List.length_append, List.length_cons]
    omega

/-- The search in a key finds the index before which none stands, and nothing if the key has none.
Taking off one index after the other comes to an end, after no more rounds than a third of the
characters, and in one way. What it leaves is the one cut of the key at all of its indices, from
which its template and its indices are made. -/
theorem cut_template_indices (key : String) :
    (∀ before digits after, nextIndex? key.toList = some (before, digits, after) ↔
      key.toList = before ++ '[' :: digits ++ ']' :: after ∧ IsNumeral digits ∧
        ¬HasIndex before) ∧
    (nextIndex? key.toList = none ↔ ¬HasIndex key.toList) ∧
    ∃ cut : Segments, (∀ other, Takes key.toList other ↔ other = cut) ∧
      (∀ other : Segments, other.IsCut key.toList ↔ other = cut) ∧
      3 * cut.indexed.length ≤ key.toList.length ∧
      (template key).toList = cut.fill (fun _ => ['[', ']']) ∧
      (indices key).map String.toList = cut.indexed.map Prod.snd := by
  refine ⟨fun _ _ _ => nextIndex?_eq_some_iff, nextIndex?_eq_none_iff, segments key.toList,
    fun _ => takes_iff, fun _ => isCut_iff, length_indexed_segments _, ?_, ?_⟩
  · rw [template, String.toList_ofList]
    rfl
  · simp [indices, indicesChars, Function.comp_def]

end InteractionBinding.KeyTemplate
