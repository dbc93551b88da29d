import InteractionBinding.Proofs.Keys.Indices
/-!
# Keys and their templates

A key is cut at its indices, each of which leaves a placeholder in the template
(`templateChars_of_nextIndex?`), so a template has the placeholders of its key and one for each
index (`placeholderCount_template`). Filling the indices of a key into its template restores the key
unless a placeholder of the key itself takes an index, which it does when an index stands behind it
(`interpolate_template_indices_iff`).

The other way round, a key without indices is the template of what indices make of it, and they are
read back (`cut_interpolate`).
-/

namespace InteractionBinding.KeyTemplate

/-- A placeholder stands in a text, and an index somewhere behind it. -/
def PlaceholderBeforeIndex (s : List Char) : Prop :=
  ∃ front middle digits back, IsNumeral digits ∧
    s = front ++ '[' :: ']' :: middle ++ '[' :: digits ++ ']' :: back

/-- The number of placeholders in a text. -/
def placeholderCount : List Char → Nat
  | '[' :: ']' :: rest => placeholderCount rest + 1
  | _ :: rest => placeholderCount rest
  | [] => 0

variable {s before digits after rest : List Char}

/-! ### Cutting a text at its indices -/

/-- What holds of texts without an index, and of a text if it holds behind its leftmost index,
holds of all texts. -/
theorem cut_induction {motive : List Char → Prop}
    (plain : ∀ s, nextIndex? s = none → motive s)
    (cut : ∀ s before digits after, nextIndex? s = some (before, digits, after) →
      motive after → motive s) (s : List Char) : motive s := by
  induction s using segments.induct with
  | case1 s hnext => exact plain s hnext
  | case2 s before digits after hnext _ ih => exact cut s before digits after hnext ih

theorem templateChars_of_none (h : nextIndex? s = none) : templateChars s = s := by
  simp [templateChars, segments_of_none h]

theorem templateChars_of_nextIndex? (h : nextIndex? s = some (before, digits, after)) :
    templateChars s = before ++ '[' :: ']' :: templateChars after := by
  simp [templateChars, segments_of_some h]

theorem indicesChars_of_none (h : nextIndex? s = none) : indicesChars s = [] := by
  simp [indicesChars, segments_of_none h]

theorem indicesChars_of_nextIndex? (h : nextIndex? s = some (before, digits, after)) :
    indicesChars s = digits :: indicesChars after := by
  simp [indicesChars, segments_of_some h]

/-! ### Counting placeholders -/

theorem placeholderCount_cons_of_ne {c : Char} (h : c ≠ '[') (rest : List Char) :
    placeholderCount (c :: rest) = placeholderCount rest := by
  rw [placeholderCount]
  intro back hc
  exact absurd hc h

theorem placeholderCount_append_of_not_mem (h : '[' ∉ before) (rest : List Char) :
    placeholderCount (before ++ rest) = placeholderCount rest := by
  induction before with
  | nil => rfl
  | cons c front ih =>
    obtain ⟨hc, hfront⟩ := not_or.mp (mt List.mem_cons.mpr h)
    rw [List.cons_append, placeholderCount_cons_of_ne (Ne.symm hc), ih hfront]

/-- A bracket behind a text that does not begin with a placeholder makes no placeholder of its
beginning. -/
theorem not_placeholder_append {c : Char} {front : List Char}
    (h : ∀ back, c = '[' → front = ']' :: back → False) (rest : List Char) :
    ∀ back, c = '[' → front ++ '[' :: rest = ']' :: back → False := by
  intro back hc hback
  cases front with
  | nil => exact absurd (List.cons.inj hback).1 (by decide)
  | cons d front => exact h front hc (by rw [(List.cons.inj hback).1])

theorem placeholderCount_append_cons (before rest : List Char) :
    placeholderCount (before ++ '[' :: rest) =
      placeholderCount before + placeholderCount ('[' :: rest) := by
  fun_induction placeholderCount before with
  | case1 front ih =>
    rw [List.cons_append, List.cons_append, placeholderCount, ih]
    omega
  | case2 c front hno ih =>
    rw [List.cons_append, placeholderCount, ih]
    exact not_placeholder_append hno rest
  | case3 => rw [List.nil_append, Nat.zero_add]

/-- An index is no placeholder and holds none. -/
theorem placeholderCount_index (h : IsNumeral digits) (after : List Char) :
    placeholderCount ('[' :: digits ++ ']' :: after) = placeholderCount after := by
  have hfirst : placeholderCount ('[' :: digits ++ ']' :: after) =
      placeholderCount (digits ++ ']' :: after) := by
    rw [List.cons_append, placeholderCount]
    intro back _ hback
    obtain ⟨digit, more, rfl⟩ := List.exists_cons_of_ne_nil h.ne_nil
    have hdigit : digit = ']' := (List.cons.inj hback).1
    exact h.not_mem (by decide : ']'.isDigit = false) (hdigit ▸ List.mem_cons_self)
  rw [hfirst, placeholderCount_append_of_not_mem (h.not_mem (by decide)),
    placeholderCount_cons_of_ne (by decide)]

theorem hasPlaceholder_eq_false_iff : hasPlaceholder s = false ↔ placeholderCount s = 0 := by
  fun_induction hasPlaceholder s with
  | case1 rest => simp [placeholderCount]
  | case2 c rest hno ih => rw [placeholderCount, ih]; exact hno
  | case3 => simp [placeholderCount]

theorem placeholderCount_templateChars (s : List Char) :
    placeholderCount (templateChars s) = placeholderCount s + (indicesChars s).length := by
  induction s using cut_induction with
  | plain s hnext => rw [templateChars_of_none hnext, indicesChars_of_none hnext]; rfl
  | cut s before digits after hnext ih =>
    have hplaceholder : placeholderCount ('[' :: ']' :: templateChars after) =
      placeholderCount (templateChars after) + 1 := rfl
    rw [templateChars_of_nextIndex? hnext, indicesChars_of_nextIndex? hnext,
      placeholderCount_append_cons, hplaceholder, ih, List.length_cons, eq_of_nextIndex? hnext,
      List.append_assoc, List.cons_append, placeholderCount_append_cons, ← List.cons_append,
      placeholderCount_index (isNumeral_of_nextIndex? hnext)]
    omega

/-! ### Filling in the indices of a key -/

/-- An index is filled into the first placeholder. -/
theorem interpolateChars_first (h : hasPlaceholder before = false) (rest index : List Char)
    (indices : List (List Char)) :
    interpolateChars (before ++ '[' :: ']' :: rest) (index :: indices) =
      before ++ '[' :: index ++ ']' :: interpolateChars rest indices := by
  fun_induction hasPlaceholder before with
  | case1 => cases h
  | case2 c front hno ih =>
    rw [List.cons_append, interpolateChars, ih h, List.cons_append, List.cons_append]
    exact fun back _ _ _ hc hback => not_placeholder_append hno (']' :: rest) back hc hback
  | case3 => rfl

theorem interpolateChars_of_hasPlaceholder_eq_false (h : hasPlaceholder s = false)
    (indices : List (List Char)) : interpolateChars s indices = s := by
  fun_induction hasPlaceholder s with
  | case1 => cases h
  | case2 c rest hno ih =>
    rw [interpolateChars, ih h]
    exact fun back _ _ _ hc hback => hno back hc hback
  | case3 => rfl

/-- Nothing is filled into a key that is no template. -/
theorem interpolate_of_isTemplate_eq_false {key : String} (h : isTemplate key = false)
    (indices : List String) : interpolate key indices = key := by
  rw [interpolate, interpolateChars_of_hasPlaceholder_eq_false h, String.ofList_toList]

theorem exists_first_placeholder (h : hasPlaceholder s = true) :
    ∃ front back, s = front ++ '[' :: ']' :: back ∧ hasPlaceholder front = false := by
  fun_induction hasPlaceholder s with
  | case1 back => exact ⟨[], back, rfl, rfl⟩
  | case2 c rest hno ih =>
    obtain ⟨front, back, rfl, hfront⟩ := ih h
    refine ⟨c :: front, back, rfl, ?_⟩
    rw [hasPlaceholder, hfront]
    rintro more rfl rfl
    exact hno _ rfl rfl
  | case3 => cases h

/-- A placeholder that takes an index is not restored. -/
theorem interpolateChars_ne (hdigits : IsNumeral digits) (hbefore : hasPlaceholder before = true)
    (rest after : List Char) (indices : List (List Char)) :
    interpolateChars (before ++ '[' :: ']' :: rest) (digits :: indices) ≠
      before ++ '[' :: digits ++ ']' :: after := by
  obtain ⟨front, back, rfl, hfront⟩ := exists_first_placeholder hbefore
  intro heq
  rw [List.append_assoc, List.cons_append, List.cons_append, interpolateChars_first hfront] at heq
  simp only [List.append_assoc, List.cons_append, List.append_cancel_left_eq,
    List.cons.injEq, true_and] at heq
  obtain ⟨digit, more, rfl⟩ := List.exists_cons_of_ne_nil hdigits.ne_nil
  have hdigit : digit = ']' := (List.cons.inj heq).1
  exact hdigits.not_mem (by decide : ']'.isDigit = false) (hdigit ▸ List.mem_cons_self)

/-! ### Placeholders before indices -/

theorem not_placeholderBeforeIndex_of_none (h : nextIndex? s = none) :
    ¬PlaceholderBeforeIndex s := by
  rintro ⟨front, middle, digits, back, hdigits, heq⟩
  exact nextIndex?_eq_none_iff.mp h ⟨_, digits, back, hdigits, heq⟩

/-- A placeholder stands before an index if one stands before the leftmost index, or behind it and
before another one. -/
theorem placeholderBeforeIndex_iff (h : nextIndex? s = some (before, digits, after)) :
    PlaceholderBeforeIndex s ↔ hasPlaceholder before = true ∨ PlaceholderBeforeIndex after := by
  have hs := eq_of_nextIndex? h
  have hdigits := isNumeral_of_nextIndex? h
  constructor
  · rintro ⟨front, middle, digits', back, hdigits', heq⟩
    have hcut : before ++ '[' :: digits ++ ']' :: after =
        front ++ '[' :: ']' :: (middle ++ '[' :: digits' ++ ']' :: back) := by
      rw [← hs, heq]
      simp
    refine (placeholder_cases hdigits hcut).imp_right ?_
    rintro ⟨front', -, rfl⟩
    exact ⟨front', middle, digits', back, hdigits', by simp⟩
  · rintro (hbefore | ⟨front, middle, digits', back, hdigits', rfl⟩)
    · obtain ⟨front, middle, rfl⟩ := hasPlaceholder_iff.mp hbefore
      exact ⟨front, middle, digits, after, hdigits, hs⟩
    · exact ⟨before ++ '[' :: digits ++ ']' :: front, middle, digits', back, hdigits', by
        rw [hs]; simp⟩

/-- The indices of a text restore it from its template unless a placeholder stands before one of
them. -/
theorem interpolateChars_templateChars_iff (s : List Char) :
    interpolateChars (templateChars s) (indicesChars s) = s ↔ ¬PlaceholderBeforeIndex s := by
  induction s using cut_induction with
  | plain s hnext =>
    rw [templateChars_of_none hnext, indicesChars_of_none hnext, interpolateChars_nil]
    exact iff_of_true rfl (not_placeholderBeforeIndex_of_none hnext)
  | cut s before digits after hnext ih =>
    have hs := eq_of_nextIndex? hnext
    rw [templateChars_of_nextIndex? hnext, indicesChars_of_nextIndex? hnext,
      placeholderBeforeIndex_iff hnext, not_or, ← ih]
    cases hbefore : hasPlaceholder before with
    | true =>
      refine iff_of_false ?_ fun h => h.1 rfl
      rw [hs]
      exact interpolateChars_ne (isNumeral_of_nextIndex? hnext) hbefore _ _ _
    | false =>
      rw [interpolateChars_first hbefore, hs, List.append_cancel_left_eq]
      simp

/-- The template of a key has the placeholders of the key and one for each index. -/
theorem placeholderCount_template (key : String) :
    placeholderCount (template key).toList =
      placeholderCount key.toList + (indices key).length := by
  rw [template, String.toList_ofList, placeholderCount_templateChars, indices, List.length_map]

/-- The indices of a key restore it from its template exactly when no placeholder of the key stands
before one of its indices, so whenever the key is no template; then each placeholder of its
template stands for an index. -/
theorem interpolate_template_indices_iff (key : String) :
    (interpolate (template key) (indices key) = key ↔ ¬PlaceholderBeforeIndex key.toList) ∧
      (isTemplate key = false → interpolate (template key) (indices key) = key ∧
        placeholderCount (template key).toList = (indices key).length) := by
  have hiff : interpolate (template key) (indices key) = key ↔
      ¬PlaceholderBeforeIndex key.toList := by
    have hindices : (indices key).map String.toList = indicesChars key.toList := by
      simp [indices, Function.comp_def]
    rw [← interpolateChars_templateChars_iff, interpolate, hindices, template,
      String.toList_ofList, ← String.toList_inj, String.toList_ofList]
  refine ⟨hiff, fun htemplate => ⟨hiff.mpr ?_, ?_⟩⟩
  · rintro ⟨front, middle, digits, back, -, heq⟩
    have hplaceholder : hasPlaceholder key.toList = true :=
      hasPlaceholder_iff.mpr ⟨front, middle ++ '[' :: digits ++ ']' :: back, by rw [heq]; simp⟩
    exact Bool.false_ne_true (htemplate.symm.trans hplaceholder)
  · rw [placeholderCount_template, hasPlaceholder_eq_false_iff.mp htemplate, Nat.zero_add]

theorem interpolate_template_indices_cell :
    isTemplate "grid[1].cell[x][4]" = false ∧
      interpolate (template "grid[1].cell[x][4]") (indices "grid[1].cell[x][4]") =
        "grid[1].cell[x][4]" ∧
      placeholderCount (template "grid[1].cell[x][4]").toList =
        (indices "grid[1].cell[x][4]").length := by
  have hplain : isTemplate "grid[1].cell[x][4]" = false := by decide
  exact ⟨hplain, (interpolate_template_indices_iff _).2 hplain⟩

/-! ### The template of a filled template -/

/-- Indices fill no placeholder within text that opens no bracket. -/
theorem eq_of_interpolateChars_eq_append {indices : List (List Char)} (hplain : '[' ∉ before)
    (h : interpolateChars s indices = before ++ after) :
    ∃ rest, s = before ++ rest ∧ interpolateChars rest indices = after := by
  induction before generalizing s with
  | nil => exact ⟨s, rfl, h⟩
  | cons c front ih =>
    have hc : c ≠ '[' := fun heq => hplain (heq ▸ List.mem_cons_self)
    have hfront : '[' ∉ front := fun hmem => hplain (List.mem_cons_of_mem _ hmem)
    fun_cases interpolateChars s indices with
    | case1 =>
      rw [interpolateChars, List.cons_append, List.cons_append, List.cons.injEq] at h
      exact absurd h.1.symm hc
    | case2 d back indices hno =>
      rw [interpolateChars, List.cons_append, List.cons.injEq] at h
      · obtain ⟨rfl, hback⟩ := h
        obtain ⟨rest, rfl, hrest⟩ := ih hfront hback
        exact ⟨rest, rfl, hrest⟩
      · exact hno
    | case3 => cases h

/-- A character that begins no index stays before the template and adds no index. -/
theorem cut_cons {c : Char} (h : indexAt? (c :: s) = none) :
    templateChars (c :: s) = c :: templateChars s ∧ indicesChars (c :: s) = indicesChars s := by
  cases hnext : nextIndex? s with
  | none =>
    have hcons : nextIndex? (c :: s) = none := by rw [nextIndex?_cons h, hnext, Option.map_none]
    rw [templateChars_of_none hcons, templateChars_of_none hnext, indicesChars_of_none hcons,
      indicesChars_of_none hnext]
    exact ⟨rfl, rfl⟩
  | some cut =>
    obtain ⟨before, digits, after⟩ := cut
    have hcons : nextIndex? (c :: s) = some (c :: before, digits, after) := by
      rw [nextIndex?_cons h, hnext, Option.map_some]
    rw [templateChars_of_nextIndex? hcons, templateChars_of_nextIndex? hnext,
      indicesChars_of_nextIndex? hcons, indicesChars_of_nextIndex? hnext]
    exact ⟨rfl, rfl⟩

theorem nextIndex?_eq_none_of_append (h : nextIndex? (before ++ after) = none) :
    nextIndex? after = none :=
  nextIndex?_eq_none_iff.mpr fun hafter =>
    nextIndex?_eq_none_iff.mp h (by simpa using hafter.append before [])

/-- Filling the placeholders of a text without indices makes no index begin where none was filled
in. -/
theorem indexAt?_cons_interpolateChars {c : Char} {indices : List (List Char)}
    (h : nextIndex? (c :: s) = none) : indexAt? (c :: interpolateChars s indices) = none := by
  -- an index at the start would stand there before the placeholders were filled
  refine Option.eq_none_iff_forall_ne_some.mpr fun found hat => ?_
  obtain ⟨digits, after⟩ := found
  obtain ⟨rfl, heq⟩ := List.cons.inj (eq_of_indexAt? hat)
  have hdigits := isNumeral_of_indexAt? hat
  obtain ⟨back, hrest, hback⟩ := eq_of_interpolateChars_eq_append (hdigits.not_mem rfl) heq
  obtain ⟨others, rfl, -⟩ :=
    @eq_of_interpolateChars_eq_append back [']'] after indices (by simp) hback
  exact nextIndex?_eq_none_iff.mp h ⟨[], digits, others, hdigits, by rw [hrest]; rfl⟩

/-- A text without indices is the template of what indices make of it, and the indices are read
back, as many of them as there are placeholders. -/
theorem cut_interpolateChars {indices : List (List Char)}
    (hindices : ∀ index ∈ indices, IsNumeral index) (h : nextIndex? s = none) :
    templateChars (interpolateChars s indices) = s ∧
      indicesChars (interpolateChars s indices) = indices.take (placeholderCount s) := by
  fun_induction interpolateChars s indices with
  | case1 rest index indices ih =>
    have hnext := nextIndex?_index (hindices index List.mem_cons_self)
      (interpolateChars rest indices)
    obtain ⟨htemplate, hread⟩ :=
      ih (fun other hother => hindices other (List.mem_cons_of_mem _ hother))
        (@nextIndex?_eq_none_of_append ['[', ']'] rest h)
    rw [templateChars_of_nextIndex? hnext, indicesChars_of_nextIndex? hnext, htemplate, hread]
    exact ⟨rfl, rfl⟩
  | case2 c rest indices hno ih =>
    obtain ⟨htemplate, hread⟩ := ih hindices (@nextIndex?_eq_none_of_append [c] rest h)
    obtain ⟨htemplate_cons, hread_cons⟩ := cut_cons (indexAt?_cons_interpolateChars h)
    rw [htemplate_cons, hread_cons, htemplate, hread]
    refine ⟨rfl, ?_⟩
    -- the first placeholder may stand here only if no index is left for it
    cases indices with
    | nil => simp
    | cons index others =>
      rw [placeholderCount]
      exact fun back hc hback => hno back index others rfl hc hback
  | case3 =>
    rw [templateChars_of_none h, indicesChars_of_none h, placeholderCount, List.take_zero]
    exact ⟨rfl, rfl⟩

theorem isNumeral_of_mem_indicesChars {s index : List Char} (h : index ∈ indicesChars s) :
    IsNumeral index := by
  induction s using cut_induction with
  | plain s hnext =>
    rw [indicesChars_of_none hnext] at h
    cases h
  | cut s before digits after hnext ih =>
    rw [indicesChars_of_nextIndex? hnext] at h
    rcases List.mem_cons.mp h with rfl | h
    · exact isNumeral_of_nextIndex? hnext
    · exact ih h

theorem nextIndex?_of_indices {key : String} (h : indices key = []) :
    nextIndex? key.toList = none := by
  cases hnext : nextIndex? key.toList with
  | none => rfl
  | some cut =>
    rw [indices, indicesChars_of_nextIndex? hnext] at h
    cases h

theorem template_of_indices {key : String} (h : indices key = []) : template key = key :=
  template_of_none (nextIndex?_of_indices h)

/-- A key without indices is the template of what indices make of it, and as many of them are read
back as there are placeholders. -/
theorem cut_interpolate {key : String} (h : indices key = []) {filled : List String}
    (hfilled : ∀ index ∈ filled, IsNumeral index.toList) :
    template (interpolate key filled) = key ∧
      indices (interpolate key filled) = filled.take (placeholderCount key.toList) := by
  have hnumerals : ∀ index ∈ filled.map String.toList, IsNumeral index :=
    List.forall_mem_map.mpr hfilled
  obtain ⟨htemplate, hread⟩ := cut_interpolateChars hnumerals (nextIndex?_of_indices h)
  constructor
  · rw [template, interpolate, String.toList_ofList, htemplate, String.ofList_toList]
  · rw [indices, interpolate, String.toList_ofList, hread, ← List.map_take, List.map_map]
    simp [Function.comp_def]

/-- A key without indices is the template of what the indices of another key make of it. -/
theorem template_interpolate {key : String} (h : indices key = []) (other : String) :
    template (interpolate key (indices other)) = key := by
  refine (cut_interpolate h fun index hindex => ?_).1
  obtain ⟨digits, hdigits, rfl⟩ := List.mem_map.mp hindex
  rw [String.toList_ofList]
  exact isNumeral_of_mem_indicesChars hdigits

end InteractionBinding.KeyTemplate
