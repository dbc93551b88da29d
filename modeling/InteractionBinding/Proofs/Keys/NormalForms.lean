import InteractionBinding.Proofs.Keys.ConcreteKeys
/-!
# Templates as normal forms

The placeholder that takes the place of an index never makes an index of the text around it, so a
template has no indices and is its own template (`template_template`). Texts that are alike up to
the digits of their indices have one template (`templateChars_of_alike`), and a graph resolves keys
by their templates, so it resolves such keys alike unless it knows one of them itself
(`Graph.resolveKey_normal`).

## Main definitions

* `KeyTemplate.Alike` — texts that differ in the digits of their indices only.
-/

namespace InteractionBinding

namespace KeyTemplate

/-- Two texts are the same up to the digits of their indices. -/
inductive Alike : List Char → List Char → Prop
  | nil : Alike [] []
  | char {s t : List Char} (c : Char) (rest : Alike s t) : Alike (c :: s) (c :: t)
  | index {s t digits digits' : List Char} (h : IsNumeral digits) (h' : IsNumeral digits')
      (rest : Alike s t) : Alike ('[' :: digits ++ ']' :: s) ('[' :: digits' ++ ']' :: t)

variable {s t before digits after : List Char}

/-! ### The template of a template -/

/-- A placeholder makes no index of texts without one. -/
theorem not_hasIndex_placeholder (hbefore : ¬HasIndex before) (hafter : ¬HasIndex after) :
    ¬HasIndex (before ++ '[' :: ']' :: after) := by
  rintro ⟨front, digits, back, hdigits, heq⟩
  have hpairs : before ++ '[' :: [] ++ ']' :: after = front ++ '[' :: digits ++ ']' :: back := by
    rw [← heq, List.append_assoc]
    rfl
  rcases bracket_cases isInner_nil hdigits.isInner hpairs with
    ⟨-, hnil, -⟩ | ⟨middle, -, rfl⟩ | ⟨middle, rfl, -⟩
  · exact hdigits.ne_nil hnil.symm
  · exact hafter ⟨middle, digits, back, hdigits, rfl⟩
  · exact hbefore ⟨front, digits, middle, hdigits, rfl⟩

theorem not_hasIndex_templateChars (s : List Char) : ¬HasIndex (templateChars s) := by
  induction s using cut_induction with
  | plain s hnext =>
    rw [templateChars_of_none hnext]
    exact nextIndex?_eq_none_iff.mp hnext
  | cut s before digits after hnext ih =>
    rw [templateChars_of_nextIndex? hnext]
    exact not_hasIndex_placeholder (not_hasIndex_before hnext) ih

theorem indices_template (key : String) : indices (template key) = [] := by
  rw [indices, template, String.toList_ofList,
    indicesChars_of_none (nextIndex?_eq_none_iff.mpr (not_hasIndex_templateChars _))]
  rfl

theorem template_template (key : String) : template (template key) = template key :=
  template_of_indices (indices_template key)

/-! ### Keys that are alike -/

theorem Alike.symm (h : Alike s t) : Alike t s := by
  induction h with
  | nil => exact .nil
  | char c _ ih => exact .char c ih
  | index h h' _ ih => exact .index h' h ih

/-- Text that opens no bracket is the same in texts that are alike. -/
theorem Alike.exists_append (hplain : '[' ∉ before) (h : Alike (before ++ after) t) :
    ∃ rest, t = before ++ rest ∧ Alike after rest := by
  induction before generalizing t with
  | nil => exact ⟨t, rfl, h⟩
  | cons c front ih =>
    obtain ⟨hc, hfront⟩ := not_or.mp (mt List.mem_cons.mpr hplain)
    generalize htext : c :: front ++ after = text at h
    cases h with
    | nil => cases htext
    | char _ htail =>
      obtain ⟨rfl, rfl⟩ := List.cons.inj htext
      obtain ⟨rest, rfl, hrest⟩ := ih hfront htail
      exact ⟨rest, rfl, hrest⟩
    | index => exact absurd (List.cons.inj htext).1.symm hc

/-- Text that opens no bracket stays in the template. -/
theorem templateChars_append (hplain : '[' ∉ before) (rest : List Char) :
    templateChars (before ++ rest) = before ++ templateChars rest := by
  induction before with
  | nil => rfl
  | cons c front ih =>
    obtain ⟨hc, hfront⟩ := not_or.mp (mt List.mem_cons.mpr hplain)
    rw [List.cons_append, (cut_cons (indexAt?_of_ne (Ne.symm hc) _)).1, ih hfront]
    rfl

theorem templateChars_index (h : IsNumeral digits) (rest : List Char) :
    templateChars ('[' :: digits ++ ']' :: rest) = '[' :: ']' :: templateChars rest :=
  templateChars_of_nextIndex? (nextIndex?_index h rest)

/-- What begins with an index is alike to what begins with the same index only. -/
theorem Alike.exists_index {c : Char} (hat : indexAt? (c :: s) = some (digits, after))
    (h : Alike s t) : ∃ rest, c :: t = '[' :: digits ++ ']' :: rest ∧
      (templateChars s = templateChars t → templateChars after = templateChars rest) := by
  have hplain : '[' ∉ digits ++ [']'] := by
    simpa using (isNumeral_of_indexAt? hat).isInner.opening
  have hs : c :: s = '[' :: (digits ++ [']'] ++ after) := by
    simpa using eq_of_indexAt? hat
  obtain ⟨rfl, rfl⟩ := List.cons.inj hs
  obtain ⟨rest, rfl, -⟩ := h.exists_append hplain
  refine ⟨rest, by simp, fun htemplate => ?_⟩
  rwa [templateChars_append hplain, templateChars_append hplain, List.append_cancel_left_eq]
    at htemplate

/-- Texts that are alike have one template. -/
theorem templateChars_of_alike (h : Alike s t) : templateChars s = templateChars t := by
  induction h with
  | nil => rfl
  | index hdigits hdigits' _ ih =>
    rw [templateChars_index hdigits, templateChars_index hdigits', ih]
  | @char s t c htail ih =>
    -- the character may begin an index, and then it does so in both texts
    cases hat : indexAt? (c :: s) with
    | some found =>
      obtain ⟨digits, after⟩ := found
      obtain ⟨rest, ht, hrest⟩ := htail.exists_index hat
      have hdigits := isNumeral_of_indexAt? hat
      rw [eq_of_indexAt? hat, ht, templateChars_index hdigits, templateChars_index hdigits,
        hrest ih]
    | none =>
      have hat' : indexAt? (c :: t) = none := by
        refine Option.eq_none_iff_forall_ne_some.mpr fun found hfound => ?_
        obtain ⟨digits, after⟩ := found
        obtain ⟨rest, hs, -⟩ := htail.symm.exists_index hfound
        rw [hs, indexAt?_of_isNumeral (isNumeral_of_indexAt? hfound)] at hat
        cases hat
      rw [(cut_cons hat).1, (cut_cons hat').1, ih]

theorem template_of_alike {key other : String} (h : Alike key.toList other.toList) :
    template key = template other := by
  rw [template, template, templateChars_of_alike h]

end KeyTemplate

namespace Graph

open KeyTemplate

variable {graph : Graph}

/-- A key that the graph does not have stands for its template, if the graph has that. -/
theorem resolveKey_of_not_contains {key : String} (h : graph.nodes.contains key = false) :
    graph.resolveKey key =
      if graph.nodes.contains (template key) = true then some (template key) else none := by
  rw [resolveKey, if_neg (Bool.eq_false_iff.mp h)]

theorem contains_of_resolveKey {key known : String} (h : graph.resolveKey key = some known) :
    graph.nodes.contains known = true := by
  cases hkey : graph.nodes.contains key with
  | true =>
    rw [resolveKey, if_pos hkey] at h
    exact Option.some.inj h ▸ hkey
  | false =>
    rw [resolveKey_of_not_contains hkey] at h
    obtain ⟨htemplate, heq⟩ := Option.ite_none_right_eq_some.mp h
    exact Option.some.inj heq ▸ htemplate

/-- A template has no indices and is its own template. What a graph resolves a key to resolves to
itself. Keys that the graph does not have, and that differ in the digits of their indices only,
resolve to one key of the graph, or both to none. -/
theorem resolveKey_normal (key : String) :
    indices (template key) = [] ∧ template (template key) = template key ∧
    (∀ (graph : Graph) (known : String), graph.resolveKey key = some known →
      graph.resolveKey known = some known) ∧
    ∀ (graph : Graph) (other : String), Alike key.toList other.toList →
      graph.nodes.contains key = false → graph.nodes.contains other = false →
      graph.resolveKey key = graph.resolveKey other := by
  refine ⟨indices_template key, template_template key, fun graph known hknown => ?_,
    fun graph other halike hkey hother => ?_⟩
  · rw [resolveKey, if_pos (contains_of_resolveKey hknown)]
  · rw [resolveKey_of_not_contains hkey, resolveKey_of_not_contains hother,
      template_of_alike halike]

/-- The index stands behind a bracket that opens nothing. -/
theorem resolveKey_normal_cell :
    let graph := ofConfig (.ofInteractions [.ofTrigger "a[[]" .click])
    graph.resolveKey "a[[1]" = some "a[[]" ∧ graph.resolveKey "a[[]" = some "a[[]" ∧
      Alike "a[[1]".toList "a[[07]".toList ∧ graph.nodes.contains "a[[1]" = false ∧
      graph.nodes.contains "a[[07]" = false ∧ graph.resolveKey "a[[07]" = some "a[[]" := by
  intro graph
  have hnumeral : IsNumeral ['1'] := ⟨by decide, List.all_eq_true.mp (by decide)⟩
  have hnumeral' : IsNumeral ['0', '7'] := ⟨by decide, List.all_eq_true.mp (by decide)⟩
  have halike : Alike "a[[1]".toList "a[[07]".toList :=
    .char 'a' (.char '[' (.index hnumeral hnumeral' .nil))
  have htemplate : template "a[[1]" = "a[[]" := by
    have hnext : nextIndex? "a[[1]".toList = some (['a', '['], ['1'], []) := by decide
    rw [template, templateChars_of_nextIndex? hnext, templateChars_of_none rfl]
    rfl
  have hknown : graph.nodes.contains "a[[]" = true := by decide +kernel
  have hkey : graph.nodes.contains "a[[1]" = false := by decide +kernel
  have hother : graph.nodes.contains "a[[07]" = false := by decide +kernel
  have hresolve : graph.resolveKey "a[[1]" = some "a[[]" := by
    rw [resolveKey_of_template_eq hknown htemplate, hkey]
    rfl
  obtain ⟨-, -, hagain, hsame⟩ := resolveKey_normal "a[[1]"
  exact ⟨hresolve, hagain graph _ hresolve, halike, hkey, hother,
    (hsame graph _ halike hkey hother).symm.trans hresolve⟩

end Graph

end InteractionBinding
