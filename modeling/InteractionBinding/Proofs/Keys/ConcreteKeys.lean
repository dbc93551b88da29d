import InteractionBinding.Config.Builder
import InteractionBinding.Graph.Compile
import InteractionBinding.Proofs.Keys.Templates
/-!
# Concrete keys of templates

Indices that are filled into a key without indices fill its first placeholders and no others
(`KeyTemplate.isFilled_iff`), however the key is made up of other brackets. So the key that they
make has the indices that were filled in and the key as its template, and a graph with this key
resolves the made one to it, or to itself if it has that one too (`Graph.resolveKey_filled`).

## Main definitions

* `KeyTemplate.IsFilled` — a key that is made of a template by filling its first placeholders.
-/

namespace InteractionBinding

namespace KeyTemplate

variable {s : List Char} {indices : List (List Char)}

/-! ### Filling the first placeholders -/

/-- Indices for which no placeholder is left are not filled in. -/
theorem interpolateChars_take (s : List Char) (indices : List (List Char)) :
    interpolateChars s (indices.take (placeholderCount s)) = interpolateChars s indices := by
  fun_induction interpolateChars s indices with
  | case1 rest index indices ih => rw [placeholderCount, List.take_succ_cons, interpolateChars, ih]
  | case2 c rest indices hno ih =>
    cases indices with
    | nil => rw [List.take_nil, interpolateChars_nil, interpolateChars_nil]
    | cons index others =>
      have hplaceholder : ∀ back, c = '[' → rest = ']' :: back → False :=
        fun back hc hback => hno back index others rfl hc hback
      rw [placeholderCount, interpolateChars, ih]
      · exact fun back _ _ _ hc hback => hplaceholder back hc hback
      · exact hplaceholder
  | case3 => rfl

/-- No placeholder is left before an index that is filled in. -/
theorem not_placeholderBeforeIndex_interpolateChars (hindices : ∀ index ∈ indices, IsNumeral index)
    (h : nextIndex? s = none) : ¬PlaceholderBeforeIndex (interpolateChars s indices) := by
  obtain ⟨htemplate, hread⟩ := cut_interpolateChars hindices h
  rw [← interpolateChars_templateChars_iff, htemplate, hread, interpolateChars_take]

theorem placeholderCount_interpolateChars (hindices : ∀ index ∈ indices, IsNumeral index)
    (h : nextIndex? s = none) :
    placeholderCount (interpolateChars s indices) + (indices.take (placeholderCount s)).length =
      placeholderCount s := by
  obtain ⟨htemplate, hread⟩ := cut_interpolateChars hindices h
  rw [← hread, ← placeholderCount_templateChars, htemplate]

/-- A key is a template with indices in its first placeholders: it has this template and these
indices, and the placeholders that are left stand behind all of them. -/
structure IsFilled (key : String) (filled : List String) (concrete : String) : Prop where
  template : KeyTemplate.template concrete = key
  indices : KeyTemplate.indices concrete = filled
  left : placeholderCount concrete.toList + filled.length = placeholderCount key.toList
  first : ¬PlaceholderBeforeIndex concrete.toList

/-- Filling indices into a key without indices fills its first placeholders, as far as there are
indices and placeholders, and makes the only key with these filled. -/
theorem isFilled_iff {key : String} (h : KeyTemplate.indices key = []) {filled : List String}
    (hfilled : ∀ index ∈ filled, IsNumeral index.toList) {concrete : String} :
    IsFilled key (filled.take (placeholderCount key.toList)) concrete ↔
      concrete = interpolate key filled := by
  have hnumerals : ∀ index ∈ filled.map String.toList, IsNumeral index :=
    List.forall_mem_map.mpr hfilled
  constructor
  · intro hconcrete
    have htemplate : templateChars concrete.toList = key.toList := by
      rw [← hconcrete.template, template, String.toList_ofList]
    have hread : indicesChars concrete.toList =
        (filled.map String.toList).take (placeholderCount key.toList) := by
      rw [← List.map_take, ← hconcrete.indices, KeyTemplate.indices, List.map_map]
      simp [Function.comp_def]
    -- filling the indices back restores a key with no placeholder before an index
    have hrestored := (interpolateChars_templateChars_iff concrete.toList).mpr hconcrete.first
    rw [htemplate, hread, interpolateChars_take] at hrestored
    rw [interpolate, hrestored, String.ofList_toList]
  · rintro rfl
    obtain ⟨htemplate, hread⟩ := cut_interpolate h hfilled
    have hlist : (interpolate key filled).toList =
        interpolateChars key.toList (filled.map String.toList) := String.toList_ofList
    have hcount := placeholderCount_interpolateChars hnumerals (nextIndex?_of_indices h)
    have hfirst := not_placeholderBeforeIndex_interpolateChars hnumerals (nextIndex?_of_indices h)
    rw [← List.map_take, List.length_map, ← hlist] at hcount
    rw [← hlist] at hfirst
    exact ⟨htemplate, hread, hcount, hfirst⟩

end KeyTemplate

namespace Graph

open KeyTemplate

variable {graph : Graph} {key concrete : String}

/-- A key stands for its template, if the graph knows this, unless the graph knows the key. -/
theorem resolveKey_of_template_eq (h : graph.nodes.contains key = true)
    (htemplate : template concrete = key) :
    graph.resolveKey concrete =
      some (if graph.nodes.contains concrete = true then concrete else key) := by
  rw [resolveKey, htemplate, if_pos h]
  split <;> rfl

/-- A graph key without indices is found from the concrete keys that indices make of it. The first
of the indices fill the placeholders, as many as there are of both, and are the indices of the
concrete key; its template is the graph key. The graph resolves it to this unless it has the
concrete key itself. -/
theorem resolveKey_filled {graph : Graph} {key : String}
    (hkey : graph.nodes.contains key = true) (hplain : indices key = []) {filled : List String}
    (hfilled : ∀ index ∈ filled, IsNumeral index.toList) :
    (filled.length = placeholderCount key.toList → indices (interpolate key filled) = filled) ∧
      template (interpolate key filled) = key ∧
      graph.resolveKey (interpolate key filled) =
        some (if graph.nodes.contains (interpolate key filled) = true then interpolate key filled
          else key) ∧
      ∀ concrete, IsFilled key (filled.take (placeholderCount key.toList)) concrete ↔
        concrete = interpolate key filled := by
  obtain ⟨htemplate, hread⟩ := cut_interpolate hplain hfilled
  refine ⟨fun hcount => ?_, htemplate, resolveKey_of_template_eq hkey htemplate,
    fun concrete => isFilled_iff hplain hfilled⟩
  rw [hread, ← hcount, List.take_length]

/-- One index for two placeholders, beside a bracket that opens nothing. -/
theorem resolveKey_filled_cell :
    let graph := ofConfig (.ofInteractions [.ofTrigger "grid[[].cell[]" .click])
    graph.nodes.contains "grid[[].cell[]" = true ∧ indices "grid[[].cell[]" = [] ∧
      (∀ index ∈ ["07"], IsNumeral index.toList) ∧
      interpolate "grid[[].cell[]" ["07"] = "grid[[07].cell[]" ∧
      template "grid[[07].cell[]" = "grid[[].cell[]" ∧
      graph.resolveKey "grid[[07].cell[]" = some "grid[[].cell[]" ∧
      IsFilled "grid[[].cell[]" ["07"] "grid[[07].cell[]" := by
  intro graph
  have hkey : graph.nodes.contains "grid[[].cell[]" = true := by decide +kernel
  have hplain : indices "grid[[].cell[]" = [] := by
    rw [indices, indicesChars_of_none (by decide)]
    rfl
  have hfilled : ∀ index ∈ ["07"], IsNumeral index.toList :=
    List.forall_mem_singleton.mpr ⟨by decide, List.all_eq_true.mp (by decide)⟩
  have hmade : interpolate "grid[[].cell[]" ["07"] = "grid[[07].cell[]" := by decide
  have hunknown : ¬graph.nodes.contains "grid[[07].cell[]" = true := by decide +kernel
  obtain ⟨-, htemplate, hresolve, hconcrete⟩ := resolveKey_filled hkey hplain hfilled
  rw [hmade] at htemplate hresolve hconcrete
  rw [if_neg hunknown] at hresolve
  exact ⟨hkey, hplain, hfilled, hmade, htemplate, hresolve, (hconcrete _).mpr rfl⟩

end Graph

end InteractionBinding
