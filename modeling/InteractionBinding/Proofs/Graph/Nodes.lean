import InteractionBinding.Graph.Compile
import Mathlib.Data.List.Nodup
/-!
# The nodes of a compiled graph

A configuration compiles to its accepted interactions, numbered from zero (`Compile.accepted`), and
the nodes of its graph are what the edits of these interactions make. This file reads the nodes off
the accepted interactions: the triggers of a key are the accepted interactions with this source
(`mem_triggers_iff`), and the alternatives for an id on a target are the effects with that id of one
interaction, in declared order (`variants_eq`). What the edits do beyond selectors is listed by
`mem_edits_of_not_isReach`.
-/

namespace InteractionBinding

namespace Compile

/-- The accepted ones among interactions, numbered from `index` on. -/
def acceptedFrom (config : Config) : Nat → List Interaction → List CompiledInteraction
  | _, [] => []
  | index, interaction :: rest =>
    match sourceKey? interaction with
    | none => acceptedFrom config index rest
    | some source =>
      compileInteraction config interaction (ruleOf interaction source index) ::
        acceptedFrom config (index + 1) rest

/-- The accepted interactions of a configuration, in declared order. -/
def accepted (config : Config) : List CompiledInteraction :=
  acceptedFrom config 0 config.interactions

theorem map_index_acceptedFrom (config : Config) (index : Nat) (interactions : List Interaction) :
    (acceptedFrom config index interactions).map (·.rule.index) =
      List.range' index (acceptedFrom config index interactions).length := by
  induction interactions generalizing index with
  | nil => rfl
  | cons interaction rest ih =>
    rw [acceptedFrom]
    split
    · exact ih index
    · rw [List.map_cons, List.length_cons, List.range'_succ, ih (index + 1)]
      rfl

/-- No two accepted interactions have the same index. -/
theorem nodup_index_accepted (config : Config) :
    ((accepted config).map (·.rule.index)).Nodup := by
  rw [accepted, map_index_acceptedFrom]
  exact List.nodup_range'

theorem accepted_eq_of_index_eq {config : Config} {a b : CompiledInteraction}
    (ha : a ∈ accepted config) (hb : b ∈ accepted config) (h : a.rule.index = b.rule.index) :
    a = b :=
  List.inj_on_of_nodup_map (nodup_index_accepted config) ha hb h

theorem exists_of_mem_acceptedFrom {config : Config} {index : Nat}
    {interactions : List Interaction} {ci : CompiledInteraction}
    (h : ci ∈ acceptedFrom config index interactions) :
    ∃ interaction ∈ interactions, ∃ source i, sourceKey? interaction = some source ∧
      ci = compileInteraction config interaction (ruleOf interaction source i) := by
  induction interactions generalizing index with
  | nil => cases h
  | cons interaction rest ih =>
    rw [acceptedFrom] at h
    split at h
    · obtain ⟨other, hother, hrest⟩ := ih h
      exact ⟨other, List.mem_cons_of_mem _ hother, hrest⟩
    next source hsource =>
      rcases List.mem_cons.mp h with rfl | h
      · exact ⟨interaction, List.mem_cons_self, source, index, hsource, rfl⟩
      · obtain ⟨other, hother, hrest⟩ := ih h
        exact ⟨other, List.mem_cons_of_mem _ hother, hrest⟩

/-- An effect of an accepted interaction is a declared one that its rule does not leave out. -/
theorem exists_compileEffect_eq_some {config : Config} {ci : CompiledInteraction}
    (hci : ci ∈ accepted config) {effect : CompiledEffect} (h : effect ∈ ci.effects) :
    ∃ position site, compileEffect config.effects ci.rule position site = some effect := by
  obtain ⟨interaction, -, source, index, -, rfl⟩ := exists_of_mem_acceptedFrom hci
  obtain ⟨⟨site, position⟩, -, h⟩ := List.mem_filterMap.mp h
  exact ⟨position, site, h⟩

/-- The id of an effect is made of its target, its own id and the index of its interaction. -/
theorem id_eq_of_mem_effects {config : Config} {ci : CompiledInteraction}
    (hci : ci ∈ accepted config) {effect : CompiledEffect} (h : effect ∈ ci.effects) :
    effect.id = ⟨effect.target, effect.effectId, ci.rule.index⟩ := by
  obtain ⟨position, site, h⟩ := exists_compileEffect_eq_some hci h
  rw [compileEffect, Option.ite_none_left_eq_some, Option.some.injEq] at h
  rw [← h.2]

/-- The id of a sequence is made of its source, its own id and the index of its interaction. -/
theorem id_eq_of_mem_sequences {config : Config} {ci : CompiledInteraction}
    (hci : ci ∈ accepted config) {sequence : CompiledSequence} (h : sequence ∈ ci.sequences) :
    sequence.id = ⟨ci.rule.key, sequence.sequenceId, ci.rule.index⟩ := by
  obtain ⟨interaction, -, source, index, -, rfl⟩ := exists_of_mem_acceptedFrom hci
  obtain ⟨⟨entry, position⟩, -, h⟩ := List.mem_filterMap.mp h
  obtain ⟨⟨stored, conditions⟩, -, rfl⟩ := Option.map_eq_some_iff.mp h
  rfl

/-- No effect of an accepted interaction joins two lists. -/
theorem joinsLists_of_mem_effects {config : Config} {ci : CompiledInteraction}
    (hci : ci ∈ accepted config) {effect : CompiledEffect} (h : effect ∈ ci.effects) :
    joinsLists ci.rule effect.target effect.effect = false := by
  obtain ⟨position, site, h⟩ := exists_compileEffect_eq_some hci h
  rw [compileEffect, Option.ite_none_left_eq_some, Option.some.injEq] at h
  rw [← h.2]
  exact Bool.eq_false_iff.mpr h.1

/-! ### Nodes as results of edits -/

/-- The edits of a key among edits. -/
def editsOf (key : String) (edits : List (String × NodeEdit)) : List NodeEdit :=
  (edits.filter fun edit => edit.1 = key).map Prod.snd

theorem mem_editsOf {key : String} {edits : List (String × NodeEdit)} {edit : NodeEdit} :
    edit ∈ editsOf key edits ↔ (key, edit) ∈ edits := by
  simp [editsOf]

@[simp]
theorem editsOf_nil (key : String) : editsOf key [] = [] := rfl

theorem editsOf_cons (key : String) (edit : String × NodeEdit)
    (edits : List (String × NodeEdit)) :
    editsOf key (edit :: edits) =
      if edit.1 = key then edit.2 :: editsOf key edits else editsOf key edits := by
  by_cases h : edit.1 = key <;> simp [editsOf, h]

theorem get?_foldl_applyEdit (edits : List (String × NodeEdit)) (nodes : KeyMap GraphNode)
    (key : String) :
    (edits.foldl applyEdit nodes).get? key =
      if editsOf key edits = [] then nodes.get? key
      else some ((editsOf key edits).foldl (fun node edit => edit.apply node)
        ((nodes.get? key).getD .empty)) := by
  induction edits generalizing nodes with
  | nil => simp [editsOf]
  | cons edit rest ih =>
    rw [List.foldl_cons, ih, applyEdit, KeyMap.get?_modify, editsOf_cons]
    by_cases h : edit.1 = key
    · subst h
      by_cases hrest : editsOf edit.1 rest = [] <;> simp [hrest]
    · rw [if_neg (Ne.symm h), if_neg h]

/-- The edits that make the nodes of a graph. -/
def edits (config : Config) : List (String × NodeEdit) :=
  (accepted config).flatMap interactionEdits

theorem foldl_addInteraction (config : Config) (interactions : List (Interaction × Nat))
    (graph : Graph) :
    (interactions.foldl (addInteraction config) graph).nodes =
        ((acceptedFrom config graph.interactionCount (interactions.map Prod.fst)).flatMap
          interactionEdits).foldl applyEdit graph.nodes ∧
      (interactions.foldl (addInteraction config) graph).conditions = graph.conditions := by
  induction interactions generalizing graph with
  | nil => simp [acceptedFrom]
  | cons interaction rest ih =>
    rw [List.foldl_cons, List.map_cons, acceptedFrom]
    cases hsource : sourceKey? interaction.1 with
    | none =>
      have := ih (addInteraction config graph interaction)
      simpa only [addInteraction, hsource] using this
    | some source =>
      have := ih (addInteraction config graph interaction)
      simpa only [addInteraction, hsource, List.flatMap_cons, List.foldl_append] using this

end Compile

open Compile

theorem Graph.nodes_ofConfig (config : Config) :
    (Graph.ofConfig config).nodes = (edits config).foldl applyEdit .empty := by
  have h := (foldl_addInteraction config config.interactions.zipIdx
    ⟨.empty, config.conditions, [], 0⟩).1
  rw [List.zipIdx_map_fst] at h
  exact h

theorem Graph.conditions_ofConfig (config : Config) :
    (Graph.ofConfig config).conditions = config.conditions :=
  (foldl_addInteraction config config.interactions.zipIdx ⟨.empty, config.conditions, [], 0⟩).2

/-- The node of a key is what the edits of the key make of the empty node. -/
theorem Graph.get?_nodes_ofConfig {config : Config} {key : String} {node : GraphNode} :
    (Graph.ofConfig config).nodes.get? key = some node ↔
      editsOf key (edits config) ≠ [] ∧
        (editsOf key (edits config)).foldl (fun node edit => edit.apply node) .empty = node := by
  rw [nodes_ofConfig, get?_foldl_applyEdit]
  by_cases h : editsOf key (edits config) = [] <;> simp [h]

/-! ### Kinds of edits -/

namespace NodeEdit

def trigger? : NodeEdit → Option CompiledInteraction
  | .trigger interaction => some interaction
  | _ => none

def variant? : NodeEdit → Option Variant
  | .variant alternative => some alternative
  | _ => none

/-- Whether an edit only records how elements are reached. -/
def IsReach : NodeEdit → Prop
  | .touch => True
  | .selector _ => True
  | _ => False

end NodeEdit

theorem Compile.isReach_of_mem_selectorEdits {key other : String}
    {selector container item : Option String} {edit : NodeEdit}
    (h : (other, edit) ∈ selectorEdits key selector container item) : edit.IsReach := by
  cases selector <;> cases container <;> simp [selectorEdits, listEdits] at h <;>
    grind [NodeEdit.IsReach]

theorem NodeEdit.trigger?_of_isReach (edit : NodeEdit) (h : edit.IsReach) :
    edit.trigger? = none := by
  cases edit <;> first | rfl | exact h.elim

theorem NodeEdit.variant?_of_isReach (edit : NodeEdit) (h : edit.IsReach) :
    edit.variant? = none := by
  cases edit <;> first | rfl | exact h.elim

section Projections

variable {α : Type} {project : NodeEdit → Option α}

/-- What no edit of how elements are reached carries is not among the edits of a selector. -/
theorem Compile.filterMap_selectorEdits_eq_nil
    (hreach : ∀ edit : NodeEdit, edit.IsReach → project edit = none) (key other : String)
    (selector container item : Option String) :
    (editsOf key (selectorEdits other selector container item)).filterMap project = [] :=
  List.filterMap_eq_nil_iff.mpr fun edit hedit =>
    hreach edit (isReach_of_mem_selectorEdits (mem_editsOf.mp hedit))

/-- The edits of sequences carry ids and the ways back to them, and nothing else. -/
theorem Compile.filterMap_sequenceEdits_eq_nil
    (hreach : ∀ edit : NodeEdit, edit.IsReach → project edit = none)
    (hid : ∀ id, project (.interactionId id) = none) (hlink : ∀ back, project (.link back) = none)
    (key : String) (rule : Rule) (sequences : List CompiledSequence) :
    (editsOf key (sequences.flatMap (sequenceEdits rule))).filterMap project = [] := by
  refine List.filterMap_eq_nil_iff.mpr fun edit hedit => ?_
  have hmem := mem_editsOf.mp hedit
  simp only [sequenceEdits, targetEdits, List.mem_flatMap, List.mem_append] at hmem
  obtain ⟨sequence, -, ⟨effect, -, hmem | hmem⟩ | hmem⟩ := hmem
  · exact hreach edit (isReach_of_mem_selectorEdits hmem)
  · split at hmem
    · cases hmem
    · obtain ⟨-, rfl⟩ := Prod.mk.inj (List.mem_singleton.mp hmem)
      exact hlink _
  · obtain ⟨-, rfl⟩ := Prod.mk.inj (List.mem_singleton.mp hmem)
    exact hid _

end Projections

theorem Compile.mem_edits {config : Config} {edit : String × NodeEdit} :
    edit ∈ edits config ↔ ∃ ci ∈ accepted config, edit ∈ interactionEdits ci := by
  simp [edits]

/-- An edit that does more than record how elements are reached is due to an effect, a sequence or
the trigger of an accepted interaction. -/
theorem Compile.mem_edits_of_not_isReach {config : Config} {key : String} {edit : NodeEdit}
    (h : ¬edit.IsReach) : (key, edit) ∈ edits config ↔ ∃ ci ∈ accepted config,
      ((∃ effect ∈ ci.effects, key = ci.rule.key ∧ edit = .interactionId effect.id ∨
          effect.target ≠ ci.rule.key ∧ key = effect.target ∧ edit = .variant ⟨ci.rule, effect⟩) ∨
        ∃ sequence ∈ ci.sequences, (∃ effect ∈ sequence.effects, effect.target ≠ ci.rule.key ∧
          key = effect.target ∧ edit = .link ⟨ci.rule.key, sequence.id⟩) ∨
            key = ci.rule.key ∧ edit = .interactionId sequence.id) ∨
      key = ci.rule.key ∧ edit = .trigger ci := by
  have hreach {other : String} {selector container item : Option String} :
      (key, edit) ∉ selectorEdits other selector container item := fun hmem =>
    h (isReach_of_mem_selectorEdits hmem)
  simp only [mem_edits, interactionEdits, effectEdits, sequenceEdits, targetEdits,
    List.mem_append, List.mem_flatMap, hreach, List.mem_singleton, Prod.mk.injEq, false_or,
    List.mem_ite_nil_left, ne_eq]

theorem Compile.mem_edits_trigger {config : Config} {key : String} {ci : CompiledInteraction} :
    (key, NodeEdit.trigger ci) ∈ edits config ↔ ci ∈ accepted config ∧ ci.rule.key = key := by
  have hreach : ¬(NodeEdit.trigger ci).IsReach := not_false
  rw [mem_edits_of_not_isReach hreach]
  simp only [reduceCtorEq, and_false, or_false, exists_false, false_or, NodeEdit.trigger.injEq]
  grind

/-! ### Triggers -/

theorem NodeEdit.triggers_apply (edit : NodeEdit) (node : GraphNode) :
    (edit.apply node).triggers = node.triggers ++ edit.trigger?.toList := by
  cases edit with
  | interactionId | link => simp only [apply, trigger?]; split <;> simp
  | _ => simp [apply, trigger?]

theorem NodeEdit.triggers_foldl_apply (edits : List NodeEdit) (node : GraphNode) :
    (edits.foldl (fun node edit => edit.apply node) node).triggers =
      node.triggers ++ edits.filterMap trigger? := by
  induction edits generalizing node with
  | nil => simp
  | cons edit rest ih =>
    rw [List.foldl_cons, ih, triggers_apply, List.filterMap_cons]
    cases edit.trigger? <;> simp

/-- The triggers of a node are the accepted interactions with its key as their source. -/
theorem Graph.mem_triggers_iff {config : Config} {key : String} {node : GraphNode}
    (h : (Graph.ofConfig config).nodes.get? key = some node) {ci : CompiledInteraction} :
    ci ∈ node.triggers ↔ ci ∈ accepted config ∧ ci.rule.key = key := by
  obtain ⟨-, rfl⟩ := get?_nodes_ofConfig.mp h
  rw [NodeEdit.triggers_foldl_apply, ← mem_edits_trigger, ← mem_editsOf]
  simp only [GraphNode.empty, List.nil_append, List.mem_filterMap]
  constructor
  · rintro ⟨edit, hedit, h⟩
    cases edit <;> simp_all [NodeEdit.trigger?]
  · exact fun h => ⟨_, h, rfl⟩

/-- A graph has a node for the source of every accepted interaction. -/
theorem Graph.exists_node_of_mem_accepted {config : Config} {ci : CompiledInteraction}
    (h : ci ∈ accepted config) :
    ∃ node, (Graph.ofConfig config).nodes.get? ci.rule.key = some node ∧ ci ∈ node.triggers := by
  have hedit : editsOf ci.rule.key (edits config) ≠ [] :=
    List.ne_nil_of_mem (mem_editsOf.mpr (mem_edits_trigger.mpr ⟨h, rfl⟩))
  have hnode := get?_nodes_ofConfig.mpr ⟨hedit, rfl⟩
  exact ⟨_, hnode, (mem_triggers_iff hnode).mpr ⟨h, rfl⟩⟩

/-- An interaction is among the triggers of its key. -/
def Graph.Declares (graph : Graph) (interaction : CompiledInteraction) : Prop :=
  ∃ node, graph.nodes.get? interaction.rule.key = some node ∧ interaction ∈ node.triggers

/-- A graph declares the accepted interactions. -/
theorem Graph.declares_ofConfig_iff {config : Config} {ci : CompiledInteraction} :
    (Graph.ofConfig config).Declares ci ↔ ci ∈ accepted config :=
  ⟨fun ⟨_, hnode, hmem⟩ => ((mem_triggers_iff hnode).mp hmem).1, exists_node_of_mem_accepted⟩

/-! ### Alternatives -/

namespace NodeEdit

/-- The alternatives that entries keep for an id. -/
def variantsFor (id : InteractionId) (entries : List TargetEffects) : Option (List Variant) :=
  (entries.find? fun entry => entry.id = id).map TargetEffects.variants

theorem variantsFor_pushVariant (id : InteractionId) (variant : Variant)
    (entries : List TargetEffects) :
    variantsFor id (pushVariant variant entries) =
      if variant.effect.id = id then some (variant :: (variantsFor id entries).getD [])
      else variantsFor id entries := by
  induction entries with
  | nil => by_cases h : variant.effect.id = id <;> simp [pushVariant, variantsFor, h]
  | cons entry rest ih =>
    rw [pushVariant]
    by_cases hentry : entry.id = variant.effect.id
    · by_cases h : variant.effect.id = id <;> simp [variantsFor, hentry, h]
    · rw [if_neg hentry]
      by_cases hid : entry.id = id
      · have h : variant.effect.id ≠ id := fun heq => hentry (hid.trans heq.symm)
        simp [variantsFor, hid, h]
      · simpa [variantsFor, List.find?_cons_of_neg, hid] using ih

theorem map_id_pushVariant (variant : Variant) (entries : List TargetEffects) :
    (pushVariant variant entries).map TargetEffects.id =
      if variant.effect.id ∈ entries.map TargetEffects.id then entries.map TargetEffects.id
      else entries.map TargetEffects.id ++ [variant.effect.id] := by
  induction entries with
  | nil => simp [pushVariant]
  | cons entry rest ih =>
    rw [pushVariant]
    by_cases hentry : entry.id = variant.effect.id
    · simp [hentry]
    · rw [if_neg hentry, List.map_cons, ih]
      by_cases hrest : variant.effect.id ∈ rest.map TargetEffects.id
      · simp [hrest]
      · simp [hrest, Ne.symm hentry]

/-- The alternatives for an id after variants have been pushed in front one after the other. -/
theorem variantsFor_foldl_pushVariant (id : InteractionId) (variants : List Variant)
    (entries : List TargetEffects) :
    variantsFor id (variants.foldl (fun entries variant => pushVariant variant entries) entries) =
      let own := (variants.filter fun variant => variant.effect.id = id).reverse
      if own = [] then variantsFor id entries
      else some (own ++ (variantsFor id entries).getD []) := by
  induction variants generalizing entries with
  | nil => simp
  | cons variant rest ih =>
    rw [List.foldl_cons, ih, variantsFor_pushVariant]
    by_cases h : variant.effect.id = id
    · by_cases hrest : rest.filter (fun variant => variant.effect.id = id) = [] <;> simp [h, hrest]
    · simp [h]

theorem nodup_map_id_foldl_pushVariant (variants : List Variant) (entries : List TargetEffects)
    (h : (entries.map TargetEffects.id).Nodup) :
    ((variants.foldl (fun entries variant => pushVariant variant entries) entries).map
      TargetEffects.id).Nodup := by
  induction variants generalizing entries with
  | nil => exact h
  | cons variant rest ih =>
    refine ih _ ?_
    rw [map_id_pushVariant]
    split
    · exact h
    next hnew =>
      refine List.nodup_append.mpr ⟨h, by simp, fun a ha b hb hab => hnew ?_⟩
      rw [← List.mem_singleton.mp hb, ← hab]
      exact ha

theorem variantsFor_of_mem {entries : List TargetEffects}
    (hnodup : (entries.map TargetEffects.id).Nodup) {entry : TargetEffects} (h : entry ∈ entries) :
    variantsFor entry.id entries = some entry.variants := by
  induction entries with
  | nil => cases h
  | cons head rest ih =>
    obtain ⟨hhead, hrest⟩ := List.nodup_cons.mp hnodup
    rcases List.mem_cons.mp h with rfl | h
    · simp [variantsFor]
    · have hne : head.id ≠ entry.id := fun heq => hhead (heq ▸ List.mem_map_of_mem h)
      simpa [variantsFor, List.find?_cons_of_neg, hne] using ih hrest h

theorem effects_apply (edit : NodeEdit) (node : GraphNode) :
    (edit.apply node).effects =
      edit.variant?.toList.foldl (fun entries variant => pushVariant variant entries)
        node.effects := by
  cases edit with
  | interactionId | link => simp only [apply, variant?]; split <;> simp
  | _ => simp [apply, variant?]

theorem effects_foldl_apply (edits : List NodeEdit) (node : GraphNode) :
    (edits.foldl (fun node edit => edit.apply node) node).effects =
      (edits.filterMap variant?).foldl (fun entries variant => pushVariant variant entries)
        node.effects := by
  induction edits generalizing node with
  | nil => simp
  | cons edit rest ih =>
    rw [List.foldl_cons, ih, effects_apply, List.filterMap_cons]
    cases edit.variant? <;> simp

end NodeEdit

namespace Compile

@[simp]
theorem editsOf_append (key : String) (first second : List (String × NodeEdit)) :
    editsOf key (first ++ second) = editsOf key first ++ editsOf key second := by
  simp [editsOf]

theorem editsOf_flatMap {α : Type} (key : String) (l : List α) (f : α → List (String × NodeEdit)) :
    editsOf key (l.flatMap f) = l.flatMap fun a => editsOf key (f a) := by
  simp [editsOf, List.filter_flatMap, List.map_flatMap]

/-- The variants that an interaction adds to a key. -/
def variantsTo (key : String) (ci : CompiledInteraction) : List Variant :=
  (ci.effects.filter fun effect => effect.target = key ∧ effect.target ≠ ci.rule.key).map
    (Variant.mk ci.rule)

theorem filterMap_variant?_interactionEdits (key : String) (ci : CompiledInteraction) :
    (editsOf key (interactionEdits ci)).filterMap NodeEdit.variant? = variantsTo key ci := by
  have hselector := filterMap_selectorEdits_eq_nil NodeEdit.variant?_of_isReach key
  have heffects (effects : List CompiledEffect) :
      (editsOf key (effects.flatMap (effectEdits ci.rule))).filterMap NodeEdit.variant? =
        (effects.filter fun effect => effect.target = key ∧ effect.target ≠ ci.rule.key).map
          (Variant.mk ci.rule) := by
    induction effects with
    | nil => rfl
    | cons effect rest ih =>
      rw [List.flatMap_cons, editsOf_append, List.filterMap_append, ih]
      simp only [effectEdits, targetEdits, editsOf_append, List.filterMap_append,
        hselector, editsOf_cons, editsOf_nil, List.nil_append]
      by_cases hown : effect.target = ci.rule.key
      · by_cases hkey : ci.rule.key = key <;> simp [hown, hkey, NodeEdit.variant?]
      · by_cases hkey : effect.target = key <;> by_cases hkey' : ci.rule.key = key <;>
          simp_all [editsOf_cons, NodeEdit.variant?]
  have hsequences : (editsOf key (ci.sequences.flatMap (sequenceEdits ci.rule))).filterMap
      NodeEdit.variant? = [] :=
    filterMap_sequenceEdits_eq_nil NodeEdit.variant?_of_isReach (fun _ => rfl) (fun _ => rfl) ..
  simp only [interactionEdits, editsOf_append, List.filterMap_append, heffects, hsequences,
    hselector, List.append_nil, List.nil_append]
  by_cases h : ci.rule.key = key <;> simp [editsOf_cons, h, NodeEdit.variant?, variantsTo]

theorem filterMap_variant?_edits (config : Config) (key : String) :
    (editsOf key (edits config)).filterMap NodeEdit.variant? =
      (accepted config).flatMap (variantsTo key) := by
  rw [edits, editsOf_flatMap, List.filterMap_flatMap]
  exact List.flatMap_congr fun ci _ => filterMap_variant?_interactionEdits key ci

/-- The effects of an interaction that have an id, in declared order. -/
def alternatives (ci : CompiledInteraction) (id : InteractionId) : List CompiledEffect :=
  (ci.effects.filter fun effect => effect.id = id).reverse

theorem mem_alternatives {ci : CompiledInteraction} {id : InteractionId}
    {effect : CompiledEffect} :
    effect ∈ alternatives ci id ↔ effect ∈ ci.effects ∧ effect.id = id := by
  simp [alternatives]

theorem id_index_of_mem_variantsTo {config : Config} {ci : CompiledInteraction}
    (hci : ci ∈ accepted config) {key : String} {variant : Variant}
    (h : variant ∈ variantsTo key ci) : variant.effect.id.index = ci.rule.index := by
  simp only [variantsTo, List.mem_map, List.mem_filter] at h
  obtain ⟨effect, ⟨heffect, -⟩, rfl⟩ := h
  rw [id_eq_of_mem_effects hci heffect]

/-- Only the interaction whose index is in an id adds variants for the id. -/
theorem filter_flatMap_variantsTo {config : Config} {ci : CompiledInteraction}
    (hci : ci ∈ accepted config) {key : String} {id : InteractionId}
    (hindex : ci.rule.index = id.index) :
    ((accepted config).flatMap (variantsTo key)).filter (fun variant => variant.effect.id = id) =
      (variantsTo key ci).filter fun variant => variant.effect.id = id := by
  obtain ⟨before, after, hsplit⟩ := List.append_of_mem hci
  have hnodup := nodup_index_accepted config
  rw [hsplit, List.map_append, List.map_cons] at hnodup
  have hother {others : List CompiledInteraction} (hsub : ∀ other ∈ others, other ∈ accepted config)
      (hne : ∀ other ∈ others, other.rule.index ≠ ci.rule.index) :
      (others.flatMap (variantsTo key)).filter (fun variant => variant.effect.id = id) = [] := by
    rw [List.filter_eq_nil_iff]
    intro variant hvariant
    obtain ⟨other, hmem, hvariant⟩ := List.mem_flatMap.mp hvariant
    have := id_index_of_mem_variantsTo (hsub other hmem) hvariant
    simp only [decide_eq_true_eq]
    rintro rfl
    exact hne other hmem (this.symm.trans hindex.symm)
  obtain ⟨-, hcons, hdisjoint⟩ := List.nodup_append.mp hnodup
  have hbefore := @hother before (fun other h => hsplit ▸ by simp [h]) fun other h =>
    hdisjoint _ (List.mem_map_of_mem h) _ List.mem_cons_self
  have hafter := @hother after (fun other h => hsplit ▸ by simp [h]) fun other h heq =>
    (List.nodup_cons.mp hcons).1 (heq ▸ List.mem_map_of_mem h)
  rw [hsplit, List.flatMap_append, List.flatMap_cons, List.filter_append, List.filter_append,
    hbefore, hafter, List.nil_append, List.append_nil]

theorem filter_variantsTo {config : Config} {ci : CompiledInteraction}
    (hci : ci ∈ accepted config) {key : String} {id : InteractionId} :
    (variantsTo key ci).filter (fun variant => variant.effect.id = id) =
      if id.target = key ∧ key ≠ ci.rule.key then
        (ci.effects.filter fun effect => effect.id = id).map (Variant.mk ci.rule)
      else [] := by
  rw [variantsTo, List.filter_map, List.filter_filter]
  have hfilter : ci.effects.filter (fun effect =>
        decide (effect.id = id) && decide (effect.target = key ∧ effect.target ≠ ci.rule.key)) =
      ci.effects.filter fun effect =>
        decide (effect.id = id) && decide (id.target = key ∧ key ≠ ci.rule.key) := by
    refine List.filter_congr fun effect heffect => ?_
    by_cases hid : effect.id = id
    · have htarget : effect.target = id.target := by
        rw [← hid, id_eq_of_mem_effects hci heffect]
      simp only [hid, htarget]
      grind
    · simp [hid]
  simp only [Function.comp_def, hfilter]
  split
  next h => simp [h]
  next h => simp only [h, decide_false, Bool.and_false, List.filter_false, List.map_nil]

end Compile

theorem Graph.effects_eq {config : Config} {key : String} {node : GraphNode}
    (h : (Graph.ofConfig config).nodes.get? key = some node) :
    node.effects = ((accepted config).flatMap (variantsTo key)).foldl
      (fun entries variant => NodeEdit.pushVariant variant entries) [] := by
  obtain ⟨-, rfl⟩ := get?_nodes_ofConfig.mp h
  rw [NodeEdit.effects_foldl_apply, filterMap_variant?_edits]
  rfl

/-- The alternatives for an id on a target are those of one interaction of another key, in declared
order. -/
theorem Graph.variants_eq {config : Config} {key : String} {node : GraphNode}
    (h : (Graph.ofConfig config).nodes.get? key = some node) {entry : TargetEffects}
    (hentry : entry ∈ node.effects) :
    ∃ ci ∈ accepted config, ci.rule.index = entry.id.index ∧ ci.rule.key ≠ key ∧
      entry.id.target = key ∧ alternatives ci entry.id ≠ [] ∧
      entry.variants = (alternatives ci entry.id).map (Variant.mk ci.rule) := by
  rw [effects_eq h] at hentry
  have hvariants := NodeEdit.variantsFor_of_mem
    (NodeEdit.nodup_map_id_foldl_pushVariant _ [] List.nodup_nil) hentry
  rw [NodeEdit.variantsFor_foldl_pushVariant] at hvariants
  have hnone : NodeEdit.variantsFor entry.id [] = none := rfl
  simp only [hnone, Option.getD_none, List.append_nil, List.reverse_eq_nil_iff] at hvariants
  split at hvariants
  next => cases hvariants
  next hne =>
    obtain ⟨variant, hvariant⟩ := List.exists_mem_of_ne_nil _ hne
    simp only [List.mem_filter, List.mem_flatMap, decide_eq_true_eq] at hvariant
    obtain ⟨⟨ci, hci, hvariant⟩, hid⟩ := hvariant
    have hindex : ci.rule.index = entry.id.index := by
      rw [← id_index_of_mem_variantsTo hci hvariant, hid]
    rw [filter_flatMap_variantsTo hci hindex, filter_variantsTo hci] at hvariants hne
    split at hne
    next hkey =>
      rw [if_pos hkey] at hvariants
      refine ⟨ci, hci, hindex, Ne.symm hkey.2, hkey.1, ?_, ?_⟩
      · simpa [alternatives] using hne
      · rw [← Option.some.inj hvariants, alternatives, List.map_reverse]
    next => exact absurd rfl hne

/-- An alternative on a target is an effect of an interaction of another key, with the id of its
entry. -/
theorem Graph.exists_effect_of_mem_variants {config : Config} {key : String} {node : GraphNode}
    (h : (Graph.ofConfig config).nodes.get? key = some node) {entry : TargetEffects}
    (hentry : entry ∈ node.effects) {variant : Variant} (hvariant : variant ∈ entry.variants) :
    ∃ ci ∈ accepted config, ∃ effect ∈ ci.effects, variant = ⟨ci.rule, effect⟩ ∧
      effect.id = entry.id ∧ effect.target = key ∧ ci.rule.key ≠ key := by
  obtain ⟨ci, hci, -, hother, htarget, -, hvariants⟩ := variants_eq h hentry
  rw [hvariants] at hvariant
  obtain ⟨effect, heffect, rfl⟩ := List.mem_map.mp hvariant
  obtain ⟨heffect, hid⟩ := mem_alternatives.mp heffect
  refine ⟨ci, hci, effect, heffect, rfl, hid, ?_, hother⟩
  rw [← htarget, ← hid, id_eq_of_mem_effects hci heffect]

/-- The index in the id of an entry names the interaction that the alternatives belong to. -/
theorem Graph.variants_eq_of_index {config : Config} {key : String} {node : GraphNode}
    (h : (Graph.ofConfig config).nodes.get? key = some node) {entry : TargetEffects}
    (hentry : entry ∈ node.effects) {ci : CompiledInteraction} (hci : ci ∈ accepted config)
    (hindex : entry.id.index = ci.rule.index) :
    entry.variants = (alternatives ci entry.id).map (Variant.mk ci.rule) := by
  obtain ⟨other, hother, hsame, -, -, -, hvariants⟩ := variants_eq h hentry
  obtain rfl := accepted_eq_of_index_eq hother hci (hsame.trans hindex)
  exact hvariants

/-- Every effect on another key has an entry on its target. -/
theorem Graph.exists_entry {config : Config} {ci : CompiledInteraction}
    (hci : ci ∈ accepted config) {effect : CompiledEffect} (heffect : effect ∈ ci.effects)
    (hother : effect.target ≠ ci.rule.key) :
    ∃ node, (Graph.ofConfig config).nodes.get? effect.target = some node ∧
      ∃ entry ∈ node.effects, entry.id = effect.id := by
  have hreach : ¬(NodeEdit.variant ⟨ci.rule, effect⟩).IsReach := not_false
  have hmem : (effect.target, NodeEdit.variant ⟨ci.rule, effect⟩) ∈ edits config :=
    (mem_edits_of_not_isReach hreach).mpr
      ⟨ci, hci, .inl (.inl ⟨effect, heffect, .inr ⟨hother, rfl, rfl⟩⟩)⟩
  have hnode := get?_nodes_ofConfig.mpr ⟨List.ne_nil_of_mem (mem_editsOf.mpr hmem), rfl⟩
  refine ⟨_, hnode, ?_⟩
  have hvariant : (⟨ci.rule, effect⟩ : Variant) ∈
      (accepted config).flatMap (variantsTo effect.target) :=
    List.mem_flatMap.mpr ⟨ci, hci, by simp [variantsTo, heffect, hother]⟩
  have hfor := NodeEdit.variantsFor_foldl_pushVariant effect.id
    ((accepted config).flatMap (variantsTo effect.target)) []
  rw [← effects_eq hnode] at hfor
  have hne : ((accepted config).flatMap (variantsTo effect.target)).filter
      (fun variant => variant.effect.id = effect.id) ≠ [] :=
    List.ne_nil_of_mem (List.mem_filter.mpr ⟨hvariant, by simp⟩)
  simp only [List.reverse_eq_nil_iff, hne, if_false, NodeEdit.variantsFor,
    Option.map_eq_some_iff] at hfor
  obtain ⟨entry, hfind, -⟩ := hfor
  exact ⟨entry, List.mem_of_find?_eq_some hfind, by simpa using List.find?_some hfind⟩

/-- A graph has a node for the keys that it knows. -/
theorem Graph.isSome_get? (graph : Graph) (key : String) :
    (graph.get? key).isSome = graph.knows key := by
  rw [get?, knows, resolveKey]
  by_cases hkey : graph.nodes.contains key = true
  · rw [if_pos hkey]
    exact hkey
  · rw [if_neg hkey]
    by_cases htemplate : graph.nodes.contains (KeyTemplate.template key) = true
    · simp only [if_pos htemplate]
      exact htemplate
    · simp only [if_neg htemplate]
      rfl

end InteractionBinding
