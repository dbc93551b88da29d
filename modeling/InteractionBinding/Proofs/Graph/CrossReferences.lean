import InteractionBinding.Proofs.Graph.Participation
import Mathlib.Data.List.Perm.Basic
/-!
# Cross-references of a compiled graph

A compiled graph keeps every effect twice: on its source, among the triggers, and on its target, as
one of the alternatives for an id. The two sides agree (`Graph.crossReferenced_ofConfig`): the
variants of a target are the effects of the triggers that land on it, each of them as often as it is
declared, and the alternatives for an id are those of one trigger in declared order.
-/

namespace InteractionBinding

open Compile

/-! ### Triggers -/

namespace Compile

variable {config : Config} {key : String}

theorem filterMap_trigger?_interactionEdits (key : String) (ci : CompiledInteraction) :
    (editsOf key (interactionEdits ci)).filterMap NodeEdit.trigger? =
      if ci.rule.key = key then [ci] else [] := by
  have hselector := filterMap_selectorEdits_eq_nil NodeEdit.trigger?_of_isReach key
  have heffects : (editsOf key (ci.effects.flatMap (effectEdits ci.rule))).filterMap
      NodeEdit.trigger? = [] := by
    rw [editsOf_flatMap, List.filterMap_flatMap]
    refine List.flatMap_eq_nil_iff.mpr fun effect _ => ?_
    simp only [effectEdits, targetEdits, editsOf_append, List.filterMap_append, hselector]
    split <;> simp only [editsOf_cons, editsOf_nil] <;> split <;>
      first | rfl | (split <;> rfl)
  have hsequences : (editsOf key (ci.sequences.flatMap (sequenceEdits ci.rule))).filterMap
      NodeEdit.trigger? = [] :=
    filterMap_sequenceEdits_eq_nil NodeEdit.trigger?_of_isReach (fun _ => rfl) (fun _ => rfl) ..
  simp only [interactionEdits, editsOf_append, List.filterMap_append, hselector, heffects,
    hsequences, List.nil_append, editsOf_cons, editsOf_nil]
  split <;> rfl

/-- The effects of an interaction that have an id, as it declares them. -/
theorem alternatives_compileInteraction (config : Config) (interaction : Interaction) (rule : Rule)
    (id : InteractionId) :
    alternatives (compileInteraction config interaction rule) id =
      (compileEffects config.effects rule interaction.effects.zipIdx).filter
        fun effect => effect.id = id := by
  rw [alternatives, compileInteraction, compileEffects, compileEffects, List.filterMap_reverse,
    List.filter_reverse, List.reverse_reverse]

/-- Every effect of an interaction, and every member of its sequences, makes its target known. -/
theorem exists_edit_of_mem_effectsOf {ci : CompiledInteraction} (hci : ci ∈ accepted config)
    {effect : CompiledEffect} (heffect : effect ∈ Graph.effectsOf ci) :
    (effect.target, NodeEdit.touch) ∈ edits config := by
  have htouch : (effect.target, NodeEdit.touch) ∈ targetEdits effect := .head _
  refine mem_edits.mpr ⟨ci, hci, ?_⟩
  simp only [interactionEdits, List.mem_append, List.mem_flatMap]
  rcases List.mem_append.mp heffect with heffect | heffect
  · refine .inl (.inl (.inr ⟨effect, heffect, ?_⟩))
    exact List.mem_append_left _ (List.mem_append_left _ htouch)
  · obtain ⟨sequence, hsequence, heffect⟩ := List.mem_flatMap.mp heffect
    refine .inl (.inr ⟨sequence, hsequence, List.mem_append_left _ ?_⟩)
    exact List.mem_flatMap.mpr ⟨effect, heffect, List.mem_append_left _ htouch⟩

end Compile

/-! ### Variants -/

namespace NodeEdit

/-- Pushing a variant adds it to the variants of all ids. -/
theorem flatMap_variants_pushVariant (variant : Variant) (entries : List TargetEffects) :
    ((pushVariant variant entries).flatMap TargetEffects.variants).Perm
      (variant :: entries.flatMap TargetEffects.variants) := by
  induction entries with
  | nil => rfl
  | cons entry rest ih =>
    rw [pushVariant]
    split
    · rfl
    · rw [List.flatMap_cons, List.flatMap_cons]
      exact (ih.append_left entry.variants).trans List.perm_middle

theorem flatMap_variants_foldl_pushVariant (variants : List Variant)
    (entries : List TargetEffects) :
    ((variants.foldl (fun entries variant => pushVariant variant entries) entries).flatMap
      TargetEffects.variants).Perm (variants ++ entries.flatMap TargetEffects.variants) := by
  induction variants generalizing entries with
  | nil => rfl
  | cons variant rest ih =>
    refine (ih _).trans (((flatMap_variants_pushVariant variant entries).append_left rest).trans ?_)
    exact List.perm_middle

end NodeEdit

namespace Graph

variable {config : Config} {key source : String} {node sourceNode : GraphNode}

/-- The triggers of a node are the accepted interactions of its key, in declared order. -/
theorem triggers_eq (h : (ofConfig config).nodes.get? key = some node) :
    node.triggers = (accepted config).filter fun ci => ci.rule.key = key := by
  obtain ⟨-, rfl⟩ := get?_nodes_ofConfig.mp h
  rw [NodeEdit.triggers_foldl_apply, edits, editsOf_flatMap, List.filterMap_flatMap]
  simp only [filterMap_trigger?_interactionEdits, GraphNode.empty, List.nil_append]
  induction accepted config with
  | nil => rfl
  | cons ci rest ih =>
    rw [List.flatMap_cons, ih, List.filter_cons]
    split <;> simp_all

theorem rule_eq_of_mem_variantsTo {ci : CompiledInteraction} {variant : Variant}
    (h : variant ∈ variantsTo key ci) : variant.rule = ci.rule := by
  obtain ⟨effect, -, rfl⟩ := List.mem_map.mp h
  rfl

/-- The variants of a target that come from a source are the effects of the triggers of the source
that land on the target, each of them as often as it is declared. -/
theorem variants_from_perm (h : (ofConfig config).nodes.get? key = some node)
    (hsource : (ofConfig config).nodes.get? source = some sourceNode) :
    ((node.effects.flatMap TargetEffects.variants).filter
      fun variant => variant.rule.key = source).Perm
        (sourceNode.triggers.flatMap (variantsTo key)) := by
  rw [effects_eq h, triggers_eq hsource]
  refine ((NodeEdit.flatMap_variants_foldl_pushVariant _ []).filter _).trans ?_
  rw [List.flatMap_nil, List.append_nil, List.filter_flatMap]
  refine List.Perm.of_eq ?_
  induction accepted config with
  | nil => rfl
  | cons ci rest ih =>
    have hrule : (variantsTo key ci).filter (fun variant => variant.rule.key = source) =
        if ci.rule.key = source then variantsTo key ci else [] := by
      split
      next heq =>
        refine List.filter_eq_self.mpr fun variant hvariant => ?_
        rw [rule_eq_of_mem_variantsTo hvariant, decide_eq_true heq]
      next hne =>
        refine List.filter_eq_nil_iff.mpr fun variant hvariant => ?_
        rw [rule_eq_of_mem_variantsTo hvariant, decide_eq_false hne]
        exact Bool.false_ne_true
    rw [List.flatMap_cons, ih, hrule, List.filter_cons]
    split <;> simp_all

/-- A graph has an interaction as a trigger of its source. -/
def HasTrigger (graph : Graph) (ci : CompiledInteraction) : Prop :=
  ∃ node, graph.nodes.get? ci.rule.key = some node ∧ ci ∈ node.triggers

theorem hasTrigger_iff {ci : CompiledInteraction} :
    (ofConfig config).HasTrigger ci ↔ ci ∈ accepted config :=
  ⟨fun ⟨_, hnode, htrigger⟩ => ((mem_triggers_iff hnode).mp htrigger).1,
    exists_node_of_mem_accepted⟩

/-- The target of an effect, or of a member of a sequence, is a key of the graph. -/
theorem exists_target {ci : CompiledInteraction} (hci : ci ∈ accepted config)
    {effect : CompiledEffect} (heffect : effect ∈ effectsOf ci) :
    ∃ node, (ofConfig config).nodes.get? effect.target = some node :=
  ⟨_, get?_nodes_ofConfig.mpr
    ⟨List.ne_nil_of_mem (mem_editsOf.mpr (exists_edit_of_mem_effectsOf hci heffect)), rfl⟩⟩

/-- The entry of an id on its target lists the effects that one trigger of another key declares with
the id, in declared order. -/
structure EntryOf (config : Config) (graph : Graph) (target : String) (entry : TargetEffects)
    (interaction : Interaction) (rule : Rule) : Prop where
  declared : interaction ∈ config.interactions
  source : sourceKey? interaction = some rule.key
  accepts : rule = ruleOf interaction rule.key rule.index
  index : rule.index = entry.id.index
  trigger : graph.HasTrigger (compileInteraction config interaction rule)
  unique (ci : CompiledInteraction) : graph.HasTrigger ci → ci.rule.index = entry.id.index →
    ci = compileInteraction config interaction rule
  other : rule.key ≠ target
  variants : entry.variants =
    ((compileEffects config.effects rule interaction.effects.zipIdx).filter
      fun effect => effect.id = entry.id).map (Variant.mk rule)

/-- The sides of the effects of a graph agree. -/
structure CrossReferenced (config : Config) (graph : Graph) : Prop where
  ids_nodup (key : String) (node : GraphNode) : graph.nodes.get? key = some node →
    (node.effects.map TargetEffects.id).Nodup
  target (key : String) (node : GraphNode) : graph.nodes.get? key = some node →
    ∀ entry ∈ node.effects, entry.id.target = key
  entry (key : String) (node : GraphNode) : graph.nodes.get? key = some node →
    ∀ entry ∈ node.effects, ∃ interaction rule, graph.EntryOf config key entry interaction rule
  variants (key source : String) (node sourceNode : GraphNode) :
    graph.nodes.get? key = some node → graph.nodes.get? source = some sourceNode →
      ((node.effects.flatMap TargetEffects.variants).filter
        fun variant => variant.rule.key = source).Perm
          (sourceNode.triggers.flatMap fun ci =>
            (ci.effects.filter fun effect => effect.target = key ∧ effect.target ≠ ci.rule.key).map
              (Variant.mk ci.rule))
  recorded (key : String) (node : GraphNode) : graph.nodes.get? key = some node →
    ∀ ci ∈ node.triggers, ∀ effect ∈ ci.effects, effect.id ∈ node.interactionIds
  known (key : String) (node : GraphNode) : graph.nodes.get? key = some node →
    ∀ ci ∈ node.triggers, ∀ effect ∈ effectsOf ci, (graph.nodes.get? effect.target).isSome
  own (key : String) (node : GraphNode) : graph.nodes.get? key = some node →
    ∀ id ∈ node.interactionIds, ∃ ci ∈ node.triggers,
      (∃ effect ∈ ci.effects, effect.id = id) ∨ ∃ sequence ∈ ci.sequences, sequence.id = id

theorem exists_entryOf (h : (ofConfig config).nodes.get? key = some node) {entry : TargetEffects}
    (hentry : entry ∈ node.effects) :
    ∃ interaction rule, (ofConfig config).EntryOf config key entry interaction rule := by
  obtain ⟨ci, hci, hindex, hother, -, -, hvariants⟩ := variants_eq h hentry
  obtain ⟨interaction, hinteraction, source, index, hsource, rfl⟩ :=
    exists_of_mem_acceptedFrom hci
  refine ⟨interaction, ruleOf interaction source index, hinteraction, hsource, rfl, hindex,
    hasTrigger_iff.mpr hci, fun other htrigger hother => ?_, hother, ?_⟩
  · exact accepted_eq_of_index_eq (hasTrigger_iff.mp htrigger) hci (hother.trans hindex.symm)
  · rw [hvariants, alternatives_compileInteraction]
    rfl

/-- The sides of the effects of a compiled graph agree. -/
theorem crossReferenced_ofConfig (config : Config) : CrossReferenced config (ofConfig config) where
  ids_nodup key node h := by
    rw [effects_eq h]
    exact NodeEdit.nodup_map_id_foldl_pushVariant _ [] List.nodup_nil
  target key node h entry hentry := by
    obtain ⟨-, -, -, -, htarget, -, -⟩ := variants_eq h hentry
    exact htarget
  entry key node h entry hentry := exists_entryOf h hentry
  variants key source node sourceNode h hsource := variants_from_perm h hsource
  recorded key node h ci hci effect heffect := by
    obtain ⟨haccepted, hkey⟩ := (mem_triggers_iff h).mp hci
    exact (mem_interactionIds_iff h).mpr ⟨ci, haccepted, hkey, .inl ⟨effect, heffect, rfl⟩⟩
  known key node h ci hci effect heffect := by
    obtain ⟨haccepted, -⟩ := (mem_triggers_iff h).mp hci
    have hedit := mem_editsOf.mpr (exists_edit_of_mem_effectsOf haccepted heffect)
    rw [get?_nodes_ofConfig.mpr ⟨List.ne_nil_of_mem hedit, rfl⟩]
    rfl
  own key node h id hid := by
    obtain ⟨ci, haccepted, hkey, hid⟩ := (mem_interactionIds_iff h).mp hid
    exact ⟨ci, (mem_triggers_iff h).mpr ⟨haccepted, hkey⟩, hid⟩

end Graph

end InteractionBinding
