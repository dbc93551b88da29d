import InteractionBinding.Engine.Watch
import InteractionBinding.Proofs.Graph.Participation
/-!
# The selectors that a graph records

A compiled graph records on each key the selectors that reach elements below the element of the key.
Whatever an interaction reaches from its source, and an effect from its target, is reached by one of
them: by the selector itself, or, in a list, by the selector of its items
(`Graph.records_rule`, `Graph.records_effect`).
-/

namespace InteractionBinding

open Compile

/-- A node of a graph records the selectors by which elements are reached: a selector, and that of
the items of a list. -/
structure GraphNode.Records (node : GraphNode) (selector container item : Option String) : Prop where
  selector (text : String) : selector = some text → text ∈ node.selectors.keys
  items (text : String) : container = some text →
    Engine.itemsSelector text item ∈ node.selectors.keys

namespace Graph

variable {config : Config} {key : String} {node : GraphNode} {ci : CompiledInteraction}

theorem records_of_selectorEdits {selector container item : Option String}
    (h : (ofConfig config).nodes.get? key = some node)
    (hedits : selectorEdits key selector container item ⊆ edits config) :
    node.Records selector container item where
  selector text htext := by
    refine mem_selectors_of_mem_edits h (hedits ?_)
    simp [selectorEdits, htext]
  items text htext := by
    refine mem_selectors_of_mem_edits h (hedits ?_)
    simp [selectorEdits, listEdits, htext, Engine.itemsSelector]

/-- The source of an interaction records how its elements are reached. -/
theorem records_rule (hci : ci ∈ accepted config)
    (h : (ofConfig config).nodes.get? ci.rule.key = some node) :
    node.Records ci.rule.selector ci.rule.listContainer ci.rule.listItemSelector := by
  refine records_of_selectorEdits h fun edit hedit => mem_edits.mpr ⟨ci, hci, ?_⟩
  simp [interactionEdits, hedit]

/-- The target of an effect, or of a member of a sequence, records how its elements are reached. -/
theorem records_effect (hci : ci ∈ accepted config) {effect : CompiledEffect}
    (heffect : effect ∈ effectsOf ci)
    (h : (ofConfig config).nodes.get? effect.target = some node) :
    node.Records effect.effect.selector effect.effect.listContainer
      effect.effect.listItemSelector := by
  refine records_of_selectorEdits h fun edit hedit => mem_edits.mpr ⟨ci, hci, ?_⟩
  have htarget : edit ∈ targetEdits effect := hedit
  simp only [interactionEdits, List.mem_append, List.mem_flatMap]
  rcases List.mem_append.mp heffect with heffect | heffect
  · refine .inl (.inl (.inr ⟨effect, heffect, ?_⟩))
    exact List.mem_append_left _ (List.mem_append_left _ htarget)
  · obtain ⟨sequence, hsequence, heffect⟩ := List.mem_flatMap.mp heffect
    refine .inl (.inr ⟨sequence, hsequence, List.mem_append_left _ ?_⟩)
    exact List.mem_flatMap.mpr ⟨effect, heffect, List.mem_append_left _ htarget⟩

end Graph

end InteractionBinding
