import InteractionBinding.Proofs.Graph.CrossReferences
/-!
# The ways back to sequences

A sequence goes out when all members that are open have a connected target. If the target of a
member connects last, it has to find the sequence, so its node keeps a link that leads back to the
source. The links of a compiled graph are exact (`Graph.backLinked_ofConfig`): every member of a
sequence has one on its target, unless this is the source itself, every link is that of a member,
and no node holds a link twice. A sequence without a link would not go out when a member connects
last.
-/

namespace InteractionBinding

open Compile

/-- Edits add a link only where it is not held yet. -/
theorem NodeEdit.nodup_sequenceLinks_foldl_apply (edits : List NodeEdit) (node : GraphNode)
    (h : node.sequenceLinks.Nodup) :
    (edits.foldl (fun node edit => edit.apply node) node).sequenceLinks.Nodup := by
  induction edits generalizing node with
  | nil => exact h
  | cons edit rest ih =>
    refine ih _ ?_
    cases edit with
    | link back =>
      simp only [apply]
      split
      · exact h
      next hnew => exact List.concat_eq_append ▸ h.concat hnew
    | interactionId id => simp only [apply]; split <;> exact h
    | _ => exact h

namespace Graph

variable {config : Config} {key : String} {node : GraphNode}

/-- The links of a graph are those of the members of sequences. -/
structure BackLinked (graph : Graph) : Prop where
  /-- A member with another target has a link on the node of the target. -/
  linked (source : String) (node : GraphNode) : graph.nodes.get? source = some node →
    ∀ ci ∈ node.triggers, ∀ sequence ∈ ci.sequences,
      ∀ member ∈ sequence.effects, member.target ≠ source →
        ∃ target, graph.nodes.get? member.target = some target ∧
          ⟨source, sequence.id⟩ ∈ target.sequenceLinks
  recorded (source : String) (node : GraphNode) : graph.nodes.get? source = some node →
    ∀ ci ∈ node.triggers, ∀ sequence ∈ ci.sequences, sequence.id ∈ node.interactionIds
  /-- A link leads back to a sequence of its source that has a member on the key. -/
  traced (key : String) (node : GraphNode) : graph.nodes.get? key = some node →
    ∀ link ∈ node.sequenceLinks, link.source ≠ key ∧
      ∃ sourceNode, graph.nodes.get? link.source = some sourceNode ∧
        ∃ ci ∈ sourceNode.triggers, ∃ sequence ∈ ci.sequences, sequence.id = link.sequence ∧
          ∃ member ∈ sequence.effects, member.target = key
  nodup (key : String) (node : GraphNode) : graph.nodes.get? key = some node →
    node.sequenceLinks.Nodup

theorem nodup_sequenceLinks (h : (ofConfig config).nodes.get? key = some node) :
    node.sequenceLinks.Nodup := by
  obtain ⟨-, rfl⟩ := get?_nodes_ofConfig.mp h
  exact NodeEdit.nodup_sequenceLinks_foldl_apply _ _ List.nodup_nil

/-- The target of a member of a sequence holds the link of the sequence. -/
theorem exists_link {ci : CompiledInteraction} (hci : ci ∈ accepted config)
    {sequence : CompiledSequence} (hsequence : sequence ∈ ci.sequences) {member : CompiledEffect}
    (hmember : member ∈ sequence.effects) (hother : member.target ≠ ci.rule.key) :
    ∃ target, (ofConfig config).nodes.get? member.target = some target ∧
      ⟨ci.rule.key, sequence.id⟩ ∈ target.sequenceLinks := by
  have heffect : member ∈ effectsOf ci :=
    List.mem_append_right _ (List.mem_flatMap.mpr ⟨sequence, hsequence, hmember⟩)
  obtain ⟨target, htarget⟩ := exists_target hci heffect
  exact ⟨target, htarget, (mem_sequenceLinks_iff htarget).mpr
    ⟨ci, hci, sequence, hsequence, member, hmember, rfl, hother, rfl⟩⟩

/-- The links of a compiled graph are those of the members of its sequences. -/
theorem backLinked_ofConfig (config : Config) : BackLinked (ofConfig config) where
  linked source node h ci hci sequence hsequence member hmember hother := by
    obtain ⟨haccepted, rfl⟩ := (mem_triggers_iff h).mp hci
    exact exists_link haccepted hsequence hmember hother
  recorded source node h ci hci sequence hsequence := by
    obtain ⟨haccepted, hkey⟩ := (mem_triggers_iff h).mp hci
    exact (mem_interactionIds_iff h).mpr ⟨ci, haccepted, hkey, .inr ⟨sequence, hsequence, rfl⟩⟩
  traced key node h link hlink := by
    obtain ⟨ci, haccepted, sequence, hsequence, member, hmember, htarget, hother, rfl⟩ :=
      (mem_sequenceLinks_iff h).mp hlink
    obtain ⟨sourceNode, hsource, hci⟩ := exists_node_of_mem_accepted haccepted
    exact ⟨hother.symm, sourceNode, hsource, ci, hci, sequence, hsequence, rfl, member, hmember,
      htarget⟩
  nodup _ _ h := nodup_sequenceLinks h

end Graph

end InteractionBinding
