import InteractionBinding.Proofs.Graph.Nodes
/-!
# What a key takes part in

The ids that a node of a compiled graph records are those of the effects and sequences with its key
on one of their sides (`Graph.mem_allInteractionIds_iff`), and every selector that an interaction asks
to record on a key is recorded (`Graph.mem_selectors_of_mem_edits`).
-/

namespace InteractionBinding

open Compile

namespace NodeEdit

theorem mem_interactionIds_foldl_apply (id : InteractionId) (edits : List NodeEdit)
    (node : GraphNode) :
    id ∈ (edits.foldl (fun node edit => edit.apply node) node).interactionIds ↔
      id ∈ node.interactionIds ∨ .interactionId id ∈ edits := by
  induction edits generalizing node with
  | nil => simp
  | cons edit rest ih =>
    rw [List.foldl_cons, ih, List.mem_cons]
    cases edit with
    | interactionId other =>
      simp only [apply, interactionId.injEq]
      split
      · grind
      · simp only [List.mem_append, List.mem_singleton]
        grind
    | link back => simp only [apply]; split <;> simp
    | _ => simp [apply]

theorem mem_sequenceLinks_foldl_apply (back : SequenceLink) (edits : List NodeEdit)
    (node : GraphNode) :
    back ∈ (edits.foldl (fun node edit => edit.apply node) node).sequenceLinks ↔
      back ∈ node.sequenceLinks ∨ .link back ∈ edits := by
  induction edits generalizing node with
  | nil => simp
  | cons edit rest ih =>
    rw [List.foldl_cons, ih, List.mem_cons]
    cases edit with
    | interactionId id => simp only [apply]; split <;> simp
    | link other =>
      simp only [apply, link.injEq]
      split
      · grind
      · simp only [List.mem_append, List.mem_singleton]
        grind
    | _ => simp [apply]

theorem get?_selectors_foldl_apply (text : String) (edits : List NodeEdit) (node : GraphNode)
    (h : node.selectors.get? text = some () ∨ .selector text ∈ edits) :
    (edits.foldl (fun node edit => edit.apply node) node).selectors.get? text = some () := by
  induction edits generalizing node with
  | nil => simpa using h
  | cons edit rest ih =>
    rw [List.foldl_cons]
    refine ih _ ?_
    rw [List.mem_cons] at h
    cases edit with
    | selector other =>
      simp only [apply, KeySet.add, KeyMap.get?_insert]
      by_cases heq : text = other
      · simp [heq]
      · simpa [heq] using h
    | interactionId | link => simp only [apply]; split <;> simpa using h
    | _ => simpa [apply] using h

end NodeEdit

namespace Compile

variable {config : Config}

theorem mem_edits_interactionId {key : String} {id : InteractionId} :
    (key, NodeEdit.interactionId id) ∈ edits config ↔
      ∃ ci ∈ accepted config, ci.rule.key = key ∧
        ((∃ effect ∈ ci.effects, effect.id = id) ∨
          ∃ sequence ∈ ci.sequences, sequence.id = id) := by
  have hreach : ¬(NodeEdit.interactionId id).IsReach := not_false
  rw [mem_edits_of_not_isReach hreach]
  simp only [reduceCtorEq, and_false, or_false, exists_false, false_or,
    NodeEdit.interactionId.injEq]
  grind

theorem mem_edits_link {key : String} {back : SequenceLink} :
    (key, NodeEdit.link back) ∈ edits config ↔
      ∃ ci ∈ accepted config, ∃ sequence ∈ ci.sequences, ∃ effect ∈ sequence.effects,
        effect.target = key ∧ key ≠ ci.rule.key ∧ back = ⟨ci.rule.key, sequence.id⟩ := by
  have hreach : ¬(NodeEdit.link back).IsReach := not_false
  rw [mem_edits_of_not_isReach hreach]
  simp only [reduceCtorEq, and_false, or_false, exists_false, false_or, NodeEdit.link.injEq]
  grind

end Compile

namespace Graph

variable {config : Config} {key : String} {node : GraphNode}

theorem mem_interactionIds_iff (h : (Graph.ofConfig config).nodes.get? key = some node)
    {id : InteractionId} :
    id ∈ node.interactionIds ↔
      ∃ ci ∈ accepted config, ci.rule.key = key ∧
        ((∃ effect ∈ ci.effects, effect.id = id) ∨
          ∃ sequence ∈ ci.sequences, sequence.id = id) := by
  obtain ⟨-, rfl⟩ := get?_nodes_ofConfig.mp h
  rw [NodeEdit.mem_interactionIds_foldl_apply, mem_editsOf, mem_edits_interactionId]
  simp [GraphNode.empty]

theorem mem_sequenceLinks_iff (h : (Graph.ofConfig config).nodes.get? key = some node)
    {back : SequenceLink} :
    back ∈ node.sequenceLinks ↔
      ∃ ci ∈ accepted config, ∃ sequence ∈ ci.sequences, ∃ effect ∈ sequence.effects,
        effect.target = key ∧ key ≠ ci.rule.key ∧ back = ⟨ci.rule.key, sequence.id⟩ := by
  obtain ⟨-, rfl⟩ := get?_nodes_ofConfig.mp h
  rw [NodeEdit.mem_sequenceLinks_foldl_apply, mem_editsOf, mem_edits_link]
  simp [GraphNode.empty]

theorem exists_entry_iff (h : (Graph.ofConfig config).nodes.get? key = some node)
    {id : InteractionId} :
    (∃ entry ∈ node.effects, entry.id = id) ↔
      ∃ ci ∈ accepted config, ∃ effect ∈ ci.effects,
        effect.target = key ∧ key ≠ ci.rule.key ∧ effect.id = id := by
  constructor
  · rintro ⟨entry, hentry, rfl⟩
    obtain ⟨ci, hci, -, hother, htarget, hne, -⟩ := variants_eq h hentry
    obtain ⟨effect, heffect⟩ := List.exists_mem_of_ne_nil _ hne
    obtain ⟨heffect, hid⟩ := mem_alternatives.mp heffect
    refine ⟨ci, hci, effect, heffect, ?_, Ne.symm hother, hid⟩
    rw [← htarget, ← hid, id_eq_of_mem_effects hci heffect]
  · rintro ⟨ci, hci, effect, heffect, rfl, hother, rfl⟩
    obtain ⟨other, hnode, hentry⟩ := exists_entry hci heffect hother
    obtain rfl := Option.some.inj (h.symm.trans hnode)
    exact hentry

/-- A key takes part in the ids of the effects and sequences of its own interactions, of the effects
that it is another key's target of, and of the sequences that it is a member target of. -/
theorem mem_allInteractionIds_iff (h : (Graph.ofConfig config).nodes.get? key = some node)
    {id : InteractionId} :
    id ∈ node.allInteractionIds ↔
      ∃ ci ∈ accepted config,
        (∃ effect ∈ ci.effects, effect.id = id ∧ (ci.rule.key = key ∨ effect.target = key)) ∨
        ∃ sequence ∈ ci.sequences, sequence.id = id ∧
          (ci.rule.key = key ∨ ∃ effect ∈ sequence.effects, effect.target = key) := by
  have hentry := @exists_entry_iff config key node h id
  simp only [GraphNode.allInteractionIds, List.mem_append, List.mem_map, mem_interactionIds_iff h,
    mem_sequenceLinks_iff h, hentry]
  constructor
  · rintro ((⟨ci, hci, hkey, hid⟩ | ⟨ci, hci, effect, heffect, htarget, -, hid⟩) |
      ⟨back, ⟨ci, hci, sequence, hsequence, effect, heffect, htarget, -, rfl⟩, rfl⟩)
    · exact ⟨ci, hci, hid.imp (fun ⟨effect, heffect, hid⟩ => ⟨effect, heffect, hid, .inl hkey⟩)
        fun ⟨sequence, hsequence, hid⟩ => ⟨sequence, hsequence, hid, .inl hkey⟩⟩
    · exact ⟨ci, hci, .inl ⟨effect, heffect, hid, .inr htarget⟩⟩
    · exact ⟨ci, hci, .inr ⟨sequence, hsequence, rfl, .inr ⟨effect, heffect, htarget⟩⟩⟩
  · rintro ⟨ci, hci, ⟨effect, heffect, hid, hkey⟩ | ⟨sequence, hsequence, hid, hkey⟩⟩
    · by_cases hown : ci.rule.key = key
      · exact .inl (.inl ⟨ci, hci, hown, .inl ⟨effect, heffect, hid⟩⟩)
      · exact .inl (.inr ⟨ci, hci, effect, heffect, hkey.resolve_left hown, Ne.symm hown, hid⟩)
    · by_cases hown : ci.rule.key = key
      · exact .inl (.inl ⟨ci, hci, hown, .inr ⟨sequence, hsequence, hid⟩⟩)
      · obtain ⟨effect, heffect, htarget⟩ := hkey.resolve_left hown
        exact .inr ⟨⟨ci.rule.key, sequence.id⟩,
          ⟨ci, hci, sequence, hsequence, effect, heffect, htarget, Ne.symm hown, rfl⟩, hid⟩

/-! ### Selectors -/

theorem mem_selectors_of_mem_edits (h : (Graph.ofConfig config).nodes.get? key = some node)
    {text : String} (hedit : (key, NodeEdit.selector text) ∈ edits config) :
    text ∈ node.selectors.keys := by
  obtain ⟨-, rfl⟩ := get?_nodes_ofConfig.mp h
  exact KeyMap.mem_keys_iff.mpr
    ⟨(), NodeEdit.get?_selectors_foldl_apply text _ _ (.inr (mem_editsOf.mpr hedit))⟩

end Graph

end InteractionBinding
