import InteractionBinding.Proofs.Engine.Runs
import InteractionBinding.Proofs.Graph.Participation
/-!
# Where candidates and cues come from

Every candidate stems from an effect of an interaction of its instance (`Pass.Stems`), and no two
candidates of one side share an id (`Pass.nodup_id_outgoingOf`, `Pass.nodup_id_incomingOf`). A full
pass selects no id that has been applied. Every cue belongs to an interaction in the same way
(`Cue.BelongsTo`), and the candidates and the cues of an interaction have one source
(`Scene.source?`).
-/

namespace InteractionBinding

/-- The controller of the source of a rule in a pass over a key: that of the key itself for a rule of
the key, and otherwise the one that is connected under the source key, with the indices of the key
filled in. -/
def Scene.source? (scene : Scene) (i : InstanceId) (c : ControllerId) (key : String)
    (rule : Rule) : Option ControllerId :=
  if (scene.inst i).graph.resolveKey key = some rule.key then some c
  else scene.connectedController? (KeyTemplate.interpolate rule.key (KeyTemplate.indices key))

namespace Engine

variable {engine : Engine} {c : ControllerId} {key : String}

namespace Pass

variable {pass : Pass} {candidate : Candidate}

/-- A candidate stems from an effect of an interaction of a graph, a key being resolved. -/
structure Stems (graph : Graph) (key : String) (candidate : Candidate)
    (interaction : CompiledInteraction) : Prop where
  declared : ∃ node, graph.nodes.get? interaction.rule.key = some node ∧
    interaction ∈ node.triggers
  effect : candidate.effect ∈ interaction.effects
  rule : candidate.rule = interaction.rule
  id : candidate.id = candidate.effect.id.interpolate (KeyTemplate.indices key)
  index : candidate.effect.id.index = interaction.rule.index

theorem node?_eq_some {node : GraphNode} :
    pass.node? engine key = some node ↔
      ∃ graphKey, (pass.graph engine).resolveKey key = some graphKey ∧
        (pass.graph engine).nodes.get? graphKey = some node :=
  Option.bind_eq_some_iff

/-- A candidate for a source is made by an effect of an interaction of the source. -/
theorem mem_outgoingOf (h : candidate ∈ pass.outgoingOf engine c key) :
    ∃ node interaction effect, pass.node? engine key = some node ∧ interaction ∈ node.triggers ∧
      effect ∈ interaction.effects ∧
      pass.outgoing? engine c key interaction.rule effect = some candidate := by
  rw [outgoingOf] at h
  split at h
  next => exact absurd h List.not_mem_nil
  next node hnode =>
    obtain ⟨interaction, htrigger, h⟩ := List.mem_flatMap.mp (mem_offered_of_mem_outgoing h)
    obtain ⟨effect, heffect, h⟩ := List.mem_filterMap.mp h
    exact ⟨node, interaction, effect, hnode, htrigger, heffect, h⟩

/-- A candidate for a target is made by the alternatives of an id of the target. -/
theorem mem_incomingOf (h : candidate ∈ pass.incomingOf engine c key) :
    ∃ node, ∃ entry ∈ node.effects, pass.node? engine key = some node ∧
      pass.incoming? engine c key entry = some candidate := by
  rw [incomingOf] at h
  split at h
  next => exact absurd h List.not_mem_nil
  next node hnode =>
    obtain ⟨entry, hentry, h⟩ := List.mem_filterMap.mp h
    exact ⟨node, entry, hentry, hnode, h⟩

theorem inScope_of_mem_outgoingOf {key : String} (h : candidate ∈ pass.outgoingOf engine c key) :
    pass.inScope candidate.rule candidate.effect candidate.source candidate.target = true := by
  obtain ⟨node, interaction, effect, -, -, -, h⟩ := mem_outgoingOf h
  obtain ⟨target, -, -, -, hin, rfl⟩ := outgoing?_eq_some.mp h
  exact hin

theorem inScope_of_mem_incomingOf {key : String} (h : candidate ∈ pass.incomingOf engine c key) :
    pass.inScope candidate.rule candidate.effect candidate.source candidate.target = true := by
  obtain ⟨node, entry, -, -, h⟩ := mem_incomingOf h
  obtain ⟨variant, source, -, -, -, hin, rfl⟩ := incoming?_eq_some.mp h
  exact hin

theorem exists_stems_of_mem_outgoingOf (hcompiled : engine.Compiled)
    (h : candidate ∈ pass.outgoingOf engine c key) :
    ∃ interaction, Stems (pass.graph engine) key candidate interaction := by
  obtain ⟨node, interaction, effect, hnode, htrigger, heffect, h⟩ := mem_outgoingOf h
  obtain ⟨target, -, -, -, -, rfl⟩ := outgoing?_eq_some.mp h
  obtain ⟨config, hgraph⟩ := hcompiled pass.instanceId
  obtain ⟨graphKey, -, hget⟩ := node?_eq_some.mp hnode
  rw [Pass.graph, hgraph] at hget ⊢
  obtain ⟨haccepted, hkey⟩ := (Graph.mem_triggers_iff hget).mp htrigger
  refine ⟨interaction, ⟨node, by rw [hkey]; exact hget, htrigger⟩, heffect, rfl, rfl, ?_⟩
  rw [Compile.id_eq_of_mem_effects haccepted heffect]

theorem exists_stems_of_mem_incomingOf (hcompiled : engine.Compiled)
    (h : candidate ∈ pass.incomingOf engine c key) :
    ∃ interaction, Stems (pass.graph engine) key candidate interaction := by
  obtain ⟨node, entry, hentry, hnode, h⟩ := mem_incomingOf h
  obtain ⟨variant, source, -, hfind, -, -, rfl⟩ := incoming?_eq_some.mp h
  obtain ⟨config, hgraph⟩ := hcompiled pass.instanceId
  obtain ⟨graphKey, -, hget⟩ := node?_eq_some.mp hnode
  rw [Pass.graph, hgraph] at hget ⊢
  obtain ⟨interaction, haccepted, effect, heffect, rfl, hid, -, -⟩ :=
    Graph.exists_effect_of_mem_variants hget hentry (List.mem_of_find?_eq_some hfind)
  refine ⟨interaction, Graph.exists_node_of_mem_accepted haccepted, heffect, rfl, by rw [hid], ?_⟩
  rw [Compile.id_eq_of_mem_effects haccepted heffect]

/-! ### Ids -/

theorem nodup_id_outgoingOf : ((pass.outgoingOf engine c key).map Candidate.id).Nodup := by
  rw [outgoingOf]
  split
  next => exact List.nodup_nil
  next node hnode =>
    have hkeys := nodup_foldl_selectCandidate (pass.offered engine c key node)
    rw [show Candidate.memoKey = InteractionId.encode ∘ Candidate.id from rfl,
      ← List.map_map] at hkeys
    exact hkeys.of_map _

theorem nodup_id_incomingOf (hcompiled : engine.Compiled) :
    ((pass.incomingOf engine c key).map Candidate.id).Nodup := by
  rw [incomingOf]
  split
  next => exact List.nodup_nil
  next node hnode =>
    obtain ⟨config, hgraph⟩ := hcompiled pass.instanceId
    obtain ⟨graphKey, -, hget⟩ := node?_eq_some.mp hnode
    rw [Pass.graph, hgraph] at hget
    have hids : (node.effects.map TargetEffects.id).Nodup := by
      rw [Graph.effects_eq hget]
      exact NodeEdit.nodup_map_id_foldl_pushVariant _ [] List.nodup_nil
    have htarget (entry : TargetEffects) (hentry : entry ∈ node.effects) :
        entry.id.target = graphKey := by
      obtain ⟨_, -, -, -, htarget, -⟩ := Graph.variants_eq hget hentry
      exact htarget
    have hid {entry : TargetEffects} {candidate : Candidate}
        (h : pass.incoming? engine c key entry = some candidate) :
        candidate.id = entry.id.interpolate (KeyTemplate.indices key) := by
      obtain ⟨_, _, -, -, -, -, rfl⟩ := incoming?_eq_some.mp h
      rfl
    rw [List.nodup_iff_pairwise_ne, List.pairwise_map] at hids ⊢
    refine List.pairwise_filterMap.mpr (hids.imp_of_mem fun hmem hmem' hne => ?_)
    intro candidate hcandidate other hother heq
    rw [hid hcandidate, hid hother] at heq
    refine hne (InteractionId.ext ((htarget _ hmem).trans (htarget _ hmem').symm) ?_ ?_)
    · have heffect := congrArg InteractionId.effectId heq
      exact heffect
    · have hindex := congrArg InteractionId.index heq
      exact hindex

/-- A full pass selects no id that has been applied. -/
theorem not_mem_memo_of_mem_outgoingOf (hscope : pass.scope = none)
    (h : candidate ∈ pass.outgoingOf engine c key) :
    candidate.memoKey ∉ (engine.inst pass.instanceId).memo := by
  obtain ⟨node, interaction, effect, -, -, -, h⟩ := mem_outgoingOf h
  obtain ⟨target, -, happlied, -, -, rfl⟩ := outgoing?_eq_some.mp h
  simpa [alreadyApplied, hscope, Instance.isApplied, Candidate.memoKey] using happlied

theorem not_mem_memo_of_mem_incomingOf (hscope : pass.scope = none)
    (h : candidate ∈ pass.incomingOf engine c key) :
    candidate.memoKey ∉ (engine.inst pass.instanceId).memo := by
  obtain ⟨node, entry, -, -, h⟩ := mem_incomingOf h
  obtain ⟨variant, source, happlied, -, -, -, rfl⟩ := incoming?_eq_some.mp h
  simpa [alreadyApplied, hscope, Instance.isApplied, Candidate.memoKey] using happlied

/-! ### Sources -/

theorem source?_of_mem_outgoingOf (hcompiled : engine.Compiled)
    (h : candidate ∈ pass.outgoingOf engine c key) :
    engine.scene.source? pass.instanceId c key candidate.rule = some candidate.source := by
  obtain ⟨node, interaction, effect, hnode, htrigger, -, h⟩ := mem_outgoingOf h
  obtain ⟨target, -, -, -, -, rfl⟩ := outgoing?_eq_some.mp h
  obtain ⟨config, hgraph⟩ := hcompiled pass.instanceId
  obtain ⟨graphKey, hresolve, hget⟩ := node?_eq_some.mp hnode
  rw [Pass.graph, hgraph] at hresolve hget
  obtain ⟨-, hkey⟩ := (Graph.mem_triggers_iff hget).mp htrigger
  rw [Scene.source?, ← graph_inst_eq, hgraph, if_pos (hkey ▸ hresolve)]

theorem source?_of_mem_incomingOf (hcompiled : engine.Compiled)
    (h : candidate ∈ pass.incomingOf engine c key) :
    engine.scene.source? pass.instanceId c key candidate.rule = some candidate.source := by
  obtain ⟨node, entry, hentry, hnode, h⟩ := mem_incomingOf h
  obtain ⟨variant, source, -, hfind, hsource, -, rfl⟩ := incoming?_eq_some.mp h
  obtain ⟨config, hgraph⟩ := hcompiled pass.instanceId
  obtain ⟨graphKey, hresolve, hget⟩ := node?_eq_some.mp hnode
  rw [Pass.graph, hgraph] at hresolve hget
  obtain ⟨interaction, -, effect, -, rfl, -, -, hother⟩ :=
    Graph.exists_effect_of_mem_variants hget hentry (List.mem_of_find?_eq_some hfind)
  have hforeign : (Graph.ofConfig config).resolveKey key ≠ some interaction.rule.key := fun heq =>
    hother (Option.some.inj (heq.symm.trans hresolve))
  rw [Scene.source?, ← graph_inst_eq, hgraph, if_neg hforeign, ← connectedController?_eq]
  exact hsource

end Pass

/-! ### Cues -/

/-- A cue belongs to an interaction of an instance, in a full pass over a key. -/
structure Cue.BelongsTo (scene : Scene) (i : InstanceId) (c : ControllerId) (key : String)
    (cue : Cue) (interaction : CompiledInteraction) : Prop where
  declared : (scene.inst i).graph.Declares interaction
  sequence : cue.sequence ∈ interaction.sequences
  rule : cue.rule = interaction.rule
  index : cue.id.index = interaction.rule.index
  source : scene.source? i c key cue.rule = some cue.source
  /-- The cues of the interactions of the key itself are under the key. -/
  own : (scene.inst i).graph.resolveKey key = some cue.rule.key → cue.key = key

variable {config : Config} {i : InstanceId} {cue : Cue}

theorem exists_belongsTo_of_mem_outgoingCues (hgraph : (engine.inst i).graph = .ofConfig config)
    (h : cue ∈ engine.scene.outgoingCues i c key) :
    ∃ interaction, cue.BelongsTo engine.scene i c key interaction := by
  rw [graph_inst_eq] at hgraph
  rw [Scene.outgoingCues, hgraph] at h
  split at h
  next => cases h
  next node hnode =>
    obtain ⟨interaction, htrigger, h⟩ := List.mem_flatMap.mp h
    obtain ⟨sequence, hsequence, rfl⟩ := List.mem_map.mp h
    obtain ⟨graphKey, hresolve, hget⟩ := Option.bind_eq_some_iff.mp hnode
    obtain ⟨haccepted, hkey⟩ := (Graph.mem_triggers_iff hget).mp htrigger
    refine ⟨interaction, hgraph ▸ Graph.exists_node_of_mem_accepted haccepted, hsequence, rfl, ?_,
      ?_, fun _ => rfl⟩
    · rw [Cue.id, Compile.id_eq_of_mem_sequences haccepted hsequence]
      rfl
    · rw [Scene.source?, hgraph, if_pos (hkey ▸ hresolve)]

theorem exists_belongsTo_of_mem_incomingCues (hgraph : (engine.inst i).graph = .ofConfig config)
    (h : cue ∈ engine.scene.incomingCues i c key) :
    ∃ interaction, cue.BelongsTo engine.scene i c key interaction := by
  rw [graph_inst_eq] at hgraph
  rw [Scene.incomingCues, hgraph] at h
  split at h
  next => cases h
  next node hnode =>
    obtain ⟨link, hlink, h⟩ := List.mem_flatMap.mp h
    obtain ⟨graphKey, hresolve, hget⟩ := Option.bind_eq_some_iff.mp hnode
    obtain ⟨linked, hlinked, declared, hdeclared, -, -, -, hother, rfl⟩ :=
      (Graph.mem_sequenceLinks_iff hget).mp hlink
    simp only [Scene.linkedCues, hgraph] at h
    split at h
    next source sourceNode hsource hsourceNode =>
      split at h
      · cases h
      · obtain ⟨interaction, htrigger, h⟩ := List.mem_filterMap.mp h
        obtain ⟨sequence, hfind, rfl⟩ := Option.map_eq_some_iff.mp h
        obtain ⟨sourceName, -, hsourceGet⟩ := Option.bind_eq_some_iff.mp hsourceNode
        obtain ⟨haccepted, -⟩ := (Graph.mem_triggers_iff hsourceGet).mp htrigger
        have hsequence := List.mem_of_find?_eq_some hfind
        have hid := Compile.id_eq_of_mem_sequences haccepted hsequence
        -- a sequence with the id of the link belongs to the interaction of the link
        have hsame : sequence.id = declared.id := by simpa using List.find?_some hfind
        rw [Compile.id_eq_of_mem_sequences hlinked hdeclared, hid] at hsame
        obtain rfl := Compile.accepted_eq_of_index_eq haccepted hlinked
          (congrArg InteractionId.index hsame)
        have hforeign : (Graph.ofConfig config).resolveKey key ≠ some interaction.rule.key :=
          fun heq => hother (Option.some.inj (hresolve.symm.trans heq))
        refine ⟨interaction, hgraph ▸ Graph.exists_node_of_mem_accepted haccepted, hsequence, rfl,
          ?_, ?_, fun heq => absurd (hgraph ▸ heq) hforeign⟩
        · rw [Cue.id, hid]
          rfl
        · rw [Scene.source?, hgraph, if_neg hforeign]
          exact hsource
    next => cases h

theorem exists_belongsTo_of_mem_cues (hgraph : (engine.inst i).graph = .ofConfig config)
    (h : cue ∈ engine.scene.cues i c key) :
    ∃ interaction, cue.BelongsTo engine.scene i c key interaction :=
  (List.mem_append.mp h).elim (exists_belongsTo_of_mem_outgoingCues hgraph)
    (exists_belongsTo_of_mem_incomingCues hgraph)

end Engine

end InteractionBinding
