import InteractionBinding.Config.Builder
import InteractionBinding.Proofs.Engine.Origin
import InteractionBinding.Proofs.Graph.Participation
import InteractionBinding.Proofs.Sequences.Accepting
/-!
# Source nodes of effects and sequences

In a full pass the effects and the sequences of an interaction have one source, but they need not
listen on the same nodes (`Engine.resolveIn_sources`). A sequence listens on the nodes that the
selector of the interaction finds below the anchor of the source, whether there is a list or not. The
effects of an interaction with a list container listen on the nodes that the selector finds below the
items of the container. Only without a list container are these the same nodes.

## Main definitions

* `effectCalls`, `sequenceNodes` — what events say about the source nodes of a rule.
* `Scene.sourceRoots`, `Scene.LandsFrom` — where the effects of a rule look for source nodes.
-/

namespace InteractionBinding

open Compile

/-! ### Where effects look for source nodes -/

/-- The nodes below which the effects of a rule look for source nodes: the items of its list
container, or without one the anchor of the source. -/
def Scene.sourceRoots (scene : Scene) (anchor : NodeId) (rule : Rule) : List NodeId :=
  match rule.listContainer with
  | none => [anchor]
  | some container =>
    scene.dom.queryAll anchor (Engine.itemsSelector container rule.listItemSelector)

/-- An effect that is bound to the list container of its rule, too, lands on some node below an item.
Other effects do not depend on the item. -/
def Scene.LandsFrom (scene : Scene) (rule : Rule) (effect : Effect) (item : NodeId) : Prop :=
  rule.isListBound = true → effect.listContainer = rule.listContainer →
    scene.dom.select item effect.selector ≠ []

/-! ### What events say about source nodes -/

/-- The source node and the effect, if an event asks for an effect of the rule with an index. -/
def Event.effectCall? (index : Nat) : Event → Option (NodeId × Effect)
  | .add _ _ source _ plan _ _ _ =>
    if plan.id.index = index then some (source, plan.effect) else none
  | _ => none

/-- The node, if an event asks for a sequence of the rule with an index. -/
def Event.sequenceNode? (index : Nat) : Event → Option NodeId
  | .addSequence _ _ node plan _ _ _ => if plan.id.index = index then some node else none
  | _ => none

/-- What events ask for effects of a rule: the source nodes and the effects. -/
def effectCalls (told : List Event) (index : Nat) : List (NodeId × Effect) :=
  told.filterMap (Event.effectCall? index)

/-- The nodes on which events ask for sequences of a rule. -/
def sequenceNodes (told : List Event) (index : Nat) : List NodeId :=
  told.filterMap (Event.sequenceNode? index)

@[simp]
theorem effectCalls_append (told told' : List Event) (index : Nat) :
    effectCalls (told ++ told') index = effectCalls told index ++ effectCalls told' index :=
  List.filterMap_append

@[simp]
theorem sequenceNodes_append (told told' : List Event) (index : Nat) :
    sequenceNodes (told ++ told') index = sequenceNodes told index ++ sequenceNodes told' index :=
  List.filterMap_append

namespace Engine

variable {engine before after : Engine} {i : InstanceId} {c : ControllerId} {key : String}

/-! ### Calls of a full pass -/

/-- A candidate asks for a call of a rule in a full pass. -/
def Asks (scene : Scene) (i : InstanceId) (candidate : Candidate) (index : Nat)
    (call : NodeId × Effect) : Prop :=
  candidate.id.index = index ∧ (scene.handlers.get? candidate.rule.trigger).isSome ∧
    call.2 = candidate.effect.effect ∧
      ∃ pair ∈ (Pass.mk i none).pairsIn scene candidate, pair.source = call.1

/-- Wiring candidates in a full pass asks for their effects on all their pairs of nodes, and for no
sequence. -/
theorem Pass.Wires.asks {selected : List Candidate}
    (h : (Pass.mk i none).Wires selected before after) :
    ∃ events marked, Extends i events marked before after ∧ ∀ index,
      sequenceNodes events index = [] ∧ ∀ call, call ∈ effectCalls events index ↔
        ∃ candidate ∈ selected, Asks before.scene i candidate index call := by
  obtain ⟨offers, hoffers, hextends⟩ := h
  refine ⟨_, _, hextends, fun index => ⟨?_, fun call => ?_⟩⟩
  · rw [sequenceNodes, List.filterMap_map, List.filterMap_eq_nil_iff]
    exact fun _ _ => rfl
  · have hcall (offer : Offer) : (offer.event i before.scene).effectCall? index = some call ↔
        offer.candidate.id.index = index ∧
          (offer.pair.source, offer.candidate.effect.effect) = call := by
      simp only [Offer.event, Event.effectCall?, Candidate.plan, Option.ite_none_right_eq_some,
        Option.some.injEq]
    have hcomplete := hoffers.complete rfl
    simp only [effectCalls, List.filterMap_map, List.mem_filterMap, Function.comp_apply, hcall]
    constructor
    · rintro ⟨offer, hoffer, hindex, rfl⟩
      obtain ⟨hcandidate, hproposal⟩ := hoffers.candidate_mem hoffer
      obtain ⟨-, hhandler, hpair⟩ := mem_proposals.mp hproposal
      exact ⟨offer.candidate, List.mem_reverse.mp hcandidate, hindex,
        Option.isSome_of_eq_some hhandler, rfl, offer.pair, hpair, rfl⟩
    · rintro ⟨candidate, hcandidate, hindex, hhandler, heffect, pair, hpair, hsource⟩
      obtain ⟨handler, hhandler⟩ := Option.isSome_iff_exists.mp hhandler
      have hproposal : (⟨candidate, handler, pair⟩ : Proposal) ∈ offers.map Offer.toProposal := by
        rw [hcomplete]
        exact List.mem_flatMap.mpr ⟨candidate, List.mem_reverse.mpr hcandidate,
          mem_proposals.mpr ⟨rfl, hhandler, hpair⟩⟩
      obtain ⟨offer, hoffer, heq⟩ := List.mem_map.mp hproposal
      refine ⟨offer, hoffer, ?_⟩
      rw [heq]
      exact ⟨hindex, Prod.ext hsource heffect.symm⟩

/-- A cue asks for its sequence on all its source nodes or on none, and for no effect. -/
theorem asks_applyCue (i : InstanceId) (engine : Engine) (cue : Cue) :
    ∃ events marked, Extends i events marked engine (applyCue i engine cue) ∧ ∀ index,
      effectCalls events index = [] ∧ (sequenceNodes events index = [] ∨
        cue.id.index = index ∧ sequenceNodes events index = cue.sources engine.scene) := by
  by_cases hfresh : cue.text ∈ (engine.inst i).memo
  · rw [applyCue_of_applied hfresh]
    exact ⟨[], [], (Quiet.refl engine).extends i, fun _ => ⟨rfl, .inl rfl⟩⟩
  obtain ⟨-, hquiet⟩ | ⟨handler, replies, -, hoffered⟩ := cue.apply_cases i engine hfresh
  · exact ⟨[], [], hquiet.extends i, fun _ => ⟨rfl, .inl rfl⟩⟩
  · refine ⟨_, _, hoffered.told, fun index => ⟨?_, ?_⟩⟩
    · rw [effectCalls, List.filterMap_map, List.filterMap_eq_nil_iff]
      exact fun _ _ => rfl
    · rw [← hoffered.nodes, sequenceNodes, List.filterMap_map]
      by_cases hindex : cue.id.index = index
      · refine .inr ⟨hindex, ?_⟩
        rw [← List.filterMap_eq_map]
        refine List.filterMap_congr fun reply _ => ?_
        exact if_pos hindex
      · refine .inl (List.filterMap_eq_nil_iff.mpr fun reply _ => ?_)
        exact if_neg hindex

/-- Cues ask for the sequences of some of them, and for no effects. -/
theorem asks_foldl_applyCue (i : InstanceId) (engine : Engine) (cues : List Cue) :
    ∃ events marked, Extends i events marked engine (cues.foldl (applyCue i) engine) ∧ ∀ index,
      effectCalls events index = [] ∧
      ∃ played : List Cue, (∀ cue ∈ played, cue ∈ cues ∧ cue.id.index = index) ∧
        sequenceNodes events index = played.flatMap (Cue.sources · engine.scene) := by
  induction cues using List.reverseRecOn with
  | nil => exact ⟨[], [], (Quiet.refl engine).extends i, fun _ => ⟨rfl, [], by simp, rfl⟩⟩
  | append_singleton front cue ih =>
    obtain ⟨events, marked, hextends, hcalls⟩ := ih
    obtain ⟨events', marked', hextends', hcalls'⟩ :=
      asks_applyCue i (front.foldl (applyCue i) engine) cue
    rw [List.foldl_append]
    refine ⟨_, _, hextends.trans hextends', fun index => ?_⟩
    obtain ⟨heffects, played, hplayed, hnodes⟩ := hcalls index
    obtain ⟨heffects', hnodes'⟩ := hcalls' index
    rw [hextends.scene] at hnodes'
    constructor
    · rw [effectCalls_append, heffects, heffects', List.append_nil]
    · rw [sequenceNodes_append, hnodes]
      have hfront (other : Cue) (hmem : other ∈ played) :
          other ∈ front ++ [cue] ∧ other.id.index = index :=
        ⟨List.mem_append_left _ (hplayed other hmem).1, (hplayed other hmem).2⟩
      obtain hnone | ⟨hindex, hsources⟩ := hnodes'
      · exact ⟨played, hfront, by rw [hnone, List.append_nil]⟩
      · refine ⟨played ++ [cue], fun other hmem => ?_, ?_⟩
        · rcases List.mem_append.mp hmem with hmem | hmem
          · exact hfront other hmem
          · rw [List.mem_singleton.mp hmem]
            exact ⟨List.mem_append_right _ (List.mem_singleton_self cue), hindex⟩
        · rw [List.flatMap_append, List.flatMap_singleton, hsources]

/-! ### Source nodes -/

namespace Pass

variable {scene : Scene} {candidate : Candidate} {anchor targetAnchor : NodeId} {pair : NodePair}

theorem exists_anchors_of_mem_pairsIn {pass : Pass} (h : pair ∈ pass.pairsIn scene candidate) :
    ∃ anchor targetAnchor, scene.anchor candidate.source = some anchor ∧
      scene.anchor candidate.target = some targetAnchor := by
  rw [pairsIn] at h
  split at h
  next anchor targetAnchor hanchor htarget => exact ⟨anchor, targetAnchor, hanchor, htarget⟩
  next => cases h

/-- Without a list container every node of the source is paired if one is. -/
theorem exists_pair_iff_of_unbound (hanchor : scene.anchor candidate.source = some anchor)
    (htarget : scene.anchor candidate.target = some targetAnchor)
    (hlist : candidate.rule.listContainer = none)
    (hpair : pair ∈ (Pass.mk i none).pairsIn scene candidate) (node : NodeId) :
    (∃ other ∈ (Pass.mk i none).pairsIn scene candidate, other.source = node) ↔
      node ∈ scene.dom.select anchor candidate.rule.selector := by
  simp only [pairsIn, hanchor, htarget, hlist] at hpair ⊢
  cases hlist' : candidate.effect.effect.listContainer with
  | none =>
    simp only [hlist'] at hpair ⊢
    obtain ⟨_, -, hpair⟩ := List.mem_flatMap.mp hpair
    obtain ⟨target, htarget, -⟩ := List.mem_map.mp hpair
    constructor
    · rintro ⟨other, hother, rfl⟩
      obtain ⟨source, hsource, hother⟩ := List.mem_flatMap.mp hother
      obtain ⟨_, -, rfl⟩ := List.mem_map.mp hother
      exact hsource
    · exact fun hnode => ⟨⟨node, target, none⟩,
        List.mem_flatMap.mpr ⟨node, hnode, List.mem_map_of_mem htarget⟩, rfl⟩
  | some container =>
    simp only [hlist'] at hpair ⊢
    obtain ⟨item, hitem, hpair⟩ := List.mem_flatMap.mp hpair
    obtain ⟨target, htarget, -⟩ := List.mem_flatMap.mp hpair
    constructor
    · rintro ⟨other, hother, rfl⟩
      obtain ⟨_, -, hother⟩ := List.mem_flatMap.mp hother
      obtain ⟨_, -, hother⟩ := List.mem_flatMap.mp hother
      obtain ⟨source, hsource, rfl⟩ := List.mem_map.mp hother
      exact hsource
    · exact fun hnode => ⟨⟨node, target, some item⟩, List.mem_flatMap.mpr
        ⟨item, hitem, List.mem_flatMap.mpr ⟨target, htarget, List.mem_map.mpr ⟨node, hnode, rfl⟩⟩⟩,
        rfl⟩

/-- With a list container the nodes below an item are paired if the effect lands on some node, which
it does for all items or only for the item, as it is bound to the container itself. -/
theorem exists_pair_iff_of_bound (hanchor : scene.anchor candidate.source = some anchor)
    (htarget : scene.anchor candidate.target = some targetAnchor) {container : String}
    (hlist : candidate.rule.listContainer = some container)
    (hpair : pair ∈ (Pass.mk i none).pairsIn scene candidate) (node : NodeId) :
    (∃ other ∈ (Pass.mk i none).pairsIn scene candidate, other.source = node) ↔
      ∃ item ∈ scene.dom.queryAll anchor (itemsSelector container candidate.rule.listItemSelector),
        node ∈ scene.dom.select item candidate.rule.selector ∧
        scene.LandsFrom candidate.rule candidate.effect.effect item := by
  simp only [pairsIn, itemsIn, hanchor, htarget, hlist] at hpair ⊢
  obtain ⟨_, -, hpair⟩ := List.mem_flatMap.mp hpair
  obtain ⟨_, -, hpair⟩ := List.mem_flatMap.mp hpair
  obtain ⟨landing, hlanding, -⟩ := List.mem_map.mp hpair
  constructor
  · rintro ⟨other, hother, rfl⟩
    obtain ⟨item, hitem, hother⟩ := List.mem_flatMap.mp hother
    obtain ⟨source, hsource, hother⟩ := List.mem_flatMap.mp hother
    obtain ⟨target, htarget, rfl⟩ := List.mem_map.mp hother
    refine ⟨item, hitem, hsource, fun _ hsame => ?_⟩
    rw [if_pos (hsame.trans hlist)] at htarget
    exact List.ne_nil_of_mem htarget
  · rintro ⟨item, hitem, hnode, hlands⟩
    have htarget : ∃ target, target ∈ scene.dom.select
        (if candidate.effect.effect.listContainer = some container then item else targetAnchor)
        candidate.effect.effect.selector := by
      split
      next hsame =>
        exact List.exists_mem_of_ne_nil _
          (hlands (Rule.isListBound_of_some hlist) (hsame.trans hlist.symm))
      next hother =>
        rw [if_neg hother] at hlanding
        exact ⟨landing, hlanding⟩
    obtain ⟨target, htarget⟩ := htarget
    exact ⟨⟨node, target, some item⟩, List.mem_flatMap.mpr
      ⟨item, hitem, List.mem_flatMap.mpr ⟨node, hnode, List.mem_map_of_mem htarget⟩⟩, rfl⟩

/-- The source nodes of a candidate with a pair of nodes are those that the selector of its rule
finds below the roots from which its effect lands on some node. -/
theorem exists_pair_iff (hanchor : scene.anchor candidate.source = some anchor)
    (hpair : pair ∈ (Pass.mk i none).pairsIn scene candidate) (node : NodeId) :
    (∃ other ∈ (Pass.mk i none).pairsIn scene candidate, other.source = node) ↔
      ∃ root ∈ scene.sourceRoots anchor candidate.rule,
        node ∈ scene.dom.select root candidate.rule.selector ∧
        scene.LandsFrom candidate.rule candidate.effect.effect root := by
  obtain ⟨_, targetAnchor, -, htarget⟩ := exists_anchors_of_mem_pairsIn hpair
  rw [Scene.sourceRoots]
  cases hlist : candidate.rule.listContainer with
  | none =>
    have hlands : scene.LandsFrom candidate.rule candidate.effect.effect anchor := fun hbound =>
      absurd hbound (Rule.not_isListBound_of_none hlist)
    rw [exists_pair_iff_of_unbound hanchor htarget hlist hpair]
    simp [hlands]
  | some container => exact exists_pair_iff_of_bound hanchor htarget hlist hpair node

end Pass

/-! ### Full passes -/

/-- A full pass over a key asks for effects on the pairs of the candidates that the key selects, and
for sequences on the source nodes of some of its cues. -/
theorem asks_resolveIn (engine : Engine) (i : InstanceId) (c : ControllerId) (key : String) :
    ∃ told middle, middle.scene = engine.scene ∧
      (resolveIn c key engine i).events = engine.events ++ told ∧ ∀ index,
        (∀ call, call ∈ effectCalls told index ↔
          ∃ candidate, (candidate ∈ (Pass.mk i none).outgoingOf engine c key ∨
              candidate ∈ (Pass.mk i none).incomingOf middle c key) ∧
            Asks engine.scene i candidate index call) ∧
        ∃ played : List Cue, (∀ cue ∈ played, cue ∈ engine.scene.cues i c key ∧
            cue.id.index = index) ∧
          sequenceNodes told index = played.flatMap (Cue.sources · engine.scene) := by
  obtain ⟨middle, later, hout, hin, hcues⟩ := resolveIn_cues c key engine i
  obtain ⟨outgoing, _, hextends, hcalls⟩ := hout.asks
  obtain ⟨incoming, _, hextends', hcalls'⟩ := hin.asks
  obtain ⟨sequences, _, hextends'', hcalls''⟩ :=
    asks_foldl_applyCue i later (engine.scene.cues i c key)
  have hall := (hextends.trans hextends').trans hextends''
  refine ⟨_, middle, hextends.scene, hcues ▸ hall.events_eq, fun index => ?_⟩
  obtain ⟨houtNodes, houtCalls⟩ := hcalls index
  obtain ⟨hinNodes, hinCalls⟩ := hcalls' index
  obtain ⟨hnoCalls, played, hplayed, hnodes⟩ := hcalls'' index
  rw [hextends.scene] at hinCalls
  rw [hextends'.scene, hextends.scene] at hnodes
  refine ⟨fun call => ?_, played, hplayed, ?_⟩
  · simp only [effectCalls_append, hnoCalls, List.append_nil, List.mem_append, houtCalls, hinCalls,
      or_and_right, exists_or]
  · rw [sequenceNodes_append, sequenceNodes_append, houtNodes, hinNodes, hnodes]
    rfl

/-- Interactions of one instance with one index are the same. -/
theorem eq_of_index_eq (hcompiled : engine.Compiled) {interaction other : CompiledInteraction}
    (hdeclared : (engine.scene.inst i).graph.Declares interaction)
    (hother : (engine.scene.inst i).graph.Declares other)
    (h : interaction.rule.index = other.rule.index) : interaction = other := by
  obtain ⟨config, hgraph⟩ := hcompiled i
  rw [← graph_inst_eq, hgraph, Graph.declares_ofConfig_iff] at hdeclared hother
  exact accepted_eq_of_index_eq hdeclared hother h

/-- The candidates of an interaction have its rule and its source. -/
theorem rule_of_selected (hcompiled : engine.Compiled) {middle : Engine}
    (hscene : middle.scene = engine.scene) {candidate : Candidate}
    (h : candidate ∈ (Pass.mk i none).outgoingOf engine c key ∨
      candidate ∈ (Pass.mk i none).incomingOf middle c key) {interaction : CompiledInteraction}
    (hdeclared : (engine.scene.inst i).graph.Declares interaction)
    (hindex : candidate.id.index = interaction.rule.index) :
    candidate.rule = interaction.rule ∧
      engine.scene.source? i c key interaction.rule = some candidate.source := by
  have hmiddle : middle.Compiled := fun j => by
    rw [graph_inst_eq, hscene, ← graph_inst_eq]
    exact hcompiled j
  have hboth : (∃ other, Pass.Stems (engine.scene.inst i).graph key candidate other) ∧
      engine.scene.source? i c key candidate.rule = some candidate.source := by
    rcases h with h | h
    · have hstems := Pass.exists_stems_of_mem_outgoingOf hcompiled h
      rw [Pass.graph, graph_inst_eq] at hstems
      exact ⟨hstems, Pass.source?_of_mem_outgoingOf hcompiled h⟩
    · have hstems := Pass.exists_stems_of_mem_incomingOf hmiddle h
      rw [Pass.graph, graph_inst_eq, hscene] at hstems
      exact ⟨hstems, hscene ▸ Pass.source?_of_mem_incomingOf hmiddle h⟩
  obtain ⟨⟨other, hstems⟩, hsource⟩ := hboth
  have hsame : interaction = other := by
    refine eq_of_index_eq hcompiled hdeclared hstems.declared ?_
    rw [← hindex, ← hstems.index, hstems.id]
    rfl
  have hrule : candidate.rule = interaction.rule := hsame ▸ hstems.rule
  exact ⟨hrule, hrule ▸ hsource⟩

/-- The source nodes of a cue are those that the selector of its interaction finds. -/
theorem sources_of_mem_cues (hcompiled : engine.Compiled) {cue : Cue}
    (h : cue ∈ engine.scene.cues i c key) {interaction : CompiledInteraction}
    (hdeclared : (engine.scene.inst i).graph.Declares interaction)
    (hindex : cue.id.index = interaction.rule.index) {source : ControllerId} {anchor : NodeId}
    (hsource : engine.scene.source? i c key interaction.rule = some source)
    (hanchor : engine.scene.anchor source = some anchor) :
    cue.sources engine.scene = engine.scene.dom.select anchor interaction.rule.selector := by
  obtain ⟨config, hgraph⟩ := hcompiled i
  obtain ⟨other, hbelongs⟩ := exists_belongsTo_of_mem_cues hgraph h
  obtain rfl := eq_of_index_eq hcompiled hdeclared hbelongs.declared
    (hindex.symm.trans hbelongs.index)
  have hsame := hbelongs.source
  rw [hbelongs.rule, hsource] at hsame
  rw [Cue.sources, ← Option.some.inj hsame, hanchor, hbelongs.rule]
  rfl

/-- If candidates with one rule and one source ask for calls, these are made on the nodes that the
selector of the rule finds below the roots from which one of the called effects lands. -/
theorem mem_sources_iff_of_asks {scene : Scene} {calls : List (NodeId × Effect)}
    {selected : Candidate → Prop} {rule : Rule} {anchor : NodeId}
    (hasks : ∀ call, call ∈ calls ↔
      ∃ candidate, selected candidate ∧ Asks scene i candidate rule.index call)
    (hrules : ∀ candidate, selected candidate → candidate.id.index = rule.index →
      candidate.rule = rule ∧ scene.anchor candidate.source = some anchor) (node : NodeId) :
    node ∈ calls.map Prod.fst ↔ ∃ root ∈ scene.sourceRoots anchor rule,
      node ∈ scene.dom.select root rule.selector ∧
        ∃ effect ∈ calls.map Prod.snd, scene.LandsFrom rule effect root := by
  have hpairs {candidate : Candidate} {pair : NodePair} (hselected : selected candidate)
      (hindex : candidate.id.index = rule.index)
      (hpair : pair ∈ (Pass.mk i none).pairsIn scene candidate) (node : NodeId) :
      (∃ pair ∈ (Pass.mk i none).pairsIn scene candidate, pair.source = node) ↔
        ∃ root ∈ scene.sourceRoots anchor rule, node ∈ scene.dom.select root rule.selector ∧
          scene.LandsFrom rule candidate.effect.effect root := by
    obtain ⟨rfl, hanchor⟩ := hrules candidate hselected hindex
    exact Pass.exists_pair_iff hanchor hpair node
  constructor
  · intro hnode
    obtain ⟨call, hcall, rfl⟩ := List.mem_map.mp hnode
    obtain ⟨candidate, hselected, hindex, -, heffect, pair, hpair, hsource⟩ := (hasks call).mp hcall
    obtain ⟨root, hroot, hfound, hlands⟩ :=
      (hpairs hselected hindex hpair call.1).mp ⟨pair, hpair, hsource⟩
    exact ⟨root, hroot, hfound, call.2, List.mem_map_of_mem hcall, heffect ▸ hlands⟩
  · rintro ⟨root, hroot, hfound, effect, heffect, hlands⟩
    obtain ⟨call, hcall, rfl⟩ := List.mem_map.mp heffect
    obtain ⟨candidate, hselected, hindex, hhandler, heffect, pair, hpair, -⟩ :=
      (hasks call).mp hcall
    have hpaired := (hpairs hselected hindex hpair node).mpr
      ⟨root, hroot, hfound, heffect ▸ hlands⟩
    exact List.mem_map.mpr ⟨(node, call.2),
      (hasks _).mpr ⟨candidate, hselected, hindex, hhandler, heffect, hpaired⟩, rfl⟩

/-- If a full pass asks for effects and for sequences of an interaction, they have one source. The
sequences listen on all nodes that the selector finds below its anchor. The effects listen on those
that the selector finds below the roots from which one of them lands on some node. So they listen on
the same nodes if the interaction has no list container. -/
theorem resolveIn_sources {host : Host} {options : EngineOptions} {operations : List Operation}
    {occasion : Occasion} (hsteps : Steps occasion ((start host options).run operations) engine)
    (i : InstanceId) (c : ControllerId) (key : String) :
    let scene := engine.scene
    ∃ told, (resolveIn c key engine i).events = engine.events ++ told ∧
      ∀ interaction, (scene.inst i).graph.Declares interaction →
        let rule := interaction.rule
        let calls := effectCalls told rule.index
        let nodes := sequenceNodes told rule.index
        calls ≠ [] → nodes ≠ [] → ∃ source anchor,
          scene.source? i c key rule = some source ∧ scene.anchor source = some anchor ∧
          (∀ node, node ∈ nodes ↔ node ∈ scene.dom.select anchor rule.selector) ∧
          (∀ node, node ∈ calls.map Prod.fst ↔ ∃ root ∈ scene.sourceRoots anchor rule,
            node ∈ scene.dom.select root rule.selector ∧
              ∃ effect ∈ calls.map Prod.snd, scene.LandsFrom rule effect root) ∧
          (rule.listContainer = none → ∀ node, node ∈ nodes ↔ node ∈ calls.map Prod.fst) := by
  intro scene
  have hcompiled : engine.Compiled := Steps.compiled hsteps
    (compiled_run (tidy_start host options) (compiled_start host options) operations)
  obtain ⟨told, middle, hscene, hevents, htold⟩ := asks_resolveIn engine i c key
  refine ⟨told, hevents, fun interaction hdeclared => ?_⟩
  intro rule calls nodes hcalls hnodes
  obtain ⟨hasks, played, hplayed, hplays⟩ := htold rule.index
  have hrules {candidate : Candidate}
      (h : candidate ∈ (Pass.mk i none).outgoingOf engine c key ∨
        candidate ∈ (Pass.mk i none).incomingOf middle c key)
      (hindex : candidate.id.index = rule.index) :=
    rule_of_selected hcompiled hscene h hdeclared hindex
  -- a call tells the source and that it has an anchor
  obtain ⟨call, hcall⟩ := List.exists_mem_of_ne_nil _ hcalls
  obtain ⟨candidate, hselected, hindex, -, -, pair, hpair, -⟩ := (hasks call).mp hcall
  obtain ⟨-, hsource⟩ := hrules hselected hindex
  obtain ⟨anchor, -, hanchor, -⟩ := Pass.exists_anchors_of_mem_pairsIn hpair
  have hsequences (node : NodeId) : node ∈ nodes ↔ node ∈ scene.dom.select anchor rule.selector := by
    have hsources (cue : Cue) (hcue : cue ∈ played) :
        cue.sources scene = scene.dom.select anchor rule.selector :=
      sources_of_mem_cues hcompiled (hplayed cue hcue).1 hdeclared (hplayed cue hcue).2 hsource
        hanchor
    obtain ⟨first, hfirst⟩ := List.exists_mem_of_ne_nil _ hnodes
    simp only [nodes, hplays, List.mem_flatMap] at hfirst ⊢
    obtain ⟨cue, hcue, -⟩ := hfirst
    exact ⟨fun ⟨other, hother, hnode⟩ => hsources other hother ▸ hnode,
      fun hnode => ⟨cue, hcue, (hsources cue hcue).symm ▸ hnode⟩⟩
  have heffects (node : NodeId) : node ∈ calls.map Prod.fst ↔
      ∃ root ∈ scene.sourceRoots anchor rule, node ∈ scene.dom.select root rule.selector ∧
        ∃ effect ∈ calls.map Prod.snd, scene.LandsFrom rule effect root := by
    refine mem_sources_iff_of_asks hasks (fun other hselected hindex => ?_) node
    obtain ⟨hrule, hsame⟩ := hrules hselected hindex
    exact ⟨hrule, by rw [← Option.some.inj (hsource.symm.trans hsame), hanchor]⟩
  refine ⟨candidate.source, anchor, hsource, hanchor, hsequences, heffects, fun hlist node => ?_⟩
  have hunbound : ¬rule.isListBound = true := Rule.not_isListBound_of_none hlist
  rw [hsequences, heffects, Scene.sourceRoots, hlist]
  simp only [List.mem_singleton, exists_eq_left]
  exact ⟨fun h => ⟨h, call.2, List.mem_map_of_mem hcall, fun hbound => absurd hbound hunbound⟩,
    And.left⟩

/-- A rule for the books of a shelf has an effect and a sequence. The effect listens on the books, but
the sequence listens on the case that the shelf is in. -/
theorem resolveIn_sources_shelf :
    let dom : Dom := { Dom.bare with queryAll := fun root selector =>
      if root = 1 ∧ selector = ".shelf > .book" then [4, 5] else [] }
    let config := (Config.ofInteractions [(((Interaction.ofTrigger "case" .click).withList ".shelf"
      (some ".book")).withEffect ((Effect.byId "open").on "desk")).withSequence
        (.byId "wave")]).withSequence "wave" (.ofEffects [(Effect.byId "light").on "desk"])
    let engine := (start { Host.bare with dom := dom } .standard).run
      [.create config, .addNode 3 "desk", .addNode 1 "case", .clearKey 0 "case"]
    let told := (resolveIn 1 "case" engine 0).events.drop engine.events.length
    (∀ node, node ∈ sequenceNodes told 0 ↔ node = 1) ∧
      ∀ node, node ∈ (effectCalls told 0).map Prod.fst ↔ node = 4 ∨ node = 5 := by
  intro dom config engine told
  have hdeclared : ∃ node ∈ (engine.scene.inst 0).graph.nodes.get? "case",
      ∃ interaction ∈ node.triggers, interaction.rule.key = "case" ∧ interaction.rule.index = 0 ∧
        interaction.rule.selector = none ∧ interaction.rule.listContainer = some ".shelf" ∧
        interaction.rule.listItemSelector = some ".book" := by decide +kernel
  have hown : (engine.scene.inst 0).graph.resolveKey "case" = some "case" := by decide +kernel
  have hanchor : engine.scene.anchor 1 = some 1 := by decide +kernel
  have hfound : engine.scene.dom.queryAll 1 (itemsSelector ".shelf" (some ".book")) = [4, 5] := by
    decide +kernel
  have hcalls : effectCalls told 0 ≠ [] := by decide +kernel
  have hnodes : sequenceNodes told 0 ≠ [] := by decide +kernel
  have hunbound : ∃ effect ∈ (effectCalls told 0).map Prod.snd, effect.listContainer = none := by
    decide +kernel
  obtain ⟨told', hevents, hsources⟩ := @resolveIn_sources engine { Host.bare with dom := dom }
    .standard [.create config, .addNode 3 "desk", .addNode 1 "case", .clearKey 0 "case"]
    (engine.occasion .stop) .refl 0 1 "case"
  have htold : told' = told := by
    simp only [told, hevents, List.drop_left]
  clear_value told engine
  subst htold
  obtain ⟨node, hnode, interaction, hmem, hkey, hindex, hselector, hlist, hitem⟩ := hdeclared
  obtain ⟨source, anchor, hsource, hanchor', hsequences, heffects, -⟩ :=
    hsources interaction ⟨node, hkey ▸ hnode, hmem⟩ (hindex ▸ hcalls) (hindex ▸ hnodes)
  obtain rfl : 1 = source := by
    rw [Scene.source?, hkey, if_pos hown] at hsource
    exact Option.some.inj hsource
  obtain rfl : 1 = anchor := Option.some.inj (hanchor.symm.trans hanchor')
  rw [hindex, hselector] at hsequences heffects
  rw [Scene.sourceRoots, hlist, hitem] at heffects
  dsimp only at heffects
  rw [hfound] at heffects
  refine ⟨fun node => (hsequences node).trans List.mem_singleton, fun node => ?_⟩
  obtain ⟨effect, heffect, hfree⟩ := hunbound
  have hlands (item : NodeId) : engine.scene.LandsFrom interaction.rule effect item := fun _ hsame =>
    absurd (hfree.symm.trans (hsame.trans hlist)) (Option.some_ne_none _).symm
  rw [heffects]
  constructor
  · rintro ⟨item, hitem, hnode, -⟩
    rw [List.mem_singleton.mp hnode]
    simpa using hitem
  · intro hnode
    exact ⟨node, by simpa using hnode, List.mem_singleton_self node, effect, heffect, hlands node⟩

end Engine

end InteractionBinding
