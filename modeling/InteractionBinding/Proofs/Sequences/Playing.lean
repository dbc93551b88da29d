import InteractionBinding.Proofs.Keys.InteractionIds
import InteractionBinding.Proofs.Sequences.Accepting
import InteractionBinding.Proofs.Wiring.Orderly
/-!
# Sequences that play with keys

A sequence plays with keys if its gate is open, its source and the targets of its open members are
among the keys, and some member lands on a node (`Site.Plays`). In a scene in which keys without
indices are mounted, the cues of a key go out if their sequences play with the keys
(`Site.Mounts.goesOut_iff`), and every sequence that begins to play with a key has a cue
(`Site.Mounts.exists_goesOut`).

The latter holds as long as the sequences of an interaction are in harmony (`Site.Harmonious`): the
links of a member lead back to the first sequence with an id only.
-/

namespace InteractionBinding

open Compile

/-- Sequences with one text belong to one interaction and have one id. -/
theorem Compile.eq_of_text_eq {config : Config} {ci ci' : CompiledInteraction}
    (hci : ci ∈ accepted config) (hci' : ci' ∈ accepted config)
    {sequence sequence' : CompiledSequence} (h : sequence ∈ ci.sequences)
    (h' : sequence' ∈ ci'.sequences) (htext : sequence.id.encode = sequence'.id.encode) :
    ci = ci' ∧ sequence.id = sequence'.id := by
  have hid := id_eq_of_mem_sequences hci h
  have hid' := id_eq_of_mem_sequences hci' h'
  have hindex := InteractionId.index_eq_of_encode_eq htext
  rw [hid, hid'] at hindex
  obtain rfl := accepted_eq_of_index_eq hci hci' hindex
  exact ⟨rfl, InteractionId.eq_of_encode_eq (by rw [hid, hid']) htext⟩

namespace Engine

namespace Site

/-! ### Sequences on a site -/

variable (site : Site)

/-- The gate of a sequence: its own conditions and those of its interaction. -/
def sequenceGate (rule : Rule) (sequence : CompiledSequence) : Gate :=
  .resolveAll site.graph.conditions site.queryState [rule.conditions, sequence.conditions]

/-- Whether the own gate of an effect is open. -/
def admits (effect : CompiledEffect) : Bool :=
  (Gate.resolveAll site.graph.conditions site.queryState [effect.effect.conditions]).isOpen

/-- The nodes that an effect lands on. -/
def landing (effect : CompiledEffect) : List NodeId :=
  site.dom.effectNodes (site.nodeOf effect.target) effect.effect

/-- The members that go out, in declared order. -/
def membersOf (effects : List CompiledEffect) : List SequenceMember :=
  (effects.filter fun effect => site.admits effect && !(site.landing effect).isEmpty).map
    fun effect => ⟨effect.id, effect.effectId, site.landing effect, effect.effect⟩

/-- The plan of a sequence. -/
def sequencePlan (sequence : CompiledSequence) : SequencePlan :=
  ⟨sequence.id, sequence.sequenceId, site.membersOf sequence.effects, sequence.payload⟩

/-- The source nodes of a rule. -/
def sources (rule : Rule) : List NodeId := site.dom.select (site.nodeOf rule.key) rule.selector

/-- A sequence of a rule plays with keys at a handler: its gate is open, its source and the targets
of the members whose gates are open are among the keys, and some member lands on a node. -/
structure Plays (keys : List String) (rule : Rule) (sequence : CompiledSequence)
    (handler : HandlerId) : Prop where
  source : rule.key ∈ keys
  isOpen : (site.sequenceGate rule sequence).isOpen = true
  complete : ∀ effect ∈ sequence.effects, site.admits effect = true → effect.target ∈ keys
  nonempty : site.membersOf sequence.effects ≠ []
  handler : site.handlers.get? rule.trigger = some handler

/-- The sequences of a configuration do not get in each other's way: no effect of an interaction
has the text of one of its sequences, and a sequence whose gate is open has the members and payload
of the first one with its id, the gate of which is open as well. -/
structure Harmonious (config : Config) : Prop where
  apart : ∀ ci ∈ accepted config, ∀ effect ∈ ci.effects, ∀ sequence ∈ ci.sequences,
    effect.id.encode ≠ sequence.id.encode
  leads : ∀ ci ∈ accepted config, ∀ sequence ∈ ci.sequences,
    (site.sequenceGate ci.rule sequence).isOpen = true →
      ∃ first, ci.sequences.find? (fun other => other.id = sequence.id) = some first ∧
        (site.sequenceGate ci.rule first).isOpen = true ∧ first.effects = sequence.effects ∧
        first.payload = sequence.payload

variable {site} {config : Config} {keys keys' : List String} {ci : CompiledInteraction}
  {rule : Rule} {sequence other : CompiledSequence} {handler : HandlerId}

theorem Plays.mono (h : site.Plays keys rule sequence handler) (hsubset : keys ⊆ keys') :
    site.Plays keys' rule sequence handler :=
  ⟨hsubset h.source, h.isOpen, fun effect hmem hopen => hsubset (h.complete effect hmem hopen),
    h.nonempty, h.handler⟩

/-- A sequence plays if one with its members does and its gate is open. -/
theorem Plays.congr (h : site.Plays keys rule sequence handler)
    (hopen : (site.sequenceGate rule other).isOpen = true)
    (heffects : other.effects = sequence.effects) : site.Plays keys rule other handler :=
  ⟨h.source, hopen, heffects ▸ h.complete, heffects ▸ h.nonempty, h.handler⟩

namespace Harmonious

/-- Sequences are in harmony if those of an interaction differ in their ids. -/
theorem of_nodup
    (apart : ∀ ci ∈ accepted config, ∀ effect ∈ ci.effects, ∀ sequence ∈ ci.sequences,
      effect.id.encode ≠ sequence.id.encode)
    (hnodup : ∀ ci ∈ accepted config, (ci.sequences.map CompiledSequence.id).Nodup) :
    site.Harmonious config := by
  refine ⟨apart, fun ci hci sequence hmem hopen => ⟨sequence, ?_, hopen, rfl, rfl⟩⟩
  obtain ⟨first, hfirst⟩ : ∃ first,
      ci.sequences.find? (fun other => other.id = sequence.id) = some first :=
    Option.isSome_iff_exists.mp (List.find?_isSome.mpr ⟨sequence, hmem, by simp⟩)
  have hid : first.id = sequence.id := by simpa using List.find?_some hfirst
  rw [hfirst, List.inj_on_of_nodup_map (hnodup ci hci) (List.mem_of_find?_eq_some hfirst) hmem hid]

/-- Open sequences with one id have the same members and the same plan. -/
theorem alike (h : site.Harmonious config) (hci : ci ∈ accepted config)
    (hmem : sequence ∈ ci.sequences) (hmem' : other ∈ ci.sequences)
    (hopen : (site.sequenceGate ci.rule sequence).isOpen = true)
    (hopen' : (site.sequenceGate ci.rule other).isOpen = true) (hid : sequence.id = other.id) :
    sequence.effects = other.effects ∧ site.sequencePlan sequence = site.sequencePlan other := by
  obtain ⟨first, hfirst, -, heffects, hpayload⟩ := h.leads ci hci sequence hmem hopen
  obtain ⟨first', hfirst', -, heffects', hpayload'⟩ := h.leads ci hci other hmem' hopen'
  rw [hid, hfirst'] at hfirst
  obtain rfl := Option.some.inj hfirst
  have hsequenceId : sequence.sequenceId = other.sequenceId := by
    have heq := hid
    rw [id_eq_of_mem_sequences hci hmem, id_eq_of_mem_sequences hci hmem'] at heq
    exact congrArg InteractionId.effectId heq
  refine ⟨heffects.symm.trans heffects', ?_⟩
  rw [sequencePlan, sequencePlan, hid, hsequenceId, ← heffects, ← heffects', ← hpayload,
    ← hpayload']

end Harmonious

end Site

/-! ### Scenes of added keys -/

/-- Keys without indices are mounted on their nodes, one after the other, beside one instance. -/
structure Site.Mounts (site : Site) (keys : List String) (scene : Scene) : Prop where
  running : scene.running = true
  dom : scene.dom = site.dom
  handlers : scene.handlers = site.handlers
  queryState : scene.queryState = site.queryState
  live : scene.live = [0]
  instances : scene.instances = [⟨site.graph, false⟩]
  controllers : scene.controllers = keys.map fun key => ⟨site.nodeOf key, false, some key, true⟩
  registry (key : String) (c : ControllerId) :
    scene.registry.get? key = some c ↔ keys[c]? = some key
  indices : ∀ key ∈ keys, KeyTemplate.indices key = []
  accepts : scene.AcceptsSequences

namespace Site.Mounts

variable {site : Site} {config : Config} {keys : List String} {scene : Scene} {key : String}
  {c : ControllerId} {cue : Cue} {handler : HandlerId}

theorem connectedController?_eq_some_iff (h : site.Mounts keys scene) :
    scene.connectedController? key = some c ↔ keys[c]? = some key := by
  rw [Scene.connectedController?, Option.filter_eq_some_iff, h.registry, and_iff_left_iff_imp]
  intro hkey
  rw [Scene.controller, h.controllers, List.getD_eq_getElem?_getD, List.getElem?_map, hkey]
  rfl

theorem isSome_connectedController?_iff (h : site.Mounts keys scene) :
    (scene.connectedController? key).isSome = true ↔ key ∈ keys := by
  simp only [Option.isSome_iff_exists, h.connectedController?_eq_some_iff, List.mem_iff_getElem?]

theorem anchored (h : site.Mounts keys scene) (hc : scene.connectedController? key = some c) :
    scene.anchor c = some (site.nodeOf key) := by
  rw [h.connectedController?_eq_some_iff] at hc
  rw [Scene.anchor, Scene.controller, h.controllers, List.getD_eq_getElem?_getD,
    List.getElem?_map, hc]
  rfl

theorem mount (h : site.Mounts keys scene) (hkey : KeyTemplate.indices key = [])
    (hnew : key ∉ keys) : site.Mounts (keys ++ [key]) (scene.mount (site.nodeOf key) key) :=
  { h with
    controllers := by
      rw [Scene.mount, h.controllers, List.map_append]
      rfl
    registry := fun other c => by
      have hlength : scene.controllers.length = keys.length := by
        rw [h.controllers, List.length_map]
      have happend : (keys ++ [key])[c]? = some other ↔
          keys[c]? = some other ∨ keys.length = c ∧ key = other := by
        rw [List.getElem?_append, List.getElem?_singleton]
        grind
      rw [Scene.mount, KeyMap.get?_insert, hlength, happend]
      split
      next heq =>
        subst heq
        have hnone : keys[c]? ≠ some other := fun hc => hnew (List.mem_of_getElem? hc)
        simp [hnone]
      next hne =>
        rw [h.registry, or_iff_left]
        exact fun heq => hne heq.2.symm
    indices := fun other hother => by
      rcases List.mem_append.mp hother with hmem | hmem
      · exact h.indices other hmem
      · exact List.mem_singleton.mp hmem ▸ hkey }

theorem graph_eq (h : site.Mounts keys scene) : (scene.inst 0).graph = site.graph := by
  rw [Scene.inst, h.instances]
  rfl

theorem gate_eq (h : site.Mounts keys scene) (lists : List (List String)) :
    scene.gate 0 lists = .resolveAll site.graph.conditions site.queryState lists := by
  rw [Scene.gate, h.graph_eq, h.queryState]

end Site.Mounts

/-! ### Cues of added keys -/

/-- The sequence of a cue is declared by a configuration, and its source is connected under the key
of its rule. -/
structure Cue.Sits (config : Config) (scene : Scene) (cue : Cue) : Prop where
  declared : ∃ ci ∈ accepted config, ci.rule = cue.rule ∧ cue.sequence ∈ ci.sequences
  key : cue.key = cue.rule.key
  source : scene.connectedController? cue.rule.key = some cue.source

namespace Site.Mounts

variable {site : Site} {config : Config} {keys : List String} {scene : Scene} {key : String}
  {c : ControllerId} {cue : Cue} {handler : HandlerId} {effect : CompiledEffect}
  {effects : List CompiledEffect}

theorem sits_of_mem_cues (h : site.Mounts keys scene) (hgraph : site.graph = .ofConfig config)
    (hself : scene.connectedController? key = some c) (hmem : cue ∈ scene.cues 0 c key) :
    cue.Sits config scene := by
  obtain ⟨⟨node, ci, hnode, htrigger, hrule, hsequence⟩, hsource⟩ := stems_of_mem_cues hmem
  have hsource : scene.connectedController? cue.key = some cue.source := by
    obtain ⟨hkey, rfl⟩ | hsource := hsource
    · rw [hkey, hself]
    · exact hsource
  have hkeys : cue.key ∈ keys := h.isSome_connectedController?_iff.mp (by rw [hsource]; rfl)
  rw [h.graph_eq, hgraph, Graph.get?_of_indices (h.indices _ hkeys)] at hnode
  obtain ⟨haccepted, hkey⟩ := (Graph.mem_triggers_iff hnode).mp htrigger
  rw [hrule] at hkey
  exact ⟨⟨ci, haccepted, hrule, hsequence⟩, hkey.symm, hkey ▸ hsource⟩

section

variable (h : site.Mounts keys scene) (hsits : cue.Sits config scene)

include h hsits

theorem indices_key : KeyTemplate.indices cue.key = [] := by
  refine h.indices _ (h.isSome_connectedController?_iff.mp ?_)
  rw [hsits.key, hsits.source]
  rfl

theorem text_eq : cue.text = cue.sequence.id.encode := by
  rw [Cue.text, Cue.id, indices_key h hsits, InteractionId.interpolate_nil]

theorem sources_eq : cue.sources scene = site.sources cue.rule := by
  rw [Cue.sources, h.anchored hsits.source, h.dom]
  rfl

theorem target?_eq : cue.target? scene effect = scene.connectedController? effect.target := by
  rw [Cue.target?, indices_key h hsits, KeyTemplate.interpolate_nil]
  split
  next heq => rw [heq, hsits.source]
  next => rfl

theorem landing_eq (htarget : effect.target ∈ keys) :
    cue.landing scene effect = site.landing effect := by
  obtain ⟨target, hconnected⟩ :=
    Option.isSome_iff_exists.mp (h.isSome_connectedController?_iff.mpr htarget)
  rw [Cue.landing, target?_eq h hsits, hconnected, Option.map_some, Scene.effectNodes,
    h.anchored hconnected, h.dom]
  rfl

theorem membersOf_eq
    (hcomplete : ∀ effect ∈ effects, site.admits effect = true → effect.target ∈ keys) :
    cue.membersOf scene 0 effects = site.membersOf effects := by
  have hadmits (effect : CompiledEffect) : scene.admits 0 effect = site.admits effect :=
    congrArg Gate.isOpen (h.gate_eq _)
  have hfilter : (effects.filter fun effect =>
      scene.admits 0 effect && !(cue.landing scene effect).isEmpty) =
      effects.filter fun effect => site.admits effect && !(site.landing effect).isEmpty := by
    refine List.filter_congr fun effect hmem => ?_
    rw [hadmits]
    cases hopen : site.admits effect with
    | false => rfl
    | true => rw [landing_eq h hsits (hcomplete effect hmem hopen)]
  rw [Cue.membersOf, hfilter, Site.membersOf]
  refine List.map_congr_left fun effect hmem => ?_
  obtain ⟨hmem, hopen⟩ := List.mem_filter.mp hmem
  rw [Cue.member, indices_key h hsits, InteractionId.interpolate_nil,
    landing_eq h hsits (hcomplete effect hmem (Bool.and_eq_true_iff.mp hopen).1)]

theorem complete_iff :
    (∀ effect ∈ effects, scene.admits 0 effect = true →
      (cue.target? scene effect).isSome = true) ↔
      ∀ effect ∈ effects, site.admits effect = true → effect.target ∈ keys := by
  refine forall₂_congr fun effect _ => ?_
  rw [target?_eq h hsits, h.isSome_connectedController?_iff, Scene.admits, h.gate_eq]
  rfl

/-- A cue goes out if its sequence plays with the keys. -/
theorem goesOut_iff :
    cue.GoesOut scene 0 handler ↔ site.Plays keys cue.rule cue.sequence handler := by
  have hgate : cue.gate scene 0 = site.sequenceGate cue.rule cue.sequence := h.gate_eq _
  constructor
  · intro hgoes
    have hcomplete := (complete_iff h hsits).mp hgoes.complete
    refine ⟨?_, hgate ▸ hgoes.isOpen, hcomplete, ?_, h.handlers ▸ hgoes.handler⟩
    · exact h.isSome_connectedController?_iff.mp (by rw [hsits.source]; rfl)
    · exact membersOf_eq h hsits hcomplete ▸ hgoes.nonempty
  · intro hplays
    refine ⟨hgate ▸ hplays.isOpen, (complete_iff h hsits).mpr hplays.complete, ?_,
      h.handlers ▸ hplays.handler⟩
    rw [Cue.members, membersOf_eq h hsits hplays.complete]
    exact hplays.nonempty

theorem plan_eq (hplays : site.Plays keys cue.rule cue.sequence handler) :
    cue.plan scene 0 = site.sequencePlan cue.sequence := by
  rw [Cue.plan, Cue.members, membersOf_eq h hsits hplays.complete, Cue.id, indices_key h hsits,
    InteractionId.interpolate_nil, Site.sequencePlan]

end

/-- The node of the source of an accepted interaction in the instance. -/
theorem get?_source (h : site.Mounts keys scene) (hgraph : site.graph = .ofConfig config)
    {ci : CompiledInteraction} (hci : ci ∈ accepted config) (hkey : ci.rule.key ∈ keys) :
    ∃ node, (scene.inst 0).graph.get? ci.rule.key = some node ∧ ci ∈ node.triggers := by
  rw [h.graph_eq, hgraph, Graph.get?_of_indices (h.indices _ hkey)]
  exact Graph.exists_node_of_mem_accepted hci

/-- The node of a member target of an accepted interaction links back to the sequence. -/
theorem get?_target (h : site.Mounts keys scene) (hgraph : site.graph = .ofConfig config)
    {ci : CompiledInteraction} (hci : ci ∈ accepted config) {sequence : CompiledSequence}
    (hmem : sequence ∈ ci.sequences) (heffect : effect ∈ sequence.effects)
    (htarget : effect.target ∈ keys) (hother : effect.target ≠ ci.rule.key) :
    ∃ node, (scene.inst 0).graph.get? effect.target = some node ∧
      ⟨ci.rule.key, sequence.id⟩ ∈ node.sequenceLinks := by
  have hlink : ∃ ci' ∈ accepted config, ∃ sequence' ∈ ci'.sequences, ∃ member ∈ sequence'.effects,
      member.target = effect.target ∧ effect.target ≠ ci'.rule.key ∧
        (⟨ci.rule.key, sequence.id⟩ : SequenceLink) = ⟨ci'.rule.key, sequence'.id⟩ :=
    ⟨ci, hci, sequence, hmem, effect, heffect, rfl, hother, rfl⟩
  have hedit := mem_editsOf.mpr (mem_edits_link.mpr hlink)
  obtain ⟨node, hnode⟩ : ∃ node, (Graph.ofConfig config).nodes.get? effect.target = some node :=
    ⟨_, Graph.get?_nodes_ofConfig.mpr ⟨List.ne_nil_of_mem hedit, rfl⟩⟩
  rw [h.graph_eq, hgraph, Graph.get?_of_indices (h.indices _ htarget)]
  exact ⟨node, hnode, (Graph.mem_sequenceLinks_iff hnode).mpr hlink⟩

/-- A sequence that plays with a key, and did not without it, has a cue when the key connects: its
own, or that of the first sequence with its id. -/
theorem exists_cue (h : site.Mounts (keys ++ [key]) scene) (hgraph : site.graph = .ofConfig config)
    (hharmony : site.Harmonious config) (hself : scene.connectedController? key = some c)
    {ci : CompiledInteraction} (hci : ci ∈ accepted config) {sequence : CompiledSequence}
    (hmem : sequence ∈ ci.sequences)
    (hplays : site.Plays (keys ++ [key]) ci.rule sequence handler)
    (hbefore : ¬site.Plays keys ci.rule sequence handler) :
    ∃ cue ∈ scene.cues 0 c key, cue.rule = ci.rule ∧ cue.sequence ∈ ci.sequences ∧
      cue.sequence.id = sequence.id ∧
      (site.sequenceGate ci.rule cue.sequence).isOpen = true := by
  obtain ⟨sourceNode, hsourceNode, htrigger⟩ := h.get?_source hgraph hci hplays.source
  by_cases hkey : ci.rule.key = key
  · -- the source itself connects, and walks its own sequences
    rw [hkey] at hsourceNode
    refine ⟨⟨ci.rule, sequence, key, c⟩, List.mem_append_left _ ?_, rfl, hmem, rfl, hplays.isOpen⟩
    rw [Scene.outgoingCues, hsourceNode]
    exact List.mem_flatMap.mpr ⟨ci, htrigger, List.mem_map_of_mem hmem⟩
  · -- the key is the target of an open member, and a link leads back to the source
    have hsource : ci.rule.key ∈ keys :=
      (List.mem_append.mp hplays.source).resolve_right fun hlast => hkey (List.mem_singleton.mp hlast)
    obtain ⟨effect, heffect, hopen, htarget⟩ : ∃ effect ∈ sequence.effects,
        site.admits effect = true ∧ effect.target ∉ keys := by
      by_contra hnone
      push Not at hnone
      exact hbefore ⟨hsource, hplays.isOpen, hnone, hplays.nonempty, hplays.handler⟩
    have htargetKeys := hplays.complete effect heffect hopen
    have htargetKey : effect.target = key :=
      List.mem_singleton.mp ((List.mem_append.mp htargetKeys).resolve_left htarget)
    obtain ⟨node, hnode, hlink⟩ := h.get?_target hgraph hci hmem heffect htargetKeys
      (htargetKey ▸ Ne.symm hkey)
    obtain ⟨source, hconnected⟩ :=
      Option.isSome_iff_exists.mp (h.isSome_connectedController?_iff.mpr hplays.source)
    have hother : source ≠ c := by
      rintro rfl
      rw [h.connectedController?_eq_some_iff] at hconnected hself
      exact hkey (Option.some.inj (hconnected.symm.trans hself))
    obtain ⟨first, hfirst, hfirstOpen, -⟩ := hharmony.leads ci hci sequence hmem hplays.isOpen
    have hid : first.id = sequence.id := by simpa using List.find?_some hfirst
    have hindices := h.indices key (List.mem_append_right _ (List.mem_singleton_self key))
    refine ⟨⟨ci.rule, first, ci.rule.key, source⟩, List.mem_append_right _ ?_, rfl,
      List.mem_of_find?_eq_some hfirst, hid, hfirstOpen⟩
    rw [htargetKey] at hnode
    rw [Scene.incomingCues, hnode]
    refine List.mem_flatMap.mpr ⟨_, hlink, ?_⟩
    simp only [Scene.linkedCues, hindices, KeyTemplate.interpolate_nil, hconnected, hsourceNode,
      if_neg hother]
    exact List.mem_filterMap.mpr ⟨ci, htrigger, by rw [hfirst, Option.map_some]⟩

/-- The cue of a sequence that begins to play goes out with the plan of the sequence. -/
theorem exists_goesOut (h : site.Mounts (keys ++ [key]) scene)
    (hgraph : site.graph = .ofConfig config) (hharmony : site.Harmonious config)
    (hself : scene.connectedController? key = some c)
    {ci : CompiledInteraction} (hci : ci ∈ accepted config) {sequence : CompiledSequence}
    (hmem : sequence ∈ ci.sequences)
    (hplays : site.Plays (keys ++ [key]) ci.rule sequence handler)
    (hbefore : ¬site.Plays keys ci.rule sequence handler) :
    ∃ cue ∈ scene.cues 0 c key, cue.text = sequence.id.encode ∧ cue.GoesOut scene 0 handler ∧
      cue.sources scene = site.sources ci.rule ∧
      cue.plan scene 0 = site.sequencePlan sequence := by
  obtain ⟨cue, hcue, hrule, hcueMem, hid, hopen⟩ :=
    h.exists_cue hgraph hharmony hself hci hmem hplays hbefore
  have hsits := h.sits_of_mem_cues hgraph hself hcue
  obtain ⟨heffects, hplan⟩ := hharmony.alike hci hcueMem hmem hopen hplays.isOpen hid
  have hcuePlays := hrule ▸ hplays.congr hopen heffects
  refine ⟨cue, hcue, ?_, (goesOut_iff h hsits).mpr hcuePlays, ?_, ?_⟩
  · rw [text_eq h hsits, hid]
  · rw [sources_eq h hsits, hrule]
  · rw [plan_eq h hsits hcuePlays, hplan]

/-- Cues with one text that go out are alike. -/
theorem alike (h : site.Mounts keys scene) (hharmony : site.Harmonious config) {cue' : Cue}
    (hsits : cue.Sits config scene) (hsits' : cue'.Sits config scene) (htext : cue.text = cue'.text)
    (htakes : cue.Takes scene 0) (htakes' : cue'.Takes scene 0) : Alike scene 0 cue cue' := by
  obtain ⟨ci, hci, hrule, hmem⟩ := hsits.declared
  obtain ⟨ci', hci', hrule', hmem'⟩ := hsits'.declared
  obtain ⟨⟨served, hgoes⟩, -⟩ := htakes
  obtain ⟨⟨served', hgoes'⟩, -⟩ := htakes'
  rw [text_eq h hsits, text_eq h hsits'] at htext
  obtain ⟨rfl, hid⟩ := eq_of_text_eq hci hci' hmem hmem' htext
  have hplays := (goesOut_iff h hsits).mp hgoes
  have hplays' := (goesOut_iff h hsits').mp hgoes'
  rw [← hrule] at hplays
  rw [← hrule'] at hplays'
  obtain ⟨heffects, hplan⟩ :=
    hharmony.alike hci hmem hmem' hplays.isOpen hplays'.isOpen hid
  refine ⟨fun handler => ?_, ?_, ?_⟩
  · rw [goesOut_iff h hsits, goesOut_iff h hsits', ← hrule, ← hrule']
    exact ⟨fun hplay => hplay.congr hplays'.isOpen heffects.symm,
      fun hplay => hplay.congr hplays.isOpen heffects⟩
  · rw [sources_eq h hsits, sources_eq h hsits', ← hrule, ← hrule']
  · rw [plan_eq h hsits (hrule ▸ hplays), plan_eq h hsits' (hrule' ▸ hplays'), hplan]

theorem length_instances {engine : Engine} (h : site.Mounts keys engine.scene) :
    engine.instances.length = 1 := by
  have hlength := congrArg List.length h.instances
  rwa [Engine.scene, List.length_map] at hlength

end Site.Mounts

end Engine

end InteractionBinding
