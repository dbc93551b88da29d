import InteractionBinding.Proofs.Engine.Cues
/-!
# What resolving a key tells

Resolving a key in an instance wires the candidates of its source side, then those of its target
side, and then applies the cues of the key (`resolveIn_cues`): those of its own sequences, and those
that its links lead back to. The scene does not change on the way, so all sides go by the scene
in which the resolution starts.
-/

namespace InteractionBinding

/-- Whether an event offers a sequence. -/
def Event.IsSequence : Event → Prop
  | .addSequence .. => True
  | _ => False

namespace Scene

variable (scene : Scene) (i : InstanceId) (c : ControllerId) (key : String)

/-- The cues of a key's own sequences. -/
def outgoingCues : List Engine.Cue :=
  match (scene.inst i).graph.get? key with
  | none => []
  | some node =>
    node.triggers.flatMap fun interaction =>
      interaction.sequences.map fun sequence => ⟨interaction.rule, sequence, key, c⟩

/-- The cues that a link leads back to, unless their source is the given controller. Of several
sequences with one id it leads back to the first. -/
def linkedCues (link : SequenceLink) : List Engine.Cue :=
  let sourceKey := KeyTemplate.interpolate link.source (KeyTemplate.indices key)
  match scene.connectedController? sourceKey, (scene.inst i).graph.get? sourceKey with
  | some source, some node =>
    if source = c then []
    else
      node.triggers.filterMap fun interaction =>
        (interaction.sequences.find? fun sequence => sequence.id = link.sequence).map
          fun sequence => ⟨interaction.rule, sequence, sourceKey, source⟩
  | _, _ => []

/-- The cues that the links of a key lead back to. -/
def incomingCues : List Engine.Cue :=
  match (scene.inst i).graph.get? key with
  | none => []
  | some node => node.sequenceLinks.flatMap (scene.linkedCues i c key)

/-- The cues that resolving a key applies, in this order. -/
def cues : List Engine.Cue := scene.outgoingCues i c key ++ scene.incomingCues i c key

end Scene

namespace Engine

/-- A cue stems from a sequence of an instance, and its source is a controller that is resolved
under a key, or else one that is connected. -/
structure Cue.Stems (scene : Scene) (i : InstanceId) (c : ControllerId) (key : String) (cue : Cue) :
    Prop where
  declared : ∃ node interaction, (scene.inst i).graph.get? cue.key = some node ∧
    interaction ∈ node.triggers ∧ interaction.rule = cue.rule ∧
    cue.sequence ∈ interaction.sequences
  source : cue.key = key ∧ cue.source = c ∨
    scene.connectedController? cue.key = some cue.source

theorem stems_of_mem_cues {scene : Scene} {i : InstanceId} {c : ControllerId} {key : String}
    {cue : Cue} (h : cue ∈ scene.cues i c key) : cue.Stems scene i c key := by
  rcases List.mem_append.mp h with h | h
  · rw [Scene.outgoingCues] at h
    split at h
    next => cases h
    next node hnode =>
      obtain ⟨interaction, htrigger, h⟩ := List.mem_flatMap.mp h
      obtain ⟨sequence, hsequence, rfl⟩ := List.mem_map.mp h
      exact ⟨⟨node, interaction, hnode, htrigger, rfl, hsequence⟩, .inl ⟨rfl, rfl⟩⟩
  · rw [Scene.incomingCues] at h
    split at h
    next => cases h
    next _ node hnode =>
      obtain ⟨link, -, h⟩ := List.mem_flatMap.mp h
      simp only [Scene.linkedCues] at h
      split at h
      next source sourceNode hsource hsourceNode =>
        split at h
        · cases h
        · obtain ⟨interaction, htrigger, h⟩ := List.mem_filterMap.mp h
          obtain ⟨sequence, hfind, rfl⟩ := Option.map_eq_some_iff.mp h
          exact ⟨⟨sourceNode, interaction, hsourceNode, htrigger, rfl,
            List.mem_of_find?_eq_some hfind⟩, .inr hsource⟩
      next => cases h

/-- One engine comes from another by wiring sequences, whose ids fulfil a condition, in an
instance. -/
def WiresSequences (i : InstanceId) (P : String → Prop) (before after : Engine) : Prop :=
  ∃ events marked, Extends i events marked before after ∧ (∀ event ∈ events, event.IsSequence) ∧
    ∀ id ∈ marked, P id

namespace WiresSequences

variable {i : InstanceId} {P Q : String → Prop} {before middle after : Engine}

theorem of_quiet (h : Quiet before after) : WiresSequences i P before after :=
  ⟨[], [], h.extends i, by simp, by simp⟩

theorem trans (first : WiresSequences i P before middle)
    (second : WiresSequences i P middle after) :
    WiresSequences i P before after := by
  obtain ⟨events, marked, hextends, hevents, hmarked⟩ := first
  obtain ⟨events', marked', hextends', hevents', hmarked'⟩ := second
  refine ⟨events ++ events', marked ++ marked', hextends.trans hextends', ?_, ?_⟩
  · exact fun event hmem => (List.mem_append.mp hmem).elim (hevents event) (hevents' event)
  · exact fun id hmem => (List.mem_append.mp hmem).elim (hmarked id) (hmarked' id)

theorem mono (h : WiresSequences i P before after) (himp : ∀ id, P id → Q id) :
    WiresSequences i Q before after := by
  obtain ⟨events, marked, hextends, hevents, hmarked⟩ := h
  exact ⟨events, marked, hextends, hevents, fun id hmem => himp id (hmarked id hmem)⟩

theorem scene (h : WiresSequences i P before after) : after.scene = before.scene := by
  obtain ⟨_, _, hextends, -⟩ := h
  exact hextends.scene

end WiresSequences

theorem wiresSequences_applyCue (i : InstanceId) (engine : Engine) (cue : Cue) :
    WiresSequences i (· = cue.text) engine (applyCue i engine cue) := by
  by_cases hfresh : cue.text ∈ (engine.inst i).memo
  · rw [applyCue_of_applied hfresh]
    exact .of_quiet (.refl _)
  · obtain ⟨-, hquiet⟩ | ⟨handler, replies, -, hoffered⟩ := cue.apply_cases i engine hfresh
    · exact .of_quiet hquiet
    · refine ⟨_, _, hoffered.told, ?_, ?_⟩
      · simp [Cue.event, Event.IsSequence]
      · split <;> simp

theorem wiresSequences_foldl_applyCue {i : InstanceId} {P : String → Prop} {cues : List Cue}
    (h : ∀ cue ∈ cues, P cue.text) (engine : Engine) :
    WiresSequences i P engine (cues.foldl (applyCue i) engine) :=
  List.foldlRecOn cues _ (.of_quiet (.refl _)) fun state hstate cue hmem =>
    hstate.trans ((wiresSequences_applyCue i state cue).mono fun _ heq => heq ▸ h cue hmem)

namespace Pass

variable {engine : Engine}

/-- Whether an id is that of a sequence of a source key, which is the given key or that of a
connected controller. -/
def IsSequenceId (pass : Pass) (engine : Engine) (key id : String) : Prop :=
  ∃ sourceKey node interaction sequence,
    (sourceKey = key ∨ (engine.connectedController? sourceKey).isSome) ∧
      pass.node? engine sourceKey = some node ∧ interaction ∈ node.triggers ∧
      sequence ∈ interaction.sequences ∧
      id = (sequence.id.interpolate (KeyTemplate.indices sourceKey)).encode

theorem isSequenceId_of_stems {i : InstanceId} {c : ControllerId} {key : String} {cue : Cue}
    (h : cue.Stems engine.scene i c key) : (Pass.mk i none).IsSequenceId engine key cue.text := by
  obtain ⟨⟨node, interaction, hnode, htrigger, -, hsequence⟩, hsource⟩ := h
  refine ⟨cue.key, node, interaction, cue.sequence, hsource.imp And.left fun hconnected => ?_,
    (node?_eq ..).trans hnode, htrigger, hsequence, rfl⟩
  rw [connectedController?_eq, hconnected]
  rfl

/-- Resolving the sequences of a key's interactions applies the cues of the key. -/
theorem resolveOutgoingSequences_eq (i : InstanceId) (engine : Engine) (c : ControllerId)
    (key : String) :
    (Pass.mk i none).resolveOutgoingSequences engine c key =
      (engine.scene.outgoingCues i c key).foldl (applyCue i) engine := by
  rw [resolveOutgoingSequences, node?_eq, Scene.outgoingCues]
  cases (engine.scene.inst i).graph.get? key with
  | none => rfl
  | some node =>
    simp only [List.foldl_flatMap, List.foldl_map]
    rfl

theorem resolveLink_eq (i : InstanceId) (engine : Engine) (c : ControllerId) (key : String)
    (link : SequenceLink) :
    (Pass.mk i none).resolveLink c key engine link =
      (engine.scene.linkedCues i c key link).foldl (applyCue i) engine := by
  simp only [resolveLink, node?_eq, connectedController?_eq, Scene.linkedCues]
  cases engine.scene.connectedController?
      (KeyTemplate.interpolate link.source (KeyTemplate.indices key)) with
  | none => rfl
  | some source =>
    cases (engine.scene.inst i).graph.get?
        (KeyTemplate.interpolate link.source (KeyTemplate.indices key)) with
    | none => rfl
    | some node =>
      dsimp only
      split
      · rfl
      · rw [List.foldl_filterMap]
        refine List.foldl_ext _ _ _ fun state interaction _ => ?_
        cases interaction.sequences.find? fun sequence => sequence.id = link.sequence <;> rfl

/-- Resolving the sequences that a key is a member target of applies the cues that its links lead
back to. -/
theorem resolveIncomingSequences_eq (i : InstanceId) (engine : Engine) (c : ControllerId)
    (key : String) :
    (Pass.mk i none).resolveIncomingSequences engine c key =
      (engine.scene.incomingCues i c key).foldl (applyCue i) engine := by
  rw [resolveIncomingSequences, node?_eq, Scene.incomingCues]
  cases (engine.scene.inst i).graph.get? key with
  | none => rfl
  | some node =>
    dsimp only
    rw [List.foldl_flatMap]
    generalize node.sequenceLinks = links
    have hlinks (state : Engine) (h : state.scene = engine.scene) :
        links.foldl ((Pass.mk i none).resolveLink c key) state = links.foldl
          (fun state link => (engine.scene.linkedCues i c key link).foldl (applyCue i) state)
          state := by
      induction links generalizing state with
      | nil => rfl
      | cons link rest ih =>
        rw [List.foldl_cons, List.foldl_cons, resolveLink_eq, h]
        exact ih _ ((scene_foldl_applyCue ..).trans h)
    exact hlinks engine rfl

/-- The candidates that resolving a key as a source selects. -/
def outgoingOf (pass : Pass) (engine : Engine) (c : ControllerId) (key : String) :
    List Candidate :=
  match pass.node? engine key with
  | none => []
  | some node => pass.outgoing engine c key node

/-- The candidates that resolving a key as a target selects. -/
def incomingOf (pass : Pass) (engine : Engine) (c : ControllerId) (key : String) :
    List Candidate :=
  match pass.node? engine key with
  | none => []
  | some node => pass.incoming engine c key node

/-- One engine comes from another by wiring candidates in a pass. -/
def Wires (pass : Pass) (selected : List Candidate) (before after : Engine) : Prop :=
  ∃ offers, Offers pass before.scene (selected.reverse.flatMap (pass.proposals before.scene))
      offers ∧
    Extends pass.instanceId (offers.map (Offer.event pass.instanceId before.scene))
      (pass.marks before.scene selected offers) before after

theorem Wires.of_quiet {pass : Pass} {before after : Engine} (h : Quiet before after) :
    pass.Wires [] before after :=
  ⟨[], .nil .., (h.extends _).congr fun id => by simp [mem_marks]⟩

theorem Wires.scene {pass : Pass} {selected : List Candidate} {before after : Engine}
    (h : pass.Wires selected before after) : after.scene = before.scene := by
  obtain ⟨_, -, hextends⟩ := h
  exact hextends.scene

theorem Wires.quiet_trans {pass : Pass} {selected : List Candidate} {before middle after : Engine}
    (first : Quiet before middle) (second : pass.Wires selected middle after) :
    pass.Wires selected before after := by
  obtain ⟨offers, hoffers, hextends⟩ := second
  rw [first.scene] at hoffers hextends
  exact ⟨offers, hoffers, .quiet_trans first hextends⟩

theorem resolveOutgoing_spec (pass : Pass) (engine : Engine) (c : ControllerId) (key : String) :
    pass.Wires (pass.outgoingOf engine c key) engine (pass.resolveOutgoing engine c key) := by
  rw [outgoingOf]
  cases hnode : pass.node? engine key with
  | none =>
    rw [resolveOutgoing, hnode]
    exact .of_quiet (.refl _)
  | some node =>
    obtain ⟨hquiet, heq⟩ := @resolveOutgoing_eq engine pass c key node hnode
    rw [heq]
    exact .quiet_trans hquiet (pass.applySelected_spec ..)

theorem resolveIncoming_spec (pass : Pass) (engine : Engine) (c : ControllerId) (key : String) :
    pass.Wires (pass.incomingOf engine c key) engine (pass.resolveIncoming engine c key) := by
  rw [incomingOf]
  cases hnode : pass.node? engine key with
  | none =>
    rw [resolveIncoming, hnode]
    exact .of_quiet (.refl _)
  | some node =>
    obtain ⟨hquiet, heq⟩ := @resolveIncoming_eq engine pass c key node hnode
    rw [heq]
    exact .quiet_trans hquiet (pass.applySelected_spec ..)

theorem outgoingOf_congr {before after : Engine} (h : Quiet before after) (pass : Pass)
    (c : ControllerId) (key : String) :
    pass.outgoingOf after c key = pass.outgoingOf before c key := by
  have hoffer (interaction : CompiledInteraction) :
      pass.outgoing? after c key interaction.rule = pass.outgoing? before c key interaction.rule :=
    funext fun effect => outgoing?_congr h pass c key interaction.rule effect
  simp only [outgoingOf, h.node?, outgoing, offered, hoffer]

end Pass

theorem quiet_setController (engine : Engine) (i : InstanceId) (key : String) (c : ControllerId) :
    Quiet engine (engine.setController i key c) :=
  engine.quiet_modifyInstance (fun _ => rfl) fun _ => rfl

/-- Resolving a key in an instance wires its source side, then its target side, and then applies its
cues. -/
theorem resolveIn_cues (c : ControllerId) (key : String) (engine : Engine) (i : InstanceId) :
    ∃ middle later, (Pass.mk i none).Wires
      ((Pass.mk i none).outgoingOf engine c key) engine middle ∧
      (Pass.mk i none).Wires ((Pass.mk i none).incomingOf middle c key) middle later ∧
      resolveIn c key engine i = (engine.scene.cues i c key).foldl (applyCue i) later := by
  have hset := engine.quiet_setController i key c
  have hout := (Pass.mk i none).resolveOutgoing_spec (engine.setController i key c) c key
  rw [Pass.outgoingOf_congr hset] at hout
  have hin := (Pass.mk i none).resolveIncoming_spec
    ((Pass.mk i none).resolveOutgoing (engine.setController i key c) c key) c key
  have hscene := hin.scene.trans (hout.scene.trans hset.scene)
  refine ⟨_, _, .quiet_trans hset hout, hin, ?_⟩
  rw [resolveIn, Pass.resolveIncomingSequences_eq, Pass.resolveOutgoingSequences_eq,
    scene_foldl_applyCue, hscene, Scene.cues, List.foldl_append]

/-- Resolving a key in an instance wires its source side, then its target side, then sequences. -/
theorem resolveIn_spec (c : ControllerId) (key : String) (engine : Engine) (i : InstanceId) :
    ∃ middle later, (Pass.mk i none).Wires
      ((Pass.mk i none).outgoingOf engine c key) engine middle ∧
      (Pass.mk i none).Wires ((Pass.mk i none).incomingOf middle c key) middle later ∧
      WiresSequences i ((Pass.mk i none).IsSequenceId engine key) later
        (resolveIn c key engine i) := by
  obtain ⟨middle, later, hout, hin, hcues⟩ := resolveIn_cues c key engine i
  refine ⟨middle, later, hout, hin, hcues ▸ wiresSequences_foldl_applyCue (fun cue hmem => ?_) _⟩
  exact Pass.isSequenceId_of_stems (stems_of_mem_cues hmem)

theorem scene_resolveIn (c : ControllerId) (key : String) (engine : Engine) (i : InstanceId) :
    (resolveIn c key engine i).scene = engine.scene := by
  obtain ⟨middle, later, hout, hin, hsequences⟩ := resolveIn_spec c key engine i
  rw [hsequences.scene, hin.scene, hout.scene]

theorem scene_foldl_resolveIn (c : ControllerId) (key : String) (engine : Engine)
    (instances : List InstanceId) :
    (instances.foldl (resolveIn c key) engine).scene = engine.scene :=
  List.foldlRecOn (motive := fun state : Engine => state.scene = engine.scene) _ _ rfl
    fun state hstate i _ => (scene_resolveIn c key state i).trans hstate

/-- Resolving a key in an instance applies ids in this instance only. -/
theorem mem_memo_resolveIn_of_ne {c : ControllerId} {key : String} {engine : Engine}
    {i j : InstanceId} (hj : j ≠ i) (text : String) :
    text ∈ ((resolveIn c key engine i).inst j).memo ↔ text ∈ (engine.inst j).memo := by
  obtain ⟨middle, later, ⟨offers, -, hout⟩, ⟨offers', -, hin⟩, events, marked, hsequences, -⟩ :=
    resolveIn_spec c key engine i
  have hkept {before after : Engine} {events : List Event} {marked : List String}
      (h : Extends i events marked before after) :
      text ∈ (after.inst j).memo ↔ text ∈ (before.inst j).memo :=
    (h.memo j text).trans (or_iff_left fun hand => hj hand.1)
  rw [hkept hsequences, hkept hin, hkept hout]

theorem mem_memo_foldl_resolveIn_of_not_mem {c : ControllerId} {key : String} {engine : Engine}
    {i : InstanceId} {instances : List InstanceId} (hi : i ∉ instances) (text : String) :
    text ∈ ((instances.foldl (resolveIn c key) engine).inst i).memo ↔
      text ∈ (engine.inst i).memo := by
  induction instances generalizing engine with
  | nil => rfl
  | cons j rest ih =>
    obtain ⟨hne, hrest⟩ := not_or.mp fun hmem => hi (List.mem_cons.mpr hmem)
    rw [List.foldl_cons, ih hrest, mem_memo_resolveIn_of_ne hne]

end Engine

end InteractionBinding
