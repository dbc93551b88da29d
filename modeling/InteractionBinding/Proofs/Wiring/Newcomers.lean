import InteractionBinding.Proofs.Engine.Connecting
import InteractionBinding.Proofs.Keys.InteractionIds
import InteractionBinding.Proofs.Wiring.Updating
/-!
# What a node is wired for when it mounts

A key that connects is due to be wired for every effect that it is the source or the target of, whose
gate is open and whose other side is connected (`Scene.Due`). A node that mounts under the key is
wired for all that is due, with its own nodes, under the texts that its instance has not applied yet.
Under a text that has been applied nothing is asked for, even if what has been applied is the wiring
of another node that had the key before (`Engine.run_addNode`).
-/

namespace InteractionBinding

open Engine (Candidate)

namespace Scene

variable (scene : Scene) (i : InstanceId) (c : ControllerId) (key : String)

/-- The gate of an effect of a rule. -/
def effectGate (rule : Rule) (effect : CompiledEffect) : Gate :=
  scene.gate i [rule.conditions, effect.effect.conditions]

/-- The candidate that an effect of a rule makes for a source, whatever has been applied. -/
def sourceCandidate? (rule : Rule) (effect : CompiledEffect) : Option Candidate :=
  let indices := KeyTemplate.indices key
  let target := if effect.target = rule.key then some c
    else scene.connectedController? (KeyTemplate.interpolate effect.target indices)
  if (scene.effectGate i rule effect).isOpen then
    target.map fun target =>
      ⟨effect.id.interpolate indices, rule, effect, c, target, scene.effectGate i rule effect⟩
  else none

/-- The candidate that the alternatives of an id make for a target, whatever has been applied. -/
def targetCandidate? (entry : TargetEffects) : Option Candidate :=
  let indices := KeyTemplate.indices key
  (entry.variants.find? fun variant => (scene.effectGate i variant.rule variant.effect).isOpen).bind
    fun variant =>
      (scene.connectedController? (KeyTemplate.interpolate variant.rule.key indices)).map
        fun source => ⟨entry.id.interpolate indices, variant.rule, variant.effect, source, c,
          scene.effectGate i variant.rule variant.effect⟩

/-- The candidates that the effects of a source make, whatever has been applied. Of each interaction
they are in the order from the last declared effect to the first. -/
def sourceCandidates (node : GraphNode) : List Candidate :=
  node.triggers.flatMap fun interaction =>
    interaction.effects.filterMap (scene.sourceCandidate? i c key interaction.rule)

/-- A key is due to be wired for a candidate. Of several effects of a source that make candidates
with one text, only the one declared first is. -/
inductive Due : Candidate → Prop
  | source {node : GraphNode} {candidate : Candidate}
      (hnode : (scene.inst i).graph.get? key = some node)
      (hfirst : (scene.sourceCandidates i c key node).reverse.find?
        (fun other => other.memoKey = candidate.memoKey) = some candidate) : Due candidate
  | target {node : GraphNode} {entry : TargetEffects} {candidate : Candidate}
      (hnode : (scene.inst i).graph.get? key = some node) (hentry : entry ∈ node.effects)
      (hmade : scene.targetCandidate? i c key entry = some candidate) : Due candidate

end Scene

/-- What is due is due under a key that the instance knows. -/
theorem Scene.Due.knows {scene : Scene} {i : InstanceId} {c : ControllerId} {key : String}
    {candidate : Candidate} (h : scene.Due i c key candidate) :
    (scene.inst i).graph.knows key = true := by
  rw [← Graph.isSome_get?]
  cases h with
  | source hnode => rw [hnode]; rfl
  | target hnode => rw [hnode]; rfl

namespace Engine

variable {engine before middle after : Engine} {occasion : Occasion} {i : InstanceId}
  {c : ControllerId} {key : String} {candidate : Candidate} {node : GraphNode} {wire : Wire}

/-! ### What a full pass selects -/

namespace Pass

/-- A full pass makes the candidate of an effect unless its text has been applied. -/
theorem outgoing?_eq_filter (engine : Engine) (i : InstanceId) (c : ControllerId) (key : String)
    (rule : Rule) (effect : CompiledEffect) :
    (Pass.mk i none).outgoing? engine c key rule effect =
      (engine.scene.sourceCandidate? i c key rule effect).filter fun candidate =>
        candidate.memoKey ∉ (engine.inst i).memo := by
  have hgate : (Pass.mk i none).currentGate engine [rule.conditions, effect.effect.conditions] =
      engine.scene.effectGate i rule effect := currentGate_eq ..
  simp only [outgoing?, Scene.sourceCandidate?, hgate, targetController?, connectedController?_eq]
  cases hopen : (engine.scene.effectGate i rule effect).isOpen with
  | false => rfl
  | true =>
    cases (if effect.target = rule.key then some c else engine.scene.connectedController?
        (KeyTemplate.interpolate effect.target (KeyTemplate.indices key))) with
    | none => simp
    | some target =>
      by_cases hmem : (effect.id.interpolate (KeyTemplate.indices key)).encode ∈
          (engine.inst i).memo <;>
        simp [alreadyApplied, Instance.isApplied, inScope, Candidate.memoKey, Option.filter, hmem]

theorem incoming?_eq_filter (engine : Engine) (i : InstanceId) (c : ControllerId) (key : String)
    (entry : TargetEffects) :
    (Pass.mk i none).incoming? engine c key entry =
      (engine.scene.targetCandidate? i c key entry).filter fun candidate =>
        candidate.memoKey ∉ (engine.inst i).memo := by
  have hopen : (Pass.mk i none).isOpen engine = fun variant =>
      (engine.scene.effectGate i variant.rule variant.effect).isOpen := by
    funext variant
    rw [isOpen, currentGate_eq]
    rfl
  have hgate (variant : Variant) : (Pass.mk i none).currentGate engine
      [variant.rule.conditions, variant.effect.effect.conditions] =
        engine.scene.effectGate i variant.rule variant.effect := currentGate_eq ..
  simp only [incoming?, Scene.targetCandidate?, hopen, hgate, connectedController?_eq]
  cases entry.variants.find? fun variant =>
      (engine.scene.effectGate i variant.rule variant.effect).isOpen with
  | none => simp
  | some variant =>
    simp only [Option.bind_some]
    cases engine.scene.connectedController?
        (KeyTemplate.interpolate variant.rule.key (KeyTemplate.indices key)) with
    | none => simp
    | some source =>
      by_cases hmem : (entry.id.interpolate (KeyTemplate.indices key)).encode ∈
          (engine.inst i).memo <;>
        simp [alreadyApplied, Instance.isApplied, inScope, Candidate.memoKey, Option.filter, hmem]

theorem offered_eq_filter (engine : Engine) (i : InstanceId) (c : ControllerId) (key : String)
    (node : GraphNode) : (Pass.mk i none).offered engine c key node =
      (engine.scene.sourceCandidates i c key node).filter fun candidate =>
        candidate.memoKey ∉ (engine.inst i).memo := by
  rw [offered, Scene.sourceCandidates, List.filter_flatMap]
  refine List.flatMap_congr fun interaction _ => ?_
  rw [List.filter_filterMap]
  simp only [← outgoing?_eq_filter]

/-- What is due and has not been applied is selected for the source. -/
theorem mem_outgoingOf_of_first (hnode : (engine.scene.inst i).graph.get? key = some node)
    (hfirst : (engine.scene.sourceCandidates i c key node).reverse.find?
      (fun other => other.memoKey = candidate.memoKey) = some candidate)
    (hnew : candidate.memoKey ∉ (engine.inst i).memo) :
    candidate ∈ (Pass.mk i none).outgoingOf engine c key := by
  rw [outgoingOf, node?_eq, hnode]
  refine mem_foldl_selectCandidate.mpr ?_
  rw [offered_eq_filter, ← List.filter_reverse, List.find?_filter, ← hfirst]
  congr 1
  funext other
  by_cases htext : other.memoKey = candidate.memoKey
  · simp [htext, hnew]
  · simp [htext]

/-- What is due and has not been applied is selected for the target. -/
theorem mem_incomingOf_of_made (hnode : (engine.scene.inst i).graph.get? key = some node)
    {entry : TargetEffects} (hentry : entry ∈ node.effects)
    (hmade : engine.scene.targetCandidate? i c key entry = some candidate)
    (hnew : candidate.memoKey ∉ (engine.inst i).memo) :
    candidate ∈ (Pass.mk i none).incomingOf engine c key := by
  rw [incomingOf, node?_eq, hnode]
  refine List.mem_filterMap.mpr ⟨entry, hentry, ?_⟩
  rw [incoming?_eq_filter, hmade, Option.filter_some, if_pos (decide_eq_true hnew)]

/-- The two sides of a key have no text in common: the index of a text is that of an interaction, and
either the key is its source or it is not. -/
theorem memoKey_ne_of_mem_effects (hcompiled : engine.Compiled)
    (hcandidate : candidate ∈ (Pass.mk i none).outgoingOf engine c key)
    (hnode : (engine.scene.inst i).graph.get? key = some node) {entry : TargetEffects}
    (hentry : entry ∈ node.effects) :
    candidate.memoKey ≠ (entry.id.interpolate (KeyTemplate.indices key)).encode := by
  intro htext
  obtain ⟨sourceNode, interaction, effect, hsource, htrigger, heffect, hmade⟩ :=
    mem_outgoingOf hcandidate
  obtain ⟨target, -, -, -, -, rfl⟩ := outgoing?_eq_some.mp hmade
  obtain ⟨config, hgraph⟩ := hcompiled i
  rw [node?_eq, hnode] at hsource
  obtain rfl := Option.some.inj hsource
  rw [← graph_inst_eq, hgraph, Graph.get?] at hnode
  obtain ⟨graphKey, -, hget⟩ := Option.bind_eq_some_iff.mp hnode
  obtain ⟨haccepted, hkey⟩ := (Graph.mem_triggers_iff hget).mp htrigger
  obtain ⟨other, hother, hindex, hne, -⟩ := Graph.variants_eq hget hentry
  have hindices : (effect.id.interpolate (KeyTemplate.indices key)).index =
      (entry.id.interpolate (KeyTemplate.indices key)).index :=
    InteractionId.index_eq_of_encode_eq htext
  change effect.id.index = entry.id.index at hindices
  rw [Compile.id_eq_of_mem_effects haccepted heffect] at hindices
  obtain rfl := Compile.accepted_eq_of_index_eq haccepted hother (hindices.trans hindex.symm)
  exact hne hkey

/-! ### What is selected becomes live -/

/-- Offers end no wire. -/
theorem mem_foldl_offers_of_mem {scene : Scene} (offers : List Offer) {wires : List Wire}
    (hmem : wire ∈ wires) : wire ∈ (offers.map (Offer.event i scene)).foldl Event.wire wires := by
  rw [List.foldl_map]
  refine List.foldlRecOn (motive := fun wires => wire ∈ wires) offers _ hmem
    fun wires hwire offer _ => ?_
  obtain ⟨proposal, refusal⟩ := offer
  cases refusal with
  | none => exact Event.mem_wire_add.mpr (.inl hwire)
  | some => exact hwire

/-- The wire of an accepted offer is live after the offers. -/
theorem mem_foldl_offers_of_accepted {scene : Scene} {offers : List Offer} {offer : Offer}
    (hoffer : offer ∈ offers) (haccepted : offer.refusal = none) {wires : List Wire} :
    offer.toProposal.wire ∈ (offers.map (Offer.event i scene)).foldl Event.wire wires := by
  obtain ⟨front, back, rfl⟩ := List.append_of_mem hoffer
  rw [List.map_append, List.foldl_append, List.map_cons, List.foldl_cons]
  refine mem_foldl_offers_of_mem back ?_
  obtain ⟨proposal, refusal⟩ := offer
  obtain rfl : refusal = none := haccepted
  exact Event.mem_wire_add.mpr (.inr rfl)

/-- A proposal for a selected candidate becomes live in a full pass if its handler accepts it. -/
theorem Wires.mem_wires_of_accepted {pass : Pass} {selected : List Candidate}
    (h : pass.Wires selected before after) (hscope : pass.scope = none)
    (hcandidate : candidate ∈ selected) {proposal : Proposal}
    (hproposal : proposal ∈ pass.proposals before.scene candidate)
    (haccepts : ∀ told, proposal.answer before.scene told = none) :
    proposal.wire ∈ after.wires := by
  obtain ⟨offers, hoffers, hextends⟩ := h
  have hmem : proposal ∈ offers.map Offer.toProposal := by
    rw [hoffers.complete hscope]
    exact List.mem_flatMap.mpr ⟨candidate, List.mem_reverse.mpr hcandidate, hproposal⟩
  obtain ⟨offer, hoffer, rfl⟩ := List.mem_map.mp hmem
  obtain ⟨told, hanswer⟩ := hoffers.answered offer hoffer
  rw [hextends.wires_eq]
  exact mem_foldl_offers_of_accepted hoffer (hanswer.trans (haccepts told))

end Pass

/-! ### Resolving -/

/-- What wires on behalf of a controller ends no wire. -/
theorem WiresFor.mem_wires (h : WiresFor occasion c before after) (hmem : wire ∈ before.wires) :
    wire ∈ after.wires := by
  obtain ⟨entries, hlog, hentries⟩ := h.log
  exact (mem_wires_of_serves hlog fun entry hentry => (hentries entry hentry).1).mpr (.inl hmem)

/-- Resolving a key in an instance wires what is due and has not been applied. -/
theorem mem_wires_resolveIn (hcompiled : engine.Compiled) (hdue : engine.scene.Due i c key candidate)
    (hnew : candidate.memoKey ∉ (engine.inst i).memo) {proposal : Proposal}
    (hproposal : proposal ∈ (Pass.mk i none).proposals engine.scene candidate)
    (haccepts : ∀ told, proposal.answer engine.scene told = none) :
    proposal.wire ∈ (resolveIn c key engine i).wires := by
  obtain ⟨middle, later, hout, hin, hsequences⟩ := resolveIn_spec c key engine i
  rw [hsequences.wires_eq]
  cases hdue with
  | source hnode hfirst =>
    have hmiddle := hout.mem_wires_of_accepted rfl
      (Pass.mem_outgoingOf_of_first hnode hfirst hnew) hproposal haccepts
    obtain ⟨offers, -, hextends⟩ := hin
    rw [hextends.wires_eq]
    exact Pass.mem_foldl_offers_of_mem offers hmiddle
  | @target node entry _ hnode hentry hmade =>
    have hscene := hout.scene
    have htext : candidate.memoKey = (entry.id.interpolate (KeyTemplate.indices key)).encode := by
      simp only [Scene.targetCandidate?, Option.bind_eq_some_iff, Option.map_eq_some_iff] at hmade
      obtain ⟨_, -, _, -, rfl⟩ := hmade
      rfl
    -- the source side has applied nothing under a text of the target side
    have hstill : candidate.memoKey ∉ (middle.inst i).memo := by
      obtain ⟨offers, hoffers, hextends⟩ := hout
      rw [hextends.memo, Pass.mem_marks]
      rintro (hmem | ⟨-, -, -, ⟨offer, hoffer, -, hsame⟩ | ⟨other, hother, -, hsame⟩⟩)
      · exact hnew hmem
      · have hselected := List.mem_reverse.mp (hoffers.candidate_mem hoffer).1
        exact Pass.memoKey_ne_of_mem_effects hcompiled hselected hnode hentry (hsame.trans htext)
      · exact Pass.memoKey_ne_of_mem_effects hcompiled hother hnode hentry (hsame.trans htext)
    have hselected : candidate ∈ (Pass.mk i none).incomingOf middle c key :=
      Pass.mem_incomingOf_of_made (hscene.symm ▸ hnode) hentry (hscene.symm ▸ hmade) hstill
    exact hin.mem_wires_of_accepted rfl hselected (hscene ▸ hproposal)
      fun told => hscene ▸ haccepts told

/-- Resolving a key in instances that know it wires, in each of them, what is due and has not been
applied there. -/
theorem mem_wires_foldl_resolveIn (htidy : engine.Tidy) (hcompiled : engine.Compiled)
    (hconnected : (engine.controller c).connected = true)
    (hkeyed : (engine.controller c).key = some key) {instances : List InstanceId}
    (hinstances : instances ⊆ engine.instancesFor key) (hi : i ∈ instances)
    (hdue : engine.scene.Due i c key candidate) (hnew : candidate.memoKey ∉ (engine.inst i).memo)
    {proposal : Proposal}
    (hproposal : proposal ∈ (Pass.mk i none).proposals engine.scene candidate)
    (haccepts : ∀ told, proposal.answer engine.scene told = none) :
    proposal.wire ∈ (instances.foldl (resolveIn c key) engine).wires := by
  obtain ⟨front, back, rfl, hfront⟩ := List.eq_append_cons_of_mem hi
  rw [List.foldl_append, List.foldl_cons]
  -- the instance is resolved as it was at the start, since the others apply nothing in it
  have hmemo : candidate.memoKey ∉ ((front.foldl (resolveIn c key) engine).inst i).memo := by
    rwa [mem_memo_foldl_resolveIn_of_not_mem hfront]
  have hscene := scene_foldl_resolveIn c key engine front
  generalize front.foldl (resolveIn c key) engine = reached at hmemo hscene ⊢
  have hwire : proposal.wire ∈ (resolveIn c key reached i).wires :=
    mem_wires_resolveIn (compiled_congr hscene hcompiled) (hscene ▸ hdue) hmemo
      (hscene ▸ hproposal) fun told => hscene ▸ haccepts told
  -- what is resolved later ends no wire
  have hscene' := (scene_resolveIn c key reached i).trans hscene
  generalize resolveIn c key reached i = resolved at hwire hscene' ⊢
  have hface := face_controller_eq hscene' c
  have hrest : WiresFor (engine.occasion .stop) c resolved
      (back.foldl (resolveIn c key) resolved) := by
    refine wiresFor_foldl_resolveIn ((tidy_congr (congrArg Scene.live hscene')
      (congrArg Scene.instances hscene')).mpr htidy) (compiled_congr hscene' hcompiled)
      ((congrArg Controller.Face.connected hface).trans hconnected)
      ((congrArg Controller.Face.key hface).trans hkeyed) fun j hj => ?_
    rw [instancesFor_eq, hscene', ← instancesFor_eq]
    exact hinstances (List.mem_append_right _ (List.mem_cons_of_mem _ hj))
  exact hrest.mem_wires hwire

/-! ### Connecting -/

/-- An instance asks for a wire under a text. -/
def AsksUnder (i : InstanceId) (text : String) : Entry → Prop
  | .told (.add j _ _ _ plan _ _ _) _ => j = i ∧ plan.id.encode = text
  | _ => False

/-- What wires on behalf of a controller asks for nothing under a text that has been applied. -/
theorem WiresFor.tells_not_asksUnder (h : WiresFor occasion c before after) {text : String}
    (hmemo : text ∈ (before.inst i).memo) :
    Tells (fun entry => ¬AsksUnder i text entry) before after := by
  refine h.log.mono fun entry ⟨_, hrenews⟩ hasks => ?_
  cases entry with
  | forgot => exact hasks
  | told event scene =>
    cases event with
    | add =>
      obtain ⟨rfl, rfl⟩ := hasks
      exact hrenews.2 hmemo
    | _ => exact hasks

/-- One engine comes from another by mounting a controller under a key. The controller is registered.
In every live instance it is wired for what is due under texts that had not been applied, and nothing
is asked for under texts that had been. -/
structure Welcomes (c : ControllerId) (key : String) (before after : Engine) : Prop where
  registered : after.registry.get? key = some c
  wired : ∀ i ∈ after.live, ∀ candidate, after.scene.Due i c key candidate →
    candidate.memoKey ∉ (before.inst i).memo →
    ∀ proposal ∈ (Pass.mk i none).proposals after.scene candidate,
      (∀ told, proposal.answer after.scene told = none) → proposal.wire ∈ after.wires
  silent (i : InstanceId) (text : String) : text ∈ (before.inst i).memo →
    Tells (fun entry => ¬AsksUnder i text entry) before after

/-- Resolving the key of a controller that is connected and registered. -/
theorem welcomes_foldl_resolveIn (htidy : engine.Tidy) (hcompiled : engine.Compiled)
    (hconnected : (engine.controller c).connected = true)
    (hkeyed : (engine.controller c).key = some key)
    (hregistered : engine.registry.get? key = some c) :
    Welcomes c key engine ((engine.instancesFor key).foldl (resolveIn c key) engine) := by
  have hscene := scene_foldl_resolveIn c key engine (engine.instancesFor key)
  have hwires : WiresFor (engine.occasion .stop) c engine
      ((engine.instancesFor key).foldl (resolveIn c key) engine) :=
    wiresFor_foldl_resolveIn htidy hcompiled hconnected hkeyed (List.Subset.refl _)
  refine ⟨?_, fun i hi candidate hdue hnew proposal hproposal haccepts => ?_,
    fun i text => hwires.tells_not_asksUnder⟩
  · rw [← hregistered]
    exact congrArg (KeyMap.get? · key) (congrArg Scene.registry hscene)
  · rw [hscene] at hdue hproposal haccepts
    refine mem_wires_foldl_resolveIn htidy hcompiled hconnected hkeyed (List.Subset.refl _) ?_ hdue
      hnew hproposal haccepts
    rw [instancesFor_eq]
    exact List.mem_filter.mpr ⟨congrArg Scene.live hscene ▸ hi, hdue.knows⟩

/-- A connection that connects a controller welcomes it. -/
theorem welcomes_connect (htidy : engine.Tidy) (hcompiled : engine.Compiled)
    {requested : Option String} (hoff : (engine.controller c).connected = false)
    (hconnected : ((engine.connect c requested).1.controller c).connected = true)
    (hkey : ((engine.connect c requested).1.controller c).key = some key) :
    Welcomes c key engine (engine.connect c requested).1 := by
  revert hconnected hkey
  refine connect_ind (P := fun after : Engine => (after.controller c).connected = true →
    (after.controller c).key = some key → Welcomes c key engine after) ?_ ?_
  · exact fun hconnected => absurd (hoff.symm.trans hconnected) Bool.false_ne_true
  · intro name _ hc _ _ _ hkey
    have hcontroller : ((engine.connecting c name).register name c).1.controller c =
        { engine.controller c with key := some name, connected := true } :=
      controller_connecting_self hc name
    have htidy' : ((engine.connecting c name).register name c).1.Tidy := htidy
    have hcompiled' : ((engine.connecting c name).register name c).1.Compiled := hcompiled
    have hwelcomes := welcomes_foldl_resolveIn htidy' hcompiled'
      (congrArg Controller.connected hcontroller) (congrArg Controller.key hcontroller)
      (KeyMap.get?_insert_self ..)
    rw [← resolve_eq] at hwelcomes
    have hname : name = key := by
      have hface := congrArg Controller.Face.key
        (face_controller_eq (scene_resolve (engine.connecting c name) c name) c)
      exact Option.some.inj ((congrArg Controller.key hcontroller).symm.trans
        (hface.symm.trans hkey))
    subst hname
    exact ⟨hwelcomes.registered, hwelcomes.wired, hwelcomes.silent⟩

/-- After any run, a node that mounts under a key is registered under it and, in every live instance,
wired for what is due under texts that have not been applied there. Under a text that has been
applied the instance asks for nothing, whoever it was applied for. -/
theorem run_addNode (host : Host) (options : EngineOptions) (operations : List Operation)
    (node : NodeId) (key : String) :
    let engine := (start host options).run operations
    let after := (engine.addNode node key).1
    let c := (engine.addNode node key).2
    (engine.controller c).connected = false → (after.controller c).connected = true →
      (after.controller c).key = some key → Welcomes c key engine after := by
  intro engine
  have htidy : engine.Tidy := tidy_run (tidy_start host options) operations
  have hcompiled : engine.Compiled :=
    compiled_run (tidy_start host options) (compiled_start host options) operations
  refine addNode_ind (P := fun result => (engine.controller result.2).connected = false →
    (result.1.controller result.2).connected = true → (result.1.controller result.2).key = some key →
      Welcomes result.2 key engine result.1) ?_ ?_
  · exact fun c _ _ => welcomes_connect htidy hcompiled
  · intro _ hconnected hkey
    have htidy' : (engine.newController node false).1.Tidy := htidy
    have hcompiled' : (engine.newController node false).1.Compiled := hcompiled
    have hoff : ((engine.newController node false).1.controller
        engine.controllers.length).connected = false := by
      simp [newController, controller, Controller.ofNode]
    obtain ⟨hregistered, hwired, hsilent⟩ := welcomes_connect htidy' hcompiled' hoff hconnected hkey
    exact ⟨hregistered, hwired, hsilent⟩

/-- The button on node 1 is wired when another button mounts on node 3. The second one is due to be
wired as well, but its text has been applied for the first, and nothing is told. -/
theorem run_addNode_button :
    let config := Config.ofInteractions [(Interaction.ofTrigger "button" .click).withEffect
      ((Effect.byId "open").on "panel")]
    let engine := (start .bare .standard).run
      [.create config, .addNode 2 "panel", .addNode 1 "button"]
    let after := (engine.addNode 3 "button").1
    let c := (engine.addNode 3 "button").2
    c = 2 ∧ Welcomes c "button" engine after ∧ engine.wires = [⟨1, 2, ⟨"panel", "open", 0⟩⟩] ∧
      (∃ candidate, after.scene.Due 0 2 "button" candidate ∧ candidate.source = 2 ∧
        candidate.memoKey ∈ (engine.inst 0).memo) ∧ after.wires = engine.wires := by
  intro config engine after c
  have hmade : ((after.scene.inst 0).graph.get? "button").map (fun node =>
      (after.scene.sourceCandidates 0 2 "button" node).map fun candidate =>
        (candidate.source, candidate.memoKey)) = some [(2, "panel::open::0")] := by decide +kernel
  obtain ⟨node, hnode, hmade⟩ := Option.map_eq_some_iff.mp hmade
  obtain ⟨candidate, hcandidates, hcandidate⟩ := List.map_eq_singleton_iff.mp hmade
  obtain ⟨hsource, htext⟩ := Prod.mk.inj hcandidate
  refine ⟨by decide +kernel, ?_, by decide +kernel, ⟨candidate, .source hnode ?_, hsource, ?_⟩,
    by decide +kernel⟩
  · exact run_addNode .bare .standard [.create config, .addNode 2 "panel", .addNode 1 "button"] 3
      "button" (by decide +kernel) (by decide +kernel) (by decide +kernel)
  · rw [hcandidates]
    simp
  · rw [htext]
    decide +kernel

end Engine

end InteractionBinding
