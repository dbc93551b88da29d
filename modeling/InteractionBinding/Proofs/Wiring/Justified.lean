import InteractionBinding.Proofs.Engine.Origin
/-!
# Every wiring is justified

Whenever a handler is asked to wire a plan, an effect of an interaction of a live instance stands
behind it (`Engine.run_justified`): the handler serves the trigger, both sides are connected, the
gate is open, and both nodes are reached from the anchors by the selectors.

A node that a list binding goes through is an item of the container, or one that has just been added
to it. An added node has passed the item selector of the observation of the container. The
observation belongs to the first rule that asked for it, so this need not be the item selector of
the rule that is wired (`IsItem.borrowed`).
-/

namespace InteractionBinding

namespace Engine

/-- What stands behind a wiring: an effect of an interaction, the key that is resolved, and the
controllers of the two sides. -/
structure Warrant where
  interaction : CompiledInteraction
  effect : CompiledEffect
  key : String
  source : ControllerId
  target : ControllerId

namespace Warrant

/-- The condition names that gate the effect. -/
def conditions (warrant : Warrant) : List (List String) :=
  [warrant.interaction.rule.conditions, warrant.effect.effect.conditions]

/-- The plan for the effect, with the indices of the resolved key filled in. -/
def plan (warrant : Warrant) : EffectPlan :=
  ⟨warrant.effect.id.interpolate (KeyTemplate.indices warrant.key), warrant.effect.effectId,
    warrant.effect.effect⟩

/-- How the two controllers belong together: the key is that of the source, and the target is
the source itself or stands under the target key; or it is that of the target, and the source stands
under the source key. -/
inductive Sides (scene : Scene) (warrant : Warrant) : Prop
  | ofSource (hkey : (scene.controller warrant.source).key = some warrant.key)
      (hself : warrant.effect.target = warrant.interaction.rule.key →
        warrant.target = warrant.source)
      (hother : warrant.effect.target ≠ warrant.interaction.rule.key →
        scene.connectedController? (KeyTemplate.interpolate warrant.effect.target
          (KeyTemplate.indices warrant.key)) = some warrant.target)
  | ofTarget (hkey : (scene.controller warrant.target).key = some warrant.key)
      (hother : scene.connectedController? (KeyTemplate.interpolate warrant.interaction.rule.key
        (KeyTemplate.indices warrant.key)) = some warrant.source)

end Warrant

/-- An item of a container below the anchor of its owner: one that the selectors find, or one that
an observation of the container has just reported and that passes the item selector. A borrowed
item passes the item selector of the observation instead, which another rule has asked for. -/
inductive IsItem (occasion : Occasion) (scene : Scene) (owner : ControllerId) (container : String)
    (itemSelector : Option String) (item : NodeId) : Prop
  | found (anchor : NodeId) (hanchor : scene.anchor owner = some anchor)
      (hitem : item ∈ scene.dom.queryAll anchor (itemsSelector container itemSelector))
  | reported (scope : ListScope) (hscope : occasion.reports itemSelector scope)
      (howner : scope.owner = owner) (hcontainer : scope.container = container)
      (hitem : item ∈ scope.nodes)
  | borrowed (other : Option String) (hother : other ≠ itemSelector) (scope : ListScope)
      (hscope : occasion.reports other scope) (howner : scope.owner = owner)
      (hcontainer : scope.container = container) (hitem : item ∈ scope.nodes)

/-- The source and the target node are reached from the anchors of the two controllers by the
selectors of the interaction and of the effect, through an item where a list is bound. -/
inductive Reaches (occasion : Occasion) (scene : Scene) (warrant : Warrant)
    (source target : NodeId) :
    Prop
  | plain (sourceAnchor targetAnchor : NodeId)
      (hlist : warrant.interaction.rule.listContainer = none)
      (hlist' : warrant.effect.effect.listContainer = none)
      (hsource : scene.anchor warrant.source = some sourceAnchor)
      (htarget : scene.anchor warrant.target = some targetAnchor)
      (hreach : source ∈ scene.dom.select sourceAnchor warrant.interaction.rule.selector)
      (hreach' : target ∈ scene.dom.select targetAnchor warrant.effect.effect.selector)
  | ofSourceItem (container : String) (item targetAnchor : NodeId)
      (hlist : warrant.interaction.rule.listContainer = some container)
      (hitem : IsItem occasion scene warrant.source container
        warrant.interaction.rule.listItemSelector item)
      (htarget : scene.anchor warrant.target = some targetAnchor)
      (hreach : source ∈ scene.dom.select item warrant.interaction.rule.selector)
      (hreach' : target ∈ scene.dom.select
        (if warrant.effect.effect.listContainer = some container then item else targetAnchor)
        warrant.effect.effect.selector)
  | ofTargetItem (container : String) (item sourceAnchor : NodeId)
      (hlist : warrant.interaction.rule.listContainer = none)
      (hlist' : warrant.effect.effect.listContainer = some container)
      (hitem : IsItem occasion scene warrant.target container
        warrant.effect.effect.listItemSelector item)
      (hsource : scene.anchor warrant.source = some sourceAnchor)
      (hreach : source ∈ scene.dom.select sourceAnchor warrant.interaction.rule.selector)
      (hreach' : target ∈ scene.dom.select item warrant.effect.effect.selector)

/-- A warrant justifies that a handler is asked to wire a plan on two nodes. -/
structure Justifies (occasion : Occasion) (scene : Scene) (warrant : Warrant) (i : InstanceId)
    (handler : HandlerId) (source target : NodeId) (plan : EffectPlan) (params : KeyMap Json)
    (context : HandlerContext) : Prop where
  live : i ∈ scene.live
  standing : (scene.inst i).destroyed = false
  declared : ∃ node, (scene.inst i).graph.nodes.get? warrant.interaction.rule.key = some node ∧
    warrant.interaction ∈ node.triggers
  effect : warrant.effect ∈ warrant.interaction.effects
  handler : scene.handlers.get? warrant.interaction.rule.trigger = some handler
  plan : plan = warrant.plan
  params : params = warrant.interaction.rule.params
  sides : warrant.Sides scene
  sourceConnected : (scene.controller warrant.source).connected = true
  targetConnected : (scene.controller warrant.target).connected = true
  isOpen : (scene.gate i warrant.conditions).isOpen = true
  predicate : context.selectorPredicate = (scene.gate i warrant.conditions).selectorPredicate
  reaches : Reaches occasion scene warrant source target

/-- An entry of the log is justified if it asks for no wiring, or for one with a warrant. -/
def Justified (occasion : Occasion) : Entry → Prop
  | .told (.add i handler source target plan params context _) scene =>
    ∃ warrant, Justifies occasion scene warrant i handler source target plan params context
  | _ => True

variable {engine before after : Engine} {occasion : Occasion}

/-! ### Candidates -/

namespace Pass

theorem isItem_of_mem_itemsIn {pass : Pass} {scene : Scene} {owner : ControllerId}
    {container : String} {itemSelector : Option String} {item : NodeId}
    (hscope : ∀ scope, pass.scope = some scope →
      ∃ itemSelector, occasion.reports itemSelector scope)
    (h : item ∈ pass.itemsIn scene owner container itemSelector) :
    IsItem occasion scene owner container itemSelector item := by
  rw [itemsIn] at h
  split at h
  next scope heq =>
    split at h
    next hsame =>
      obtain ⟨hcontainer, howner⟩ := Bool.and_eq_true_iff.mp hsame
      obtain ⟨other, hreports⟩ := hscope scope heq
      by_cases hown : other = itemSelector
      · exact .reported scope (hown ▸ hreports) (of_decide_eq_true howner).symm
          (of_decide_eq_true hcontainer) h
      · exact .borrowed other hown scope hreports (of_decide_eq_true howner).symm
          (of_decide_eq_true hcontainer) h
    next => exact absurd h List.not_mem_nil
  next =>
    split at h
    next => exact absurd h List.not_mem_nil
    next anchor hanchor => exact .found anchor hanchor h

theorem reaches_of_mem_pairsIn {pass : Pass} {scene : Scene} {candidate : Candidate}
    {warrant : Warrant} {pair : NodePair}
    (hscope : ∀ scope, pass.scope = some scope →
      ∃ itemSelector, occasion.reports itemSelector scope)
    (hrule : candidate.rule = warrant.interaction.rule)
    (heffect : candidate.effect = warrant.effect)
    (hsource : candidate.source = warrant.source) (htarget : candidate.target = warrant.target)
    (h : pair ∈ pass.pairsIn scene candidate) :
    Reaches occasion scene warrant pair.source pair.target := by
  simp only [pairsIn, hrule, heffect, hsource, htarget] at h
  split at h
  next sourceAnchor targetAnchor hsourceAnchor htargetAnchor =>
    split at h
    next _ container hlist =>
      obtain ⟨item, hitem, h⟩ := List.mem_flatMap.mp h
      obtain ⟨source, hreach, h⟩ := List.mem_flatMap.mp h
      obtain ⟨target, hreach', rfl⟩ := List.mem_map.mp h
      exact .ofSourceItem container item targetAnchor hlist (isItem_of_mem_itemsIn hscope hitem)
        htargetAnchor hreach hreach'
    next container hlist hlist' =>
      obtain ⟨item, hitem, h⟩ := List.mem_flatMap.mp h
      obtain ⟨target, hreach', h⟩ := List.mem_flatMap.mp h
      obtain ⟨source, hreach, rfl⟩ := List.mem_map.mp h
      exact .ofTargetItem container item sourceAnchor hlist hlist'
        (isItem_of_mem_itemsIn hscope hitem) hsourceAnchor hreach hreach'
    next hlist hlist' =>
      obtain ⟨source, hreach, h⟩ := List.mem_flatMap.mp h
      obtain ⟨target, hreach', rfl⟩ := List.mem_map.mp h
      exact .plain sourceAnchor targetAnchor hlist hlist' hsourceAnchor htargetAnchor hreach hreach'
  next => exact absurd h List.not_mem_nil

/-- A candidate has a warrant when it stems from an effect of an interaction of its instance, and
its sides belong together. -/
structure Warranted (occasion : Occasion) (scene : Scene) (pass : Pass) (candidate : Candidate)
    (warrant : Warrant) : Prop where
  live : pass.instanceId ∈ scene.live
  standing : (scene.inst pass.instanceId).destroyed = false
  declared : ∃ node, (scene.inst pass.instanceId).graph.nodes.get? warrant.interaction.rule.key =
    some node ∧ warrant.interaction ∈ node.triggers
  effect : warrant.effect ∈ warrant.interaction.effects
  candidate : candidate = ⟨warrant.plan.id, warrant.interaction.rule, warrant.effect,
    warrant.source, warrant.target, scene.gate pass.instanceId warrant.conditions⟩
  sides : warrant.Sides scene
  sourceConnected : (scene.controller warrant.source).connected = true
  targetConnected : (scene.controller warrant.target).connected = true
  isOpen : (scene.gate pass.instanceId warrant.conditions).isOpen = true
  scope (scope : ListScope) : pass.scope = some scope →
    ∃ itemSelector, occasion.reports itemSelector scope

theorem connected_of_connectedController? {key : String} {c : ControllerId}
    (h : engine.connectedController? key = some c) :
    (engine.scene.controller c).connected = true := by
  rw [scene_controller]
  exact (Option.filter_eq_some_iff.mp h).2

theorem exists_warranted_of_mem_outgoingOf {pass : Pass} {c : ControllerId} {key : String}
    {candidate : Candidate} (hcompiled : engine.Compiled)
    (hentitled : Entitled occasion engine.scene pass c key)
    (h : candidate ∈ pass.outgoingOf engine c key) :
    ∃ warrant, Warranted occasion engine.scene pass candidate warrant := by
  obtain ⟨interaction, hstems⟩ := exists_stems_of_mem_outgoingOf hcompiled h
  obtain ⟨node, declaring, effect, -, -, -, h⟩ := mem_outgoingOf h
  obtain ⟨target, hopen, -, htarget, -, rfl⟩ := outgoing?_eq_some.mp h
  obtain ⟨hdeclared, heffect, hrule, -, -⟩ := hstems
  dsimp only at heffect hrule
  rw [currentGate_eq, hrule] at hopen
  rw [targetController?] at htarget
  refine ⟨⟨interaction, effect, key, c, target⟩, hentitled.live, hentitled.standing,
    graph_inst_eq engine _ ▸ hdeclared, heffect, by rw [currentGate_eq, hrule]; rfl, ?_,
    hentitled.connected, ?_, hopen, fun scope hscope => (hentitled.scope scope hscope).1⟩
  · refine .ofSource hentitled.keyed (fun hself => ?_) fun hother => ?_
    · rw [if_pos (hrule ▸ hself)] at htarget
      exact (Option.some.inj htarget).symm
    · rw [if_neg (hrule ▸ hother), connectedController?_eq] at htarget
      exact htarget
  · split at htarget
    · exact Option.some.inj htarget ▸ hentitled.connected
    · exact connected_of_connectedController? htarget

theorem exists_warranted_of_mem_incomingOf {pass : Pass} {c : ControllerId} {key : String}
    {candidate : Candidate} (hcompiled : engine.Compiled)
    (hentitled : Entitled occasion engine.scene pass c key)
    (h : candidate ∈ pass.incomingOf engine c key) :
    ∃ warrant, Warranted occasion engine.scene pass candidate warrant := by
  obtain ⟨interaction, hstems⟩ := exists_stems_of_mem_incomingOf hcompiled h
  obtain ⟨node, entry, -, -, h⟩ := mem_incomingOf h
  obtain ⟨variant, source, -, hfind, hsource, -, rfl⟩ := incoming?_eq_some.mp h
  obtain ⟨hdeclared, heffect, hrule, hid, -⟩ := hstems
  dsimp only at heffect hrule hid
  have hopen := List.find?_some hfind
  rw [isOpen, currentGate_eq, hrule] at hopen
  refine ⟨⟨interaction, variant.effect, key, source, c⟩, hentitled.live, hentitled.standing,
    graph_inst_eq engine _ ▸ hdeclared, heffect, by rw [currentGate_eq, hrule, hid]; rfl,
    .ofTarget hentitled.keyed ?_, connected_of_connectedController? hsource, hentitled.connected,
    hopen, fun scope hscope => (hentitled.scope scope hscope).1⟩
  rw [← connectedController?_eq, ← hrule]
  exact hsource

/-- The warrant of a candidate justifies what is offered of the candidate. -/
theorem Warranted.justifies {pass : Pass} {scene : Scene} {offer : Offer} {warrant : Warrant}
    (h : Warranted occasion scene pass offer.candidate warrant)
    (hproposal : offer.toProposal ∈ pass.proposals scene offer.candidate) :
    Justifies occasion scene warrant pass.instanceId offer.handler offer.pair.source
      offer.pair.target offer.candidate.plan offer.candidate.rule.params
      (context scene offer.candidate) := by
  obtain ⟨-, hhandler, hpair⟩ := mem_proposals.mp hproposal
  have hrule : offer.candidate.rule = warrant.interaction.rule :=
    congrArg Candidate.rule h.candidate
  have hreaches := reaches_of_mem_pairsIn h.scope hrule (congrArg Candidate.effect h.candidate)
    (congrArg Candidate.source h.candidate) (congrArg Candidate.target h.candidate) hpair
  refine ⟨h.live, h.standing, h.declared, h.effect, hrule ▸ hhandler, ?_,
    congrArg Rule.params hrule, h.sides, h.sourceConnected, h.targetConnected, h.isOpen, ?_,
    hreaches⟩
  · rw [h.candidate]
    rfl
  · rw [h.candidate]
    rfl

theorem justified_of_warranted {pass : Pass} {scene : Scene} {selected : List Candidate}
    {offers : List Offer}
    (hwarranted : ∀ candidate ∈ selected,
      ∃ warrant, Warranted occasion scene pass candidate warrant)
    (hoffers : Offers pass scene (selected.reverse.flatMap (pass.proposals scene)) offers)
    {offer : Offer} (hmem : offer ∈ offers) :
    Justified occasion (.told (offer.event pass.instanceId scene) scene) := by
  obtain ⟨hselected, hproposal⟩ := hoffers.candidate_mem hmem
  obtain ⟨warrant, hwarrant⟩ := hwarranted offer.candidate (List.mem_reverse.mp hselected)
  exact ⟨warrant, hwarrant.justifies hproposal⟩

end Pass

/-! ### Runs -/

/-- Every step tells only what is justified. -/
theorem Step.justified (h : Step occasion before after) (hcompiled : before.Compiled) :
    Tells (Justified occasion) before after := by
  have hwires {pass : Pass} {selected : List Candidate} (hwires : pass.Wires selected before after)
      (hwarranted : ∀ candidate ∈ selected,
        ∃ warrant, Pass.Warranted occasion before.scene pass candidate warrant) :
      Tells (Justified occasion) before after := by
    obtain ⟨offers, hoffers, hextends⟩ := hwires
    refine .of_extends hextends fun event hevent => ?_
    obtain ⟨offer, hoffer, rfl⟩ := List.mem_map.mp hevent
    exact Pass.justified_of_warranted hwarranted hoffers hoffer
  cases h with
  | release h =>
    cases h with
    | calm h => exact .silent h.log
    | remove | effectState | insertSheet | removeSheet | forget => exact .single rfl trivial
  | read | mark | found | condemn | retire => exact .silent rfl
  | source pass c key h hpass =>
    exact hwires hpass fun candidate => Pass.exists_warranted_of_mem_outgoingOf hcompiled h
  | target pass c key h hpass =>
    exact hwires hpass fun candidate => Pass.exists_warranted_of_mem_incomingOf hcompiled h
  | cue i cue h =>
    obtain ⟨events, marked, hextends, hevents, -⟩ := wiresSequences_applyCue i before cue
    refine .of_extends hextends fun event hevent => ?_
    have hsequence := hevents event hevent
    cases event with
    | addSequence => trivial
    | _ => exact absurd hsequence id

theorem Steps.justified (h : Steps occasion before after) (hcompiled : before.Compiled) :
    Tells (Justified occasion) before after := by
  induction h with
  | refl => exact .silent rfl
  | tail hsteps hstep ih => exact ih.trans (hstep.justified (Steps.compiled hsteps hcompiled))

/-- Every wiring that an operation asks a handler for, after any run, is justified. -/
theorem run_justified (host : Host) (options : EngineOptions) (operations : List Operation)
    (operation : Operation) :
    ∃ entries,
      (((start host options).run operations).perform operation).1.log =
        ((start host options).run operations).log ++ entries ∧
      ∀ entry ∈ entries, Justified (((start host options).run operations).occasion operation)
        entry := by
  have htidy := tidy_run (tidy_start host options) operations
  have hcompiled := compiled_run (tidy_start host options) (compiled_start host options) operations
  exact (perform_steps htidy operation).1.justified hcompiled

end Engine

end InteractionBinding
