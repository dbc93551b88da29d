import InteractionBinding.Engine.Wiring
import InteractionBinding.Proofs.Engine.Selection
/-!
# What wiring candidates tells

Wiring candidates extends the log by offers, one for each pair of nodes that is decided on, and
keeps ids as applied (`Engine.Extends`). A full pass offers every candidate on every pair
(`Pass.applySelected_spec`); a pass with a scope leaves out items that are wired already.
-/

namespace InteractionBinding

namespace Engine

/-- One engine comes from another by telling events and by keeping ids as applied in an instance,
without a change of the scene. -/
structure Extends (i : InstanceId) (events : List Event) (marked : List String)
    (before after : Engine) : Prop where
  scene : after.scene = before.scene
  log : after.log = before.log ++ events.map (Entry.told · before.scene)
  memo (j : InstanceId) (id : String) : id ∈ (after.inst j).memo ↔
    id ∈ (before.inst j).memo ∨ j = i ∧ j < before.instances.length ∧ id ∈ marked

theorem length_instances_eq {before after : Engine}
    (h : after.scene.instances = before.scene.instances) :
    after.instances.length = before.instances.length := by
  simpa only [scene, List.length_map] using congrArg List.length h

theorem Quiet.extends {before after : Engine} (h : Quiet before after) (i : InstanceId) :
    Extends i [] [] before after :=
  ⟨h.scene, by simp [h.log], fun j id => by simp [h.memo]⟩

namespace Extends

variable {i : InstanceId} {before middle after : Engine} {events events' : List Event}
  {marked marked' : List String}

theorem trans (first : Extends i events marked before middle)
    (second : Extends i events' marked' middle after) :
    Extends i (events ++ events') (marked ++ marked') before after := by
  refine ⟨second.scene.trans first.scene, ?_, fun j id => ?_⟩
  · rw [second.log, first.log, first.scene, List.map_append, List.append_assoc]
  · rw [second.memo, first.memo, length_instances_eq (congrArg Scene.instances first.scene),
      List.mem_append]
    tauto

theorem quiet_trans (first : Quiet before middle)
    (second : Extends i events marked middle after) : Extends i events marked before after := by
  simpa using (first.extends i).trans second

theorem congr (h : Extends i events marked before after) (hmem : ∀ id, id ∈ marked ↔ id ∈ marked') :
    Extends i events marked' before after :=
  ⟨h.scene, h.log, fun j id => by rw [h.memo, hmem]⟩

end Extends

theorem extends_tell (engine : Engine) (i : InstanceId) (event : Event) :
    Extends i [event] [] engine (engine.tell event) :=
  ⟨rfl, rfl, fun j id => by simp [tell, inst]⟩

theorem extends_markApplied (engine : Engine) (i : InstanceId) (id : String) :
    Extends i [] [id] engine (engine.modifyInstance i (·.markApplied id)) := by
  refine ⟨scene_markApplied i id, by simp [modifyInstance], fun j other => ?_⟩
  rw [inst_modifyInstance_eq]
  split
  next h =>
    rw [Instance.markApplied]
    split
    next hmem => grind
    next hmem => grind
  next h => grind

/-! ### Offers -/

/-- A candidate that goes to a handler on a pair of nodes. -/
structure Proposal where
  candidate : Candidate
  handler : HandlerId
  pair : NodePair

/-- The wire that a proposal asks for. -/
def Proposal.wire (proposal : Proposal) : Wire :=
  ⟨proposal.pair.source, proposal.pair.target, proposal.candidate.id⟩

/-- A proposal with the answer of the handler. -/
structure Offer extends Proposal where
  refusal : Option Refusal

/-- The plan of a candidate. -/
def Candidate.plan (candidate : Candidate) : EffectPlan :=
  ⟨candidate.id, candidate.effect.effectId, candidate.effect.effect⟩

/-- Whether a candidate is bound to a list, on the side of its source or of its target. -/
def Candidate.isListBound (candidate : Candidate) : Bool :=
  candidate.rule.isListBound || candidate.effect.effect.listContainer.isSome

/-- What a handler is told in a scene beside the plan of a candidate. -/
def context (scene : Scene) (candidate : Candidate) : HandlerContext where
  id := candidate.id
  partner := some candidate.target
  reducedMotion := scene.options.forceReducedMotion || scene.queryState reducedMotionQuery
  selectorPredicate := candidate.gate.selectorPredicate
  allowKeyboard := scene.options.allowKeyboardTriggers && candidate.rule.trigger.needsKeyboard

/-- What the handler of a proposal answers in a scene, after some events. -/
def Proposal.answer (scene : Scene) (told : List Event) (proposal : Proposal) : Option Refusal :=
  (scene.handler proposal.handler).add told proposal.pair.source proposal.pair.target
    proposal.candidate.plan proposal.candidate.rule.params (context scene proposal.candidate)

namespace Offer

/-- The event that the host is told of an offer. -/
def event (i : InstanceId) (scene : Scene) (offer : Offer) : Event :=
  .add i offer.handler offer.pair.source offer.pair.target offer.candidate.plan
    offer.candidate.rule.params (context scene offer.candidate) offer.refusal

/-- The answer of an offer is that of its handler, after some events. -/
def Answered (scene : Scene) (offer : Offer) : Prop :=
  ∃ told, offer.refusal = offer.toProposal.answer scene told

end Offer

namespace Pass

variable {engine : Engine}

/-- The items of a container that a pass sees in a scene. -/
def itemsIn (pass : Pass) (scene : Scene) (owner : ControllerId) (container : String)
    (item : Option String) : List NodeId :=
  match pass.scope with
  | some scope => if scope.container = container && owner = scope.owner then scope.nodes else []
  | none =>
    match scene.anchor owner with
    | none => []
    | some anchor => scene.dom.queryAll anchor (itemsSelector container item)

/-- The pairs of nodes of a candidate in a scene. -/
def pairsIn (pass : Pass) (scene : Scene) (candidate : Candidate) : List NodePair :=
  let rule := candidate.rule
  let effect := candidate.effect.effect
  match scene.anchor candidate.source, scene.anchor candidate.target with
  | some sourceAnchor, some targetAnchor =>
    match rule.listContainer, effect.listContainer with
    | some container, other =>
      (pass.itemsIn scene candidate.source container rule.listItemSelector).flatMap fun item =>
        (scene.dom.select item rule.selector).flatMap fun source =>
          (scene.dom.select (if other = some container then item else targetAnchor)
            effect.selector).map fun target => ⟨source, target, some item⟩
    | none, some container =>
      (pass.itemsIn scene candidate.target container effect.listItemSelector).flatMap fun item =>
        (scene.dom.select item effect.selector).flatMap fun target =>
          (scene.dom.select sourceAnchor rule.selector).map fun source =>
            ⟨source, target, some item⟩
    | none, none =>
      (scene.dom.select sourceAnchor rule.selector).flatMap fun source =>
        (scene.dom.select targetAnchor effect.selector).map fun target => ⟨source, target, none⟩
  | _, _ => []

/-- What becomes of a candidate in a scene: nothing without a handler for its trigger. -/
def proposals (pass : Pass) (scene : Scene) (candidate : Candidate) : List Proposal :=
  match scene.handlers.get? candidate.rule.trigger with
  | none => []
  | some handler => (pass.pairsIn scene candidate).map (⟨candidate, handler, ·⟩)

theorem mem_proposals {pass : Pass} {scene : Scene} {candidate : Candidate} {proposal : Proposal} :
    proposal ∈ pass.proposals scene candidate ↔
      proposal.candidate = candidate ∧
        scene.handlers.get? candidate.rule.trigger = some proposal.handler ∧
        proposal.pair ∈ pass.pairsIn scene candidate := by
  rw [proposals]
  split
  next hnone => simp [hnone]
  next handler hsome =>
    obtain ⟨offered, offeredHandler, pair⟩ := proposal
    simp only [List.mem_map, Proposal.mk.injEq, hsome, Option.some.injEq]
    grind

theorem listItems_spec (pass : Pass) (engine : Engine) (owner : ControllerId) (container : String)
    (item : Option String) :
    Quiet engine (pass.listItems engine owner container item).1 ∧
      (pass.listItems engine owner container item).2 =
        pass.itemsIn engine.scene owner container item := by
  simp only [listItems, itemsIn, anchor_eq]
  cases pass.scope with
  | some scope => exact ⟨.refl _, rfl⟩
  | none =>
    cases engine.scene.anchor owner with
    | none => exact ⟨.refl _, rfl⟩
    | some anchor => exact ⟨quiet_watchChildList .., rfl⟩

theorem pairs_spec (pass : Pass) (engine : Engine) (candidate : Candidate) :
    Quiet engine (pass.pairs engine candidate).1 ∧
      (pass.pairs engine candidate).2 = pass.pairsIn engine.scene candidate := by
  simp only [pairs, pairsIn, anchor_eq]
  cases engine.scene.anchor candidate.source with
  | none => exact ⟨.refl _, rfl⟩
  | some sourceAnchor =>
    cases engine.scene.anchor candidate.target with
    | none => exact ⟨.refl _, rfl⟩
    | some targetAnchor =>
      cases hrule : candidate.rule.listContainer with
      | some container =>
        obtain ⟨hquiet, hitems⟩ :=
          pass.listItems_spec engine candidate.source container candidate.rule.listItemSelector
        refine ⟨hquiet, ?_⟩
        simp only [← hitems]
        rfl
      | none =>
        cases heffect : candidate.effect.effect.listContainer with
        | some container =>
          obtain ⟨hquiet, hitems⟩ := pass.listItems_spec engine candidate.target container
            candidate.effect.effect.listItemSelector
          refine ⟨hquiet, ?_⟩
          simp only [← hitems]
          rfl
        | none => exact ⟨.refl _, rfl⟩

/-! ### Wiring -/

/-- The offers that a pass makes of candidates in a scene. -/
structure Offers (pass : Pass) (scene : Scene) (proposals : List Proposal) (offers : List Offer) :
    Prop where
  sublist : (offers.map Offer.toProposal).Sublist proposals
  complete : pass.scope = none → offers.map Offer.toProposal = proposals
  answered : ∀ offer ∈ offers, offer.Answered scene

namespace Offers

variable {pass : Pass} {scene : Scene} {proposals proposals' : List Proposal}
  {offers offers' : List Offer}

theorem nil (pass : Pass) (scene : Scene) : Offers pass scene [] [] :=
  ⟨.slnil, fun _ => rfl, fun _ h => absurd h List.not_mem_nil⟩

theorem append (first : Offers pass scene proposals offers)
    (second : Offers pass scene proposals' offers') :
    Offers pass scene (proposals ++ proposals') (offers ++ offers') := by
  refine ⟨?_, fun hscope => ?_, fun offer hmem => ?_⟩
  · rw [List.map_append]
    exact first.sublist.append second.sublist
  · rw [List.map_append, first.complete hscope, second.complete hscope]
  · exact (List.mem_append.mp hmem).elim (first.answered offer) (second.answered offer)

end Offers

/-- What is offered has been selected. -/
theorem Offers.candidate_mem {pass : Pass} {scene : Scene} {candidates : List Candidate}
    {offers : List Offer} (h : Offers pass scene (candidates.flatMap (pass.proposals scene)) offers)
    {offer : Offer} (hmem : offer ∈ offers) :
    offer.candidate ∈ candidates ∧ offer.toProposal ∈ pass.proposals scene offer.candidate := by
  have hproposal := h.sublist.subset (List.mem_map_of_mem hmem)
  obtain ⟨candidate, hcandidate, hproposal⟩ := List.mem_flatMap.mp hproposal
  obtain ⟨rfl, -, -⟩ := mem_proposals.mp hproposal
  exact ⟨hcandidate, hproposal⟩

/-- Deciding on an item leaves a full pass free to wire. -/
theorem decideItem_spec (pass : Pass) (candidate : Candidate) (progress : Progress)
    (item : Option NodeId) (h : pass.scope = none → ∀ entry ∈ progress.decided, entry.2 = true) :
    Quiet progress.engine (pass.decideItem candidate progress item).1.engine ∧
      (pass.decideItem candidate progress item).1.wired = progress.wired ∧
      (pass.scope = none → (pass.decideItem candidate progress item).2 = true ∧
        ∀ entry ∈ (pass.decideItem candidate progress item).1.decided, entry.2 = true) := by
  cases item with
  | none => exact ⟨.refl _, rfl, fun hscope => ⟨rfl, h hscope⟩⟩
  | some item =>
    simp only [decideItem]
    split
    next entry known allowed hfind =>
      exact ⟨.refl _, rfl, fun hscope => ⟨h hscope _ (List.mem_of_find?_eq_some hfind), h hscope⟩⟩
    next hfind =>
      refine ⟨quiet_markItem .., rfl, fun hscope => ⟨by simp [hscope], ?_⟩⟩
      intro entry hmem
      rcases List.mem_cons.mp hmem with rfl | hmem
      · simp [hscope]
      · exact h hscope entry hmem

theorem foldl_wirePair_spec (pass : Pass) (handler : HandlerId) (candidate : Candidate)
    (pairs : List NodePair) (progress : Progress)
    (h : pass.scope = none → ∀ entry ∈ progress.decided, entry.2 = true) :
    ∃ offers, Offers pass progress.engine.scene
        (pairs.map (⟨candidate, handler, ·⟩)) offers ∧
      Extends pass.instanceId (offers.map (Offer.event pass.instanceId progress.engine.scene)) []
        progress.engine (pairs.foldl (pass.wirePair handler candidate
          (context progress.engine.scene candidate)) progress).engine ∧
      (pairs.foldl (pass.wirePair handler candidate
        (context progress.engine.scene candidate)) progress).wired =
        (progress.wired || offers.any (·.refusal.isNone)) := by
  induction pairs generalizing progress with
  | nil => exact ⟨[], .nil .., (Quiet.refl _).extends _, by simp⟩
  | cons pair rest ih =>
    obtain ⟨hquiet, hwired, hfull⟩ := pass.decideItem_spec candidate progress pair.item h
    rw [List.foldl_cons, wirePair]
    generalize pass.decideItem candidate progress pair.item = decision at hquiet hwired hfull ⊢
    obtain ⟨middle, allowed⟩ := decision
    dsimp only at hquiet hwired hfull ⊢
    cases allowed with
    | false =>
      obtain ⟨offers, hoffers, hextends, hany⟩ := ih middle fun hscope => (hfull hscope).2
      rw [hquiet.scene] at hoffers hextends hany
      refine ⟨offers, ⟨hoffers.sublist.cons _, fun hscope => ?_, hoffers.answered⟩,
        .quiet_trans hquiet hextends, by rw [← hwired]; exact hany⟩
      exact absurd (hfull hscope).1 Bool.false_ne_true
    | true =>
      let proposal : Proposal := ⟨candidate, handler, pair⟩
      let offer : Offer := ⟨proposal, proposal.answer progress.engine.scene middle.engine.events⟩
      have htold : middle.engine.offer pass.instanceId handler pair.source pair.target
          candidate.plan candidate.rule.params (context progress.engine.scene candidate) =
          (middle.engine.tell (offer.event pass.instanceId progress.engine.scene),
            offer.refusal.isNone) := by
        simp only [offer, proposal, Proposal.answer, ← hquiet.scene]
        rfl
      have hoffer : Offers pass progress.engine.scene [proposal] [offer] :=
        ⟨.refl _, fun _ => rfl, fun other hmem => List.mem_singleton.mp hmem ▸ ⟨_, rfl⟩⟩
      have htell := hquiet.extends pass.instanceId |>.trans (extends_tell middle.engine
        pass.instanceId (offer.event pass.instanceId progress.engine.scene))
      obtain ⟨offers, hoffers, hextends, hany⟩ := ih
        { middle with
          engine := middle.engine.tell (offer.event pass.instanceId progress.engine.scene)
          wired := middle.wired || offer.refusal.isNone }
        fun hscope => (hfull hscope).2
      simp only [scene_tell, hquiet.scene] at hoffers hextends hany
      rw [if_pos rfl, show (⟨candidate.id, candidate.effect.effectId, candidate.effect.effect⟩ :
        EffectPlan) = candidate.plan from rfl, htold]
      refine ⟨offer :: offers, hoffer.append hoffers, htell.trans hextends, ?_⟩
      rw [hany, hwired, List.any_cons, Bool.or_assoc]

/-- The ids that a pass keeps as applied for candidates, some of which have been offered. -/
def marks (pass : Pass) (scene : Scene) (candidates : List Candidate) (offers : List Offer) :
    List String :=
  if pass.scope.isSome then []
  else
    (offers.filter (·.refusal.isNone)).map (·.candidate.memoKey) ++
      (candidates.filter fun candidate =>
        (scene.handlers.get? candidate.rule.trigger).isSome && candidate.isListBound).map
          Candidate.memoKey

theorem mem_marks {pass : Pass} {scene : Scene} {candidates : List Candidate}
    {offers : List Offer} {id : String} :
    id ∈ pass.marks scene candidates offers ↔ pass.scope = none ∧
      ((∃ offer ∈ offers, offer.refusal = none ∧ offer.candidate.memoKey = id) ∨
        ∃ candidate ∈ candidates, ((scene.handlers.get? candidate.rule.trigger).isSome ∧
          candidate.isListBound) ∧ candidate.memoKey = id) := by
  rw [marks]
  cases pass.scope <;> simp [and_assoc]

theorem applyCandidate_spec (pass : Pass) (engine : Engine) (candidate : Candidate) :
    ∃ offers, Offers pass engine.scene (pass.proposals engine.scene candidate) offers ∧
      Extends pass.instanceId (offers.map (Offer.event pass.instanceId engine.scene))
        (pass.marks engine.scene [candidate] offers) engine
        (pass.applyCandidate engine candidate) := by
  obtain ⟨hquiet, hpairs⟩ := pass.pairs_spec engine candidate
  rw [proposals, applyCandidate]
  change ∃ offers, Offers pass engine.scene (match engine.host.handlers.get? _ with
    | none => [] | some handler => _) offers ∧ _
  cases hhandler : engine.host.handlers.get? candidate.rule.trigger with
  | none =>
    refine ⟨[], .nil .., ((Quiet.refl engine).extends _).congr fun id => ?_⟩
    rw [mem_marks]
    simp [scene, hhandler]
  | some handler =>
    generalize pass.pairs engine candidate = result at hquiet hpairs ⊢
    obtain ⟨watched, pairs⟩ := result
    dsimp only at hquiet hpairs ⊢
    obtain ⟨offers, hoffers, hextends, hany⟩ := foldl_wirePair_spec pass handler candidate pairs
      ⟨watched, [], false⟩ fun _ _ hmem => absurd hmem List.not_mem_nil
    have hcontext : handlerContext engine candidate.id (some candidate.target) candidate.gate
        candidate.rule = context engine.scene candidate := rfl
    simp only [hquiet.scene] at hoffers hextends hany
    rw [← hpairs, hcontext]
    refine ⟨offers, hoffers, ?_⟩
    have htold := Extends.quiet_trans hquiet hextends
    have hcandidate : ∀ offer ∈ offers, offer.candidate = candidate := fun offer hmem => by
      obtain ⟨pair, -, heq⟩ := List.mem_map.mp (hoffers.sublist.subset (List.mem_map_of_mem hmem))
      rw [← heq]
    have hmarks : ∀ id, id ∈ pass.marks engine.scene [candidate] offers ↔ id = candidate.memoKey ∧
        pass.scope = none ∧ ((∃ offer ∈ offers, offer.refusal = none) ∨ candidate.isListBound) := by
      intro id
      have hsome : (engine.scene.handlers.get? candidate.rule.trigger).isSome := by
        simp only [scene, hhandler, Option.isSome_some]
      rw [mem_marks]
      simp only [List.mem_singleton, exists_eq_left, hsome, true_and]
      grind
    have hwired : (pairs.foldl (pass.wirePair handler candidate (context engine.scene candidate))
        ⟨watched, [], false⟩).wired = true ↔ ∃ offer ∈ offers, offer.refusal = none := by
      simp [hany]
    split
    next hmark =>
      have hkept := htold.trans (extends_markApplied _ _ candidate.memoKey)
      rw [List.append_nil] at hkept
      refine hkept.congr fun id => ?_
      rw [hmarks, ← hwired, List.nil_append, List.mem_singleton]
      simp only [Bool.and_eq_true, Option.isNone_iff_eq_none, Bool.or_eq_true] at hmark
      simp only [Candidate.isListBound, Bool.or_eq_true]
      tauto
    next hmark =>
      refine htold.congr fun id => ?_
      rw [hmarks, ← hwired]
      simp only [Bool.and_eq_true, Option.isNone_iff_eq_none, Bool.or_eq_true] at hmark
      simp only [Candidate.isListBound, Bool.or_eq_true]
      simp only [List.not_mem_nil, false_iff]
      tauto

/-- Wiring selected candidates offers them on their pairs, from the last selected to the first. -/
theorem applySelected_spec (pass : Pass) (engine : Engine) (selected : List Candidate) :
    ∃ offers, Offers pass engine.scene
        (selected.reverse.flatMap (pass.proposals engine.scene)) offers ∧
      Extends pass.instanceId (offers.map (Offer.event pass.instanceId engine.scene))
        (pass.marks engine.scene selected offers) engine (pass.applySelected engine selected) := by
  suffices h : ∀ candidates : List Candidate, ∃ offers, Offers pass engine.scene
      (candidates.flatMap (pass.proposals engine.scene)) offers ∧
      Extends pass.instanceId (offers.map (Offer.event pass.instanceId engine.scene))
        (pass.marks engine.scene candidates offers) engine
        (candidates.foldl pass.applyCandidate engine) by
    obtain ⟨offers, hoffers, hextends⟩ := h selected.reverse
    refine ⟨offers, hoffers, hextends.congr fun id => ?_⟩
    simp only [mem_marks, List.mem_reverse]
  intro candidates
  induction candidates generalizing engine with
  | nil =>
    refine ⟨[], .nil .., ((Quiet.refl engine).extends _).congr fun id => ?_⟩
    simp [mem_marks]
  | cons candidate rest ih =>
    obtain ⟨offers, hoffers, hextends⟩ := pass.applyCandidate_spec engine candidate
    obtain ⟨offers', hoffers', hextends'⟩ := ih (pass.applyCandidate engine candidate)
    rw [hextends.scene] at hoffers' hextends'
    refine ⟨offers ++ offers', hoffers.append hoffers', ?_⟩
    rw [List.map_append]
    refine (hextends.trans hextends').congr fun id => ?_
    simp only [List.mem_append, mem_marks, List.mem_cons, List.not_mem_nil, or_false,
      exists_eq_or_imp]
    grind

end Pass

end Engine

end InteractionBinding
