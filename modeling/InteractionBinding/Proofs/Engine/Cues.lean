import InteractionBinding.Proofs.Engine.Application
/-!
# Cues

A cue is a sequence of an interaction whose source is connected. Whether it goes out, on which nodes
and with which plan can be read off a scene (`Cue.GoesOut`, `Cue.sources`, `Cue.plan`). Applying a
cue that has not been applied offers the plan on every source node if the cue goes out, and is quiet
if it does not (`Cue.apply_cases`).
-/

namespace InteractionBinding

/-- The nodes that an effect lands on below an anchor. -/
def Dom.effectNodes (dom : Dom) (anchor : NodeId) (effect : Effect) : List NodeId :=
  match effect.listContainer with
  | some container =>
    (dom.queryAll anchor
      (Engine.itemsSelector container effect.listItemSelector)).flatMap fun item =>
        dom.select item effect.selector
  | none => dom.select anchor effect.selector

namespace Scene

/-- Whether the own gate of an effect is open in an instance. -/
def admits (scene : Scene) (i : InstanceId) (effect : CompiledEffect) : Bool :=
  (scene.gate i [effect.effect.conditions]).isOpen

/-- The nodes that an effect lands on below the anchor of its target. -/
def effectNodes (scene : Scene) (target : ControllerId) (effect : Effect) : List NodeId :=
  ((scene.anchor target).map (scene.dom.effectNodes · effect)).getD []

end Scene

namespace Engine

/-- A sequence of a rule, with the controller of its source. -/
structure Cue where
  rule : Rule
  sequence : CompiledSequence
  /-- The concrete key of the source. -/
  key : String
  source : ControllerId

namespace Cue

section Scene

variable (cue : Cue) (scene : Scene) (i : InstanceId)

/-- The id with the indices of the source key filled in. -/
def id : InteractionId := cue.sequence.id.interpolate (KeyTemplate.indices cue.key)

/-- The text under which the cue is kept as applied. -/
def text : String := cue.id.encode

/-- The gate of the sequence: its own conditions and those of its interaction. -/
def gate : Gate := scene.gate i [cue.rule.conditions, cue.sequence.conditions]

/-- The controller of a member's target, if it is connected. -/
def target? (effect : CompiledEffect) : Option ControllerId :=
  if effect.target = cue.rule.key then some cue.source
  else
    scene.connectedController?
      (KeyTemplate.interpolate effect.target (KeyTemplate.indices cue.key))

/-- The nodes that a member lands on, none as long as its target is not connected. -/
def landing (effect : CompiledEffect) : List NodeId :=
  ((cue.target? scene effect).map (scene.effectNodes · effect.effect)).getD []

/-- A member with the nodes that it lands on. -/
def member (effect : CompiledEffect) : SequenceMember :=
  ⟨effect.id.interpolate (KeyTemplate.indices cue.key), effect.effectId, cue.landing scene effect,
    effect.effect⟩

/-- Those of the members whose gates are open and that land on some node. -/
def membersOf (effects : List CompiledEffect) : List SequenceMember :=
  (effects.filter fun effect =>
    scene.admits i effect && !(cue.landing scene effect).isEmpty).map (cue.member scene)

/-- The members that go out, in declared order. -/
def members : List SequenceMember := cue.membersOf scene i cue.sequence.effects

/-- The nodes of the source. -/
def sources : List NodeId :=
  ((scene.anchor cue.source).map (scene.dom.select · cue.rule.selector)).getD []

/-- The plan of the sequence. -/
def plan : SequencePlan :=
  ⟨cue.id, cue.sequence.sequenceId, cue.members scene i, cue.sequence.payload⟩

/-- What a handler is told beside the plan. -/
def context : HandlerContext where
  id := cue.id
  partner := none
  reducedMotion := scene.options.forceReducedMotion || scene.queryState reducedMotionQuery
  selectorPredicate := (cue.gate scene i).selectorPredicate
  allowKeyboard := scene.options.allowKeyboardTriggers && cue.rule.trigger.needsKeyboard

/-- The sequence goes out to a handler: its gate is open, every member whose gate is open has a
connected target, and some member lands on a node. -/
structure GoesOut (handler : HandlerId) : Prop where
  isOpen : (cue.gate scene i).isOpen = true
  complete : ∀ effect ∈ cue.sequence.effects, scene.admits i effect = true →
    (cue.target? scene effect).isSome = true
  nonempty : cue.members scene i ≠ []
  handler : scene.handlers.get? cue.rule.trigger = some handler

/-- What a handler answers to the plan on a node. -/
structure Reply where
  node : NodeId
  refusal : Option Refusal

/-- The event that the host is told of a reply. -/
def event (handler : HandlerId) (reply : Reply) : Event :=
  .addSequence i handler reply.node (cue.plan scene i) cue.rule.params (cue.context scene i)
    reply.refusal

/-- The reply is that of the handler, after some events. -/
def Answered (handler : HandlerId) (reply : Reply) : Prop :=
  ∃ told, reply.refusal = (scene.handler handler).addSequence told reply.node (cue.plan scene i)
    cue.rule.params (cue.context scene i)

end Scene

/-- The plan of a cue is offered on each of its source nodes, and the id is kept as applied if the
handler accepts the plan on one of them. -/
structure Offered (cue : Cue) (i : InstanceId) (handler : HandlerId) (replies : List Reply)
    (before after : Engine) : Prop where
  nodes : replies.map Reply.node = cue.sources before.scene
  answered : ∀ reply ∈ replies, cue.Answered before.scene i handler reply
  told : Extends i (replies.map (cue.event before.scene i handler))
    (if replies.any (·.refusal.isNone) then [cue.text] else []) before after

end Cue

/-- Applies a cue in a full pass over an instance. -/
def applyCue (i : InstanceId) (engine : Engine) (cue : Cue) : Engine :=
  (Pass.mk i none).applySequence cue.source cue.key cue.rule engine cue.sequence

/-! ### Members -/

namespace Pass

theorem effectNodes_spec (i : InstanceId) (engine : Engine) (target : ControllerId)
    (effect : Effect) :
    Quiet engine ((Pass.mk i none).effectNodes engine target effect).1 ∧
      ((Pass.mk i none).effectNodes engine target effect).2 =
        engine.scene.effectNodes target effect := by
  rw [effectNodes, anchor_eq, Scene.effectNodes]
  cases hanchor : engine.scene.anchor target with
  | none => exact ⟨.refl _, rfl⟩
  | some anchor =>
    rw [Option.map_some, Option.getD_some, Dom.effectNodes]
    cases effect.listContainer with
    | none => exact ⟨.refl _, rfl⟩
    | some container =>
      obtain ⟨hquiet, hitems⟩ :=
        (Pass.mk i none).listItems_spec engine target container effect.listItemSelector
      have hdom := congrArg Scene.dom hquiet.scene
      rw [itemsIn, hanchor] at hitems
      refine ⟨hquiet, ?_⟩
      simp only [hitems]
      refine List.flatMap_congr fun item _ => ?_
      exact congrArg (Dom.select · item effect.selector) hdom

/-- The members of a cue, unless one of them waits for its target. -/
theorem sequenceMembers_spec {start engine : Engine} (i : InstanceId) (cue : Cue) (memoKey : String)
    (effects : List CompiledEffect) (h : Quiet start engine) :
    Quiet start ((Pass.mk i none).sequenceMembers cue.source cue.key memoKey cue.rule engine
        effects).1 ∧
      ((Pass.mk i none).sequenceMembers cue.source cue.key memoKey cue.rule engine effects).2 =
        if ∀ effect ∈ effects, start.scene.admits i effect = true →
          (cue.target? start.scene effect).isSome = true
        then some (cue.membersOf start.scene i effects) else none := by
  induction effects generalizing engine with
  | nil => exact ⟨h, by simp [sequenceMembers, Cue.membersOf]⟩
  | cons effect rest ih =>
    have hheard := h.trans ((Pass.mk i none).quiet_gateFor engine memoKey cue.key
      (KeyTemplate.interpolate effect.target (KeyTemplate.indices cue.key))
      [effect.effect.conditions])
    have hopen : ((Pass.mk i none).gateFor engine memoKey cue.key
        (KeyTemplate.interpolate effect.target (KeyTemplate.indices cue.key))
        [effect.effect.conditions]).2.isOpen = start.scene.admits i effect := by
      rw [show ((Pass.mk i none).gateFor engine memoKey cue.key _ _).2 =
        (Pass.mk i none).currentGate engine [effect.effect.conditions] from rfl, currentGate_eq,
        h.scene]
      rfl
    simp only [sequenceMembers, hopen, List.forall_mem_cons]
    generalize ((Pass.mk i none).gateFor engine memoKey cue.key
      (KeyTemplate.interpolate effect.target (KeyTemplate.indices cue.key))
      [effect.effect.conditions]).1 = heard at hheard ⊢
    cases hadmits : start.scene.admits i effect with
    | false =>
      -- a closed member does not wait and does not go out
      obtain ⟨hquiet, hrest⟩ := ih hheard
      refine ⟨hquiet, hrest.trans ?_⟩
      simp [Cue.membersOf, hadmits]
    | true =>
      have htarget : (if effect.target = cue.rule.key then some cue.source
          else heard.connectedController?
            (KeyTemplate.interpolate effect.target (KeyTemplate.indices cue.key))) =
          cue.target? start.scene effect := by
        rw [connectedController?_eq, hheard.scene]
        rfl
      simp only [htarget, Bool.not_true, Bool.false_eq_true, if_false, forall_const]
      cases hsome : cue.target? start.scene effect with
      | none => exact ⟨hheard, by simp⟩
      | some target =>
        obtain ⟨hnodes, hlanding⟩ := effectNodes_spec i heard target effect.effect
        obtain ⟨hquiet, hrest⟩ := ih (hheard.trans hnodes)
        have hlanding' : ((Pass.mk i none).effectNodes heard target effect.effect).2 =
            cue.landing start.scene effect := by
          rw [hlanding, hheard.scene, Cue.landing, hsome]
          rfl
        simp only [hlanding', hrest, Option.isSome_some, true_and]
        cases hempty : (cue.landing start.scene effect).isEmpty with
        | true => exact ⟨hquiet, by simp [Cue.membersOf, hadmits, hempty]⟩
        | false =>
          refine ⟨hquiet, ?_⟩
          simp only [Bool.false_eq_true, if_false, apply_ite (Option.map _), Option.map_some,
            Option.map_none]
          simp [Cue.membersOf, hadmits, hempty, Cue.member]

/-! ### Offers -/

theorem wireSequence_spec (i : InstanceId) (handler : HandlerId) (plan : SequencePlan)
    (params : KeyMap Json) (context : HandlerContext) (engine : Engine) (nodes : List NodeId) :
    ∃ replies : List Cue.Reply, replies.map Cue.Reply.node = nodes ∧
      (∀ reply ∈ replies, ∃ told, reply.refusal =
        (engine.scene.handler handler).addSequence told reply.node plan params context) ∧
      Extends i (replies.map fun reply =>
          .addSequence i handler reply.node plan params context reply.refusal) [] engine
        ((Pass.mk i none).wireSequence handler plan params context engine nodes).1 ∧
      ((Pass.mk i none).wireSequence handler plan params context engine nodes).2 =
        replies.any (·.refusal.isNone) := by
  rw [wireSequence]
  induction nodes using List.reverseRecOn with
  | nil => exact ⟨[], rfl, by simp, (Quiet.refl engine).extends i, rfl⟩
  | append_singleton front node ih =>
    rw [List.foldl_append]
    generalize front.foldl _ (engine, false) = state at ih ⊢
    obtain ⟨replies, hnodes, hanswered, htold, hwired⟩ := ih
    have hanswer := congrArg Scene.handler htold.scene
    let reply : Cue.Reply := ⟨node,
      (engine.scene.handler handler).addSequence state.1.events node plan params context⟩
    have hoffer : state.1.offerSequence i handler node plan params context =
        (state.1.tell (.addSequence i handler node plan params context reply.refusal),
          reply.refusal.isNone) := by
      simp only [reply, ← hanswer]
      rfl
    refine ⟨replies ++ [reply], by simp [hnodes, reply], fun other hmem => ?_, ?_, ?_⟩
    · rcases List.mem_append.mp hmem with hmem | hmem
      · exact hanswered other hmem
      · rw [List.mem_singleton.mp hmem]
        exact ⟨state.1.events, rfl⟩
    · rw [List.map_append]
      simp only [List.foldl_cons, List.foldl_nil, hoffer]
      exact htold.trans (extends_tell ..)
    · simp only [List.foldl_cons, List.foldl_nil, hoffer, hwired, List.any_append, List.any_cons,
        List.any_nil, Bool.or_false]

end Pass

/-! ### Applications -/

namespace Cue

variable {cue : Cue} {i : InstanceId} {handler : HandlerId} {engine after : Engine}

/-- Wiring the plan of a cue on its source nodes offers it. -/
theorem offered_wireSequence {ready : Engine} {anchor : NodeId} (hquiet : Quiet engine ready)
    (hanchor : ready.anchor cue.source = some anchor) :
    let wired := (Pass.mk i none).wireSequence handler (cue.plan engine.scene i) cue.rule.params
      (cue.context engine.scene i) ready (ready.host.dom.select anchor cue.rule.selector)
    ∃ replies, cue.Offered i handler replies engine
      (if wired.2 then wired.1.modifyInstance i (·.markApplied cue.text) else wired.1) := by
  intro wired
  obtain ⟨replies, hnodes, hanswered, htold, hwired⟩ := Pass.wireSequence_spec i handler
    (cue.plan engine.scene i) cue.rule.params (cue.context engine.scene i) ready
    (ready.host.dom.select anchor cue.rule.selector)
  have hsources : ready.host.dom.select anchor cue.rule.selector = cue.sources engine.scene := by
    rw [anchor_eq, hquiet.scene] at hanchor
    rw [sources, hanchor, ← hquiet.scene]
    rfl
  rw [hquiet.scene] at hanswered
  have hevents := Extends.quiet_trans hquiet htold
  refine ⟨replies, hnodes.trans hsources, hanswered, ?_⟩
  rw [show wired.2 = replies.any (·.refusal.isNone) from hwired]
  cases replies.any (·.refusal.isNone) with
  | false => exact hevents
  | true =>
    have hmarked := hevents.trans (extends_markApplied wired.1 i cue.text)
    rw [List.append_nil, List.nil_append] at hmarked
    exact hmarked

/-- The gate of a cue is the one that a full pass consults for it. -/
theorem snd_gateFor (cue : Cue) (i : InstanceId) (engine : Engine) :
    ((Pass.mk i none).gateFor engine cue.text cue.key cue.key
      [cue.rule.conditions, cue.sequence.conditions]).2 = cue.gate engine.scene i := by
  rw [gate, ← Pass.currentGate_eq engine ⟨i, none⟩]
  rfl

/-- A cue is applied by listening, and then by wiring its plan if it goes out. -/
theorem apply_cases (cue : Cue) (i : InstanceId) (engine : Engine)
    (hfresh : cue.text ∉ (engine.inst i).memo) :
    (∀ handler, ¬cue.GoesOut engine.scene i handler) ∧ Quiet engine (applyCue i engine cue) ∨
      ∃ handler replies, cue.GoesOut engine.scene i handler ∧
        cue.Offered i handler replies engine (applyCue i engine cue) := by
  have happlied : (Pass.mk i none).alreadyApplied engine cue.text = false := by
    simpa [Pass.alreadyApplied, Instance.isApplied] using hfresh
  have hheard := (Pass.mk i none).quiet_gateFor engine cue.text cue.key cue.key
    [cue.rule.conditions, cue.sequence.conditions]
  have hgate := cue.snd_gateFor i engine
  have hid : cue.sequence.id.interpolate (KeyTemplate.indices cue.key) = cue.id := rfl
  have htext : cue.id.encode = cue.text := rfl
  simp only [applyCue, Pass.applySequence, hid, htext, happlied, hgate, Bool.false_eq_true,
    if_false]
  generalize ((Pass.mk i none).gateFor engine cue.text cue.key cue.key
    [cue.rule.conditions, cue.sequence.conditions]).1 = heard at hheard ⊢
  cases hopen : (cue.gate engine.scene i).isOpen with
  | false => exact .inl ⟨fun handler h => Bool.false_ne_true (hopen.symm.trans h.isOpen), hheard⟩
  | true =>
    simp only [Bool.not_true, Bool.false_eq_true, if_false]
    obtain ⟨hquiet, hmembers⟩ :=
      Pass.sequenceMembers_spec i cue cue.text cue.sequence.effects hheard
    generalize (Pass.mk i none).sequenceMembers cue.source cue.key cue.text cue.rule heard
      cue.sequence.effects = result at hquiet hmembers ⊢
    obtain ⟨ready, members⟩ := result
    dsimp only at hquiet hmembers
    split at hmembers
    next hcomplete =>
      subst hmembers
      cases hnonempty : cue.members engine.scene i with
      | nil =>
        have hnil : cue.membersOf engine.scene i cue.sequence.effects = [] := hnonempty
        rw [hnil]
        exact .inl ⟨fun handler h => h.nonempty hnonempty, hquiet⟩
      | cons first others =>
        have hcons : cue.membersOf engine.scene i cue.sequence.effects = first :: others := hnonempty
        have hhandlers : ready.host.handlers = engine.scene.handlers :=
          congrArg Scene.handlers hquiet.scene
        simp only [hcons, hhandlers]
        cases hhandler : engine.scene.handlers.get? cue.rule.trigger with
        | none =>
          exact .inl ⟨fun handler h => Option.some_ne_none _ (h.handler.symm.trans hhandler), hquiet⟩
        | some handler =>
          have hgoes : cue.GoesOut engine.scene i handler :=
            ⟨hopen, hcomplete, hnonempty ▸ List.cons_ne_nil _ _, hhandler⟩
          refine .inr ⟨handler, ?_⟩
          cases hanchor : ready.anchor cue.source with
          | none =>
            -- a source without an anchor has no nodes to offer the plan on
            rw [anchor_eq, hquiet.scene] at hanchor
            refine ⟨[], hgoes, ?_, by simp, hquiet.extends i⟩
            rw [sources, hanchor]
            rfl
          | some anchor =>
            obtain ⟨replies, hoffered⟩ :=
              @offered_wireSequence cue i handler engine ready anchor hquiet hanchor
            have hplan : cue.plan engine.scene i = ⟨cue.id, cue.sequence.sequenceId,
                first :: others, cue.sequence.payload⟩ := by
              rw [plan, hnonempty]
            have hcontext : Pass.handlerContext ready cue.id none (cue.gate engine.scene i) cue.rule =
                cue.context engine.scene i := by
              rw [context, ← hquiet.scene]
              rfl
            rw [hplan, ← hcontext] at hoffered
            exact ⟨replies, hgoes, hoffered⟩
    next hwaits =>
      subst hmembers
      exact .inl ⟨fun handler h => hwaits h.complete, hquiet⟩

end Cue

/-- A cue that has been applied is left alone. -/
theorem applyCue_of_applied {cue : Cue} {i : InstanceId} {engine : Engine}
    (h : cue.text ∈ (engine.inst i).memo) : applyCue i engine cue = engine := by
  have happlied : (Pass.mk i none).alreadyApplied engine
      (cue.sequence.id.interpolate (KeyTemplate.indices cue.key)).encode = true := by
    simpa [Pass.alreadyApplied, Instance.isApplied, Cue.text, Cue.id] using h
  simp only [applyCue, Pass.applySequence, happlied, if_true]

theorem scene_applyCue (i : InstanceId) (engine : Engine) (cue : Cue) :
    (applyCue i engine cue).scene = engine.scene := by
  by_cases hfresh : cue.text ∈ (engine.inst i).memo
  · rw [applyCue_of_applied hfresh]
  · obtain ⟨-, hquiet⟩ | ⟨handler, replies, -, hoffered⟩ := cue.apply_cases i engine hfresh
    · exact hquiet.scene
    · exact hoffered.told.scene

theorem scene_foldl_applyCue (i : InstanceId) (engine : Engine) (cues : List Cue) :
    (cues.foldl (applyCue i) engine).scene = engine.scene :=
  List.foldlRecOn (motive := fun state : Engine => state.scene = engine.scene) cues _ rfl
    fun state hstate cue _ => (scene_applyCue i state cue).trans hstate

end Engine

end InteractionBinding
