import InteractionBinding.Proofs.Engine.Resolution
/-!
# Sequences with accepting handlers

When every handler accepts every sequence, applying cues one after the other makes a handler accept
the plans of those that go out and whose ids have not been applied (`Engine.accepts_foldl_iff`), and
keeps the ids of those that have a source node as applied (`Engine.mem_memo_foldl_iff`). Wiring
candidates makes no handler accept a sequence (`Pass.Wires.accepts_iff`).
-/

namespace InteractionBinding

/-- A handler that accepts every sequence plan. -/
def Handler.AcceptsSequences (handler : Handler) : Prop :=
  ∀ told source plan params context,
    handler.addSequence told source plan params context = none

theorem Handler.acceptsSequences_accepting : Handler.accepting.AcceptsSequences :=
  fun _ _ _ _ _ => rfl

/-- Every handler accepts every sequence plan. -/
def Scene.AcceptsSequences (scene : Scene) : Prop :=
  ∀ handler, (scene.handler handler).AcceptsSequences

namespace Engine

/-- A handler has accepted a sequence plan on a node. -/
def Accepts (engine : Engine) (handler : HandlerId) (node : NodeId) (plan : SequencePlan) : Prop :=
  ∃ i params context, .addSequence i handler node plan params context none ∈ engine.events

variable {engine before after : Engine} {i : InstanceId} {handler : HandlerId} {node : NodeId}
  {plan : SequencePlan} {cue : Cue} {cues : List Cue} {text : String}

theorem accepts_congr (h : after.events = before.events) :
    after.Accepts handler node plan ↔ before.Accepts handler node plan := by
  rw [Accepts, Accepts, h]

theorem Extends.events_eq {events : List Event} {marked : List String}
    (h : Extends i events marked before after) : after.events = before.events ++ events := by
  have hevents : (events.map (Entry.told · before.scene)).filterMap Entry.event? = events := by
    rw [List.filterMap_map]
    exact List.filterMap_some
  rw [Engine.events, Engine.events, h.log, List.filterMap_append, hevents]

theorem Pass.Wires.accepts_iff {pass : Pass} {selected : List Candidate}
    (h : pass.Wires selected before after) :
    after.Accepts handler node plan ↔ before.Accepts handler node plan := by
  obtain ⟨offers, -, hextends⟩ := h
  have hoffers : ∀ event ∈ offers.map (Offer.event pass.instanceId before.scene),
      ∀ j params context, event ≠ .addSequence j handler node plan params context none := by
    simp [Offer.event]
  rw [Accepts, Accepts, hextends.events_eq]
  simp only [List.mem_append]
  grind

/-! ### One cue -/

/-- The cue goes out and has a source node, so that its id is kept as applied. -/
def Cue.Takes (cue : Cue) (scene : Scene) (i : InstanceId) : Prop :=
  (∃ handler, cue.GoesOut scene i handler) ∧ cue.sources scene ≠ []

theorem Cue.Offered.refusal_eq_none {replies : List Cue.Reply}
    (h : cue.Offered i handler replies before after) (haccepts : before.scene.AcceptsSequences)
    {reply : Cue.Reply} (hmem : reply ∈ replies) : reply.refusal = none := by
  obtain ⟨told, hanswer⟩ := h.answered reply hmem
  rw [hanswer]
  exact haccepts ..

theorem mem_memo_applyCue_iff (haccepts : engine.scene.AcceptsSequences)
    (hi : i < engine.instances.length) :
    text ∈ ((applyCue i engine cue).inst i).memo ↔
      text ∈ (engine.inst i).memo ∨ cue.text = text ∧ cue.Takes engine.scene i := by
  by_cases hfresh : cue.text ∈ (engine.inst i).memo
  · rw [applyCue_of_applied hfresh]
    refine ⟨.inl, fun h => h.elim id ?_⟩
    rintro ⟨rfl, -⟩
    exact hfresh
  obtain ⟨hwaits, hquiet⟩ | ⟨handler, replies, hgoes, hoffered⟩ := cue.apply_cases i engine hfresh
  · rw [hquiet.memo]
    refine ⟨.inl, fun h => h.elim id ?_⟩
    rintro ⟨-, ⟨handler, hgoes⟩, -⟩
    exact absurd hgoes (hwaits handler)
  · have htakes : cue.Takes engine.scene i ↔ replies ≠ [] := by
      rw [Cue.Takes, and_iff_right ⟨handler, hgoes⟩, ← hoffered.nodes, Ne, List.map_eq_nil_iff]
    rw [hoffered.told.memo, htakes]
    refine or_congr_right ?_
    cases replies with
    | nil => simp
    | cons reply rest =>
      have hnone := hoffered.refusal_eq_none haccepts (List.mem_cons_self (a := reply) (l := rest))
      simp [hnone, hi, eq_comm]

theorem accepts_applyCue_iff (haccepts : engine.scene.AcceptsSequences) :
    (applyCue i engine cue).Accepts handler node plan ↔ engine.Accepts handler node plan ∨
      cue.text ∉ (engine.inst i).memo ∧ cue.GoesOut engine.scene i handler ∧
        node ∈ cue.sources engine.scene ∧ plan = cue.plan engine.scene i := by
  by_cases hfresh : cue.text ∈ (engine.inst i).memo
  · rw [applyCue_of_applied hfresh]
    simp [hfresh]
  obtain ⟨hwaits, hquiet⟩ | ⟨served, replies, hgoes, hoffered⟩ := cue.apply_cases i engine hfresh
  · rw [accepts_congr hquiet.events]
    simp [hwaits]
  · have hhandler : cue.GoesOut engine.scene i handler ↔ handler = served := by
      refine ⟨fun h => ?_, fun h => h ▸ hgoes⟩
      exact Option.some.inj (h.handler.symm.trans hgoes.handler)
    rw [Accepts, Accepts, hoffered.told.events_eq, hhandler, ← hoffered.nodes]
    have hnone : ∀ reply ∈ replies, reply.refusal = none := fun _ hmem =>
      hoffered.refusal_eq_none haccepts hmem
    simp only [List.mem_append, exists_or, List.mem_map, Cue.event, Event.addSequence.injEq]
    refine or_congr_right ?_
    constructor
    · rintro ⟨j, params, context, reply, hreply, -, rfl, rfl, rfl, -, -, -⟩
      exact ⟨hfresh, rfl, ⟨reply, hreply, rfl⟩, rfl⟩
    · rintro ⟨-, rfl, ⟨reply, hreply, rfl⟩, rfl⟩
      exact ⟨i, _, _, reply, hreply, rfl, rfl, rfl, rfl, rfl, rfl, hnone reply hreply⟩

/-! ### Several cues -/

theorem length_instances_foldl_applyCue (i : InstanceId) (engine : Engine) (cues : List Cue) :
    (cues.foldl (applyCue i) engine).instances.length = engine.instances.length :=
  length_instances_eq (congrArg Scene.instances (scene_foldl_applyCue i engine cues))

theorem mem_memo_foldl_iff (haccepts : engine.scene.AcceptsSequences)
    (hi : i < engine.instances.length) :
    text ∈ ((cues.foldl (applyCue i) engine).inst i).memo ↔
      text ∈ (engine.inst i).memo ∨ ∃ cue ∈ cues, cue.text = text ∧ cue.Takes engine.scene i := by
  induction cues using List.reverseRecOn with
  | nil => simp
  | append_singleton front cue ih =>
    have hscene := scene_foldl_applyCue i engine front
    rw [List.foldl_append, List.foldl_cons, List.foldl_nil,
      mem_memo_applyCue_iff (hscene ▸ haccepts)
        (length_instances_foldl_applyCue i engine front ▸ hi), ih, hscene]
    simp only [List.mem_append, List.mem_singleton, or_and_right, exists_or, exists_eq_left,
      or_assoc]

/-- Of cues with one text that go out any one stands for the others. -/
structure Alike (scene : Scene) (i : InstanceId) (cue cue' : Cue) : Prop where
  goesOut (handler : HandlerId) : cue.GoesOut scene i handler ↔ cue'.GoesOut scene i handler
  sources : cue.sources scene = cue'.sources scene
  plan : cue.plan scene i = cue'.plan scene i

/-- Applying cues makes handlers accept the plans of those that go out and have not been applied, if
those that go out under one text are alike. -/
theorem accepts_foldl_iff (haccepts : engine.scene.AcceptsSequences)
    (hi : i < engine.instances.length)
    (halike : ∀ cue ∈ cues, ∀ cue' ∈ cues, cue.text = cue'.text → cue.Takes engine.scene i →
      cue'.Takes engine.scene i → Alike engine.scene i cue cue') :
    (cues.foldl (applyCue i) engine).Accepts handler node plan ↔
      engine.Accepts handler node plan ∨ ∃ cue ∈ cues, cue.text ∉ (engine.inst i).memo ∧
        cue.GoesOut engine.scene i handler ∧ node ∈ cue.sources engine.scene ∧
        plan = cue.plan engine.scene i := by
  induction cues using List.reverseRecOn with
  | nil => simp
  | append_singleton front cue ih =>
    have hscene := scene_foldl_applyCue i engine front
    have hfront := ih fun first hfirst second hsecond =>
      halike first (List.mem_append_left _ hfirst) second (List.mem_append_left _ hsecond)
    rw [List.foldl_append, List.foldl_cons, List.foldl_nil,
      accepts_applyCue_iff (hscene ▸ haccepts), hfront, mem_memo_foldl_iff haccepts hi, hscene]
    simp only [List.mem_append, List.mem_singleton, or_and_right, exists_or, exists_eq_left,
      or_assoc]
    refine or_congr_right ?_
    constructor
    · rintro (h | ⟨hfresh, h⟩)
      · exact .inl h
      · exact .inr ⟨fun hmem => hfresh (.inl hmem), h⟩
    · rintro (h | ⟨hfresh, hgoes, hnode, rfl⟩)
      · exact .inl h
      by_cases hearlier : ∃ other ∈ front, other.text = cue.text ∧ other.Takes engine.scene i
      · obtain ⟨other, hother, htext, htakes⟩ := hearlier
        obtain ⟨hgoes', hsources, hplan⟩ := halike other (List.mem_append_left _ hother) cue
          (List.mem_append_right _ List.mem_cons_self) htext htakes
          ⟨⟨handler, hgoes⟩, List.ne_nil_of_mem hnode⟩
        exact .inl ⟨other, hother, htext ▸ hfresh, (hgoes' handler).mpr hgoes, hsources ▸ hnode,
          hplan.symm⟩
      · exact .inr ⟨fun h => h.elim hfresh hearlier, hgoes, hnode, rfl⟩

end Engine

end InteractionBinding
