import InteractionBinding.Proofs.Wiring.Calls
/-!
# Credits of applied ids

A credit lets an instance keep an id as applied: a handler accepts a plan with the id, or an effect
is applied that is bound to a list, the items of which may come later (`Engine.Credits`). In every
run, the step at which an id enters the memo to stay there has a credit, unless it is that of an
operation that keeps the id by hand (`Engine.run_credited`). So an id without a list that handlers
refuse, or that matches no node, is left out of no pass.
-/

namespace InteractionBinding

/-- Whether a handler accepts a plan on behalf of an instance, the id of which has a text. -/
def Entry.acceptsUnder (i : InstanceId) (text : String) : Entry → Bool
  | .told (.add j _ _ _ plan _ _ refusal) _ =>
    j = i && plan.id.encode = text && refusal.isNone
  | .told (.addSequence j _ _ plan _ _ refusal) _ =>
    j = i && plan.id.encode = text && refusal.isNone
  | _ => false

/-- A graph declares an effect that is bound to a list, by its rule or by itself, under a text. -/
def Graph.ListsUnder (graph : Graph) (text : String) : Prop :=
  ∃ interaction, graph.Declares interaction ∧ ∃ effect ∈ interaction.effects,
    (interaction.rule.isListBound || effect.effect.listContainer.isSome) = true ∧
      ∃ key, (effect.id.interpolate (KeyTemplate.indices key)).encode = text

namespace Engine

variable {engine before after : Engine} {occasion : Occasion} {i : InstanceId} {text : String}

/-- What entitles an instance to keep a text as applied. -/
inductive Credits (i : InstanceId) (text : String) (before after : Engine) : Prop
  | accepted {entries : List Entry} {entry : Entry} (hlog : after.log = before.log ++ entries)
      (hmem : entry ∈ entries) (haccepts : entry.acceptsUnder i text = true)
  /-- A full pass applies an effect that is bound to a list. -/
  | listed {c : ControllerId} {key : String} {selected : List Candidate} {candidate : Candidate}
      (hknows : (before.inst i).graph.knows key = true)
      (hselected : selected = (Pass.mk i none).outgoingOf before c key ∨
        selected = (Pass.mk i none).incomingOf before c key)
      (hwires : (Pass.mk i none).Wires selected before after) (hmem : candidate ∈ selected)
      (hhandler : (before.host.handlers.get? candidate.rule.trigger).isSome)
      (hlist : candidate.isListBound = true) (htext : candidate.memoKey = text)

/-! ### Steps -/

theorem Release.mem_memo (h : Release before after) (hmem : text ∈ (after.inst i).memo) :
    text ∈ (before.inst i).memo := by
  cases h with
  | calm h => rwa [h.memo] at hmem
  | remove | effectState | insertSheet | removeSheet => exact hmem
  | forget j key =>
    change text ∈ ((before.modifyInstance j (·.clearKey key)).inst i).memo at hmem
    rw [inst_modifyInstance_eq] at hmem
    split at hmem
    · exact List.mem_of_mem_filter hmem
    · exact hmem

/-- What a pass lets an instance keep as applied is accepted or bound to a list. -/
theorem Pass.Wires.credits {pass : Pass} {c : ControllerId} {key : String}
    {selected : List Candidate} (hwires : pass.Wires selected before after)
    (hknows : (before.inst pass.instanceId).graph.knows key = true)
    (hselected : selected = pass.outgoingOf before c key ∨ selected = pass.incomingOf before c key)
    (habsent : text ∉ (before.inst i).memo) (hpresent : text ∈ (after.inst i).memo) :
    Credits i text before after := by
  obtain ⟨offers, hoffers, hextends⟩ := id hwires
  obtain ⟨rfl, -, hmarked⟩ := ((hextends.memo i text).mp hpresent).resolve_left habsent
  obtain ⟨hscope, ⟨offer, hmem, haccepted, htext⟩ | ⟨candidate, hmem, hbound, htext⟩⟩ :=
    mem_marks.mp hmarked
  · have hentry : Entry.told (offer.event pass.instanceId before.scene) before.scene ∈
        (offers.map (Offer.event pass.instanceId before.scene)).map (Entry.told · before.scene) :=
      List.mem_map_of_mem (List.mem_map_of_mem hmem)
    have hplan : offer.candidate.plan.id.encode = text := htext
    refine .accepted hextends.log hentry ?_
    simp [Offer.event, Entry.acceptsUnder, hplan, haccepted]
  · obtain ⟨i, scope⟩ := pass
    cases hscope
    exact .listed hknows hselected hwires hmem hbound.1 hbound.2 htext

/-- A cue is kept as applied if a handler accepts its plan. -/
theorem Cue.credits {cue : Cue} {j : InstanceId} (habsent : text ∉ (engine.inst i).memo)
    (hpresent : text ∈ ((applyCue j engine cue).inst i).memo) :
    Credits i text engine (applyCue j engine cue) := by
  by_cases hfresh : cue.text ∈ (engine.inst j).memo
  · rw [applyCue_of_applied hfresh] at hpresent
    exact absurd hpresent habsent
  · obtain ⟨-, hquiet⟩ | ⟨handler, replies, -, hoffered⟩ := cue.apply_cases j engine hfresh
    · rw [hquiet.memo] at hpresent
      exact absurd hpresent habsent
    · obtain ⟨rfl, -, hmarked⟩ :=
        ((hoffered.told.memo i text).mp hpresent).resolve_left habsent
      split at hmarked
      next hany =>
        obtain ⟨reply, hmem, haccepted⟩ := List.any_eq_true.mp hany
        refine .accepted hoffered.told.log
          (List.mem_map_of_mem (List.mem_map_of_mem hmem)) ?_
        have hplan : (cue.plan engine.scene i).id.encode = text :=
          (List.mem_singleton.mp hmarked).symm
        simp [Cue.event, Entry.acceptsUnder, hplan, haccepted]
      next => cases hmarked

/-- A text enters a memo on credit, or because an operation keeps it by hand. -/
theorem Step.credits (h : Step occasion before after) (habsent : text ∉ (before.inst i).memo)
    (hpresent : text ∈ (after.inst i).memo) :
    Credits i text before after ∨ occasion.marks i text := by
  cases h with
  | release h => exact absurd (h.mem_memo hpresent) habsent
  | read => exact absurd hpresent habsent
  | mark j id hmarks =>
    obtain ⟨rfl, -, hmem⟩ :=
      (((extends_markApplied before j id).memo i text).mp hpresent).resolve_left habsent
    exact .inr (List.mem_singleton.mp hmem ▸ hmarks)
  | found config =>
    rw [inst, getD_append_singleton] at hpresent
    split at hpresent
    · cases hpresent
    · exact absurd hpresent habsent
  | condemn j =>
    rw [inst_modifyInstance_eq] at hpresent
    split at hpresent <;> exact absurd hpresent habsent
  | retire j =>
    change text ∈ ((before.modifyInstance j fun inst => { inst with memo := [] }).inst i).memo
      at hpresent
    rw [inst_modifyInstance_eq] at hpresent
    split at hpresent
    · cases hpresent
    · exact absurd hpresent habsent
  | source pass c key h hwires =>
    exact .inl (hwires.credits (graph_inst_eq before _ ▸ h.knows) (.inl rfl) habsent hpresent)
  | target pass c key h hwires =>
    exact .inl (hwires.credits (graph_inst_eq before _ ▸ h.knows) (.inr rfl) habsent hpresent)
  | cue j cue h => exact .inl (Cue.credits habsent hpresent)

theorem Step.appends (h : Step occasion before after) :
    ∃ entries, after.log = before.log ++ entries := by
  have hkept (heq : after.log = before.log) : ∃ entries, after.log = before.log ++ entries :=
    ⟨[], by rw [heq, List.append_nil]⟩
  cases h with
  | release h =>
    cases h with
    | calm h => exact hkept h.log
    | remove | effectState | insertSheet | removeSheet | forget => exact ⟨_, rfl⟩
  | read | mark | found | condemn | retire => exact hkept rfl
  | source pass c key h hwires | target pass c key h hwires =>
    obtain ⟨_, -, hextends⟩ := hwires
    exact ⟨_, hextends.log⟩
  | cue j cue h =>
    obtain ⟨_, _, hextends, -⟩ := wiresSequences_applyCue j before cue
    exact ⟨_, hextends.log⟩

/-! ### The steps of a run -/

/-- A step that a run makes in one of its operations. -/
def Paces (engine : Engine) (operations : List Operation) (operation : Operation)
    (before after : Engine) : Prop :=
  ∃ front back, operations = front ++ operation :: back ∧
    let occasion := (engine.run front).occasion operation
    Steps occasion (engine.run front) before ∧ Step occasion before after ∧
      Steps occasion after (engine.run (front ++ [operation]))

/-- A step that a run makes. -/
def Goes (engine : Engine) (operations : List Operation) (before after : Engine) : Prop :=
  ∃ operation, engine.Paces operations operation before after

/-- Every step of a path lies between its ends. -/
theorem reflTransGen_between {α : Type} {r : α → α → Prop} {a b : α}
    (h : Relation.ReflTransGen r a b) :
    Relation.ReflTransGen
      (fun x y => Relation.ReflTransGen r a x ∧ r x y ∧ Relation.ReflTransGen r y b) a b := by
  induction h with
  | refl => exact .refl
  | tail hfirst hstep ih =>
    refine Relation.ReflTransGen.tail ?_ ⟨hfirst, hstep, .refl⟩
    exact Relation.ReflTransGen.mono (fun _ _ hxy => ⟨hxy.1, hxy.2.1, hxy.2.2.tail hstep⟩) _ _ ih

/-- What holds at the end of a path and not at its start comes about at a last step. -/
theorem exists_last_step {α : Type} {r : α → α → Prop} {P : α → Prop} {a b : α}
    (h : Relation.ReflTransGen r a b) (ha : ¬P a) (hb : P b) :
    ∃ x y, Relation.ReflTransGen r a x ∧ ¬P x ∧ r x y ∧ P y ∧
      Relation.ReflTransGen (fun u v => r u v ∧ P v) y b := by
  induction h with
  | refl => exact absurd hb ha
  | @tail c d hfirst hstep ih =>
    by_cases hc : P c
    · -- it has come about before, and still holds after this step
      obtain ⟨x, y, hx, hnot, hxy, hy, hkept⟩ := ih hc
      exact ⟨x, y, hx, hnot, hxy, hy, hkept.tail ⟨hstep, hb⟩⟩
    · exact ⟨c, d, hfirst, hc, hstep, hb, .refl⟩

/-- A run is a path of its steps. -/
theorem goes_run (htidy : engine.Tidy) (operations : List Operation) :
    Relation.ReflTransGen (engine.Goes operations) engine (engine.run operations) := by
  induction operations using List.reverseRecOn with
  | nil => exact .refl
  | append_singleton front operation ih =>
    have hsteps := (perform_steps (tidy_run htidy front) operation).1
    have hnext : ((engine.run front).perform operation).1 = engine.run (front ++ [operation]) := by
      rw [run_append]
      rfl
    rw [hnext] at hsteps
    have hfront : Relation.ReflTransGen (engine.Goes (front ++ [operation])) engine
        (engine.run front) := by
      refine Relation.ReflTransGen.mono (fun state next hgoes => ?_) _ _ ih
      obtain ⟨other, earlier, back, rfl, hpace⟩ := hgoes
      exact ⟨other, earlier, back ++ [operation], by simp, hpace⟩
    exact hfront.trans (Relation.ReflTransGen.mono
      (fun _ _ hpace => ⟨operation, front, [], rfl, hpace⟩) _ _ (reflTransGen_between hsteps))

namespace Goes

variable {operations : List Operation}

theorem compiled (h : Relation.ReflTransGen (engine.Goes operations) before after)
    (hcompiled : before.Compiled) : after.Compiled := by
  induction h with
  | refl => exact hcompiled
  | tail _ hgoes ih =>
    obtain ⟨_, _, _, -, -, hstep, -⟩ := hgoes
    exact hstep.compiled ih

/-- What is told stays in the log, and an instance keeps its graph. -/
theorem keeps (h : Relation.ReflTransGen (engine.Goes operations) before after)
    (hi : i < before.instances.length) :
    (∀ entry ∈ before.log, entry ∈ after.log) ∧ i < after.instances.length ∧
      (after.inst i).graph = (before.inst i).graph := by
  induction h with
  | refl => exact ⟨fun _ => id, hi, rfl⟩
  | tail _ hgoes ih =>
    obtain ⟨_, _, _, -, -, hstep, -⟩ := hgoes
    obtain ⟨htold, hi, hgraph⟩ := ih
    obtain ⟨entries, hlog⟩ := hstep.appends
    obtain ⟨hi', hgraph'⟩ := Steps.graph_eq (.single hstep) hi
    exact ⟨fun entry hmem => hlog ▸ List.mem_append_left _ (htold entry hmem), hi',
      hgraph'.trans hgraph⟩

end Goes

/-! ### Runs -/

/-- A step of a run lets a text enter the memo of an instance, where it stays from then on. -/
structure Memoises (engine : Engine) (operations : List Operation) (i : InstanceId) (text : String)
    (operation : Operation) (before after : Engine) : Prop where
  reached : Relation.ReflTransGen (engine.Goes operations) engine before
  absent : text ∉ (before.inst i).memo
  pace : engine.Paces operations operation before after
  present : text ∈ (after.inst i).memo
  kept : Relation.ReflTransGen
    (fun state next => engine.Goes operations state next ∧ text ∈ (next.inst i).memo)
    after (engine.run operations)

/-- Only one operation keeps a text as applied by hand. -/
theorem eq_markApplied_of_marks {operation : Operation}
    (h : (engine.occasion operation).marks i text) : operation = .markApplied i text := by
  cases operation with
  | markApplied j id =>
    obtain ⟨rfl, rfl⟩ : i = j ∧ text = id := h
    rfl
  | _ => exact absurd h id

/-- An effect that is applied under a text and bound to a list is declared in the graph. -/
theorem listsUnder_of_mem (hcompiled : engine.Compiled) {pass : Pass} {c : ControllerId}
    {key : String} {selected : List Candidate} {candidate : Candidate}
    (hselected : selected = pass.outgoingOf engine c key ∨ selected = pass.incomingOf engine c key)
    (hmem : candidate ∈ selected) (hlist : candidate.isListBound = true) :
    (engine.inst pass.instanceId).graph.ListsUnder candidate.memoKey := by
  obtain ⟨interaction, hstems⟩ :
      ∃ interaction, Pass.Stems (pass.graph engine) key candidate interaction := by
    rcases hselected with rfl | rfl
    · exact Pass.exists_stems_of_mem_outgoingOf hcompiled hmem
    · exact Pass.exists_stems_of_mem_incomingOf hcompiled hmem
  refine ⟨interaction, hstems.declared, candidate.effect, hstems.effect, ?_, key, ?_⟩
  · rw [← hstems.rule]
    exact hlist
  · rw [Candidate.memoKey, hstems.id]

/-- The step at which a text enters a memo for good has a credit, or keeps it by hand. -/
theorem exists_memoises (host : Host) (options : EngineOptions) (operations : List Operation)
    (h : text ∈ (((start host options).run operations).inst i).memo) :
    ∃ operation before after,
      Memoises (start host options) operations i text operation before after ∧
        (Credits i text before after ∨ operation = .markApplied i text) := by
  have hstart : text ∉ ((start host options).inst i).memo := List.not_mem_nil
  obtain ⟨before, after, hreached, habsent, ⟨operation, hpace⟩, hpresent, hkept⟩ :=
    exists_last_step (P := fun state : Engine => text ∈ (state.inst i).memo)
      (goes_run (tidy_start host options) operations) hstart h
  refine ⟨operation, before, after, ⟨hreached, habsent, hpace, hpresent, hkept⟩, ?_⟩
  obtain ⟨_, _, -, -, hstep, -⟩ := hpace
  exact (hstep.credits habsent hpresent).imp_right eq_markApplied_of_marks

/-- The texts in the memo of an instance have been accepted since they entered it, are bound to a
list, or have been kept by hand. A text without a list that has never been accepted or kept by hand
is left out of no pass. -/
theorem run_credited (host : Host) (options : EngineOptions) (operations : List Operation)
    (i : InstanceId) (text : String) :
    let final := (start host options).run operations
    (text ∈ (final.inst i).memo → ∃ operation before after,
      Memoises (start host options) operations i text operation before after ∧
        (Credits i text before after ∨ operation = .markApplied i text)) ∧
    (.markApplied i text ∉ operations → (∀ entry ∈ final.log, entry.acceptsUnder i text = false) →
      ¬(final.inst i).graph.ListsUnder text →
        ∀ pass : Pass, pass.instanceId = i → pass.alreadyApplied final text = false) := by
  intro final
  refine ⟨exists_memoises host options operations, fun hhand hrefused hlists pass hpass => ?_⟩
  suffices habsent : text ∉ (final.inst i).memo by
    simp [Pass.alreadyApplied, Instance.isApplied, hpass, habsent]
  intro hmem
  obtain ⟨operation, before, after, hmemoises, hcredit⟩ :=
    exists_memoises host options operations hmem
  have hgoes : (start host options).Goes operations before after := ⟨operation, hmemoises.pace⟩
  have hrest : Relation.ReflTransGen ((start host options).Goes operations) after final :=
    Relation.ReflTransGen.mono (fun _ _ h => h.1) _ _ hmemoises.kept
  have hi : i < after.instances.length := by
    by_contra hlength
    have hpresent := hmemoises.present
    rw [inst_eq_default (Nat.not_lt.mp hlength)] at hpresent
    cases hpresent
  rcases hcredit with hcredit | rfl
  · cases hcredit with
    | accepted hlog hentry haccepts =>
      have hlogged := (Goes.keeps hrest hi).1 _ (hlog ▸ List.mem_append_right _ hentry)
      exact Bool.false_ne_true ((hrefused _ hlogged).symm.trans haccepts)
    | listed hknows hselected hwires hcandidate hhandler hlist htext =>
      -- the graph that declares the effect is that of the instance to the end
      have hcompiled := Goes.compiled hmemoises.reached (compiled_start host options)
      have hgraph := (Goes.keeps (.head hgoes hrest) (lt_of_knows hknows)).2.2
      refine hlists ?_
      rw [hgraph, ← htext]
      exact listsUnder_of_mem hcompiled hselected hcandidate hlist
  · obtain ⟨front, back, hsplit, -⟩ := hmemoises.pace
    exact hhand (hsplit ▸ by simp)

/-- The switch makes the lamp glow and dims the screen. -/
def dimmerConfig : Config := Config.ofInteractions
  [((Interaction.ofTrigger "switch" .click).withEffect ((Effect.byId "glow").on "lamp")).withEffect
    ((Effect.byId "dim").on "screen")]

/-- A host with a handler that does not dim. -/
def dimmerHost : Host :=
  { Host.bare with
    handler := fun _ =>
      { Handler.accepting with
        add := fun _ _ _ plan _ _ =>
          if plan.effectId = "dim" then some (.invalidEffect "dim" "dark") else none } }

def dimmerOperations : List Operation :=
  [.create dimmerConfig, .addNode 2 "lamp", .addNode 3 "screen", .addNode 1 "switch"]

/-- The lamp has been made to glow. That the screen is dimmed has been refused, and can be tried
again. -/
theorem run_credited_dimmer :
    let final := (start dimmerHost .standard).run dimmerOperations
    let glow := "lamp::glow::0"
    let dim := "screen::dim::0"
    (glow ∈ (final.inst 0).memo ∧ ∃ operation before after,
      Memoises (start dimmerHost .standard) dimmerOperations 0 glow operation before after ∧
        (Credits 0 glow before after ∨ operation = .markApplied 0 glow)) ∧
    (.markApplied 0 dim ∉ dimmerOperations ∧
      (∀ entry ∈ final.log, entry.acceptsUnder 0 dim = false) ∧
      ¬(final.inst 0).graph.ListsUnder dim ∧
        (Pass.mk 0 none).alreadyApplied final dim = false) := by
  intro final glow dim
  have hglows : glow ∈ (final.inst 0).memo := by decide +kernel
  have hhand : .markApplied 0 dim ∉ dimmerOperations := by simp [dimmerOperations]
  have hrefused : ∀ entry ∈ final.log, entry.acceptsUnder 0 dim = false := by decide +kernel
  have hlists : ¬(final.inst 0).graph.ListsUnder dim := by
    rintro ⟨interaction, ⟨node, hnode, htrigger⟩, effect, heffect, hbound, -⟩
    have hunbound : ∀ entry ∈ (final.inst 0).graph.nodes.entries,
        ∀ interaction ∈ entry.2.triggers, ∀ effect ∈ interaction.effects,
          (interaction.rule.isListBound || effect.effect.listContainer.isSome) = false := by
      decide +kernel
    rw [hunbound _ (KeyMap.mem_entries_iff.mpr hnode) interaction htrigger effect heffect] at hbound
    cases hbound
  exact ⟨⟨hglows, (run_credited dimmerHost .standard dimmerOperations 0 glow).1 hglows⟩, hhand,
    hrefused, hlists, (run_credited dimmerHost .standard dimmerOperations 0 dim).2 hhand hrefused
      hlists ⟨0, none⟩ rfl⟩

/-- The switch makes the lights of a chain glow. -/
def chainConfig : Config := Config.ofInteractions
  [(Interaction.ofTrigger "switch" .click).withEffect
    (((Effect.byId "glow").on "chain").withList "ul" none)]

/-- Two ids are kept as applied of which no handler has accepted a plan, and no rule has a list: one
is kept by hand after it has been refused, the other is that of an effect with a list, which is
empty. -/
theorem memoised_unaccepted :
    let dimmed := (start dimmerHost .standard).run
      (dimmerOperations ++ [.markApplied 0 "screen::dim::0"])
    let chained := (start .bare .standard).run
      [.create chainConfig, .addNode 2 "chain", .addNode 1 "switch"]
    (0 ∈ dimmed.live ∧ "screen::dim::0" ∈ (dimmed.inst 0).memo ∧
      (∀ entry ∈ dimmed.log, entry.acceptsUnder 0 "screen::dim::0" = false) ∧
      ∀ entry ∈ (dimmed.inst 0).graph.nodes.entries, ∀ interaction ∈ entry.2.triggers,
        interaction.rule.listContainer = none) ∧
    (0 ∈ chained.live ∧ "chain::glow::0" ∈ (chained.inst 0).memo ∧
      (∀ entry ∈ chained.log, entry.acceptsUnder 0 "chain::glow::0" = false) ∧
      ∀ entry ∈ (chained.inst 0).graph.nodes.entries, ∀ interaction ∈ entry.2.triggers,
        interaction.rule.listContainer = none) := by
  decide +kernel

end Engine

end InteractionBinding
