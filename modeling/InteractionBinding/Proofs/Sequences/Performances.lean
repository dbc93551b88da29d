import InteractionBinding.Proofs.Engine.Runs
/-!
# Sequences go out whole

Whenever a handler is asked to wire a sequence, a cue is being applied whose plan is asked for
(`Engine.run_performed`): its gate is open, every member whose gate is open has a connected target,
and the plan lists, in declared order, those of them that land on some node. The id of the sequence
is kept as applied exactly if the handler accepts the plan on one of the source nodes.
-/

namespace InteractionBinding.Engine

/-- A cue accounts for the offer of a plan on a node. -/
structure Cue.Accounts (cue : Cue) (scene : Scene) (i : InstanceId) (handler : HandlerId)
    (node : NodeId) (plan : SequencePlan) (params : KeyMap Json) (context : HandlerContext) :
    Prop where
  entitled : cue.Entitled scene i
  isOpen : (cue.gate scene i).isOpen = true
  targets : ∀ effect ∈ cue.sequence.effects, scene.admits i effect = true →
    ∃ target, cue.target? scene effect = some target ∧ (scene.controller target).connected = true
  nonempty : cue.members scene i ≠ []
  plan : plan = cue.plan scene i
  handler : scene.handlers.get? cue.rule.trigger = some handler
  node : node ∈ cue.sources scene
  params : params = cue.rule.params
  context : context = cue.context scene i

/-- The application of a cue to an engine appends entries to its log, and keeps the id as applied
exactly if one of them tells that a plan has been accepted. -/
structure Cue.Appends (cue : Cue) (i : InstanceId) (handler : HandlerId) (before : Engine)
    (entries : List Entry) : Prop where
  log : (applyCue i before cue).log = before.log ++ entries
  fresh : cue.text ∉ (before.inst i).memo
  kept : cue.text ∈ ((applyCue i before cue).inst i).memo ↔
    ∃ node ∈ cue.sources before.scene, Entry.told (.addSequence i handler node
      (cue.plan before.scene i) cue.rule.params (cue.context before.scene i) none) before.scene ∈
        entries

/-- An entry of the log that offers a sequence comes from a cue that is applied on the way from one
engine to another. -/
def Performed (occasion : Occasion) (first final : Engine) : Entry → Prop
  | .told (.addSequence i handler node plan params context refusal) scene =>
    ∃ cue before entries,
      Steps occasion first before ∧ Steps occasion (applyCue i before cue) final ∧
      before.scene = scene ∧ cue.Accounts scene i handler node plan params context ∧
      cue.Appends i handler before entries ∧
      .told (.addSequence i handler node plan params context refusal) scene ∈ entries
  | _ => True

variable {occasion : Occasion} {first before after : Engine}

namespace Cue

variable {cue : Cue} {i : InstanceId} {handler : HandlerId} {scene : Scene}

theorem Entitled.lt (h : cue.Entitled before.scene i) : i < before.instances.length := by
  obtain ⟨node, _, hnode, -⟩ := h.declared
  obtain ⟨graphKey, hresolve, -⟩ := Option.bind_eq_some_iff.mp hnode
  have hknows : (before.inst i).graph.knows cue.key = true := by
    rw [graph_inst_eq, Graph.knows, hresolve]
    rfl
  exact lt_of_knows hknows

/-- The target of a member of a cue is connected. -/
theorem Entitled.connected_of_target? (h : cue.Entitled scene i) {effect : CompiledEffect}
    {target : ControllerId} (htarget : cue.target? scene effect = some target) :
    (scene.controller target).connected = true := by
  rw [target?] at htarget
  split at htarget
  · exact Option.some.inj htarget ▸ h.connected
  · exact (Option.filter_eq_some_iff.mp htarget).2

theorem accounts (hentitled : cue.Entitled scene i) (hgoes : cue.GoesOut scene i handler)
    {node : NodeId} (hnode : node ∈ cue.sources scene) :
    cue.Accounts scene i handler node (cue.plan scene i) cue.rule.params (cue.context scene i) where
  entitled := hentitled
  isOpen := hgoes.isOpen
  targets effect hmem hopen := by
    obtain ⟨target, htarget⟩ := Option.isSome_iff_exists.mp (hgoes.complete effect hmem hopen)
    exact ⟨target, htarget, hentitled.connected_of_target? htarget⟩
  nonempty := hgoes.nonempty
  plan := rfl
  handler := hgoes.handler
  node := hnode
  params := rfl
  context := rfl

theorem Offered.appends {replies : List Reply} (hentitled : cue.Entitled before.scene i)
    (hfresh : cue.text ∉ (before.inst i).memo)
    (h : cue.Offered i handler replies before (applyCue i before cue)) :
    cue.Appends i handler before
      ((replies.map (cue.event before.scene i handler)).map (Entry.told · before.scene)) where
  log := h.told.log
  fresh := hfresh
  kept := by
    have hany : replies.any (·.refusal.isNone) = true ↔
        ∃ node ∈ cue.sources before.scene, Entry.told (.addSequence i handler node
          (cue.plan before.scene i) cue.rule.params (cue.context before.scene i) none)
            before.scene ∈ (replies.map (cue.event before.scene i handler)).map
              (Entry.told · before.scene) := by
      simp only [← h.nodes, List.any_eq_true, Option.isNone_iff_eq_none, List.map_map,
        List.mem_map, Function.comp_apply, Entry.told.injEq, and_true, event,
        Event.addSequence.injEq, true_and]
      grind
    rw [h.told.memo, ← hany]
    simp only [hfresh, hentitled.lt, false_or, true_and]
    split <;> simp [*]

end Cue

/-- Every step tells of sequences only by applying a cue. -/
theorem Step.performed (h : Step occasion before after) :
    Tells (Performed occasion before after) before after := by
  have hwires {pass : Pass} {selected : List Candidate} (h : pass.Wires selected before after) :
      Tells (Performed occasion before after) before after := by
    obtain ⟨offers, -, hextends⟩ := h
    refine .of_extends hextends fun event hevent => ?_
    obtain ⟨offer, -, rfl⟩ := List.mem_map.mp hevent
    trivial
  cases h with
  | release h =>
    cases h with
    | calm h => exact .silent h.log
    | remove | effectState | insertSheet | removeSheet | forget => exact .single rfl trivial
  | read | mark | found | condemn | retire => exact .silent rfl
  | source pass c key h hpass => exact hwires hpass
  | target pass c key h hpass => exact hwires hpass
  | cue i cue hentitled =>
    by_cases hfresh : cue.text ∈ (before.inst i).memo
    · exact .silent (by rw [applyCue_of_applied hfresh])
    obtain ⟨-, hquiet⟩ | ⟨handler, replies, hgoes, hoffered⟩ := cue.apply_cases i before hfresh
    · exact .silent hquiet.log
    refine .of_extends hoffered.told fun event hevent => ?_
    obtain ⟨reply, hreply, rfl⟩ := List.mem_map.mp hevent
    exact ⟨cue, before, _, .refl, .refl, rfl,
      Cue.accounts hentitled hgoes (hoffered.nodes ▸ List.mem_map_of_mem hreply),
      hoffered.appends hentitled hfresh, List.mem_map_of_mem hevent⟩

theorem Performed.tail {entry : Entry} (h : Performed occasion first before entry)
    (hstep : Step occasion before after) : Performed occasion first after entry := by
  cases entry with
  | forgot => trivial
  | told event scene =>
    cases event with
    | addSequence i handler node plan params context refusal =>
      obtain ⟨cue, middle, entries, hsteps, hsteps', hrest⟩ := h
      exact ⟨cue, middle, entries, hsteps, hsteps'.tail hstep, hrest⟩
    | _ => trivial

theorem Performed.head {entry : Entry} (hsteps : Steps occasion first before)
    (h : Performed occasion before after entry) : Performed occasion first after entry := by
  cases entry with
  | forgot => trivial
  | told event scene =>
    cases event with
    | addSequence i handler node plan params context refusal =>
      obtain ⟨cue, middle, entries, hsteps', hrest⟩ := h
      exact ⟨cue, middle, entries, hsteps.trans hsteps', hrest⟩
    | _ => trivial

theorem Steps.performed (h : Steps occasion before after) :
    Tells (Performed occasion before after) before after := by
  induction h with
  | refl => exact .silent rfl
  | tail hsteps hstep ih =>
    exact (ih.mono fun _ hentry => hentry.tail hstep).trans
      (hstep.performed.mono fun _ => .head hsteps)

/-- Every sequence that an operation offers, after any run, goes out whole: it comes from a cue that
accounts for it, and whose application keeps the id as applied exactly if the plan is accepted. -/
theorem run_performed (host : Host) (options : EngineOptions) (operations : List Operation)
    (operation : Operation) :
    let engine := (start host options).run operations
    ∃ entries, (engine.perform operation).1.log = engine.log ++ entries ∧
      ∀ entry ∈ entries,
        Performed (engine.occasion operation) engine (engine.perform operation).1 entry := by
  intro engine
  have htidy := tidy_run (tidy_start host options) operations
  exact (perform_steps htidy operation).1.performed

end InteractionBinding.Engine
