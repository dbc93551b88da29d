import InteractionBinding.Proofs.Wiring.Newcomers
/-!
# The calls of a connection

A call asks a handler to wire an effect on a pair of nodes on behalf of an instance. If every
handler accepts, a connection calls for what its key selects as a source and then for what it
selects as a target, each from the last selected candidate to the first (`Engine.calls_connect`).
Other instances and sequences do not come between the calls of an instance.

A selection of a source keeps of the candidates with one text the one that is offered last, at its
place (`Engine.Pass.foldl_selectCandidate`).
-/

namespace InteractionBinding

open Engine (Candidate Proposal Pass)

/-- Whether an event asks for an effect of certain rules on behalf of an instance. -/
def Event.isCall (i : InstanceId) (own : Nat → Bool) : Event → Bool
  | .add j _ _ _ plan _ _ _ => decide (j = i) && own plan.id.index
  | _ => false

namespace Engine

/-- The calls for effects of certain rules on behalf of an instance, in the order in which they have
been made. -/
def calls (engine : Engine) (i : InstanceId) (own : Nat → Bool) : List Event :=
  engine.events.filter (Event.isCall i own)

/-- The call for a proposal that its handler accepts. -/
def Proposal.call (i : InstanceId) (scene : Scene) (proposal : Proposal) : Event :=
  Offer.event i scene ⟨proposal, none⟩

end Engine

/-- The calls for a candidate in a full pass, pair by pair. -/
def Scene.callsOf (scene : Scene) (i : InstanceId) (candidate : Candidate) : List Event :=
  ((Pass.mk i none).proposals scene candidate).map (Proposal.call i scene)

theorem Scene.isCall_of_mem_callsOf {scene : Scene} {i : InstanceId} {candidate : Candidate}
    {event : Event} (h : event ∈ scene.callsOf i candidate) (own : Nat → Bool) :
    event.isCall i own = own candidate.id.index := by
  obtain ⟨proposal, hproposal, rfl⟩ := List.mem_map.mp h
  obtain ⟨rfl, -, -⟩ := Pass.mem_proposals.mp hproposal
  simp [Proposal.call, Engine.Offer.event, Event.isCall, Candidate.plan]

/-- Of the calls for candidates, those for certain rules are the calls for the candidates of these
rules. -/
theorem Scene.filter_callsOf (scene : Scene) (i : InstanceId) (own : Nat → Bool)
    (candidates : List Candidate) :
    (candidates.flatMap (scene.callsOf i)).filter (Event.isCall i own) =
      (candidates.filter fun candidate => own candidate.id.index).flatMap (scene.callsOf i) := by
  induction candidates with
  | nil => rfl
  | cons candidate rest ih =>
    rw [List.flatMap_cons, List.filter_append, ih, List.filter_cons]
    have hcalls (event) (h : event ∈ scene.callsOf i candidate) := isCall_of_mem_callsOf h own
    cases hown : own candidate.id.index with
    | true =>
      rw [List.filter_eq_self.mpr fun event hevent => (hcalls event hevent).trans hown, if_pos rfl,
        List.flatMap_cons]
    | false =>
      rw [List.filter_eq_nil_iff.mpr fun event hevent => ?_, if_neg Bool.false_ne_true,
        List.nil_append]
      rw [hcalls event hevent, hown]
      exact Bool.false_ne_true

namespace Engine

variable {engine before middle after : Engine} {i j : InstanceId} {own : Nat → Bool}
  {c : ControllerId} {key : String} {candidate : Candidate}

/-! ### Live instances -/

/-- Live instances are listed once, and exist. -/
structure Listed (engine : Engine) : Prop where
  nodup : engine.live.Nodup
  exists_of_mem : ∀ i ∈ engine.live, i < engine.instances.length

theorem Step.listed {occasion : Occasion} (h : Step occasion before after)
    (hlisted : before.Listed) : after.Listed := by
  have hkept (hlive : after.live = before.live)
      (hlength : after.instances.length = before.instances.length) : after.Listed :=
    ⟨hlive ▸ hlisted.nodup, fun i hi => hlength ▸ hlisted.exists_of_mem i (hlive ▸ hi)⟩
  have hscene (heq : after.scene = before.scene) : after.Listed :=
    hkept (congrArg Scene.live heq) (length_instances_eq (congrArg Scene.instances heq))
  cases h with
  | release h =>
    obtain ⟨-, hlive, hinstances⟩ := Releases.frame (.single h)
    exact hkept hlive (length_instances_eq hinstances)
  | read => exact hkept rfl rfl
  | mark i id => exact hscene (scene_markApplied i id)
  | found config =>
    have hnew : before.instances.length ∉ before.live := fun hmem =>
      Nat.lt_irrefl _ (hlisted.exists_of_mem _ hmem)
    refine ⟨hlisted.nodup.append (List.nodup_singleton _)
      (List.disjoint_singleton.mpr hnew), fun i hi => ?_⟩
    rw [List.length_append, List.length_singleton]
    rcases List.mem_append.mp hi with hi | hi
    · exact Nat.lt_succ_of_lt (hlisted.exists_of_mem i hi)
    · exact List.mem_singleton.mp hi ▸ Nat.lt_succ_self _
  | condemn => exact hkept rfl (List.length_modify ..)
  | retire i =>
    refine ⟨hlisted.nodup.filter _, fun j hj => ?_⟩
    exact Nat.lt_of_lt_of_eq (hlisted.exists_of_mem j (List.mem_of_mem_filter hj))
      (List.length_modify ..).symm
  | source pass c key h hwires => exact hscene hwires.scene
  | target pass c key h hwires => exact hscene hwires.scene
  | cue i cue h => exact hscene (scene_applyCue ..)

theorem Steps.listed {occasion : Occasion} (h : Steps occasion before after)
    (hlisted : before.Listed) : after.Listed := by
  induction h with
  | refl => exact hlisted
  | tail _ hstep ih => exact hstep.listed ih

theorem listed_run (host : Host) (options : EngineOptions) (operations : List Operation) :
    ((start host options).run operations).Listed := by
  have hboth := run_induction (P := fun state => state.Tidy ∧ state.Listed)
    ⟨tidy_start host options, List.nodup_nil, fun _ hmem => absurd hmem List.not_mem_nil⟩
    (fun _ hstate operation => ⟨(perform_steps hstate.1 operation).2,
      (perform_steps hstate.1 operation).1.listed hstate.2⟩) operations
  exact hboth.2

/-- An instance keeps its graph. -/
theorem Steps.graph_eq {occasion : Occasion} (h : Steps occasion before after)
    (hi : i < before.instances.length) :
    i < after.instances.length ∧ (after.inst i).graph = (before.inst i).graph := by
  induction h with
  | refl => exact ⟨hi, rfl⟩
  | @tail middle after _ hstep ih =>
    obtain ⟨hmiddle, hgraph⟩ := ih
    rcases hstep.graphs with ⟨config, hinstances⟩ | ⟨hlength, hgraphs⟩
    · rw [hinstances, List.length_append]
      refine ⟨Nat.lt_add_right _ hmiddle, Eq.trans ?_ hgraph⟩
      rw [inst, hinstances, getD_append_singleton, if_neg (Nat.ne_of_lt hmiddle)]
      rfl
    · exact ⟨hlength ▸ hmiddle, (hgraphs i).trans hgraph⟩

theorem graph_run (htidy : engine.Tidy) (hi : i < engine.instances.length)
    (operations : List Operation) :
    ((engine.run operations).inst i).graph = (engine.inst i).graph := by
  have hall := run_induction
    (P := fun state => state.Tidy ∧ i < state.instances.length ∧
      (state.inst i).graph = (engine.inst i).graph) ⟨htidy, hi, rfl⟩
    (fun state hstate operation => by
      obtain ⟨hsteps, htidy'⟩ := perform_steps hstate.1 operation
      obtain ⟨hi', hgraph⟩ := hsteps.graph_eq hstate.2.1
      exact ⟨htidy', hi', hgraph.trans hstate.2.2⟩) operations
  exact hall.2.2

/-- The instance that is created first keeps the graph of its configuration. -/
theorem graph_run_create (host : Host) (options : EngineOptions) (config : Config)
    (operations : List Operation) :
    (((start host options).run (.create config :: operations)).inst 0).graph =
      .ofConfig config := by
  have hcreated : ((start host options).perform (.create config)).1 =
      { start host options with instances := [Instance.ofConfig config], live := [0] } := rfl
  rw [run_cons, hcreated]
  refine graph_run (fun i hi => ?_) Nat.one_pos operations
  rw [List.mem_singleton.mp hi]
  rfl

/-! ### Wiring -/

theorem calls_of_extends {events : List Event} {marked : List String}
    (h : Extends j events marked before after) (i : InstanceId) (own : Nat → Bool) :
    after.calls i own = before.calls i own ++ events.filter (Event.isCall i own) := by
  have hevents : (events.map (Entry.told · before.scene)).filterMap Entry.event? = events := by
    rw [List.filterMap_map]
    exact List.filterMap_some
  rw [calls, events_eq_append h.log, List.filter_append, hevents]
  rfl

/-- Wiring candidates calls for them in reverse if every handler accepts. -/
theorem Pass.Wires.calls_eq {selected : List Candidate}
    (h : (Pass.mk i none).Wires selected before after) (haccepts : before.scene.Accepts) :
    after.calls i own = before.calls i own ++
      (selected.reverse.filter fun candidate => own candidate.id.index).flatMap
        (before.scene.callsOf i) := by
  obtain ⟨offers, hoffers, hextends⟩ := h
  have hevents : offers.map (Offer.event i before.scene) =
      selected.reverse.flatMap (before.scene.callsOf i) := by
    calc offers.map (Offer.event i before.scene)
        = (offers.map Offer.toProposal).map (Proposal.call i before.scene) := by
          rw [List.map_map]
          refine List.map_congr_left fun offer hoffer => ?_
          obtain ⟨proposal, refusal⟩ := offer
          obtain rfl : refusal = none := hoffers.refusal_eq_none haccepts _ hoffer
          rfl
      _ = (selected.reverse.flatMap ((Pass.mk i none).proposals before.scene)).map
            (Proposal.call i before.scene) := by rw [hoffers.complete rfl]
      _ = selected.reverse.flatMap (before.scene.callsOf i) := List.map_flatMap ..
  rw [calls_of_extends hextends, hevents, Scene.filter_callsOf]

theorem Pass.Wires.calls_of_ne {selected : List Candidate}
    (h : (Pass.mk j none).Wires selected before after) (hne : j ≠ i) :
    after.calls i own = before.calls i own := by
  obtain ⟨offers, -, hextends⟩ := h
  rw [calls_of_extends hextends, List.filter_eq_nil_iff.mpr, List.append_nil]
  intro event hevent
  obtain ⟨offer, -, rfl⟩ := List.mem_map.mp hevent
  simp [Offer.event, Event.isCall, hne]

theorem WiresSequences.calls_eq {P : String → Prop} (h : WiresSequences j P before after) :
    after.calls i own = before.calls i own := by
  obtain ⟨events, marked, hextends, hevents, -⟩ := h
  rw [calls_of_extends hextends, List.filter_eq_nil_iff.mpr, List.append_nil]
  intro event hevent
  have hsequence := hevents event hevent
  cases event with
  | addSequence => exact Bool.false_ne_true
  | _ => exact hsequence.elim

/-! ### What is selected -/

namespace Pass

theorem outgoingOf_eq (engine : Engine) (i : InstanceId) (c : ControllerId) (key : String) :
    (Pass.mk i none).outgoingOf engine c key =
      match (engine.scene.inst i).graph.get? key with
      | none => []
      | some node => ((engine.scene.sourceCandidates i c key node).filter fun candidate =>
          candidate.memoKey ∉ (engine.inst i).memo).foldl selectCandidate [] := by
  rw [outgoingOf, node?_eq]
  cases (engine.scene.inst i).graph.get? key with
  | none => rfl
  | some node =>
    simp only [outgoing]
    rw [offered_eq_filter]

theorem incomingOf_eq (engine : Engine) (i : InstanceId) (c : ControllerId) (key : String) :
    (Pass.mk i none).incomingOf engine c key =
      match (engine.scene.inst i).graph.get? key with
      | none => []
      | some node => (node.effects.filterMap (engine.scene.targetCandidate? i c key)).filter
          fun candidate => candidate.memoKey ∉ (engine.inst i).memo := by
  rw [incomingOf, node?_eq]
  cases (engine.scene.inst i).graph.get? key with
  | none => rfl
  | some node =>
    simp only [incoming]
    rw [List.filter_filterMap]
    exact List.filterMap_congr fun entry _ => incoming?_eq_filter ..

/-- What is selected depends on the scene and on what has been applied. -/
theorem outgoingOf_congr_memo (hscene : after.scene = before.scene)
    (hmemo : ∀ text, text ∈ (after.inst i).memo ↔ text ∈ (before.inst i).memo) :
    (Pass.mk i none).outgoingOf after c key = (Pass.mk i none).outgoingOf before c key := by
  simp only [outgoingOf_eq, hscene, hmemo]

theorem incomingOf_congr_memo (hscene : after.scene = before.scene)
    (hmemo : ∀ text, text ∈ (after.inst i).memo ↔ text ∈ (before.inst i).memo) :
    (Pass.mk i none).incomingOf after c key = (Pass.mk i none).incomingOf before c key := by
  simp only [incomingOf_eq, hscene, hmemo]

theorem memoKey_of_targetCandidate? {scene : Scene} {entry : TargetEffects}
    (h : scene.targetCandidate? i c key entry = some candidate) :
    candidate.id = entry.id.interpolate (KeyTemplate.indices key) := by
  simp only [Scene.targetCandidate?, Option.bind_eq_some_iff, Option.map_eq_some_iff] at h
  obtain ⟨_, -, _, -, rfl⟩ := h
  rfl

/-- Wiring the source side of a key changes nothing for its target side. -/
theorem Wires.incomingOf_eq (hcompiled : before.Compiled)
    (h : (Pass.mk i none).Wires ((Pass.mk i none).outgoingOf before c key) before after) :
    (Pass.mk i none).incomingOf after c key = (Pass.mk i none).incomingOf before c key := by
  simp only [Pass.incomingOf_eq, h.scene]
  cases hnode : (before.scene.inst i).graph.get? key with
  | none => rfl
  | some node =>
    refine List.filter_congr fun candidate hcandidate => ?_
    obtain ⟨entry, hentry, hmade⟩ := List.mem_filterMap.mp hcandidate
    have htext (other : Candidate) (hother : other ∈ (Pass.mk i none).outgoingOf before c key) :
        other.memoKey ≠ candidate.memoKey := by
      rw [Candidate.memoKey, Candidate.memoKey, memoKey_of_targetCandidate? hmade]
      exact memoKey_ne_of_mem_effects hcompiled hother hnode hentry
    obtain ⟨offers, hoffers, hextends⟩ := h
    refine decide_eq_decide.mpr (not_congr ?_)
    rw [hextends.memo, mem_marks]
    refine or_iff_left ?_
    rintro ⟨-, -, -, ⟨offer, hoffer, -, hsame⟩ | ⟨other, hother, -, hsame⟩⟩
    · exact htext _ (List.mem_reverse.mp (hoffers.candidate_mem hoffer).1) hsame
    · exact htext other hother hsame

/-! ### Candidates with one text -/

/-- Of the candidates with one text the last one stays, at its place. -/
def lastOfEach : List Candidate → List Candidate
  | [] => []
  | candidate :: rest =>
    if candidate.memoKey ∈ rest.map Candidate.memoKey then lastOfEach rest
    else candidate :: lastOfEach rest

theorem map_memoKey_lastOfEach (offers : List Candidate) :
    (lastOfEach offers).map Candidate.memoKey = (offers.map Candidate.memoKey).dedup := by
  induction offers with
  | nil => rfl
  | cons candidate rest ih =>
    rw [lastOfEach, List.map_cons, List.dedup_cons]
    split
    · exact ih
    · rw [List.map_cons, ih]

theorem lastOfEach_append_singleton (front : List Candidate) (last : Candidate) :
    lastOfEach (front ++ [last]) = selectCandidate (lastOfEach front) last := by
  induction front with
  | nil => rfl
  | cons first rest ih =>
    simp only [List.cons_append, lastOfEach, ih, List.map_append, List.mem_append,
      List.map_singleton, List.mem_singleton]
    by_cases heq : first.memoKey = last.memoKey
    · rw [if_pos (.inr heq)]
      split
      · rfl
      next hfirst =>
        -- nothing but the first candidate has the text
        have hnone : (lastOfEach rest).eraseP (fun other => other.memoKey = last.memoKey) =
            lastOfEach rest := by
          refine List.eraseP_of_forall_not fun other hother hsame => hfirst ?_
          rw [heq, ← of_decide_eq_true hsame, ← List.mem_dedup, ← map_memoKey_lastOfEach]
          exact List.mem_map_of_mem hother
        rw [selectCandidate, selectCandidate, hnone, List.eraseP_cons_of_pos (by simp [heq])]
    · simp only [or_iff_left heq]
      split
      · rfl
      · rw [selectCandidate, selectCandidate, List.eraseP_cons_of_neg (by simp [heq]),
          List.cons_append]

/-- Selecting candidates one after the other keeps the last one for each text. -/
theorem foldl_selectCandidate (offers : List Candidate) :
    offers.foldl selectCandidate [] = lastOfEach offers := by
  induction offers using List.reverseRecOn with
  | nil => rfl
  | append_singleton front last ih =>
    rw [List.foldl_append, ih, lastOfEach_append_singleton, List.foldl_cons, List.foldl_nil]

theorem lastOfEach_of_nodup {offers : List Candidate}
    (h : (offers.map Candidate.memoKey).Nodup) : lastOfEach offers = offers := by
  induction offers with
  | nil => rfl
  | cons candidate rest ih =>
    obtain ⟨hcandidate, hrest⟩ := List.nodup_cons.mp h
    rw [lastOfEach, if_neg hcandidate, ih hrest]

/-- A condition on the text keeps all candidates with a text or none. -/
theorem filter_lastOfEach {keep : Candidate → Bool}
    (hkeep : ∀ candidate other : Candidate, candidate.memoKey = other.memoKey →
      keep candidate = keep other) (offers : List Candidate) :
    (lastOfEach offers).filter keep = lastOfEach (offers.filter keep) := by
  induction offers with
  | nil => rfl
  | cons candidate rest ih =>
    have hmem (h : keep candidate = true) :
        candidate.memoKey ∈ (rest.filter keep).map Candidate.memoKey ↔
          candidate.memoKey ∈ rest.map Candidate.memoKey := by
      simp only [List.mem_map, List.mem_filter]
      refine exists_congr fun other => and_congr_left fun hother => and_iff_left ?_
      rw [hkeep other candidate hother, h]
    rw [lastOfEach, List.filter_cons]
    by_cases hcandidate : keep candidate = true
    · rw [if_pos hcandidate, lastOfEach]
      simp only [hmem hcandidate]
      split
      · exact ih
      · rw [List.filter_cons_of_pos hcandidate, ih]
    · rw [if_neg hcandidate]
      split
      · exact ih
      · rw [List.filter_cons_of_neg hcandidate, ih]

end Pass

/-! ### Resolving -/

/-- What a key selects in an instance, in the order in which it is called for: as a source, and then
as a target. -/
def selection (engine : Engine) (i : InstanceId) (c : ControllerId) (key : String) :
    List Candidate :=
  ((Pass.mk i none).outgoingOf engine c key).reverse ++
    ((Pass.mk i none).incomingOf engine c key).reverse

theorem calls_resolveIn (hcompiled : engine.Compiled) (haccepts : engine.scene.Accepts) :
    (resolveIn c key engine i).calls i own = engine.calls i own ++
      ((engine.selection i c key).filter fun candidate => own candidate.id.index).flatMap
        (engine.scene.callsOf i) := by
  obtain ⟨middle, later, hout, hin, hsequences⟩ := resolveIn_spec c key engine i
  rw [hsequences.calls_eq, hin.calls_eq (hout.scene ▸ haccepts), hout.calls_eq haccepts,
    hout.incomingOf_eq hcompiled, hout.scene, selection, List.filter_append, List.flatMap_append,
    List.append_assoc]

theorem calls_resolveIn_of_ne (hne : j ≠ i) :
    (resolveIn c key engine j).calls i own = engine.calls i own := by
  obtain ⟨middle, later, hout, hin, hsequences⟩ := resolveIn_spec c key engine j
  rw [hsequences.calls_eq, hin.calls_of_ne hne, hout.calls_of_ne hne]

theorem calls_foldl_resolveIn_of_not_mem {instances : List InstanceId} (hi : i ∉ instances) :
    (instances.foldl (resolveIn c key) engine).calls i own = engine.calls i own := by
  induction instances generalizing engine with
  | nil => rfl
  | cons j rest ih =>
    obtain ⟨hne, hrest⟩ := not_or.mp fun hmem => hi (List.mem_cons.mpr hmem)
    rw [List.foldl_cons, ih hrest, calls_resolveIn_of_ne (Ne.symm hne)]

/-- What a key selects in an instance does not change as the key is resolved in other instances. -/
theorem selection_foldl_resolveIn_of_not_mem {instances : List InstanceId} (hi : i ∉ instances) :
    (instances.foldl (resolveIn c key) engine).selection i c key = engine.selection i c key := by
  have hscene := scene_foldl_resolveIn c key engine instances
  have hmemo (text : String) :=
    @mem_memo_foldl_resolveIn_of_not_mem c key engine i instances hi text
  rw [selection, Pass.outgoingOf_congr_memo hscene hmemo, Pass.incomingOf_congr_memo hscene hmemo,
    selection]

/-- Resolving a key in several instances resolves it in each of them as if it were the only one. -/
theorem calls_foldl_resolveIn (hcompiled : engine.Compiled) (haccepts : engine.scene.Accepts)
    {instances : List InstanceId} (hnodup : instances.Nodup) (hi : i ∈ instances) :
    (instances.foldl (resolveIn c key) engine).calls i own = engine.calls i own ++
      ((engine.selection i c key).filter fun candidate => own candidate.id.index).flatMap
        (engine.scene.callsOf i) := by
  obtain ⟨front, back, rfl, hfront⟩ := List.eq_append_cons_of_mem hi
  have hback : i ∉ back := (List.nodup_cons.mp (List.nodup_append.mp hnodup).2.1).1
  have hscene := scene_foldl_resolveIn c key engine front
  rw [List.foldl_append, List.foldl_cons, calls_foldl_resolveIn_of_not_mem hback,
    calls_resolveIn (compiled_congr hscene hcompiled) (hscene ▸ haccepts),
    calls_foldl_resolveIn_of_not_mem hfront, selection_foldl_resolveIn_of_not_mem hfront, hscene]

/-- What is applied when a key is resolved belongs to what it selects or to one of its cues. -/
theorem mem_memo_resolveIn (hcompiled : engine.Compiled) {text : String}
    (hmem : text ∈ ((resolveIn c key engine i).inst i).memo) :
    text ∈ (engine.inst i).memo ∨ (∃ candidate ∈ engine.selection i c key,
      candidate.memoKey = text) ∨ ∃ cue ∈ engine.scene.cues i c key, cue.text = text := by
  obtain ⟨middle, later, hout, hin, hcues⟩ := resolveIn_cues c key engine i
  have hwires : WiresSequences i (fun text => ∃ cue ∈ engine.scene.cues i c key, cue.text = text)
      later (resolveIn c key engine i) :=
    hcues ▸ wiresSequences_foldl_applyCue (fun cue hcue => ⟨cue, hcue, rfl⟩) later
  have hincoming := hout.incomingOf_eq hcompiled
  have hmarked {selected : List Candidate} {before after : Engine}
      (h : (Pass.mk i none).Wires selected before after) (hmem : text ∈ (after.inst i).memo) :
      text ∈ (before.inst i).memo ∨ ∃ candidate ∈ selected, candidate.memoKey = text := by
    obtain ⟨offers, hoffers, hextends⟩ := h
    refine ((hextends.memo i text).mp hmem).imp_right fun ⟨_, _, hmarks⟩ => ?_
    rcases (Pass.mem_marks.mp hmarks).2 with ⟨offer, hoffer, -, hsame⟩ | ⟨other, hother, -, hsame⟩
    · exact ⟨_, List.mem_reverse.mp (hoffers.candidate_mem hoffer).1, hsame⟩
    · exact ⟨other, hother, hsame⟩
  obtain ⟨events, marked, hextends, -, hmarks⟩ := hwires
  rcases (hextends.memo i text).mp hmem with hmem | ⟨-, -, hmem⟩
  · rcases hmarked hin hmem with hmem | ⟨candidate, hcandidate, hsame⟩
    · refine (hmarked hout hmem).imp_right fun ⟨candidate, hcandidate, hsame⟩ => ?_
      exact .inl ⟨candidate, List.mem_append_left _ (List.mem_reverse.mpr hcandidate), hsame⟩
    · rw [hincoming] at hcandidate
      exact .inr (.inl
        ⟨candidate, List.mem_append_right _ (List.mem_reverse.mpr hcandidate), hsame⟩)
  · exact .inr (.inr (hmarks text hmem))

theorem mem_memo_foldl_resolveIn (hcompiled : engine.Compiled) {instances : List InstanceId}
    (hnodup : instances.Nodup) {text : String}
    (hmem : text ∈ ((instances.foldl (resolveIn c key) engine).inst i).memo) :
    text ∈ (engine.inst i).memo ∨ (∃ candidate ∈ engine.selection i c key,
      candidate.memoKey = text) ∨ ∃ cue ∈ engine.scene.cues i c key, cue.text = text := by
  by_cases hi : i ∈ instances
  · obtain ⟨front, back, rfl, hfront⟩ := List.eq_append_cons_of_mem hi
    have hback : i ∉ back := (List.nodup_cons.mp (List.nodup_append.mp hnodup).2.1).1
    have hscene := scene_foldl_resolveIn c key engine front
    rw [List.foldl_append, List.foldl_cons, mem_memo_foldl_resolveIn_of_not_mem hback] at hmem
    have happlied := mem_memo_resolveIn (compiled_congr hscene hcompiled) hmem
    rwa [mem_memo_foldl_resolveIn_of_not_mem hfront, selection_foldl_resolveIn_of_not_mem hfront,
      hscene] at happlied
  · exact .inl ((mem_memo_foldl_resolveIn_of_not_mem hi text).mp hmem)

/-! ### Connecting -/

/-- The engine in which a controller is connected and registered under a key, before the key is
resolved. -/
def entered (engine : Engine) (c : ControllerId) (key : String) : Engine :=
  ((engine.connecting c key).register key c).1

@[simp]
theorem calls_entered : (engine.entered c key).calls i own = engine.calls i own := rfl

/-- A controller of a running engine is not connected, and would be connected under a key. -/
structure Enters (engine : Engine) (c : ControllerId) (requested : Option String) (key : String) :
    Prop where
  running : engine.running = true
  exists_controller : c < engine.controllers.length
  off : (engine.controller c).connected = false
  key : engine.connectionKey? c requested = some key

theorem Enters.connect_eq {requested : Option String} (h : engine.Enters c requested key) :
    (engine.connect c requested).1 =
      ((engine.entered c key).instancesFor key).foldl (resolveIn c key) (engine.entered c key) := by
  have hattached : (!engine.running || decide (engine.controllers.length ≤ c)) = false := by
    simp [h.running, h.exists_controller]
  rw [connect, hattached, h.off, h.key]
  rfl

theorem Enters.scene_connect {requested : Option String} (h : engine.Enters c requested key) :
    (engine.connect c requested).1.scene = (engine.entered c key).scene := by
  rw [h.connect_eq]
  exact scene_foldl_resolveIn ..

theorem selection_eq_nil (h : (engine.inst i).graph.knows key = false) :
    engine.selection i c key = [] := by
  have hnone : (engine.scene.inst i).graph.get? key = none := by
    rw [← graph_inst_eq, ← Option.not_isSome_iff_eq_none, Graph.isSome_get?, h]
    exact Bool.false_ne_true
  simp [selection, Pass.outgoingOf_eq, Pass.incomingOf_eq, hnone]

/-- A connection calls for what its key selects. -/
theorem calls_connect (hlisted : engine.Listed) (hcompiled : engine.Compiled)
    (haccepts : engine.scene.Accepts) {requested : Option String}
    (henters : engine.Enters c requested key) (hi : i ∈ engine.live) (own : Nat → Bool) :
    (engine.connect c requested).1.calls i own = engine.calls i own ++
      (((engine.entered c key).selection i c key).filter fun candidate =>
        own candidate.id.index).flatMap ((engine.entered c key).scene.callsOf i) := by
  rw [henters.connect_eq, ← @calls_entered engine i own c key]
  cases hknows : ((engine.entered c key).inst i).graph.knows key with
  | true =>
    have hcompiled' : (engine.entered c key).Compiled := hcompiled
    exact calls_foldl_resolveIn hcompiled' haccepts (hlisted.nodup.filter _)
      (List.mem_filter.mpr ⟨hi, hknows⟩)
  | false =>
    rw [selection_eq_nil hknows, List.filter_nil, List.flatMap_nil, List.append_nil]
    refine calls_foldl_resolveIn_of_not_mem fun hmem => ?_
    exact Bool.false_ne_true (hknows.symm.trans (List.mem_filter.mp hmem).2)

/-- What a connection applies belongs to what its key selects or to one of its cues. -/
theorem Enters.mem_memo_connect (hlisted : engine.Listed) (hcompiled : engine.Compiled)
    {requested : Option String} (h : engine.Enters c requested key) {text : String}
    (hmem : text ∈ ((engine.connect c requested).1.inst i).memo) :
    text ∈ (engine.inst i).memo ∨
      (∃ candidate ∈ (engine.entered c key).selection i c key, candidate.memoKey = text) ∨
        ∃ cue ∈ (engine.entered c key).scene.cues i c key, cue.text = text := by
  have hcompiled' : (engine.entered c key).Compiled := hcompiled
  rw [h.connect_eq] at hmem
  exact mem_memo_foldl_resolveIn hcompiled' (hlisted.nodup.filter _) hmem

end Engine

end InteractionBinding
