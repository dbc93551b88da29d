import InteractionBinding.Proofs.Engine.Listening
import InteractionBinding.Proofs.Engine.Steps
/-!
# The moves of a pass

Whatever a pass does to an engine is a sequence of a few moves (`Engine.Move`): it listens on behalf
of its instance, watches a container below a connected controller, marks an item or an id, or tells
the host of an event. No move changes the scene (`Engine.Moves.scene`), or the controllers that
instances know (`Engine.Moves.table`).
-/

namespace InteractionBinding.Engine

variable {before middle after engine : Engine} {c : ControllerId} {i : InstanceId}

/-- One move of a pass. -/
inductive Move : Engine → Engine → Prop
  | listen (engine : Engine) (i : InstanceId) (id source target : String) (query : Query)
      (listener : QueryListener) (h : i < engine.instances.length) :
    Move engine (engine.listen i id source target query listener).1
  | watch (engine : Engine) (c : ControllerId) (container : String) (item : Option String)
      (h : (engine.controller c).connected = true) :
    Move engine (engine.watchChildList c container item).1
  | markItem (engine : Engine) (c : ControllerId) (id : String) (item : NodeId) :
    Move engine (engine.markItem c id item).1
  | tell (engine : Engine) (event : Event) : Move engine (engine.tell event)
  | markApplied (engine : Engine) (i : InstanceId) (id : String) :
    Move engine (engine.modifyInstance i (·.markApplied id))

/-- Any number of moves. -/
abbrev Moves : Engine → Engine → Prop := Relation.ReflTransGen Move

theorem Move.scene (h : Move before after) : after.scene = before.scene := by
  cases h with
  | listen => exact scene_listen ..
  | watch => exact scene_watchChildList ..
  | markItem => exact scene_markItem ..
  | tell => rfl
  | markApplied => exact scene_markApplied ..

/-! ### The tables of instances -/

theorem table_modifyInstance (j : InstanceId) {f : Instance → Instance}
    (hf : ∀ inst, (f inst).controllers = inst.controllers) (i : InstanceId) :
    ((engine.modifyInstance j f).inst i).controllers = (engine.inst i).controllers := by
  rw [inst_modifyInstance_eq]
  split
  · exact hf _
  · rfl

theorem table_listen (j : InstanceId) (id source target : String) (query : Query)
    (listener : QueryListener) (i : InstanceId) :
    ((engine.listen j id source target query listener).1.inst i).controllers =
      (engine.inst i).controllers := by
  refine listen_ind (P := fun after : Engine => (after.inst i).controllers = _) rfl ?_
  rw [inst_modifyInstance_eq]
  split <;> rfl

theorem table_watchChildList (c : ControllerId) (container : String) (item : Option String)
    (i : InstanceId) : ((engine.watchChildList c container item).1.inst i).controllers =
      (engine.inst i).controllers :=
  watchChildList_ind (P := fun after : Engine => (after.inst i).controllers = _) rfl fun _ _ => rfl

theorem table_markApplied (j : InstanceId) (id : String) (i : InstanceId) :
    ((engine.modifyInstance j (·.markApplied id)).inst i).controllers =
      (engine.inst i).controllers := by
  refine table_modifyInstance j (fun inst => ?_) i
  rw [Instance.markApplied]
  split <;> rfl

/-- The controllers that an instance knows stay as they are. -/
theorem Move.table (h : Move before after) (i : InstanceId) :
    (after.inst i).controllers = (before.inst i).controllers := by
  cases h with
  | listen => exact table_listen ..
  | watch => exact table_watchChildList ..
  | markItem =>
    exact markItem_ind (P := fun after : Engine => (after.inst i).controllers = _) (fun _ => rfl)
      rfl
  | tell => rfl
  | markApplied => exact table_markApplied ..

/-! ### Sequences of moves -/

namespace Moves

theorem trans (first : Moves before middle) (second : Moves middle after) : Moves before after :=
  Relation.ReflTransGen.trans first second

theorem scene (h : Moves before after) : after.scene = before.scene := by
  induction h with
  | refl => rfl
  | tail _ hstep ih => exact hstep.scene.trans ih

theorem table (h : Moves before after) (i : InstanceId) :
    (after.inst i).controllers = (before.inst i).controllers := by
  induction h with
  | refl => rfl
  | tail _ hstep ih => exact (hstep.table i).trans ih

theorem lt_instances (h : Moves before after) (hi : i < before.instances.length) :
    i < after.instances.length :=
  Nat.lt_of_lt_of_eq hi (length_instances_eq (congrArg Scene.instances h.scene)).symm

theorem connected (h : Moves before after) (hc : (before.controller c).connected = true) :
    (after.controller c).connected = true :=
  (congrArg Controller.Face.connected (face_controller_eq h.scene c)).trans hc

theorem foldl {α : Type} (f : Engine → α → Engine) (l : List α)
    (h : ∀ state, Moves engine state → ∀ a ∈ l, Moves state (f state a)) :
    Moves engine (l.foldl f engine) :=
  List.foldlRecOn (motive := fun state => Moves engine state) l f .refl
    fun state hstate a hmem => hstate.trans (h state hstate a hmem)

end Moves

/-- A connected controller exists. -/
theorem lt_of_connected (h : (engine.controller c).connected = true) :
    c < engine.controllers.length := by
  by_contra hlength
  rw [controller, List.getD_eq_getElem?_getD, List.getElem?_eq_none (Nat.not_lt.mp hlength)] at h
  cases h

theorem connected_of_connectedController? {key : String}
    (h : engine.connectedController? key = some c) : (engine.controller c).connected = true :=
  (Option.filter_eq_some_iff.mp h).2

namespace Pass

variable {pass : Pass} {key : String}

theorem moves_gateFor (hi : pass.instanceId < engine.instances.length)
    (memoKey source target : String) (lists : List (List String)) :
    Moves engine (pass.gateFor engine memoKey source target lists).1 :=
  Moves.foldl _ _ fun state hstate _ _ =>
    .single (.listen state _ _ _ _ _ _ (hstate.lt_instances hi))

theorem moves_watchRule (pass : Pass) (hc : (engine.controller c).connected = true) (rule : Rule) :
    Moves engine (pass.watchRule engine c rule) := by
  rw [watchRule]
  split
  · split
    · exact .single (.watch _ _ _ _ hc)
    · exact .refl
  · exact .refl

theorem moves_listItems (pass : Pass) (hc : (engine.controller c).connected = true)
    (container : String) (item : Option String) :
    Moves engine (pass.listItems engine c container item).1 := by
  rw [listItems]
  split
  · exact .refl
  · split
    · exact .refl
    · exact .single (.watch _ _ _ _ hc)

theorem moves_effectNodes (pass : Pass) (hc : (engine.controller c).connected = true)
    (effect : Effect) : Moves engine (pass.effectNodes engine c effect).1 := by
  rw [effectNodes]
  split
  · exact .refl
  · split
    · exact pass.moves_listItems hc ..
    · exact .refl

/-! ### Wiring -/

/-- Both sides of a candidate are connected. -/
structure Meets (engine : Engine) (candidate : Candidate) : Prop where
  source : (engine.controller candidate.source).connected = true
  target : (engine.controller candidate.target).connected = true

theorem moves_pairs (pass : Pass) {candidate : Candidate} (h : Meets engine candidate) :
    Moves engine (pass.pairs engine candidate).1 := by
  simp only [pairs]
  split
  · split
    · exact pass.moves_listItems h.source ..
    · exact pass.moves_listItems h.target ..
    · exact .refl
  · exact .refl

theorem moves_wirePair (pass : Pass) (handler : HandlerId) (candidate : Candidate)
    (context : HandlerContext) (progress : Progress) (pair : NodePair) :
    Moves progress.engine (pass.wirePair handler candidate context progress pair).engine := by
  have hdecide : Moves progress.engine
      (pass.decideItem candidate progress pair.item).1.engine := by
    cases pair.item with
    | none => exact .refl
    | some item =>
      simp only [decideItem]
      split
      · exact .refl
      · exact .single (.markItem ..)
  simp only [wirePair]
  split
  · exact hdecide.tail (.tell ..)
  · exact hdecide

theorem moves_applyCandidate (pass : Pass) {candidate : Candidate} (h : Meets engine candidate) :
    Moves engine (pass.applyCandidate engine candidate) := by
  simp only [applyCandidate]
  split
  · exact .refl
  next handler _ =>
    have hwired : Moves engine ((pass.pairs engine candidate).2.foldl
        (pass.wirePair handler candidate (handlerContext engine candidate.id
          (some candidate.target) candidate.gate candidate.rule))
        ⟨(pass.pairs engine candidate).1, [], false⟩).engine :=
      List.foldlRecOn (motive := fun progress : Progress => Moves engine progress.engine) _ _
        (pass.moves_pairs h) fun progress hprogress pair _ =>
          hprogress.trans (pass.moves_wirePair ..)
    split
    · exact hwired.tail (.markApplied ..)
    · exact hwired

theorem moves_applySelected (pass : Pass) {selected : List Candidate}
    (h : ∀ candidate ∈ selected, Meets engine candidate) :
    Moves engine (pass.applySelected engine selected) := by
  refine Moves.foldl _ _ fun state hstate candidate hmem => pass.moves_applyCandidate ?_
  obtain ⟨hsource, htarget⟩ := h candidate (List.mem_reverse.mp hmem)
  exact ⟨hstate.connected hsource, hstate.connected htarget⟩

/-! ### The two sides of a key -/

theorem meets_of_outgoing? (hc : (engine.controller c).connected = true) {rule : Rule}
    {effect : CompiledEffect} {candidate : Candidate}
    (h : pass.outgoing? engine c key rule effect = some candidate) : Meets engine candidate := by
  obtain ⟨target, -, -, htarget, -, rfl⟩ := outgoing?_eq_some.mp h
  rw [targetController?] at htarget
  split at htarget
  · exact ⟨hc, Option.some.inj htarget ▸ hc⟩
  · exact ⟨hc, connected_of_connectedController? htarget⟩

theorem meets_of_incoming? (hc : (engine.controller c).connected = true) {entry : TargetEffects}
    {candidate : Candidate} (h : pass.incoming? engine c key entry = some candidate) :
    Meets engine candidate := by
  obtain ⟨variant, source, -, -, hsource, -, rfl⟩ := incoming?_eq_some.mp h
  exact ⟨connected_of_connectedController? hsource, hc⟩

theorem moves_listenInteraction (hi : pass.instanceId < engine.instances.length)
    (hc : (engine.controller c).connected = true) (interaction : CompiledInteraction) :
    Moves engine (pass.listenInteraction c key engine interaction) := by
  have hwatch := pass.moves_watchRule hc interaction.rule
  refine hwatch.trans (Moves.foldl _ _ fun state hstate effect _ => ?_)
  exact moves_gateFor ((hwatch.trans hstate).lt_instances hi) ..

theorem moves_resolveOutgoing (pass : Pass) (hi : pass.instanceId < engine.instances.length)
    (hc : (engine.controller c).connected = true) (key : String) :
    Moves engine (pass.resolveOutgoing engine c key) := by
  cases hnode : pass.node? engine key with
  | none =>
    simp only [resolveOutgoing, hnode]
    exact .refl
  | some node =>
    obtain ⟨-, heq⟩ := @resolveOutgoing_eq engine pass c key node hnode
    rw [heq, fst_foldl_selectInteraction]
    have hheard : Moves engine (node.triggers.foldl (pass.listenInteraction c key) engine) :=
      Moves.foldl _ _ fun state hstate interaction _ =>
        moves_listenInteraction (hstate.lt_instances hi) (hstate.connected hc) interaction
    refine hheard.trans (pass.moves_applySelected fun candidate hmem => ?_)
    obtain ⟨interaction, -, hmem⟩ := List.mem_flatMap.mp (mem_offered_of_mem_outgoing hmem)
    obtain ⟨effect, -, houtgoing⟩ := List.mem_filterMap.mp hmem
    obtain ⟨hsource, htarget⟩ := meets_of_outgoing? hc houtgoing
    exact ⟨hheard.connected hsource, hheard.connected htarget⟩

theorem moves_firstOpen (hi : pass.instanceId < engine.instances.length)
    (key memoKey : String) (variants : List Variant) :
    Moves engine (pass.firstOpen key memoKey engine variants).1 := by
  induction variants generalizing engine with
  | nil => exact .refl
  | cons variant rest ih =>
    have hgate := moves_gateFor hi memoKey
      (KeyTemplate.interpolate variant.rule.key (KeyTemplate.indices key)) key
      [variant.rule.conditions, variant.effect.effect.conditions]
    rw [firstOpen_cons]
    dsimp only
    split
    · exact hgate
    · exact hgate.trans (ih (hgate.lt_instances hi))

theorem moves_resolveIncoming (pass : Pass) (hi : pass.instanceId < engine.instances.length)
    (hc : (engine.controller c).connected = true) (key : String) :
    Moves engine (pass.resolveIncoming engine c key) := by
  cases hnode : pass.node? engine key with
  | none =>
    simp only [resolveIncoming, hnode]
    exact .refl
  | some node =>
    obtain ⟨-, heq⟩ := @resolveIncoming_eq engine pass c key node hnode
    rw [heq, fst_foldl_selectIncoming]
    have hheard : Moves engine (node.effects.foldl (pass.listenIncoming key) engine) := by
      refine Moves.foldl _ _ fun state hstate entry _ => ?_
      rw [listenIncoming]
      split
      · exact .refl
      · exact moves_firstOpen (hstate.lt_instances hi) ..
    refine hheard.trans (pass.moves_applySelected fun candidate hmem => ?_)
    obtain ⟨entry, -, hincoming⟩ := List.mem_filterMap.mp hmem
    obtain ⟨hsource, htarget⟩ := meets_of_incoming? hc hincoming
    exact ⟨hheard.connected hsource, hheard.connected htarget⟩

/-! ### Sequences -/

theorem moves_wireSequence (pass : Pass) (handler : HandlerId) (plan : SequencePlan)
    (params : KeyMap Json) (context : HandlerContext) (engine : Engine) (nodes : List NodeId) :
    Moves engine (pass.wireSequence handler plan params context engine nodes).1 := by
  rw [wireSequence]
  exact List.foldlRecOn (motive := fun state : Engine × Bool => Moves engine state.1) nodes _
    .refl fun state hstate node _ => hstate.tail (.tell ..)

theorem moves_sequenceMembers (hi : pass.instanceId < engine.instances.length)
    {source : ControllerId} (hsource : (engine.controller source).connected = true)
    (sourceKey memoKey : String) (rule : Rule) (effects : List CompiledEffect) :
    Moves engine (pass.sequenceMembers source sourceKey memoKey rule engine effects).1 := by
  induction effects generalizing engine with
  | nil => exact .refl
  | cons effect rest ih =>
    have hgate := moves_gateFor hi memoKey sourceKey
      (KeyTemplate.interpolate effect.target (KeyTemplate.indices sourceKey))
      [effect.effect.conditions]
    simp only [sequenceMembers]
    split
    · exact hgate.trans (ih (hgate.lt_instances hi) (hgate.connected hsource))
    · split
      · exact hgate
      next target htarget =>
        have hconnected : ((pass.gateFor engine memoKey sourceKey
            (KeyTemplate.interpolate effect.target (KeyTemplate.indices sourceKey))
            [effect.effect.conditions]).1.controller target).connected = true := by
          split at htarget
          · exact Option.some.inj htarget ▸ hgate.connected hsource
          · exact connected_of_connectedController? htarget
        have hnodes := hgate.trans (pass.moves_effectNodes hconnected effect.effect)
        have hrest := hnodes.trans (ih (hnodes.lt_instances hi) (hnodes.connected hsource))
        split
        · exact hrest
        · exact hrest

theorem moves_applySequence (hi : pass.instanceId < engine.instances.length)
    {source : ControllerId} (hsource : (engine.controller source).connected = true)
    (sourceKey : String) (rule : Rule) (sequence : CompiledSequence) :
    Moves engine (pass.applySequence source sourceKey rule engine sequence) := by
  simp only [applySequence]
  have hgate := moves_gateFor hi
    (sequence.id.interpolate (KeyTemplate.indices sourceKey)).encode sourceKey sourceKey
    [rule.conditions, sequence.conditions]
  split
  · exact .refl
  · split
    · exact hgate
    · have hmembers := hgate.trans (moves_sequenceMembers (hgate.lt_instances hi)
        (hgate.connected hsource) sourceKey
        (sequence.id.interpolate (KeyTemplate.indices sourceKey)).encode rule sequence.effects)
      split
      next heard hresult => simpa only [hresult] using hmembers
      next heard hresult => simpa only [hresult] using hmembers
      next heard members _ hresult =>
        simp only [hresult] at hmembers
        split
        · split
          · exact (hmembers.trans (pass.moves_wireSequence ..)).tail (.markApplied ..)
          · exact hmembers.trans (pass.moves_wireSequence ..)
        · exact hmembers

theorem moves_resolveOutgoingSequences (pass : Pass)
    (hi : pass.instanceId < engine.instances.length) (hc : (engine.controller c).connected = true)
    (key : String) : Moves engine (pass.resolveOutgoingSequences engine c key) := by
  simp only [resolveOutgoingSequences]
  split
  · exact .refl
  · refine Moves.foldl _ _ fun state hstate interaction _ => ?_
    refine Moves.foldl _ _ fun state' hstate' sequence _ => ?_
    have hmoves := hstate.trans hstate'
    exact moves_applySequence (hmoves.lt_instances hi) (hmoves.connected hc) ..

theorem moves_resolveLink (hi : pass.instanceId < engine.instances.length) (c : ControllerId)
    (key : String) (link : SequenceLink) : Moves engine (pass.resolveLink c key engine link) := by
  simp only [resolveLink]
  split
  next source node hsource _ =>
    split
    · exact .refl
    · refine Moves.foldl _ _ fun state hstate interaction _ => ?_
      split
      · exact moves_applySequence (hstate.lt_instances hi)
          (hstate.connected (connected_of_connectedController? hsource)) ..
      · exact .refl
  next => exact .refl

theorem moves_resolveIncomingSequences (pass : Pass)
    (hi : pass.instanceId < engine.instances.length) (c : ControllerId) (key : String) :
    Moves engine (pass.resolveIncomingSequences engine c key) := by
  simp only [resolveIncomingSequences]
  split
  · exact .refl
  · refine Moves.foldl _ _ fun state hstate link _ => ?_
    exact moves_resolveLink (hstate.lt_instances hi) ..

end Pass

/-! ### Resolving -/

/-- Apart from the table of the instance, resolving a key in an instance is a sequence of moves. -/
theorem moves_resolveIn (hi : i < engine.instances.length)
    (hc : (engine.controller c).connected = true) (key : String) :
    Moves (engine.setController i key c) (resolveIn c key engine i) := by
  have hi' : i < (engine.setController i key c).instances.length :=
    Nat.lt_of_lt_of_eq hi (List.length_modify ..).symm
  have hout := Pass.moves_resolveOutgoing ⟨i, none⟩ hi' hc key
  have hin := hout.trans (Pass.moves_resolveIncoming ⟨i, none⟩ (hout.lt_instances hi')
    (hout.connected hc) key)
  have hown := hin.trans (Pass.moves_resolveOutgoingSequences ⟨i, none⟩ (hin.lt_instances hi')
    (hin.connected hc) key)
  exact hown.trans (Pass.moves_resolveIncomingSequences ⟨i, none⟩ (hown.lt_instances hi') c key)

theorem moves_addListItems (hc : (engine.controller c).connected = true) (key container : String)
    (added : List NodeId) : Moves engine (engine.addListItems c key container added) := by
  refine Moves.foldl _ _ fun state hstate i hmem => ?_
  have hi := hstate.lt_instances (lt_of_knows (List.mem_filter.mp hmem).2)
  have hout := Pass.moves_resolveOutgoing ⟨i, some ⟨c, container, added⟩⟩ hi
    (hstate.connected hc) key
  exact hout.trans (Pass.moves_resolveIncoming _ (hout.lt_instances hi)
    ((hstate.trans hout).connected hc) key)

end InteractionBinding.Engine
