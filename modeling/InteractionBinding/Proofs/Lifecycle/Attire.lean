import InteractionBinding.Proofs.Engine.Deeds
import InteractionBinding.Proofs.Lifecycle.Disconnecting
/-!
# The attire of controllers

A controller has adopted a stylesheet and holds the active effects of nodes. The host is told of
every stylesheet and of every list of active effects, and both are put on by two operations alone:
by adopting rules as a stylesheet, and by toggling an effect. Whatever else an engine does keeps the
attire of all its controllers and tells the host nothing about it, but for the controllers that it
releases (`Engine.changes_perform`).

## Main definitions

* `Engine.KeepsAttire` — nobody changes, and the host is not told of a change.
* `Engine.Change` — one change: the attire is kept, a controller arrives, one is released, or the
  engine stops. What a controller is released of depends on whether it is evicted, so that a change
  is relative to the releases that are admitted.
* `Engine.Dismisses` — an operation evicts a controller.
-/

namespace InteractionBinding

/-- Whether an event tells the host of the attire of a controller. -/
def Event.IsAttire : Event → Prop
  | .effectState .. | .insertSheet .. | .removeSheet _ => True
  | _ => False

/-- An entry that tells the host nothing about the attire of controllers. -/
def Entry.IsPlain (entry : Entry) : Prop := ∀ event ∈ entry.event?, ¬event.IsAttire

/-- The stylesheet that a controller has adopted, and the active effects that it holds. -/
def Controller.attire (controller : Controller) : Option SheetId × List (NodeId × List String) :=
  (controller.stylesheet, controller.activeEffects)

namespace Engine

variable {engine before middle after : Engine} {c d : ControllerId} {i : InstanceId}
  {key : String} {evict : Bool} {admits : ControllerId → Bool → Prop}

/-- One engine comes from another with the same controllers in the same attire. The host is not told
of any, and gives the next stylesheet the same name. -/
structure KeepsAttire (before after : Engine) : Prop where
  plain : Tells Entry.IsPlain before after
  controllers : after.controllers.map Controller.attire =
    before.controllers.map Controller.attire
  nextSheet : after.host.nextSheet = before.host.nextSheet
  running : after.running = before.running

namespace KeepsAttire

theorem refl (engine : Engine) : KeepsAttire engine engine := ⟨.silent rfl, rfl, rfl, rfl⟩

theorem trans (first : KeepsAttire before middle) (second : KeepsAttire middle after) :
    KeepsAttire before after :=
  ⟨first.plain.trans second.plain, second.controllers.trans first.controllers,
    second.nextSheet.trans first.nextSheet, second.running.trans first.running⟩

theorem foldl {α : Type} (f : Engine → α → Engine) (l : List α)
    (h : ∀ state, ∀ a ∈ l, KeepsAttire state (f state a)) (engine : Engine) :
    KeepsAttire engine (l.foldl f engine) :=
  List.foldlRecOn l f (.refl engine) fun state hstate a hmem => hstate.trans (h state a hmem)

/-- A change that neither tells anything nor touches a controller. -/
theorem aside (hlog : after.log = before.log)
    (hcontrollers : after.controllers = before.controllers)
    (hsheet : after.host.nextSheet = before.host.nextSheet)
    (hrunning : after.running = before.running) : KeepsAttire before after :=
  ⟨.silent hlog, congrArg _ hcontrollers, hsheet, hrunning⟩

theorem amend (engine : Engine) (c : ControllerId) {f : Controller → Controller}
    (hf : ∀ controller, (f controller).attire = controller.attire) :
    KeepsAttire engine (engine.modifyController c f) :=
  ⟨.silent rfl, map_modify_of_comp_eq Controller.attire f hf .., rfl, rfl⟩

theorem tell (engine : Engine) {event : Event} (h : ¬event.IsAttire) :
    KeepsAttire engine (engine.tell event) := by
  refine ⟨.single rfl fun other hother => ?_, rfl, rfl, rfl⟩
  rw [← Option.some.inj hother]
  exact h

theorem attire (h : KeepsAttire before after) (c : ControllerId) :
    (after.controller c).attire = (before.controller c).attire := by
  have hattire (engine : Engine) : (engine.controller c).attire =
      (engine.controllers.map Controller.attire).getD c (default : Controller).attire :=
    (List.getD_map _ _ Controller.attire).symm
  rw [hattire, hattire, h.controllers]

end KeepsAttire

/-! ### Resolving -/

theorem keepsAttire_watchChildList (engine : Engine) (c : ControllerId) (container : String)
    (item : Option String) : KeepsAttire engine (engine.watchChildList c container item).1 := by
  refine watchChildList_ind (.refl engine) fun node _ => ?_
  have hobserved : KeepsAttire engine { engine with
      host := (engine.host.observe ⟨node, c, container, item⟩).1 } := .aside rfl rfl rfl rfl
  exact hobserved.trans (.amend _ c fun _ => rfl)

theorem keepsAttire_listen (engine : Engine) (i : InstanceId) (id source target : String)
    (query : Query) (listener : QueryListener) :
    KeepsAttire engine (engine.listen i id source target query listener).1 :=
  listen_ind (.refl engine) (.aside rfl rfl rfl rfl)

theorem keepsAttire_markItem (engine : Engine) (c : ControllerId) (id : String) (item : NodeId) :
    KeepsAttire engine (engine.markItem c id item).1 :=
  markItem_ind (fun _ => .refl engine) (.amend engine c fun _ => rfl)

/-- A move changes nobody. What it tells is another matter, as it may tell anything. -/
theorem Move.attire (h : Move before after) :
    after.controllers.map Controller.attire = before.controllers.map Controller.attire ∧
      after.host.nextSheet = before.host.nextSheet := by
  have hkept (hkept : KeepsAttire before after) := And.intro hkept.controllers hkept.nextSheet
  cases h with
  | listen => exact hkept (keepsAttire_listen ..)
  | watch => exact hkept (keepsAttire_watchChildList ..)
  | markItem => exact hkept (keepsAttire_markItem ..)
  | tell | markApplied => exact ⟨rfl, rfl⟩

theorem Moves.keepsAttire (h : Moves before after) (hplain : Tells Entry.IsPlain before after) :
    KeepsAttire before after := by
  have hattire : after.controllers.map Controller.attire =
      before.controllers.map Controller.attire ∧
        after.host.nextSheet = before.host.nextSheet := by
    clear hplain
    induction h with
    | refl => exact ⟨rfl, rfl⟩
    | tail _ hstep ih => exact ⟨hstep.attire.1.trans ih.1, hstep.attire.2.trans ih.2⟩
  exact ⟨hplain, hattire.1, hattire.2, congrArg Scene.running h.scene⟩

theorem Pass.Wires.plain {pass : Pass} {selected : List Candidate}
    (h : pass.Wires selected before after) : Tells Entry.IsPlain before after := by
  obtain ⟨offers, -, hextends⟩ := h
  refine .of_extends hextends fun event hevent other hother => ?_
  obtain ⟨offer, -, rfl⟩ := List.mem_map.mp hevent
  rw [← Option.some.inj hother]
  exact id

theorem WiresSequences.plain {P : String → Prop} (h : WiresSequences i P before after) :
    Tells Entry.IsPlain before after := by
  obtain ⟨events, marked, hextends, hevents, -⟩ := h
  refine .of_extends hextends fun event hevent other hother => ?_
  rw [← Option.some.inj hother]
  have hsequence := hevents event hevent
  cases event with
  | addSequence => exact id
  | _ => exact hsequence.elim

theorem keepsAttire_resolveIn (hi : i < engine.instances.length)
    (hc : (engine.controller c).connected = true) (key : String) :
    KeepsAttire engine (resolveIn c key engine i) := by
  obtain ⟨middle, later, hout, hin, hsequences⟩ := resolveIn_spec c key engine i
  have hfiled : KeepsAttire engine (engine.setController i key c) := .aside rfl rfl rfl rfl
  refine hfiled.trans ((moves_resolveIn hi hc key).keepsAttire ?_)
  exact (hout.plain.trans hin.plain).trans hsequences.plain

theorem keepsAttire_resolve (hc : (engine.controller c).connected = true) (key : String) :
    KeepsAttire engine (engine.resolve c key).1 := by
  have hregister : KeepsAttire engine (engine.register key c).1 := .aside rfl rfl rfl rfl
  rw [resolve_eq]
  -- the scene does not change on the way, so the controller stays connected
  refine hregister.trans (List.foldlRecOn (motive := fun state =>
    KeepsAttire (engine.register key c).1 state ∧ state.scene = (engine.register key c).1.scene)
    _ _ ⟨.refl _, rfl⟩ fun state hstate i hmem => ?_).1
  obtain ⟨hkept, hscene⟩ := hstate
  have hi : i < state.instances.length := by
    rw [length_instances_eq (congrArg Scene.instances hscene)]
    exact lt_of_knows (List.mem_filter.mp hmem).2
  have hconnected : (state.controller c).connected = true :=
    (congrArg Controller.Face.connected (face_controller_eq hscene c)).trans hc
  exact ⟨hkept.trans (keepsAttire_resolveIn hi hconnected key),
    (scene_resolveIn ..).trans hscene⟩

theorem keepsAttire_addListItems (hc : (engine.controller c).connected = true)
    (key container : String) (added : List NodeId) :
    KeepsAttire engine (engine.addListItems c key container added) := by
  refine (moves_addListItems hc key container added).keepsAttire ?_
  refine List.foldlRecOn (motive := Tells Entry.IsPlain engine) _ _ (.silent rfl)
    fun state hstate i _ => hstate.trans ?_
  exact (Pass.resolveOutgoing_spec _ state c key).plain.trans
    (Pass.resolveIncoming_spec _ _ c key).plain

theorem keepsAttire_connect (engine : Engine) (c : ControllerId) (requested : Option String) :
    KeepsAttire engine (engine.connect c requested).1 := by
  refine connect_ind (.refl engine) fun key _ hc _ _ => ?_
  have hconnecting : KeepsAttire engine (engine.connecting c key) := .amend engine c fun _ => rfl
  exact hconnecting.trans (keepsAttire_resolve (by rw [controller_connecting_self hc]) key)

/-! ### Tables and the registry -/

theorem keepsAttire_forgetKey (engine : Engine) (i : InstanceId) (key : String) :
    KeepsAttire engine (engine.forgetKey i key) := by
  refine ⟨.single rfl fun event hevent => ?_, rfl, rfl, rfl⟩
  cases hevent

theorem keepsAttire_unsubscribeAll (engine : Engine) (listeners : List ConditionListener) :
    KeepsAttire engine (engine.unsubscribeAll listeners) :=
  .aside rfl rfl (List.foldlRecOn (motive := fun (host : Host) =>
    host.nextSheet = engine.host.nextSheet) listeners _ rfl fun _ h _ _ => h) rfl

theorem keepsAttire_unlistenKey (engine : Engine) (i : InstanceId) (key : String) :
    KeepsAttire engine (engine.unlistenKey i key) :=
  (keepsAttire_unsubscribeAll engine _).trans (.aside rfl rfl rfl rfl)

theorem keepsAttire_releaseController (engine : Engine) (i : InstanceId) (key : String)
    (c : ControllerId) : KeepsAttire engine (engine.releaseController i key c).1 :=
  releaseController_ind (.refl engine) fun _ => .aside rfl rfl rfl rfl

theorem keepsAttire_releaseKey (c : ControllerId) (key : String) (evict : Bool) (engine : Engine)
    (i : InstanceId) : KeepsAttire engine (releaseKey c key evict engine i) := by
  simp only [releaseKey]
  split
  · exact ((keepsAttire_forgetKey engine i key).trans (keepsAttire_releaseController ..)).trans
      (keepsAttire_unlistenKey ..)
  · exact keepsAttire_forgetKey engine i key

theorem keepsAttire_unregister (engine : Engine) (key : String) (c : ControllerId) :
    KeepsAttire engine (engine.unregister key c).1 :=
  unregister_ind (.refl engine) fun _ => .aside rfl rfl rfl rfl

theorem keepsAttire_teardown (engine : Engine) (nodes : List NodeId) :
    KeepsAttire engine (engine.teardown nodes) := by
  refine KeepsAttire.foldl _ _ (fun state event hevent => .tell state ?_) engine
  obtain ⟨handler, -, hevent⟩ := List.mem_flatMap.mp hevent
  obtain ⟨node, -, rfl⟩ := List.mem_map.mp hevent
  exact id

theorem keepsAttire_onChildList (observation : Observation) (added removed : List NodeId)
    (engine : Engine) : KeepsAttire engine (onChildList observation added removed engine) :=
  onChildList_ind (fun _ => .refl engine)
    (fun _ => (keepsAttire_teardown engine removed).trans (.amend _ _ fun _ => rfl))
    fun _ _ _ hconnected _ hforgot => hforgot.trans (keepsAttire_addListItems hconnected ..)

/-! ### Changes -/

/-- One change of the attire of controllers, with the releases that are admitted. -/
inductive Change (admits : ControllerId → Bool → Prop) : Engine → Engine → Prop
  | keep {before after : Engine} (h : KeepsAttire before after) : Change admits before after
  | arrive (engine : Engine) (node : NodeId) (useFirstChild : Bool) :
    Change admits engine (engine.newController node useFirstChild).1
  | release (engine : Engine) (c : ControllerId) (evict : Bool) (hadmits : admits c evict)
      (hrunning : engine.running = true) : Change admits engine (engine.releasedAtHost c evict)
  /-- A controller is released in an engine that has stopped, and the host does not learn of it. -/
  | lose (engine : Engine) (c : ControllerId) (evict : Bool) (hadmits : admits c evict)
      (hstopped : engine.running = false) :
    Change admits engine (engine.modifyController c (Controller.released · evict))
  | stop (engine : Engine) : Change admits engine { engine with running := false }

/-- Any number of changes. -/
abbrev Changes (admits : ControllerId → Bool → Prop) : Engine → Engine → Prop :=
  Relation.ReflTransGen (Change admits)

theorem KeepsAttire.changes (h : KeepsAttire before after) : Changes admits before after :=
  .single (.keep h)

namespace Changes

theorem trans (first : Changes admits before middle) (second : Changes admits middle after) :
    Changes admits before after :=
  Relation.ReflTransGen.trans first second

theorem foldl {α : Type} (f : Engine → α → Engine) (l : List α)
    (h : ∀ state, ∀ a ∈ l, Changes admits state (f state a)) (engine : Engine) :
    Changes admits engine (l.foldl f engine) :=
  List.foldlRecOn (motive := fun state => Changes admits engine state) l f .refl
    fun state hstate a hmem => hstate.trans (h state a hmem)

end Changes

/-- Apart from the release of the controller, a disconnection keeps the attire. -/
theorem changes_disconnect (hadmits : admits c evict) (engine : Engine) :
    Changes admits engine (engine.disconnect c evict) := by
  refine disconnect_ind (fun hstopped => .single (.lose engine c evict hadmits hstopped))
    (fun hrunning _ => .single (.release engine c evict hadmits hrunning)) fun key hrunning _ => ?_
  have hcleared := KeepsAttire.foldl (releaseKey c key evict) (engine.instancesFor key)
    (fun state i _ => keepsAttire_releaseKey c key evict state i) (engine.releasedAtHost c evict)
  dsimp only
  split
  · exact .head (.release engine c evict hadmits hrunning)
      (hcleared.trans (keepsAttire_unregister ..)).changes
  · exact .head (.release engine c evict hadmits hrunning) hcleared.changes

theorem changes_update (hsoft : admits c false) (engine : Engine) :
    Changes admits engine (engine.update c).1 :=
  (changes_disconnect hsoft engine).trans (keepsAttire_connect ..).changes

theorem changes_addNode (engine : Engine) (node : NodeId) (key : String) :
    Changes admits engine (engine.addNode node key).1 :=
  addNode_ind (P := fun result => Changes admits engine result.1)
    (fun _ _ _ => (keepsAttire_connect ..).changes)
    (.head (.arrive engine node false) (keepsAttire_connect ..).changes)

theorem keepsAttire_create (engine : Engine) (config : Config) :
    KeepsAttire engine (engine.create config).1 := by
  have hfound : KeepsAttire engine { engine with
      instances := engine.instances ++ [Instance.ofConfig config]
      live := engine.live ++ [engine.instances.length] } := .aside rfl rfl rfl rfl
  refine hfound.trans (KeepsAttire.foldl _ _ (fun state c _ => ?_) _)
  exact resolveForInstance_ind (.refl state) fun key hconnected _ _ =>
    keepsAttire_resolve hconnected key

theorem changes_foldl_disconnect (hsoft : ∀ c, admits c false) (controllers : List ControllerId)
    (engine : Engine) : Changes admits engine
      (controllers.foldl (fun engine c => engine.disconnect c false) engine) :=
  Changes.foldl _ _ (fun state c _ => changes_disconnect (hsoft c) state) engine

theorem changes_destroyInstance (hsoft : ∀ c, admits c false) (engine : Engine) (i : InstanceId) :
    Changes admits engine (engine.destroyInstance i) := by
  simp only [destroyInstance]
  split
  · exact .refl
  · have hcondemned : KeepsAttire engine ((engine.modifyInstance i
        Instance.condemned).unsubscribeAll (engine.inst i).listeners) :=
      have hended : KeepsAttire engine (engine.modifyInstance i Instance.condemned) :=
        .aside rfl rfl rfl rfl
      hended.trans (keepsAttire_unsubscribeAll ..)
    exact (hcondemned.changes.trans (changes_foldl_disconnect hsoft ..)).tail
      (.keep (.aside rfl rfl rfl rfl))

theorem changes_destroy (hsoft : ∀ c, admits c false) (engine : Engine) :
    Changes admits engine engine.destroy := by
  have hended : Changes admits engine (engine.live.foldl destroyInstance engine) :=
    Changes.foldl _ _ (fun state i _ => changes_destroyInstance hsoft state i) engine
  have hforgot : KeepsAttire (engine.live.foldl destroyInstance engine)
      { engine.live.foldl destroyInstance engine with registry := .empty } := .aside rfl rfl rfl rfl
  exact (hended.tail (.keep hforgot)).trans (changes_foldl_disconnect hsoft ..)

theorem changes_setQuery (hsoft : ∀ c, admits c false) (engine : Engine) (query : Query)
    (isMatch : Bool) : Changes admits engine (engine.setQuery query isMatch).1 :=
  setQuery_ind .refl (KeepsAttire.changes (.aside rfl rfl rfl rfl))
    fun state _ c _ hstate => hstate.trans (changes_update (hsoft c) state)

/-! ### Operations -/

/-- An operation dismisses a controller: it evicts the controller, or removes the key that the
controller is registered under. -/
def Dismisses (engine : Engine) (c : ControllerId) : Operation → Prop
  | .disconnect d evict => evict = true ∧ d = c
  | .removeKey key => engine.running = true ∧ engine.registry.get? key = some c
  | _ => False

/-- An operation that neither toggles an effect nor adopts a stylesheet makes a few changes. It
evicts only those whom it dismisses. -/
theorem changes_perform {operation : Operation} (hsoft : ∀ c, admits c false)
    (hevict : ∀ c, engine.Dismisses c operation → admits c true)
    (htoggle : ∀ c effectId action item, operation ≠ .toggle c effectId action item)
    (hstyle : ∀ c rules, operation ≠ .style c rules) :
    Changes admits engine (engine.perform operation).1 := by
  have hwhen {result : Engine × Answer}
      (hresult : engine.running = true → Changes admits engine result.1) :
      Changes admits engine (engine.whenRunning result).1 :=
    whenRunning_ind .refl hresult
  cases operation with
  | toggle c effectId action item => exact absurd rfl (htoggle c effectId action item)
  | style c rules => exact absurd rfl (hstyle c rules)
  | readDocument | answerWith => exact .single (.keep (.aside rfl rfl rfl rfl))
  | stop => exact .single (.stop engine)
  | setQuery query isMatch => exact changes_setQuery hsoft ..
  | childListChanged container added removed =>
    exact (KeepsAttire.foldl _ _
      (fun state entry _ => keepsAttire_onChildList entry.2 added removed state) _).changes
  | connect c requested => exact (keepsAttire_connect ..).changes
  | disconnect c evict =>
    refine changes_disconnect ?_ engine
    cases evict with
    | false => exact hsoft c
    | true => exact hevict c ⟨rfl, rfl⟩
  | update c => exact changes_update (hsoft c) engine
  | watch c container item =>
    rw [perform]
    split
    · exact (keepsAttire_watchChildList ..).changes
    · exact .refl
  | destroyInstance i => exact changes_destroyInstance hsoft ..
  | markApplied | setController | deleteController => exact .single (.keep (.aside rfl rfl rfl rfl))
  | unlistenKey i key => exact (keepsAttire_unlistenKey ..).changes
  | clearKey i key => exact (keepsAttire_forgetKey ..).changes
  | listen => exact (keepsAttire_listen ..).changes
  | releaseController i key c => exact (keepsAttire_releaseController ..).changes
  | create config => exact hwhen fun _ => (keepsAttire_create ..).changes
  | addNode node key => exact hwhen fun _ => changes_addNode ..
  | newController node useFirstChild => exact hwhen fun _ => .single (.arrive ..)
  | removeKey key =>
    exact hwhen fun hrunning => removeKey_ind .refl fun c hget =>
      changes_disconnect (hevict c ⟨hrunning, hget⟩) engine
  | destroy => exact hwhen fun _ => changes_destroy hsoft engine
  | register key c => exact hwhen fun _ => .single (.keep (.aside rfl rfl rfl rfl))
  | unregister key c => exact hwhen fun _ => (keepsAttire_unregister ..).changes
  | active | ownedNodes | anchor | usesFirstChild | isApplied | interactionIds | controllerCount =>
    exact .refl
  | instances | instancesFor | instanceFor | controllerFor | reducedMotion | mediaMatches
  | connectedFor | isRegistered => exact hwhen fun _ => .refl

end Engine

end InteractionBinding
