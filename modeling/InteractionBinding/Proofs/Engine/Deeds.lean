import InteractionBinding.Proofs.Engine.Connecting
import InteractionBinding.Proofs.Engine.Moves
import InteractionBinding.Proofs.Wiring.Releasing
/-!
# The deeds of an engine

Every operation is a sequence of a few deeds (`Engine.deeds_perform`): a pass makes a move, a table
or the registry is rewritten, a controller arrives, is amended or is released, an instance is
founded, condemned or retired, and the host answers otherwise. What is booked at the host and in the
engine at the same time is derived from what single deeds do to both books.

The operations that are left out are those that stop the engine, and those that ask an instance that
does not exist or a controller that is not connected to subscribe.
-/

namespace InteractionBinding.Engine

variable {engine before middle after : Engine} {c : ControllerId} {i : InstanceId} {key : String}

/-- One deed of an engine. -/
inductive Deed : Engine → Engine → Prop
  | move {before after : Engine} (h : Move before after) : Deed before after
  /-- The host reads another document, answers otherwise, or counts its stylesheets. -/
  | answer (engine : Engine) (host : Host)
      (hsubscriptions : host.subscriptions = engine.host.subscriptions)
      (hobservations : host.observations = engine.host.observations) :
    Deed engine { engine with host := host }
  | enlist (engine : Engine) (registry : KeyMap ControllerId) :
    Deed engine { engine with registry := registry }
  | file (engine : Engine) (i : InstanceId) (f : KeyMap ControllerId → KeyMap ControllerId) :
    Deed engine (engine.modifyInstance i fun inst => { inst with controllers := f inst.controllers })
  | arrive (engine : Engine) (node : NodeId) (useFirstChild : Bool) :
    Deed engine (engine.newController node useFirstChild).1
  /-- A controller changes, but for what it observes, and stays connected if it was. -/
  | amend (engine : Engine) (c : ControllerId) (f : Controller → Controller)
      (hobservers : ∀ controller, (f controller).observers = controller.observers)
      (hconnected : ∀ controller, controller.connected = true → (f controller).connected = true) :
    Deed engine (engine.modifyController c f)
  | release (engine : Engine) (c : ControllerId) (evict : Bool) (h : engine.running = true) :
    Deed engine (engine.releasedAtHost c evict)
  /-- A controller is released in an engine that has stopped, behind the back of the host. -/
  | lose (engine : Engine) (c : ControllerId) (evict : Bool) (h : engine.running = false) :
    Deed engine (engine.modifyController c (Controller.released · evict))
  | forget (engine : Engine) (i : InstanceId) (key : String) : Deed engine (engine.forgetKey i key)
  | unlisten (engine : Engine) (i : InstanceId) (key : String) :
    Deed engine (engine.unlistenKey i key)
  | found (engine : Engine) (config : Config) :
    Deed engine { engine with
      instances := engine.instances ++ [Instance.ofConfig config]
      live := engine.live ++ [engine.instances.length] }
  | condemn (engine : Engine) (i : InstanceId) :
    Deed engine
      ((engine.modifyInstance i Instance.condemned).unsubscribeAll (engine.inst i).listeners)
  | retire (engine : Engine) (i : InstanceId)
      (h : i < engine.instances.length → (engine.inst i).destroyed = true) :
    Deed engine
      { engine.modifyInstance i fun inst => { inst with memo := [] } with
        live := engine.live.filter fun other => other ≠ i }

/-- Any number of deeds. -/
abbrev Deeds : Engine → Engine → Prop := Relation.ReflTransGen Deed

/-! ### Single deeds -/

theorem Move.running (h : Move before after) : after.running = before.running :=
  congrArg Scene.running h.scene

theorem scene_releasedAtHost (engine : Engine) (c : ControllerId) (evict : Bool) :
    (engine.releasedAtHost c evict).scene =
      (engine.modifyController c (Controller.released · evict)).scene :=
  (drops_releaseHost ..).scene

/-- No deed stops an engine. -/
theorem Deed.running (h : Deed before after) : after.running = before.running := by
  cases h with
  | move h => exact h.running
  | release => exact congrArg Scene.running (scene_releasedAtHost ..)
  | _ => rfl

/-- No deed takes an instance away. -/
theorem Deed.length_le (h : Deed before after) :
    before.instances.length ≤ after.instances.length := by
  have hscene (heq : after.scene.instances = before.scene.instances) :
      before.instances.length ≤ after.instances.length :=
    Nat.le_of_eq (length_instances_eq heq).symm
  cases h with
  | move h => exact hscene (congrArg Scene.instances h.scene)
  | release c evict =>
    exact hscene ((congrArg Scene.instances (scene_releasedAtHost before c evict)).trans rfl)
  | answer | enlist | arrive | amend | lose => exact Nat.le_refl _
  | found config => exact (List.sublist_append_left ..).length_le
  | file | forget | unlisten | condemn | retire => exact Nat.le_of_eq (List.length_modify ..).symm

namespace Deeds

theorem trans (first : Deeds before middle) (second : Deeds middle after) : Deeds before after :=
  Relation.ReflTransGen.trans first second

theorem running (h : Deeds before after) : after.running = before.running := by
  induction h with
  | refl => rfl
  | tail _ hstep ih => exact hstep.running.trans ih

theorem lt_instances (h : Deeds before after) (hi : i < before.instances.length) :
    i < after.instances.length := by
  induction h with
  | refl => exact hi
  | tail _ hstep ih => exact Nat.lt_of_lt_of_le ih hstep.length_le

theorem foldl {α : Type} (f : Engine → α → Engine) (l : List α)
    (h : ∀ state, Deeds engine state → ∀ a ∈ l, Deeds state (f state a)) :
    Deeds engine (l.foldl f engine) :=
  List.foldlRecOn (motive := fun state => Deeds engine state) l f .refl
    fun state hstate a hmem => hstate.trans (h state hstate a hmem)

/-- What every deed keeps in a running engine is kept by a sequence of deeds. -/
theorem keeps {P : Engine → Prop} (hdeeds : Deeds before after)
    (hdeed : ∀ before after, Deed before after → before.running = true → P before → P after)
    (hrunning : before.running = true) (h : P before) : P after := by
  induction hdeeds with
  | refl => exact h
  | tail hfirst hstep ih => exact hdeed _ _ hstep ((running hfirst).trans hrunning) ih

/-- Telling events is a sequence of deeds. -/
theorem tell (engine : Engine) (events : List Event) :
    Deeds engine (events.foldl Engine.tell engine) :=
  foldl _ _ fun state _ event _ => .single (.move (.tell state event))

end Deeds

theorem Moves.deeds (h : Moves before after) : Deeds before after := by
  induction h with
  | refl => exact .refl
  | tail _ hstep ih => exact ih.tail (.move hstep)

/-! ### Connecting and disconnecting -/

theorem deeds_resolve (hc : (engine.controller c).connected = true) (key : String) :
    Deeds engine (engine.resolve c key).1 := by
  refine .head (.enlist engine (engine.registry.insert key c)) ?_
  -- a pass for the key leaves the controller connected, as it does not change the scene
  refine (List.foldlRecOn (motive := fun state => Deeds (engine.register key c).1 state ∧
    (state.controller c).connected = true) _ _ ⟨.refl, hc⟩ fun state hboth i hmem => ?_).1
  obtain ⟨hstate, hc⟩ := hboth
  have hi := hstate.lt_instances (lt_of_knows (List.mem_filter.mp hmem).2)
  have hmoves := moves_resolveIn hi hc key
  exact ⟨hstate.trans (.head (.file state i (·.insert key c)) hmoves.deeds), hmoves.connected hc⟩

theorem deeds_connect (engine : Engine) (c : ControllerId) (requested : Option String) :
    Deeds engine (engine.connect c requested).1 := by
  refine connect_ind .refl fun key _ hc _ _ => ?_
  have hconnecting : Deed engine (engine.connecting c key) :=
    .amend engine c _ (fun _ => rfl) fun _ _ => rfl
  exact .head hconnecting (deeds_resolve (by rw [controller_connecting_self hc]) key)

theorem deeds_releaseController (engine : Engine) (i : InstanceId) (key : String)
    (c : ControllerId) : Deeds engine (engine.releaseController i key c).1 :=
  releaseController_ind .refl fun _ => .single (.file engine i (·.erase key))

theorem deeds_releaseKey (c : ControllerId) (key : String) (evict : Bool) (engine : Engine)
    (i : InstanceId) : Deeds engine (releaseKey c key evict engine i) := by
  have hforget : Deeds engine (engine.forgetKey i key) := .single (.forget ..)
  simp only [releaseKey]
  split
  · exact (hforget.trans (deeds_releaseController _ i key c)).tail (.unlisten ..)
  · exact hforget

theorem deeds_unregister (engine : Engine) (key : String) (c : ControllerId) :
    Deeds engine (engine.unregister key c).1 :=
  unregister_ind .refl fun _ => .single (.enlist ..)

theorem deeds_disconnect (engine : Engine) (c : ControllerId) (evict : Bool) :
    Deeds engine (engine.disconnect c evict) := by
  refine disconnect_ind (fun hstopped => .single (.lose engine c evict hstopped))
    (fun hrunning _ => .single (.release engine c evict hrunning)) fun key hrunning _ => ?_
  have hcleared := Relation.ReflTransGen.head (.release engine c evict hrunning)
    (Deeds.foldl (releaseKey c key evict) (engine.instancesFor key)
      fun state _ i _ => deeds_releaseKey c key evict state i)
  dsimp only
  split
  · exact hcleared.trans (deeds_unregister ..)
  · exact hcleared

theorem deeds_update (engine : Engine) (c : ControllerId) : Deeds engine (engine.update c).1 :=
  (deeds_disconnect engine c false).trans (deeds_connect _ c none)

theorem deeds_addNode (engine : Engine) (node : NodeId) (key : String) :
    Deeds engine (engine.addNode node key).1 :=
  addNode_ind (P := fun after => Deeds engine after.1)
    (fun c _ _ => deeds_connect engine c (some key))
    (.head (.arrive engine node false) (deeds_connect ..))

theorem deeds_removeKey (engine : Engine) (key : String) :
    Deeds engine (engine.removeKey key).1 :=
  removeKey_ind .refl fun c _ => deeds_disconnect engine c true

/-! ### Instances -/

theorem deeds_create (engine : Engine) (config : Config) :
    Deeds engine (engine.create config).1 := by
  refine .head (.found engine config) (Deeds.foldl _ _ fun state _ c _ => ?_)
  exact resolveForInstance_ind .refl fun key hconnected _ _ => deeds_resolve hconnected key

theorem deeds_foldl_disconnect (controllers : List ControllerId) (engine : Engine) :
    Deeds engine (controllers.foldl (fun engine c => engine.disconnect c false) engine) :=
  Deeds.foldl _ _ fun state _ c _ => deeds_disconnect state c false

theorem deeds_destroyInstance (engine : Engine) (i : InstanceId) :
    Deeds engine (engine.destroyInstance i) := by
  simp only [destroyInstance]
  split
  · exact .refl
  · have hcondemned : i < ((engine.modifyInstance i Instance.condemned).unsubscribeAll
        (engine.inst i).listeners).instances.length →
          (((engine.modifyInstance i Instance.condemned).unsubscribeAll
            (engine.inst i).listeners).inst i).destroyed = true := by
      intro hi
      change ((engine.modifyInstance i Instance.condemned).inst i).destroyed = true
      rw [inst_modifyInstance_eq, if_pos ⟨rfl, Nat.lt_of_lt_of_eq hi (List.length_modify ..)⟩]
      rfl
    refine .head (.condemn engine i) ?_
    generalize (engine.modifyInstance i Instance.condemned).unsubscribeAll
      (engine.inst i).listeners = condemned at hcondemned ⊢
    refine (deeds_foldl_disconnect (engine.inst i).controllers.values condemned).tail
      (.retire _ i fun hi => ?_)
    have hreleases : Releases condemned ((engine.inst i).controllers.values.foldl
        (fun engine c => engine.disconnect c false) condemned) :=
      List.foldlRecOn (motive := fun state => Releases condemned state) _ _ .refl
        fun state hstate c _ => hstate.trans (releases_disconnect ..)
    obtain ⟨-, -, hinstances⟩ := hreleases.frame
    rw [destroyed_eq hinstances]
    exact hcondemned (Nat.lt_of_lt_of_eq hi (length_instances_eq hinstances))

theorem deeds_destroy (engine : Engine) : Deeds engine engine.destroy := by
  have hended : Deeds engine (engine.live.foldl destroyInstance engine) :=
    Deeds.foldl _ _ fun state _ i _ => deeds_destroyInstance state i
  exact (hended.tail (.enlist _ .empty)).trans (deeds_foldl_disconnect ..)

/-! ### Changes of the host -/

theorem deeds_setQuery (engine : Engine) (query : Query) (isMatch : Bool) :
    Deeds engine (engine.setQuery query isMatch).1 :=
  setQuery_ind .refl (.single (.answer engine _ rfl rfl))
    fun state _ c _ hstate => hstate.trans (deeds_update state c)

theorem deeds_onChildList (observation : Observation) (added removed : List NodeId)
    (engine : Engine) : Deeds engine (onChildList observation added removed engine) :=
  onChildList_ind (fun _ => .refl)
    (fun _ => (Deeds.tell engine _).tail (.amend _ _ _ (fun _ => rfl) fun _ => id))
    fun _ _ _ hconnected _ hforgot => hforgot.trans (moves_addListItems hconnected ..).deeds

/-! ### Operations -/

theorem deeds_toggleEffect (engine : Engine) (c : ControllerId) (effectId : String)
    (action : EffectStateAction) (item : Option NodeId) :
    Deeds engine (engine.toggleEffect c effectId action item).1 := by
  rcases engine.toggleEffect_cases c effectId action item with
    heq | ⟨node, active, -, -, -, heq⟩
  · rw [heq]
  · rw [heq]
    exact .head (.move (.tell engine _)) (.single (.amend _ c _ (fun _ => rfl) fun _ => id))

theorem deeds_renderStyle (engine : Engine) (c : ControllerId) (rules : List String) :
    Deeds engine (engine.renderStyle c rules).1 :=
  renderStyle_ind .refl (.head (.move (.tell engine _)) (.single (.answer _ _ rfl rfl)))
    (fun state _ hstate => hstate.tail (.move (.tell state _)))
    fun _ _ hstate => hstate.tail (.amend _ c _ (fun _ => rfl) fun _ => id)

/-- An operation that asks an instance or a controller to subscribe names one that exists, and no
operation stops the engine. -/
def NamesExisting (engine : Engine) : Operation → Prop
  | .listen i _ _ _ _ => i < engine.instances.length
  | .watch c _ _ => c < engine.controllers.length
  | .stop => False
  | _ => True

/-- An operation that asks a controller to watch a container names one that is connected. -/
def WatchesConnected (engine : Engine) : Operation → Prop
  | .watch c _ _ => (engine.controller c).connected = true
  | _ => True

/-- Every operation is a sequence of deeds. -/
theorem deeds_perform {operation : Operation} (h : engine.NamesExisting operation)
    (hwatches : engine.WatchesConnected operation) : Deeds engine (engine.perform operation).1 := by
  have hwhen {result : Engine × Answer} (hresult : Deeds engine result.1) :
      Deeds engine (engine.whenRunning result).1 :=
    whenRunning_ind .refl fun _ => hresult
  cases operation with
  | readDocument | answerWith => exact .single (.answer engine _ rfl rfl)
  | setQuery query isMatch => exact deeds_setQuery ..
  | childListChanged container added removed =>
    exact Deeds.foldl _ _ fun state _ entry _ => deeds_onChildList entry.2 added removed state
  | stop => exact h.elim
  | connect c key => exact deeds_connect ..
  | disconnect c evict => exact deeds_disconnect ..
  | update c => exact deeds_update ..
  | toggle c effectId action item => exact deeds_toggleEffect ..
  | watch c container item =>
    rw [perform]
    split
    · exact .single (.move (.watch engine c container item hwatches))
    · exact .refl
  | style c rules => exact deeds_renderStyle ..
  | destroyInstance i => exact deeds_destroyInstance ..
  | markApplied i id => exact .single (.move (.markApplied engine i id))
  | clearKey i key => exact .single (.forget ..)
  | unlistenKey i key => exact .single (.unlisten ..)
  | listen i id source target query => exact .single (.move (.listen _ _ _ _ _ _ _ h))
  | setController i key c => exact .single (.file engine i (·.insert key c))
  | deleteController i key => exact .single (.file engine i (·.erase key))
  | releaseController i key c => exact deeds_releaseController ..
  | create config => exact hwhen (deeds_create ..)
  | addNode node key => exact hwhen (deeds_addNode ..)
  | newController node useFirstChild => exact hwhen (.single (.arrive ..))
  | removeKey key => exact hwhen (deeds_removeKey ..)
  | destroy => exact hwhen (deeds_destroy ..)
  | register key c => exact hwhen (.single (.enlist ..))
  | unregister key c => exact hwhen (deeds_unregister ..)
  | active | ownedNodes | anchor | usesFirstChild | isApplied | interactionIds | controllerCount =>
    exact .refl
  | instances | instancesFor | instanceFor | controllerFor | reducedMotion | mediaMatches
  | connectedFor | isRegistered => exact hwhen .refl

/-! ### Runs -/

/-- An operation that names what exists is a sequence of deeds, or has a controller watch a container
that is perhaps not connected. -/
theorem perform_cases {operation : Operation} (h : engine.NamesExisting operation) :
    Deeds engine (engine.perform operation).1 ∨
      ∃ c container item, c < engine.controllers.length ∧
        (engine.perform operation).1 = (engine.watchChildList c container item).1 := by
  have hdeeds (operation : Operation) (hnames : engine.NamesExisting operation)
      (hwatches : engine.WatchesConnected operation) : Deeds engine (engine.perform operation).1 :=
    deeds_perform hnames hwatches
  cases operation with
  | watch c container item =>
    rw [perform]
    split
    · exact .inr ⟨c, container, item, h, rfl⟩
    · exact .inl .refl
  | listen => exact .inl (hdeeds _ h trivial)
  | stop => exact h.elim
  | _ => exact .inl (hdeeds _ trivial trivial)

/-- What deeds keep in a running engine, and what watching keeps, holds along a run, and the engine
goes on running. -/
theorem run_of_deeds {P : Engine → Prop} {operations : List Operation}
    (hdeed : ∀ before after, Deed before after → before.running = true → P before → P after)
    (hwatch : ∀ engine c container item, c < engine.controllers.length → P engine →
      P (engine.watchChildList c container item).1)
    (hrunning : engine.running = true) (h : P engine)
    (hfollows : Follows NamesExisting engine operations) :
    P (engine.run operations) ∧ (engine.run operations).running = true := by
  induction operations generalizing engine with
  | nil => exact ⟨h, hrunning⟩
  | cons operation rest ih =>
    obtain ⟨hnames, hrest⟩ := hfollows
    have hnext : P (engine.perform operation).1 ∧ (engine.perform operation).1.running = true := by
      rcases perform_cases hnames with hdeeds | ⟨c, container, item, hc, heq⟩
      · exact ⟨hdeeds.keeps hdeed hrunning h, hdeeds.running.trans hrunning⟩
      · rw [heq]
        exact ⟨hwatch engine c container item hc h,
          (congrArg Scene.running (scene_watchChildList ..)).trans hrunning⟩
    exact ih hnext.2 hnext.1 hrest

end InteractionBinding.Engine
