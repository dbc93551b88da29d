import InteractionBinding.Proofs.Lifecycle.Covering
/-!
# Stored keys

The key that a controller first connects under is stored, and stays. The registry and the tables of
the live instances find controllers by their stored keys (`Engine.Indexed`), and instances that are
live no more list nobody (`Engine.Tabled`). Operations keep this up
(`Engine.maintains_perform`) unless they enter a controller in the registry or a table by hand; even
then no stored key changes (`Engine.run_indexed`).

Most operations take entries away at most (`Engine.Thins`). Only a connection and the resolution of
a key add to them, and both add a controller under the key that it has.
-/

namespace InteractionBinding.Engine

variable {engine before middle after : Engine} {c : ControllerId} {i : InstanceId} {key : String}

/-- Connected controllers have a key, and controllers are registered and listed under their keys. -/
structure Indexed (engine : Engine) : Prop where
  nonempty (c : ControllerId) (key : String) : (engine.controller c).key = some key → key ≠ ""
  connected (c : ControllerId) : (engine.controller c).connected = true →
    ∃ key, (engine.controller c).key = some key
  registered (key : String) (c : ControllerId) : engine.registry.get? key = some c →
    (engine.controller c).key = some key
  listed (i : InstanceId) (key : String) (c : ControllerId) : i ∈ engine.live →
    (engine.inst i).controllers.get? key = some c →
      (engine.controller c).key = some key ∧ (engine.inst i).graph.knows key = true

theorem indexed_start (host : Host) (options : EngineOptions) : (start host options).Indexed where
  nonempty _ _ h := nomatch h
  connected _ h := nomatch h
  registered _ _ h := nomatch h
  listed _ _ _ h := nomatch h

/-- Only live instances list controllers, and only under the stored keys, which they know. -/
def Tabled (engine : Engine) : Prop :=
  ∀ i key c, (engine.inst i).controllers.get? key = some c →
    i ∈ engine.live ∧ (engine.controller c).key = some key ∧ (engine.inst i).graph.knows key = true

theorem tabled_start (host : Host) (options : EngineOptions) : (start host options).Tabled :=
  fun _ _ _ h => nomatch h

/-- Stored keys stay, and so does the order of the registry and the tables. -/
structure Maintains (before after : Engine) : Prop where
  key (c : ControllerId) (key : String) : (before.controller c).key = some key →
    (after.controller c).key = some key
  indexed : before.Indexed → after.Indexed
  tabled : before.Tabled → after.Tabled

namespace Maintains

theorem refl (engine : Engine) : Maintains engine engine := ⟨fun _ _ => id, id, id⟩

theorem trans (first : Maintains before middle) (second : Maintains middle after) :
    Maintains before after :=
  ⟨fun c key h => second.key c key (first.key c key h), fun h => second.indexed (first.indexed h),
    fun h => second.tabled (first.tabled h)⟩

theorem foldl {α : Type} (f : Engine → α → Engine) (l : List α)
    (h : ∀ state, ∀ a ∈ l, Maintains state (f state a)) (engine : Engine) :
    Maintains engine (l.foldl f engine) :=
  List.foldlRecOn l f (.refl engine) fun state hstate a hmem => hstate.trans (h state a hmem)

end Maintains

/-! ### Taking entries away -/

/-- Nobody is connected, registered or listed who was not, and keys stay as they are. -/
structure Thins (before after : Engine) : Prop where
  key (c : ControllerId) : (after.controller c).key = (before.controller c).key
  connected (c : ControllerId) : (after.controller c).connected = true →
    (before.controller c).connected = true
  registered (key : String) (c : ControllerId) : after.registry.get? key = some c →
    before.registry.get? key = some c
  listed (i : InstanceId) (key : String) (c : ControllerId) :
    (after.inst i).controllers.get? key = some c →
      (i ∈ after.live ↔ i ∈ before.live) ∧ (before.inst i).controllers.get? key = some c ∧
        (after.inst i).graph = (before.inst i).graph

namespace Thins

theorem maintains (h : Thins before after) : Maintains before after where
  key c key hkey := (h.key c).trans hkey
  indexed hindexed :=
    { nonempty := fun c key hkey => hindexed.nonempty c key ((h.key c).symm.trans hkey)
      connected := fun c hconnected => by
        rw [h.key]
        exact hindexed.connected c (h.connected c hconnected)
      registered := fun key c hregistered => by
        rw [h.key]
        exact hindexed.registered key c (h.registered key c hregistered)
      listed := fun i key c hlive hlisted => by
        obtain ⟨hiff, hlisted, hgraph⟩ := h.listed i key c hlisted
        rw [h.key, hgraph]
        exact hindexed.listed i key c (hiff.mp hlive) hlisted }
  tabled htabled i key c hlisted := by
    obtain ⟨hiff, hlisted, hgraph⟩ := h.listed i key c hlisted
    rw [h.key, hgraph, hiff]
    exact htabled i key c hlisted

theorem of_eq (hcontrollers : after.controllers = before.controllers)
    (hregistry : after.registry = before.registry) (hlive : after.live = before.live)
    (hinstances : after.instances = before.instances) : Thins before after where
  key c := by rw [controller, hcontrollers, controller]
  connected c h := by rwa [controller, hcontrollers] at h
  registered key c h := hregistry ▸ h
  listed i key c h := by
    rw [inst, hinstances] at h
    exact ⟨by rw [hlive], h, by rw [inst, hinstances, inst]⟩

theorem of_scene (hscene : after.scene = before.scene)
    (htable : ∀ i, (after.inst i).controllers = (before.inst i).controllers) :
    Thins before after where
  key c := congrArg Controller.Face.key (face_controller_eq hscene c)
  connected c := (congrArg Controller.Face.connected (face_controller_eq hscene c)).symm.trans
  registered key c := (congrArg (fun scene : Scene => scene.registry.get? key) hscene).symm.trans
  listed i key c h := by
    have hlive : after.live = before.live := congrArg Scene.live hscene
    exact ⟨by rw [hlive], htable i ▸ h, graph_eq_of_instances (congrArg Scene.instances hscene) i⟩

end Thins

theorem thins_modifyController (c : ControllerId) {f : Controller → Controller}
    (hkey : ∀ controller, (f controller).key = controller.key)
    (hconnected : ∀ controller, (f controller).connected = controller.connected) :
    Thins engine (engine.modifyController c f) where
  key d := by
    rw [controller_modifyController_eq]
    split
    · exact hkey _
    · rfl
  connected d h := by
    rw [controller_modifyController_eq] at h
    split at h
    · exact (hconnected _).symm.trans h
    · exact h
  registered _ _ h := h
  listed _ _ _ h := ⟨Iff.rfl, h, rfl⟩

theorem thins_modifyInstance (i : InstanceId) {f : Instance → Instance}
    (hgraph : ∀ inst, (f inst).graph = inst.graph)
    (htable : ∀ inst key c, (f inst).controllers.get? key = some c →
      inst.controllers.get? key = some c) : Thins engine (engine.modifyInstance i f) where
  key _ := rfl
  connected _ h := h
  registered _ _ h := h
  listed j key c h := by
    refine ⟨Iff.rfl, ?_, graph_modifyInstance i j f hgraph⟩
    rw [inst_modifyInstance_eq] at h
    split at h
    · exact htable _ key c h
    · exact h

theorem thins_host (engine : Engine) (host : Host) : Thins engine { engine with host := host } :=
  .of_eq rfl rfl rfl rfl

theorem thins_tell (engine : Engine) (event : Event) : Thins engine (engine.tell event) :=
  .of_eq rfl rfl rfl rfl

theorem thins_forgetKey (engine : Engine) (i : InstanceId) (key : String) :
    Thins engine (engine.forgetKey i key) :=
  let h := @thins_modifyInstance engine i (·.clearKey key) (fun _ => rfl) fun _ _ _ => id
  ⟨h.key, h.connected, h.registered, h.listed⟩

theorem thins_unlistenKey (engine : Engine) (i : InstanceId) (key : String) :
    Thins engine (engine.unlistenKey i key) := by
  obtain ⟨hkey, hconnected, hregistered, hlisted⟩ := @thins_modifyInstance engine i
    (fun inst => { inst with listeners := inst.listeners.filter fun listener =>
      !(listener.source = key || listener.target = key) }) (fun _ => rfl) fun _ _ _ => id
  exact ⟨hkey, hconnected, hregistered, hlisted⟩

theorem thins_erase (engine : Engine) (i : InstanceId) (key : String) :
    Thins engine (engine.deleteController i key).1 :=
  thins_modifyInstance i (fun _ => rfl) fun inst name c h => by
    rw [KeyMap.get?_erase] at h
    split at h
    · cases h
    · exact h

theorem thins_releaseController (engine : Engine) (i : InstanceId) (key : String)
    (c : ControllerId) : Thins engine (engine.releaseController i key c).1 :=
  releaseController_ind (.of_eq rfl rfl rfl rfl) fun _ => thins_erase ..

theorem thins_unregister (engine : Engine) (key : String) (c : ControllerId) :
    Thins engine (engine.unregister key c).1 := by
  refine unregister_ind (.of_eq rfl rfl rfl rfl) fun _ =>
    ⟨fun _ => rfl, fun _ => id, fun name d h => ?_, fun _ _ _ h => ⟨Iff.rfl, h, rfl⟩⟩
  rw [KeyMap.get?_erase] at h
  split at h
  · cases h
  · exact h

theorem thins_disconnect (engine : Engine) (c : ControllerId) (evict : Bool) :
    Thins engine (engine.disconnect c evict) where
  key d := by
    rw [controller_disconnect]
    split <;> rfl
  connected d h := by
    rw [controller_disconnect] at h
    split at h
    · cases h
    · exact h
  registered _ _ h := (get?_registry_disconnect_iff.mp h).1
  listed i key d h := by
    obtain ⟨-, hlive, hinstances⟩ := (releases_disconnect engine c evict).frame
    exact ⟨by rw [hlive], (get?_table_disconnect_iff.mp h).1, graph_eq_of_instances hinstances i⟩

theorem maintains_foldl_disconnect (controllers : List ControllerId) (engine : Engine) :
    Maintains engine (controllers.foldl (fun engine c => engine.disconnect c false) engine) :=
  .foldl _ _ (fun state c _ => (thins_disconnect state c false).maintains) engine

/-! ### Connecting -/

theorem key_ne_of_connectionKey? {requested : Option String} (h : engine.Indexed)
    (hkey : engine.connectionKey? c requested = some key) : key ≠ "" := by
  have hfilter {option : Option String} (hoption : option.filter (!·.isEmpty) = some key) :
      key ≠ "" := by
    rintro rfl
    obtain ⟨-, hempty⟩ := Option.filter_eq_some_iff.mp hoption
    exact absurd hempty (by decide)
  rw [connectionKey?, Option.or_eq_some_iff, Option.or_eq_some_iff] at hkey
  rcases hkey with hown | ⟨-, hrequested | ⟨-, hattribute⟩⟩
  · exact h.nonempty c key hown
  · exact hfilter hrequested
  · exact hfilter hattribute

/-- A controller is connected under the key that it has, or under its first one. -/
theorem maintains_connecting {requested : Option String}
    (hkey : engine.connectionKey? c requested = some key) :
    Maintains engine (engine.connecting c key) := by
  have hkept (d : ControllerId) (name : String) (h : (engine.controller d).key = some name) :
      ((engine.connecting c key).controller d).key = some name := by
    rw [controller_connecting]
    split
    next hd =>
      -- a key that is stored goes before the one that is asked for
      obtain ⟨rfl, -⟩ := hd
      exact congrArg some (key_eq_of_connectionKey? h hkey).symm
    next => exact h
  refine ⟨hkept, fun h => ⟨fun d name => ?_, fun d hd => ?_, fun name d hregistered => ?_,
    fun j name d hj hlisted => ?_⟩, fun h j name d hlisted => ?_⟩
  · rw [controller_connecting]
    split
    · exact fun hname => Option.some.inj hname ▸ key_ne_of_connectionKey? h hkey
    · exact h.nonempty d name
  · rw [controller_connecting] at hd ⊢
    split at hd
    next hself =>
      rw [if_pos hself]
      exact ⟨key, rfl⟩
    next hother =>
      rw [if_neg hother]
      exact h.connected d hd
  · exact hkept d name (h.registered name d hregistered)
  · obtain ⟨hname, hknows⟩ := h.listed j name d hj hlisted
    exact ⟨hkept d name hname, hknows⟩
  · obtain ⟨hlive, hname, hknows⟩ := h j name d hlisted
    exact ⟨hlive, hkept d name hname, hknows⟩

/-- Resolving the key of a connected controller registers and lists it under this key. -/
theorem maintains_resolve (hconnected : (engine.controller c).connected = true)
    (hkey : (engine.controller c).key = some key) :
    Maintains engine (engine.resolve c key).1 := by
  have hscene := scene_resolve engine c key
  have hface (d : ControllerId) :
      ((engine.resolve c key).1.controller d).face = (engine.controller d).face :=
    face_controller_eq hscene d
  have hkeys (d : ControllerId) :
      ((engine.resolve c key).1.controller d).key = (engine.controller d).key :=
    congrArg Controller.Face.key (hface d)
  have hlive : (engine.resolve c key).1.live = engine.live := congrArg Scene.live hscene
  have hgraph (j : InstanceId) :
      ((engine.resolve c key).1.inst j).graph = (engine.inst j).graph :=
    graph_eq_of_instances (congrArg Scene.instances hscene) j
  refine ⟨fun d name => (hkeys d).trans, fun h => ⟨fun d name => ?_, fun d hd => ?_,
    fun name d hregistered => ?_, fun j name d hj hlisted => ?_⟩, fun h j name d hlisted => ?_⟩
  · rw [hkeys]
    exact h.nonempty d name
  · rw [hkeys]
    exact h.connected d ((congrArg Controller.Face.connected (hface d)).symm.trans hd)
  · have hregistry : (engine.resolve c key).1.registry = engine.registry.insert key c :=
      congrArg Scene.registry hscene
    rw [hregistry, KeyMap.get?_insert] at hregistered
    rw [hkeys]
    split at hregistered
    next heq =>
      subst heq
      exact Option.some.inj hregistered ▸ hkey
    next => exact h.registered name d hregistered
  · -- the tables gain the controller, in the live instances that know the key
    rw [get?_table_resolve hconnected] at hlisted
    rw [hkeys, hgraph]
    split at hlisted
    next hself =>
      obtain ⟨rfl, hmem⟩ := hself
      exact ⟨Option.some.inj hlisted ▸ hkey, (List.mem_filter.mp hmem).2⟩
    next => exact h.listed j name d (hlive ▸ hj) hlisted
  · rw [get?_table_resolve hconnected] at hlisted
    rw [hkeys, hgraph, hlive]
    split at hlisted
    next hself =>
      obtain ⟨rfl, hmem⟩ := hself
      obtain ⟨hlive, hknows⟩ := List.mem_filter.mp hmem
      exact ⟨hlive, Option.some.inj hlisted ▸ hkey, hknows⟩
    next => exact h j name d hlisted

theorem maintains_connect (engine : Engine) (c : ControllerId) (requested : Option String) :
    Maintains engine (engine.connect c requested).1 := by
  refine connect_ind (.refl engine) fun key _ hc _ hkey => (maintains_connecting hkey).trans ?_
  have hself := controller_connecting_self hc key
  exact maintains_resolve (by rw [hself]) (by rw [hself])

theorem maintains_update (engine : Engine) (c : ControllerId) :
    Maintains engine (engine.update c).1 :=
  (thins_disconnect engine c false).maintains.trans (maintains_connect _ c none)

/-! ### Nodes and instances -/

theorem thins_newController (engine : Engine) (node : NodeId) (useFirstChild : Bool) :
    Thins engine (engine.newController node useFirstChild).1 where
  key d := by
    rw [controller_newController]
    split
    next hd => rw [controller_eq_default (Nat.le_of_eq hd.symm)]; rfl
    next => rfl
  connected d h := by
    rw [controller_newController] at h
    split at h
    · cases h
    · exact h
  registered _ _ h := h
  listed _ _ _ h := ⟨Iff.rfl, h, rfl⟩

theorem maintains_addNode (engine : Engine) (node : NodeId) (key : String) :
    Maintains engine (engine.addNode node key).1 :=
  addNode_ind (P := fun after => Maintains engine after.1)
    (fun c _ _ => maintains_connect engine c (some key))
    ((thins_newController engine node false).maintains.trans (maintains_connect ..))

theorem maintains_removeKey (engine : Engine) (key : String) :
    Maintains engine (engine.removeKey key).1 :=
  removeKey_ind (.refl engine) fun c _ => (thins_disconnect engine c true).maintains

/-- A new instance lists nobody. -/
theorem thins_founding (engine : Engine) (config : Config) :
    Thins engine (engine.founding config) where
  key _ := rfl
  connected _ h := h
  registered _ _ h := h
  listed i key c h := by
    have hne : i ≠ engine.instances.length := by
      rintro rfl
      rw [inst_founding, if_pos rfl] at h
      cases h
    rw [inst_founding, if_neg hne] at h ⊢
    have hlast : i ∉ [engine.instances.length] := fun hlast => hne (List.mem_singleton.mp hlast)
    exact ⟨List.mem_append.trans (or_iff_left hlast), h, rfl⟩

theorem maintains_create (engine : Engine) (config : Config) :
    Maintains engine (engine.create config).1 := by
  refine (thins_founding engine config).maintains.trans (.foldl _ _ (fun state c _ => ?_) _)
  exact resolveForInstance_ind (.refl state) fun key hconnected hkey _ =>
    maintains_resolve hconnected hkey

theorem get?_table_condemning (engine : Engine) (i : InstanceId) (key : String) :
    ((engine.condemning i).inst i).controllers.get? key = none := by
  change ((engine.modifyInstance i Instance.condemned).inst i).controllers.get? key = none
  rw [inst_modifyInstance_eq]
  split
  · rfl
  next hlength =>
    rw [inst_eq_default (Nat.not_lt.mp fun hlt => hlength ⟨rfl, hlt⟩)]
    rfl

/-- An instance that ends lists nobody any more. -/
theorem thins_condemning (engine : Engine) (i : InstanceId) :
    Thins engine (engine.condemning i) := by
  obtain ⟨hkey, hconnected, hregistered, hlisted⟩ := @thins_modifyInstance engine i
    Instance.condemned (fun _ => rfl) fun _ _ _ h => (Option.some_ne_none _ h.symm).elim
  exact ⟨hkey, hconnected, hregistered, hlisted⟩

/-- An instance that lists nobody can stop being live. -/
theorem thins_retiring (h : ∀ key, (engine.inst i).controllers.get? key = none) :
    Thins engine (engine.retiring i) := by
  obtain ⟨hkey, hconnected, hregistered, hlisted⟩ := @thins_modifyInstance engine i
    (fun inst => { inst with memo := [] }) (fun _ => rfl) fun _ _ _ => id
  refine ⟨hkey, hconnected, hregistered, fun j key c hlist => ?_⟩
  obtain ⟨-, hbefore, hgraph⟩ := hlisted j key c hlist
  have hne : j ≠ i := fun heq => Option.some_ne_none c (hbefore.symm.trans (heq ▸ h key))
  exact ⟨List.mem_filter.trans (and_iff_left (decide_eq_true hne)), hbefore, hgraph⟩

theorem maintains_destroyInstance (engine : Engine) (i : InstanceId) :
    Maintains engine (engine.destroyInstance i) := by
  cases hdestroyed : (engine.inst i).destroyed with
  | true =>
    rw [destroyInstance, hdestroyed]
    exact .refl engine
  | false =>
    rw [destroyInstance_of_standing hdestroyed]
    have hsoftens := softens_foldl_disconnect (engine.inst i).controllers.values
      (engine.condemning i)
    have hempty (key : String) :
        ((engine.condemning i).inst i).controllers.get? key = none :=
      get?_table_condemning engine i key
    exact ((thins_condemning engine i).maintains.trans (maintains_foldl_disconnect ..)).trans
      (thins_retiring fun key => hsoftens.table i ▸ hempty key).maintains

theorem maintains_destroy (engine : Engine) : Maintains engine engine.destroy := by
  have hended : Maintains engine (engine.live.foldl destroyInstance engine) :=
    .foldl _ _ (fun state i _ => maintains_destroyInstance state i) engine
  have hunregistered (state : Engine) : Thins state { state with registry := .empty } :=
    ⟨fun _ => rfl, fun _ => id, (fun _ _ h => nomatch h), fun _ _ _ h => ⟨Iff.rfl, h, rfl⟩⟩
  rw [destroy_eq]
  exact (hended.trans (hunregistered _).maintains).trans (maintains_foldl_disconnect ..)

/-! ### Changes of the host -/

theorem maintains_setQuery (engine : Engine) (query : Query) (isMatch : Bool) :
    Maintains engine (engine.setQuery query isMatch).1 :=
  setQuery_ind (.refl engine) (thins_host engine _).maintains
    fun state _ c _ hstate => hstate.trans (maintains_update state c)

theorem maintains_onChildList (observation : Observation) (added removed : List NodeId)
    (engine : Engine) : Maintains engine (onChildList observation added removed engine) := by
  refine onChildList_ind (fun _ => .refl engine) (fun _ => ?_)
    fun released key _ hconnected _ hforgot => ?_
  · have htorn : Maintains engine (engine.teardown removed) :=
      .foldl _ _ (fun state event _ => (thins_tell state event).maintains) engine
    have hforgot : Thins (engine.teardown removed) ((engine.teardown removed).modifyController
        observation.owner (·.forgetItems removed)) :=
      thins_modifyController _ (fun _ => rfl) fun _ => rfl
    exact htorn.trans hforgot.maintains
  · have hmoves := moves_addListItems hconnected key observation.containerSelector
      (added.filter fun node => observation.itemSelector.all fun selector =>
        engine.host.dom.matchesSelector node selector)
    exact hforgot.trans (Thins.of_scene hmoves.scene hmoves.table).maintains

/-! ### Operations -/

/-- Whether an operation enters a controller in the registry or a table and nothing else. -/
def Operation.entersByHand : Operation → Bool
  | .register _ _ | .setController _ _ _ => true
  | _ => false

/-- Whether an operation enters a controller in a table and nothing else. -/
def Operation.listsByHand : Operation → Bool
  | .setController _ _ _ => true
  | _ => false

theorem maintains_toggleEffect (engine : Engine) (c : ControllerId) (effectId : String)
    (action : EffectStateAction) (item : Option NodeId) :
    Maintains engine (engine.toggleEffect c effectId action item).1 := by
  rcases engine.toggleEffect_cases c effectId action item with
    heq | ⟨node, active, -, -, -, heq⟩ <;> rw [heq]
  · exact .refl engine
  · exact (thins_tell engine _).maintains.trans
      (thins_modifyController c (f := (Controller.setActive · node active)) (fun _ => rfl)
        fun _ => rfl).maintains

theorem maintains_renderStyle (engine : Engine) (c : ControllerId) (rules : List String) :
    Maintains engine (engine.renderStyle c rules).1 := by
  have hinsert : Thins engine (engine.insertSheet rules).1 := .of_eq rfl rfl rfl rfl
  refine renderStyle_ind (.refl engine) hinsert.maintains
    (fun state sheet hstate => hstate.trans (thins_tell state (.removeSheet sheet)).maintains)
    fun state sheet hstate => hstate.trans (Thins.maintains ?_)
  exact thins_modifyController c (fun _ => rfl) fun _ => rfl

/-- Every operation maintains the registry and the tables, unless it enters a controller by hand. -/
theorem maintains_perform (engine : Engine) {operation : Operation}
    (h : operation.entersByHand = false) : Maintains engine (engine.perform operation).1 := by
  have hwhen {result : Engine × Answer} (hresult : Maintains engine result.1) :
      Maintains engine (engine.whenRunning result).1 :=
    whenRunning_ind (.refl engine) fun _ => hresult
  cases operation with
  | readDocument | answerWith => exact (thins_host ..).maintains
  | stop =>
    have hstopped : Thins engine { engine with running := false } := .of_eq rfl rfl rfl rfl
    exact hstopped.maintains
  | setQuery query isMatch => exact maintains_setQuery ..
  | childListChanged container added removed =>
    exact .foldl _ _ (fun state entry _ => maintains_onChildList entry.2 added removed state) engine
  | connect c key => exact maintains_connect ..
  | disconnect c evict => exact (thins_disconnect ..).maintains
  | update c => exact maintains_update ..
  | toggle c effectId action item => exact maintains_toggleEffect ..
  | watch c container item =>
    rw [perform]
    split
    · exact (Thins.of_scene (scene_watchChildList ..) fun _ => table_watchChildList ..).maintains
    · exact .refl engine
  | style c rules => exact maintains_renderStyle ..
  | destroyInstance i => exact maintains_destroyInstance ..
  | markApplied i id =>
    exact (Thins.of_scene (scene_markApplied i id) (table_markApplied i id)).maintains
  | clearKey i key => exact (thins_forgetKey ..).maintains
  | unlistenKey i key => exact (thins_unlistenKey ..).maintains
  | listen i id source target query =>
    exact (Thins.of_scene (scene_listen ..) fun _ => table_listen ..).maintains
  | setController => cases h
  | deleteController i key => exact (thins_erase ..).maintains
  | releaseController i key c => exact (thins_releaseController ..).maintains
  | create config => exact hwhen (maintains_create ..)
  | addNode node key => exact hwhen (maintains_addNode ..)
  | newController node useFirstChild => exact hwhen (thins_newController ..).maintains
  | removeKey key => exact hwhen (maintains_removeKey ..)
  | destroy => exact hwhen (maintains_destroy ..)
  | register => cases h
  | unregister key c => exact hwhen (thins_unregister ..).maintains
  | active | ownedNodes | anchor | usesFirstChild | isApplied | interactionIds | controllerCount =>
    exact .refl engine
  | instances | instancesFor | instanceFor | controllerFor | reducedMotion | mediaMatches
  | connectedFor | isRegistered => exact hwhen (.refl engine)

/-- No operation changes the key that a controller has. -/
theorem key_perform (engine : Engine) (operation : Operation)
    (h : (engine.controller c).key = some key) :
    ((engine.perform operation).1.controller c).key = some key := by
  cases hhand : operation.entersByHand with
  | false => exact (maintains_perform engine hhand).key c key h
  | true =>
    cases operation with
    | register =>
      exact whenRunning_ind (P := fun after => (after.controller c).key = some key) h fun _ => h
    | setController => exact h
    | _ => cases hhand

/-- Every operation keeps the tables in order, unless it enters a controller in one by hand. -/
theorem Tabled.perform (h : engine.Tabled) {operation : Operation}
    (hoperation : operation.listsByHand = false) : (engine.perform operation).1.Tabled := by
  cases hhand : operation.entersByHand with
  | false => exact (maintains_perform engine hhand).tabled h
  | true =>
    cases operation with
    | register => exact whenRunning_ind (P := Tabled) h fun _ => h
    | setController => cases hoperation
    | _ => cases hhand

/-! ### Runs -/

theorem Tabled.run (h : engine.Tabled) {operations : List Operation}
    (hoperations : ∀ operation ∈ operations, operation.listsByHand = false) :
    (engine.run operations).Tabled :=
  List.foldlRecOn (motive := fun state : Engine => state.Tabled) _ _ h
    fun _ hstate operation hmem => hstate.perform (hoperations operation hmem)

theorem key_run (engine : Engine) (operations : List Operation)
    (h : (engine.controller c).key = some key) :
    ((engine.run operations).controller c).key = some key :=
  List.foldlRecOn (motive := fun state : Engine => (state.controller c).key = some key) _ _ h
    fun state hstate operation _ => key_perform state operation hstate

theorem Indexed.run (h : engine.Indexed) {operations : List Operation}
    (hoperations : ∀ operation ∈ operations, operation.entersByHand = false) :
    (engine.run operations).Indexed :=
  List.foldlRecOn (motive := fun state : Engine => state.Indexed) _ _ h
    fun state hstate operation hmem =>
      (maintains_perform state (hoperations operation hmem)).indexed hstate

/-- In every run, a key that a controller has once is its key from then on. If no operation enters
controllers by hand, the registry and the tables of the live instances find controllers under their
keys, which are not empty, and everyone connected has one. -/
theorem run_indexed (host : Host) (options : EngineOptions) (earlier later : List Operation) :
    (∀ c key, (((start host options).run earlier).controller c).key = some key →
      (((start host options).run (earlier ++ later)).controller c).key = some key) ∧
    ((∀ operation ∈ earlier, operation.entersByHand = false) →
      ((start host options).run earlier).Indexed) := by
  refine ⟨fun c key h => ?_, (indexed_start host options).run⟩
  rw [run_append]
  exact key_run _ later h

/-- The clock chimes at the door. -/
def clockConfig : Config := Config.ofInteractions
  [(Interaction.ofTrigger "clock" .click).withEffect ((Effect.byId "chime").on "door")]

/-- A controller connects as the clock, and then asks for the key of the bell. -/
def clockOperations : List Operation :=
  [.create clockConfig, .newController 3 false, .connect 0 (some "clock"), .disconnect 0 false,
    .connect 0 (some "bell")]

/-- The clock stays the clock, is listed as it, and is so still when it asks for another key after
it has been forgotten. -/
theorem run_indexed_clock :
    let engine := (start .bare .standard).run clockOperations
    let after := (start .bare .standard).run
      (clockOperations ++ [.disconnect 0 true, .connect 0 (some "bell")])
    (engine.controller 0).key = some "clock" ∧ (engine.inst 0).controllers.get? "clock" = some 0 ∧
      (∀ operation ∈ clockOperations, operation.entersByHand = false) ∧
      engine.Indexed ∧ (after.controller 0).key = some "clock" := by
  intro engine after
  have hkey : (engine.controller 0).key = some "clock" := by decide +kernel
  have hhand : ∀ operation ∈ clockOperations, operation.entersByHand = false := by decide
  obtain ⟨hkept, hindexed⟩ := run_indexed .bare .standard clockOperations
    [.disconnect 0 true, .connect 0 (some "bell")]
  exact ⟨hkey, by decide +kernel, hhand, hindexed hhand, hkept 0 "clock" hkey⟩

end InteractionBinding.Engine
