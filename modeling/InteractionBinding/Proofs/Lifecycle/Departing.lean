import InteractionBinding.Proofs.Lifecycle.StoredKeys
/-!
# What is left after a disconnection

A disconnection leaves the controller without anything to release and everything else as it is
(`Engine.departs_disconnect`). Two disconnections in a row are one, which evicts if either does
(`Engine.disconnect_disconnect`): to repeat one does nothing, and a soft one before an eviction makes
no difference.

An engine that has stopped releases the controller and nothing else. In a running engine an eviction
takes the controller from the tables that have it under its key, and these are all tables unless
one has been filled by hand (`Engine.Tabled`).

## Main definitions

* `Engine.SameState` — engines that differ in their logs at most, and not in what they told.
* `Engine.Departs` — one engine comes from another by a disconnection.
-/

namespace InteractionBinding

theorem Controller.released_released (controller : Controller) (first second : Bool) :
    (controller.released first).released second = controller.released (first || second) := by
  cases first <;> cases second <;> rfl

namespace Engine

variable {engine before after : Engine} {c : ControllerId} {key : String}

theorem options_disconnect (engine : Engine) (c : ControllerId) (evict : Bool) :
    (engine.disconnect c evict).options = engine.options :=
  congrArg Scene.options (scene_disconnect engine c evict)

theorem live_disconnect (engine : Engine) (c : ControllerId) (evict : Bool) :
    (engine.disconnect c evict).live = engine.live :=
  congrArg Scene.live (scene_disconnect engine c evict)

theorem length_instances_disconnect (engine : Engine) (c : ControllerId) (evict : Bool) :
    (engine.disconnect c evict).instances.length = engine.instances.length :=
  length_instances_eq (releases_disconnect engine c evict).frame.2.2

/-! ### Two disconnections in a row -/

/-- Two engines are in the same state and have told their hosts the same. Their logs may differ in
which ids have been let be applied again, and when. -/
structure SameState (before after : Engine) : Prop where
  host : after.host = before.host
  options : after.options = before.options
  running : after.running = before.running
  registry : after.registry = before.registry
  live : after.live = before.live
  controllers : after.controllers = before.controllers
  instances : after.instances = before.instances
  events : after.events = before.events

theorem controller_disconnect_self (engine : Engine) (c : ControllerId) (evict : Bool) :
    (engine.disconnect c evict).controller c = (engine.controller c).released evict := by
  rw [controller_disconnect]
  split
  · rfl
  next hlength =>
    rw [controller_eq_default (Nat.not_lt.mp fun h => hlength ⟨rfl, h⟩)]
    cases evict <;> rfl

theorem controllers_disconnect_disconnect (engine : Engine) (c : ControllerId)
    (first second : Bool) :
    ((engine.disconnect c first).disconnect c second).controllers =
      (engine.disconnect c (first || second)).controllers := by
  rw [controllers_disconnect, controllers_disconnect, controllers_disconnect,
    List.modify_modify_eq]
  congr 1
  funext controller
  exact controller.released_released first second

theorem instances_eq_of_inst (hlength : after.instances.length = before.instances.length)
    (hinst : ∀ i, after.inst i = before.inst i) : after.instances = before.instances := by
  refine List.ext_getElem hlength fun i hafter hbefore => ?_
  rw [← inst_eq_getElem hafter, ← inst_eq_getElem hbefore, hinst]

/-- Two disconnections of a controller in a row are one, which evicts if either does. -/
theorem disconnect_disconnect (hkey : (engine.controller c).key = some key) (first second : Bool) :
    SameState (engine.disconnect c (first || second))
      ((engine.disconnect c first).disconnect c second) := by
  have hcontrollers := controllers_disconnect_disconnect engine c first second
  cases hrunning : engine.running with
  | false =>
    have hstopped : (engine.disconnect c first).running = false :=
      (running_disconnect ..).trans hrunning
    rw [disconnect_eq_of_stopped hstopped] at hcontrollers ⊢
    rw [disconnect_eq_of_stopped hrunning, disconnect_eq_of_stopped hrunning] at hcontrollers ⊢
    exact ⟨rfl, rfl, rfl, rfl, rfl, hcontrollers, rfl, rfl⟩
  | true =>
    have hrunning' : (engine.disconnect c first).running = true :=
      (running_disconnect ..).trans hrunning
    have hkey' : ((engine.disconnect c first).controller c).key = some key :=
      ((thins_disconnect engine c first).key c).trans hkey
    have hknowing : (engine.disconnect c first).instancesFor key = engine.instancesFor key :=
      (releases_disconnect engine c first).instancesFor_eq key
    have hoff : (engine.disconnect c first).controller c = (engine.controller c).released first :=
      controller_disconnect_self ..
    refine ⟨?_, ?_, ?_, ?_, ?_, hcontrollers, ?_, ?_⟩
    · rw [host_disconnect hrunning' hkey', host_disconnect hrunning hkey,
        host_disconnect hrunning hkey, hoff, hknowing, tokensFor_disconnect hrunning hkey]
      -- nothing is observed any more, and after an eviction nothing is listened for
      cases first with
      | false => cases second <;> rfl
      | true =>
        cases second with
        | false => rfl
        | true => exact Host.unsubscribing_nil
    · rw [options_disconnect, options_disconnect, options_disconnect]
    · rw [running_disconnect, running_disconnect, running_disconnect]
    · rw [registry_disconnect hrunning' hkey', registry_disconnect hrunning hkey,
        registry_disconnect hrunning hkey]
      by_cases hregistered : engine.registry.get? key = some c <;>
        cases first <;> cases second <;> simp [hregistered, KeyMap.get?_erase]
    · rw [live_disconnect, live_disconnect, live_disconnect]
    · refine instances_eq_of_inst ?_ fun i => ?_
      · rw [length_instances_disconnect, length_instances_disconnect, length_instances_disconnect]
      · rw [inst_disconnect hrunning' hkey', inst_disconnect hrunning hkey,
          inst_disconnect hrunning hkey, hknowing]
        split
        · exact (engine.inst i).without_without c key first second
        · rfl
    · rw [events_disconnect hrunning' hkey', events_disconnect hrunning hkey,
        events_disconnect hrunning hkey]
      have hnothing : (engine.disconnect c first).farewell c = [] := by
        rw [farewell, hoff]
        rfl
      rw [hnothing, List.append_nil]

/-! ### Departures -/

/-- One engine comes from another by disconnecting a controller from its key. -/
structure Departs (c : ControllerId) (key : String) (evict : Bool) (before after : Engine) :
    Prop where
  disconnected : (after.controller c).connected = false
  stylesheet : (after.controller c).stylesheet = none
  observers : (after.controller c).observers = []
  wiredItems : (after.controller c).wiredItems = []
  keyed : (after.controller c).key = some key
  others (other : ControllerId) : other ≠ c → after.controller other = before.controller other
  /-- The live instances that know the key have forgotten its ids. -/
  forgotten : before.running = true → ∀ i ∈ after.instancesFor key,
    ∀ id ∈ (after.inst i).interactionIdsFor key, id ∉ (after.inst i).memo
  memo (i : InstanceId) (id : String) :
    ¬(i ∈ before.instancesFor key ∧ id ∈ (before.inst i).interactionIdsFor key) →
      (id ∈ (after.inst i).memo ↔ id ∈ (before.inst i).memo)
  registry (name : String) (other : ControllerId) : name ≠ key ∨ other ≠ c →
    (after.registry.get? name = some other ↔ before.registry.get? name = some other)
  table (i : InstanceId) (name : String) (other : ControllerId) : name ≠ key ∨ other ≠ c →
    ((after.inst i).controllers.get? name = some other ↔
      (before.inst i).controllers.get? name = some other)
  listeners (i : InstanceId) (listener : ConditionListener) :
    listener.concerns key = false ∨ evict = false →
      (listener ∈ (after.inst i).listeners ↔ listener ∈ (before.inst i).listeners)
  graph (i : InstanceId) : (after.inst i).graph = (before.inst i).graph
  live : after.live = before.live
  /-- Neither the registry nor a live instance that knows the key has the controller under it any
  more, and nothing is listened for on behalf of the key. -/
  evicted : evict = true → before.running = true → after.registry.get? key ≠ some c ∧
    ∀ i ∈ after.instancesFor key, (after.inst i).controllers.get? key ≠ some c ∧
      ∀ listener ∈ (after.inst i).listeners, listener.concerns key = false

theorem departs_disconnect (hkey : (engine.controller c).key = some key) (evict : Bool) :
    Departs c key evict engine (engine.disconnect c evict) where
  disconnected := congrArg Controller.connected (controller_disconnect_self ..)
  stylesheet := congrArg Controller.stylesheet (controller_disconnect_self ..)
  observers := congrArg Controller.observers (controller_disconnect_self ..)
  wiredItems := congrArg Controller.wiredItems (controller_disconnect_self ..)
  keyed := (congrArg Controller.key (controller_disconnect_self ..)).trans hkey
  others other hne := by rw [controller_disconnect, if_neg fun h => hne h.1.symm]
  forgotten hrunning i hi id hid := by
    have hlive : i ∈ engine.live := live_disconnect engine c evict ▸ List.mem_of_mem_filter hi
    rw [Instance.interactionIdsFor,
      graph_eq_of_instances (releases_disconnect engine c evict).frame.2.2] at hid
    exact not_mem_memo_disconnect hrunning hlive hkey hid
  memo i id hout := by
    refine mem_memo_disconnect_iff.trans (and_iff_left ?_)
    rintro ⟨-, name, hname, hfreed⟩
    exact hout (Option.some.inj (hkey.symm.trans hname) ▸ hfreed)
  registry name other hother := by
    refine get?_registry_disconnect_iff.trans (and_iff_left ?_)
    rintro ⟨hevicts, rfl⟩
    exact hother.elim (· (Option.some.inj (hevicts.keyed.symm.trans hkey))) (· rfl)
  table i name other hother := by
    refine get?_table_disconnect_iff.trans (and_iff_left ?_)
    rintro ⟨hevicts, -, rfl⟩
    exact hother.elim (· (Option.some.inj (hevicts.keyed.symm.trans hkey))) (· rfl)
  listeners i listener hother := by
    refine mem_listeners_disconnect_iff.trans (and_iff_left ?_)
    rintro ⟨name, hevicts, -, hconcerns⟩
    rcases hother with hother | rfl
    · obtain rfl := Option.some.inj (hevicts.keyed.symm.trans hkey)
      exact Bool.false_ne_true (hother.symm.trans (ConditionListener.concerns_iff.mpr hconcerns))
    · exact not_evicts_soft hevicts
  graph i := graph_eq_of_instances (releases_disconnect engine c evict).frame.2.2 i
  live := live_disconnect engine c evict
  evicted hevict hrunning := by
    subst hevict
    have hevicts : engine.Evicts c true key := ⟨hrunning, rfl, hkey⟩
    have hknowing : (engine.disconnect c true).instancesFor key = engine.instancesFor key :=
      (releases_disconnect engine c true).instancesFor_eq key
    refine ⟨fun h => (get?_registry_disconnect_iff.mp h).2 ⟨hevicts, rfl⟩, fun i hi => ⟨fun h => ?_,
      fun listener hlistener => ?_⟩⟩
    · exact (get?_table_disconnect_iff.mp h).2 ⟨hevicts, hknowing ▸ hi, rfl⟩
    · obtain ⟨-, hkept⟩ := mem_listeners_disconnect_iff.mp hlistener
      refine Bool.not_eq_true _ ▸ fun hconcerns => hkept ⟨key, hevicts, hknowing ▸ hi, ?_⟩
      exact ConditionListener.concerns_iff.mp hconcerns

/-- In every run, a disconnection of a controller from its key leaves the controller without
anything to release and everything else as it is. In a running engine it also lets the ids of the
key be applied again and evicts the controller; from every table, if none has been filled by hand.
To repeat it changes nothing, and a soft disconnection before an eviction makes no difference. -/
theorem run_disconnect_departs {host : Host} {options : EngineOptions}
    {operations : List Operation}
    (hkey : (((start host options).run operations).controller c).key = some key) (evict : Bool) :
    let engine := (start host options).run operations
    Departs c key evict engine (engine.disconnect c evict) ∧
      (evict = true → engine.running = true →
        (∀ operation ∈ operations, operation.listsByHand = false) →
          ∀ i name, ((engine.disconnect c evict).inst i).controllers.get? name ≠ some c) ∧
      SameState (engine.disconnect c evict) ((engine.disconnect c evict).disconnect c evict) ∧
      SameState (engine.disconnect c true) ((engine.disconnect c false).disconnect c true) := by
  intro engine
  have hdeparts := departs_disconnect hkey evict
  have hrepeated : SameState (engine.disconnect c (evict || evict))
      ((engine.disconnect c evict).disconnect c evict) := disconnect_disconnect hkey evict evict
  rw [Bool.or_self] at hrepeated
  refine ⟨hdeparts, fun hevict hrunning hoperations i name hlisted => ?_, hrepeated,
    disconnect_disconnect hkey false true⟩
  -- whoever is listed is listed under the own key, by a live instance that knows the key
  have htabled : (engine.disconnect c evict).Tabled :=
    (thins_disconnect engine c evict).maintains.tabled ((tabled_start host options).run hoperations)
  obtain ⟨hlive, hname, hknows⟩ := htabled i name c hlisted
  obtain rfl := Option.some.inj (hdeparts.keyed.symm.trans hname)
  obtain ⟨-, hunlisted⟩ := hdeparts.evicted hevict hrunning
  exact (hunlisted i (List.mem_filter.mpr ⟨hlive, hknows⟩)).1 hlisted

/-- A document in which the switch of node 1 has the row 4 with the button 5. -/
def switchDom : Dom where
  queryAll root selector :=
    if root ≠ 1 then []
    else if selector = "ol" then [4]
    else if selector = "ol > *" then [5]
    else []
  children node := if node = 1 then [4] else if node = 4 then [5] else []
  matchesSelector _ _ := false
  attributeOf _ _ := none

/-- At night the buttons of the switch light the lamp. -/
def switchConfig : Config :=
  (Config.ofInteractions [(((Interaction.ofTrigger "switch" .click).withList "ol"
    none).withConditions ["night"]).withEffect ((Effect.byId "light").on "lamp")]).withCondition
      "night" ⟨.media, "night"⟩

def switchHost : Host := { Host.bare with dom := switchDom, queryState := fun _ => true }

/-- The lamp and the switch are connected, and the switch is dressed. -/
def switchOperations : List Operation :=
  [.create switchConfig, .addNode 2 "lamp", .addNode 1 "switch", .style 1 ["color: red"]]

/-- The switch holds all that a controller can hold, is listed, and has an id applied and listened
for. Nothing of this is left after its eviction, and the lamp stays as it is. -/
theorem run_disconnect_departs_switch :
    let engine := (start switchHost .standard).run switchOperations
    let after := engine.disconnect 1 true
    (engine.controller 1 = ⟨1, false, some "switch", true, some 1, [(4, 1)], [],
        [("lamp::light::0", 5)]⟩ ∧ (engine.inst 0).memo = ["lamp::light::0"] ∧
      (engine.inst 0).controllers.get? "switch" = some 1 ∧
      (engine.inst 0).listeners.map ConditionListener.token = [1]) ∧
      engine.running = true ∧ (∀ operation ∈ switchOperations, operation.listsByHand = false) ∧
      Departs 1 "switch" true engine after ∧
      (∀ i name, (after.inst i).controllers.get? name ≠ some 1) ∧
      SameState after (after.disconnect 1 true) ∧
      SameState after ((engine.disconnect 1 false).disconnect 1 true) := by
  intro engine after
  have hkey : (engine.controller 1).key = some "switch" := by decide +kernel
  have hrunning : engine.running = true := by decide +kernel
  have hhand : ∀ operation ∈ switchOperations, operation.listsByHand = false := by decide
  obtain ⟨hdeparts, hunlisted, hrepeated, hsoft⟩ :=
    @run_disconnect_departs 1 "switch" switchHost .standard switchOperations hkey true
  exact ⟨by decide +kernel, hrunning, hhand, hdeparts, hunlisted rfl hrunning hhand, hrepeated,
    hsoft⟩

/-- When the engine has stopped, an eviction leaves the switch listed and its id applied. And where
the switch has been listed by hand as the lamp, it stays listed after an eviction. -/
theorem disconnect_leaves_listed :
    let engine := (start switchHost .standard).run switchOperations
    let stopped := engine.run [.stop, .disconnect 1 true]
    let relisted := engine.run [.setController 0 "lamp" 1, .disconnect 1 true]
    ((engine.controller 1).key = some "switch" ∧ (stopped.inst 0).destroyed = false ∧
      (stopped.inst 0).controllers.get? "switch" = some 1 ∧
      "lamp::light::0" ∈ (stopped.inst 0).interactionIdsFor "switch" ∧
      "lamp::light::0" ∈ (stopped.inst 0).memo) ∧
      relisted.running = true ∧ (relisted.inst 0).controllers.get? "lamp" = some 1 := by
  decide +kernel

end Engine

end InteractionBinding
