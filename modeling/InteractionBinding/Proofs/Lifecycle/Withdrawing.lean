import InteractionBinding.Proofs.Wiring.Releasing
/-!
# What a disconnection takes away from instances, the registry and the host

A disconnection of a controller from its key in a running engine, record by record. The live
instances that know the key are left without it (`Engine.inst_disconnect`), the registry loses its
entry on eviction (`Engine.registry_disconnect`), the host gives up the observations of the
controller and on eviction the subscriptions on behalf of the key (`Engine.host_disconnect`), and
the host is told to drop the nodes and the stylesheet of the controller (`Engine.events_disconnect`).
Without a key, or in an engine that has stopped, nothing is taken from instances, the registry and
subscriptions (`Engine.withdraws_nothing`).

## Main definitions

* `Instance.without` — what is left of an instance.
* `Engine.tokensFor` — the tokens of the subscriptions on behalf of a key.
* `Engine.farewell` — what the host is told.
-/

namespace InteractionBinding

/-- Whether a listener is attached on behalf of a key. -/
def ConditionListener.concerns (listener : ConditionListener) (key : String) : Bool :=
  listener.source = key || listener.target = key

theorem ConditionListener.concerns_iff {listener : ConditionListener} {key : String} :
    listener.concerns key = true ↔ listener.source = key ∨ listener.target = key := by
  simp [concerns]

/-! ### Instances -/

namespace Instance

/-- What is left of an instance after a controller has been disconnected from a key. -/
def without (inst : Instance) (c : ControllerId) (key : String) (evict : Bool) : Instance :=
  { inst with
    memo := inst.memo.filter fun id => id ∉ inst.interactionIdsFor key
    controllers :=
      if evict && inst.controllers.get? key = some c then inst.controllers.erase key
      else inst.controllers
    listeners :=
      if evict then inst.listeners.filter fun listener => !listener.concerns key
      else inst.listeners }

theorem without_default (c : ControllerId) (key : String) (evict : Bool) :
    (default : Instance).without c key evict = default := by
  cases evict <;> rfl

theorem eq_of_parts {inst other : Instance} (hgraph : inst.graph = other.graph)
    (hmemo : inst.memo = other.memo) (hlisteners : inst.listeners = other.listeners)
    (hcontrollers : inst.controllers = other.controllers)
    (hdestroyed : inst.destroyed = other.destroyed) : inst = other := by
  cases inst
  cases other
  cases hgraph
  cases hmemo
  cases hlisteners
  cases hcontrollers
  cases hdestroyed
  rfl

/-- What has been taken from an instance is not taken again. -/
theorem without_without (inst : Instance) (c : ControllerId) (key : String) (first second : Bool) :
    (inst.without c key first).without c key second = inst.without c key (first || second) := by
  have hmemo : ((inst.without c key first).without c key second).memo =
      (inst.without c key (first || second)).memo := by
    change (inst.memo.filter fun id => id ∉ inst.interactionIdsFor key).filter
      (fun id => id ∉ inst.interactionIdsFor key) = _
    rw [List.filter_filter]
    simp only [Bool.and_self]
    rfl
  have hcontrollers : ((inst.without c key first).without c key second).controllers =
      (inst.without c key (first || second)).controllers := by
    by_cases hlisted : inst.controllers.get? key = some c <;>
      cases first <;> cases second <;> simp [without, hlisted, KeyMap.get?_erase]
  have hlisteners : ((inst.without c key first).without c key second).listeners =
      (inst.without c key (first || second)).listeners := by
    cases first <;> cases second <;> simp [without, List.filter_filter]
  exact eq_of_parts rfl hmemo hlisteners hcontrollers rfl

end Instance

/-! ### Hosts -/

namespace Host

variable {host : Host} {tokens others : List Token}

/-- A host without some of its subscriptions. -/
def unsubscribing (host : Host) (tokens : List Token) : Host :=
  { host with
    subscriptions := { host.subscriptions with
      entries := host.subscriptions.entries.filter fun entry => entry.1 ∉ tokens } }

/-- A host without the observations of a controller. -/
def unobserving (host : Host) (observers : List (NodeId × Token)) : Host :=
  observers.foldl (fun host observer => host.unobserve observer.2) host

theorem subscriptions_unobserving (observers : List (NodeId × Token)) :
    (host.unobserving observers).subscriptions = host.subscriptions :=
  List.foldlRecOn (motive := fun after : Host => after.subscriptions = host.subscriptions) _ _ rfl
    fun _ h _ _ => h

theorem unsubscribing_nil : host.unsubscribing [] = host := by
  simp [unsubscribing]

theorem unsubscribing_append :
    host.unsubscribing (tokens ++ others) = (host.unsubscribing tokens).unsubscribing others := by
  simp only [unsubscribing, List.filter_filter, List.mem_append, not_or, Bool.decide_and,
    Bool.and_comm]

theorem unsubscribing_congr (h : ∀ token, token ∈ tokens ↔ token ∈ others) :
    host.unsubscribing tokens = host.unsubscribing others := by
  simp only [unsubscribing, h]

end Host

namespace Engine

variable {engine before after : Engine} {c : ControllerId} {i : InstanceId} {key : String}
  {evict : Bool}

theorem unsubscribeAll_eq (engine : Engine) (listeners : List ConditionListener) :
    engine.unsubscribeAll listeners = { engine with
      host := engine.host.unsubscribing (listeners.map ConditionListener.token) } := by
  have hhost : listeners.foldl (fun host listener => host.unsubscribe listener.token) engine.host =
      engine.host.unsubscribing (listeners.map ConditionListener.token) := by
    rw [Host.unsubscribing, ← ListenerSet.foldl_unsubscribe, List.foldl_map]
    refine List.foldl_hom (fun set => { engine.host with subscriptions := set }) fun host _ => ?_
    rfl
  rw [unsubscribeAll, hhost]

/-! ### Instances that are left -/

theorem modify_inst_congr {f g : Instance → Instance} (h : f (engine.inst i) = g (engine.inst i)) :
    engine.instances.modify i f = engine.instances.modify i g := by
  refine List.ext_getElem? fun j => ?_
  rw [List.getElem?_modify, List.getElem?_modify]
  split
  next hij =>
    subst hij
    cases hget : engine.instances[i]? with
    | none => rfl
    | some inst =>
      have hinst : engine.inst i = inst := by
        rw [Engine.inst, List.getD_eq_getElem?_getD, hget]
        rfl
      rw [hinst] at h
      exact congrArg some h
  next => rfl

/-- The tokens of what some instances listen for on behalf of a key. -/
def tokensFor (engine : Engine) (key : String) (instances : List InstanceId) : List Token :=
  instances.flatMap fun i =>
    ((engine.inst i).listeners.filter (·.concerns key)).map ConditionListener.token

theorem tokensFor_congr (h : ∀ i, (after.inst i).listeners = (before.inst i).listeners)
    (key : String) (instances : List InstanceId) :
    after.tokensFor key instances = before.tokensFor key instances := by
  simp only [tokensFor, h]

theorem releaseController_eq (engine : Engine) (i : InstanceId) (key : String) (c : ControllerId) :
    (engine.releaseController i key c).1 = engine.modifyInstance i fun inst =>
      { inst with
        controllers := if inst.controllers.get? key = some c then inst.controllers.erase key
          else inst.controllers } := by
  have hinstances (f : Instance → Instance) (h : f (engine.inst i) =
      { engine.inst i with
        controllers := if (engine.inst i).controllers.get? key = some c
          then (engine.inst i).controllers.erase key else (engine.inst i).controllers }) :
      engine.modifyInstance i f = engine.modifyInstance i fun inst =>
        { inst with
          controllers := if inst.controllers.get? key = some c then inst.controllers.erase key
            else inst.controllers } :=
    congrArg (fun instances => { engine with instances := instances }) (modify_inst_congr h)
  rw [releaseController]
  split
  next hlisted => exact hinstances _ (by rw [if_pos hlisted])
  next hlisted =>
    refine Eq.trans ?_ (hinstances id (by rw [if_neg hlisted]; rfl))
    rw [modifyInstance, List.modify_id]

theorem unlistenKey_eq (engine : Engine) (i : InstanceId) (key : String) :
    engine.unlistenKey i key = { engine with
      host := engine.host.unsubscribing (engine.tokensFor key [i])
      instances := engine.instances.modify i fun inst => { inst with
        listeners := inst.listeners.filter fun listener => !listener.concerns key } } := by
  simp only [unlistenKey, unsubscribeAll_eq, tokensFor, List.flatMap_singleton]
  rfl

/-- Releasing a key in an instance leaves the instance without it. -/
theorem releaseKey_eq (c : ControllerId) (key : String) (evict : Bool) (engine : Engine)
    (i : InstanceId) :
    releaseKey c key evict engine i = { engine with
      host := if evict then engine.host.unsubscribing (engine.tokensFor key [i]) else engine.host
      instances := engine.instances.modify i (·.without c key evict)
      log := engine.log ++ [.forgot i key] } := by
  cases evict with
  | false => rfl
  | true =>
    have hdeaf := (deaf_forgetKey engine i key).trans (deaf_releaseController _ i key c)
    simp only [releaseKey, if_true, unlistenKey_eq, tokensFor_congr hdeaf.listeners]
    rw [releaseController_eq, forgetKey, modifyInstance, modifyInstance, List.modify_modify_eq,
      List.modify_modify_eq]
    congr 2
    funext inst
    simp [Instance.without, Instance.clearKey]

theorem inst_releaseKey (j : InstanceId) :
    (releaseKey c key evict engine i).inst j =
      if i = j then (engine.inst j).without c key evict else engine.inst j := by
  rw [releaseKey_eq]
  change (engine.modifyInstance i (·.without c key evict)).inst j = _
  rw [inst_modifyInstance_eq]
  by_cases hi : i = j
  · by_cases hlength : j < engine.instances.length
    · rw [if_pos ⟨hi, hlength⟩, if_pos hi]
    · rw [if_neg fun h => hlength h.2, if_pos hi, inst_eq_default (Nat.not_lt.mp hlength),
        Instance.without_default]
  · rw [if_neg fun h => hi h.1, if_neg hi]

theorem inst_foldl_releaseKey {instances : List InstanceId} (j : InstanceId) :
    (instances.foldl (releaseKey c key evict) engine).inst j =
      if j ∈ instances then (engine.inst j).without c key evict else engine.inst j := by
  induction instances generalizing engine with
  | nil => rfl
  | cons i rest ih =>
    rw [List.foldl_cons, ih, inst_releaseKey]
    by_cases hi : i = j
    · subst hi
      simp [Instance.without_without]
    · simp [hi, Ne.symm hi]

theorem mem_tokensFor_iff {instances : List InstanceId} {token : Token} :
    token ∈ engine.tokensFor key instances ↔ ∃ i ∈ instances,
      ∃ listener ∈ (engine.inst i).listeners,
        listener.concerns key = true ∧ listener.token = token := by
  simp only [tokensFor, List.mem_flatMap, List.mem_map, List.mem_filter, and_assoc]

/-- What one instance ends, and what the others end after it, is what all of them end. -/
theorem mem_tokensFor_releaseKey {rest : List InstanceId} {token : Token} :
    token ∈ engine.tokensFor key [i] ++ (releaseKey c key true engine i).tokensFor key rest ↔
      token ∈ engine.tokensFor key (i :: rest) := by
  simp only [List.mem_append, mem_tokensFor_iff]
  constructor
  · rintro (⟨j, hj, hends⟩ | ⟨j, hj, listener, hmem, hends⟩)
    · exact ⟨j, List.mem_singleton.mp hj ▸ List.mem_cons_self, hends⟩
    · refine ⟨j, List.mem_cons_of_mem _ hj, listener, ?_, hends⟩
      rw [inst_releaseKey] at hmem
      split at hmem
      · exact List.mem_of_mem_filter hmem
      · exact hmem
  · rintro ⟨j, hj, listener, hmem, hends⟩
    by_cases hi : i = j
    · exact .inl ⟨j, List.mem_singleton.mpr hi.symm, listener, hmem, hends⟩
    · refine .inr ⟨j, (List.mem_cons.mp hj).resolve_left (Ne.symm hi), listener, ?_, hends⟩
      rwa [inst_releaseKey, if_neg hi]

theorem host_foldl_releaseKey {instances : List InstanceId} :
    (instances.foldl (releaseKey c key evict) engine).host =
      if evict then engine.host.unsubscribing (engine.tokensFor key instances)
      else engine.host := by
  cases evict with
  | false =>
    exact List.foldlRecOn (motive := fun after : Engine => after.host = engine.host) instances
      (releaseKey c key false) rfl fun _ h _ _ => h
  | true =>
    rw [if_pos rfl]
    induction instances generalizing engine with
    | nil => exact Host.unsubscribing_nil.symm
    | cons i rest ih =>
      have hfirst : (releaseKey c key true engine i).host =
          engine.host.unsubscribing (engine.tokensFor key [i]) := by
        rw [releaseKey_eq]
        rfl
      rw [List.foldl_cons, ih, hfirst, ← Host.unsubscribing_append]
      exact Host.unsubscribing_congr fun token => mem_tokensFor_releaseKey

theorem events_foldl_releaseKey {instances : List InstanceId} :
    (instances.foldl (releaseKey c key evict) engine).events = engine.events := by
  refine List.foldlRecOn (motive := fun after : Engine => after.events = engine.events) _ _ rfl
    fun after h i _ => ?_
  rw [releaseKey_eq, ← h]
  exact List.filterMap_append.trans (List.append_nil _)

/-! ### What a disconnection leaves -/

/-- What the host is told when a controller is disconnected. -/
def farewell (engine : Engine) (c : ControllerId) : List Event :=
  (if (engine.controller c).connected then
    engine.host.handlers.all.flatMap fun handler =>
      (engine.ownedNodes c).map (Event.remove handler ·)
  else []) ++ (engine.controller c).stylesheet.toList.map Event.removeSheet

theorem events_tellAll (engine : Engine) (events : List Event) :
    (engine.tellAll events).events = engine.events ++ events := by
  rw [Engine.events, tellAll, List.filterMap_append, List.filterMap_map]
  exact congrArg (engine.events ++ ·) List.filterMap_some

theorem tellAll_tellAll (engine : Engine) (first second : List Event) :
    (engine.tellAll first).tellAll second = engine.tellAll (first ++ second) := by
  simp [tellAll, scene]

theorem releasedAtHost_eq (engine : Engine) (c : ControllerId) (evict : Bool) :
    engine.releasedAtHost c evict =
      let told := (engine.modifyController c (Controller.released · evict)).tellAll
        (engine.farewell c)
      { told with host := told.host.unobserving (engine.controller c).observers } := by
  have hsheets (state : Engine) (sheets : List SheetId) :
      sheets.foldl removeSheet state = state.tellAll (sheets.map Event.removeSheet) := by
    rw [← foldl_tell, List.foldl_map]
    rfl
  have hnodes (state : Engine) (nodes : List NodeId) : state.teardown nodes =
      state.tellAll (state.host.handlers.all.flatMap fun handler =>
        nodes.map (Event.remove handler ·)) := foldl_tell ..
  simp only [releasedAtHost, releaseHost, hsheets, hnodes, ownedNodes_released, farewell]
  split
  · rw [tellAll_tellAll]
    rfl
  · rfl

theorem unregister_eq (engine : Engine) (key : String) (c : ControllerId) :
    (engine.unregister key c).1 = { engine with
      registry := if engine.registry.get? key = some c then engine.registry.erase key
        else engine.registry } := by
  rw [unregister]
  split <;> rfl

section Disconnecting

variable (hrunning : engine.running = true) (hkey : (engine.controller c).key = some key)
include hrunning hkey

theorem disconnect_eq_withdrawn (evict : Bool) :
    engine.disconnect c evict =
      let cleared := (engine.instancesFor key).foldl (releaseKey c key evict)
        (engine.releasedAtHost c evict)
      { cleared with
        registry := if evict && engine.registry.get? key = some c then engine.registry.erase key
          else engine.registry } := by
  have hreleased : Releases engine (engine.releasedAtHost c evict) :=
    (calm_modifyController engine c _).steps.trans (releases_releaseHost ..)
  have hregistry : ((engine.instancesFor key).foldl (releaseKey c key evict)
      (engine.releasedAtHost c evict)).registry = engine.registry :=
    (congrArg Scene.registry (clears_foldl ..).scene).trans
      (congrArg Scene.registry (drops_releaseHost ..).scene)
  rw [disconnect_eq hrunning hkey]
  dsimp only
  rw [hreleased.instancesFor_eq, unregister_eq, hregistry]
  cases evict with
  | false =>
    rw [if_neg Bool.false_ne_true, ← hregistry]
    rfl
  | true => simp

/-- A disconnection leaves the live instances that know the key without it. -/
theorem inst_disconnect (evict : Bool) (j : InstanceId) :
    (engine.disconnect c evict).inst j =
      if j ∈ engine.instancesFor key then (engine.inst j).without c key evict
      else engine.inst j := by
  have hreleased : (engine.releasedAtHost c evict).inst j = engine.inst j :=
    inst_releasedAtHost evict j
  rw [disconnect_eq_withdrawn hrunning hkey, ← hreleased]
  exact inst_foldl_releaseKey j

theorem registry_disconnect (evict : Bool) :
    (engine.disconnect c evict).registry =
      if evict && engine.registry.get? key = some c then engine.registry.erase key
      else engine.registry := by
  rw [disconnect_eq_withdrawn hrunning hkey]

/-- A disconnection gives up the observations of the controller, and on eviction the subscriptions
on behalf of its key. -/
theorem host_disconnect (evict : Bool) :
    (engine.disconnect c evict).host =
      let host := engine.host.unobserving (engine.controller c).observers
      if evict then host.unsubscribing (engine.tokensFor key (engine.instancesFor key))
      else host := by
  have hhost : (engine.releasedAtHost c evict).host =
      engine.host.unobserving (engine.controller c).observers := by
    rw [releasedAtHost_eq]
    rfl
  rw [disconnect_eq_withdrawn hrunning hkey]
  dsimp only
  rw [host_foldl_releaseKey, hhost,
    tokensFor_congr fun i => congrArg Instance.listeners (inst_releasedAtHost evict i)]

theorem events_disconnect (evict : Bool) :
    (engine.disconnect c evict).events = engine.events ++ engine.farewell c := by
  have hevents : (engine.releasedAtHost c evict).events = engine.events ++ engine.farewell c := by
    rw [releasedAtHost_eq]
    exact events_tellAll ..
  rw [disconnect_eq_withdrawn hrunning hkey, ← hevents]
  exact events_foldl_releaseKey

/-- After an eviction no live instance that knows the key listens on behalf of it. -/
theorem tokensFor_disconnect (evict : Bool) :
    (engine.disconnect c evict).tokensFor key (engine.instancesFor key) =
      if evict then [] else engine.tokensFor key (engine.instancesFor key) := by
  cases evict with
  | false =>
    refine List.flatMap_congr fun i hi => ?_
    rw [inst_disconnect hrunning hkey, if_pos hi]
    rfl
  | true =>
    refine List.flatMap_eq_nil_iff.mpr fun i hi => ?_
    rw [inst_disconnect hrunning hkey, if_pos hi]
    simp [Instance.without, List.filter_filter]

end Disconnecting

/-- Without a key, or in an engine that has stopped, a disconnection takes nothing away from the
registry, from instances and from subscriptions. -/
theorem withdraws_nothing (evict : Bool)
    (h : ∀ key, engine.running = true → (engine.controller c).key ≠ some key) :
    (engine.disconnect c evict).registry = engine.registry ∧
      (∀ i, (engine.disconnect c evict).inst i = engine.inst i) ∧
      (engine.disconnect c evict).host.subscriptions = engine.host.subscriptions :=
  disconnect_ind (P := fun after : Engine => after.registry = engine.registry ∧
      (∀ i, after.inst i = engine.inst i) ∧
      after.host.subscriptions = engine.host.subscriptions)
    (fun _ => ⟨rfl, fun _ => rfl, rfl⟩)
    (fun _ _ => ⟨congrArg Scene.registry (drops_releaseHost ..).scene, inst_releasedAtHost evict,
      (drops_releaseHost ..).subscriptions⟩)
    fun key hrunning hkey => absurd hkey (h key hrunning)

end Engine

end InteractionBinding
