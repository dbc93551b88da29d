import InteractionBinding.Proofs.Lifecycle.Withdrawing
import InteractionBinding.Proofs.Subscriptions.Ledger
import InteractionBinding.Proofs.Wiring.Updating
/-!
# What a disconnection takes away

A disconnection reaches four records that others share. The registry and the tables of instances are
guarded: an eviction takes an entry away only if it stands for the controller itself
(`Engine.get?_registry_disconnect_iff`, `Engine.get?_table_disconnect_iff`). What has been applied
and what is listened for is not: a disconnection forgets the ids of the key, and an eviction ends
the listeners of the key with their subscriptions, whoever else has the key
(`Engine.mem_memo_disconnect_iff`, `Engine.mem_listeners_disconnect_iff`,
`Engine.mem_subscriptions_disconnect_iff`).
-/

namespace InteractionBinding.Engine

variable {engine : Engine} {c other : ControllerId} {i : InstanceId} {key : String} {evict : Bool}

/-- A disconnection evicts a controller from a key. -/
structure Evicts (engine : Engine) (c : ControllerId) (evict : Bool) (key : String) : Prop where
  running : engine.running = true
  evicting : evict = true
  keyed : (engine.controller c).key = some key

theorem not_evicts_soft : ¬engine.Evicts c false key :=
  fun hevicts => Bool.false_ne_true hevicts.evicting

theorem evicts_iff (hrunning : engine.running = true)
    (hkey : (engine.controller c).key = some key) {name : String} :
    engine.Evicts c evict name ↔ evict = true ∧ name = key :=
  ⟨fun h => ⟨h.evicting, Option.some.inj (h.keyed.symm.trans hkey)⟩,
    fun ⟨hevict, hname⟩ => ⟨hrunning, hevict, hname ▸ hkey⟩⟩

/-- Either a disconnection has a key to withdraw, or there is none. -/
theorem exists_keyed_or (engine : Engine) (c : ControllerId) :
    (∃ key, engine.running = true ∧ (engine.controller c).key = some key) ∨
      ∀ key, engine.running = true → (engine.controller c).key ≠ some key :=
  (Classical.em _).imp_right fun h key hrunning hkey => h ⟨key, hrunning, hkey⟩

/-! ### Controllers -/

theorem controllers_releaseHost (engine : Engine) (c : ControllerId) (held : Controller) :
    (engine.releaseHost c held).controllers = engine.controllers := by
  have hsheets (state : Engine) :
      (held.stylesheet.toList.foldl removeSheet state).controllers = state.controllers :=
    List.foldlRecOn (motive := fun after : Engine => after.controllers = state.controllers) _ _ rfl
      fun _ h _ _ => h
  simp only [releaseHost, hsheets]
  split
  · rw [teardown, foldl_tell]
    rfl
  · rfl

theorem controllers_releaseKey (engine : Engine) (i : InstanceId) :
    (releaseKey c key evict engine i).controllers = engine.controllers := by
  rw [releaseKey_eq]

/-- A disconnection releases one controller and leaves the others as they are. -/
theorem controllers_disconnect (engine : Engine) (c : ControllerId) (evict : Bool) :
    (engine.disconnect c evict).controllers =
      engine.controllers.modify c (Controller.released · evict) := by
  have hreleased : (engine.releasedAtHost c evict).controllers =
      engine.controllers.modify c (Controller.released · evict) := controllers_releaseHost ..
  refine disconnect_ind (P := fun after : Engine => after.controllers = _) (fun _ => rfl)
    (fun _ _ => hreleased) fun key _ _ => ?_
  have hcleared (state : Engine) (instances : List InstanceId) :
      (instances.foldl (releaseKey c key evict) state).controllers = state.controllers :=
    List.foldlRecOn (motive := fun after : Engine => after.controllers = state.controllers) _ _ rfl
      fun after h i _ => (controllers_releaseKey after i).trans h
  dsimp only
  split
  · exact unregister_ind (P := fun after : Engine => after.controllers = _)
      ((hcleared ..).trans hreleased) fun _ => (hcleared ..).trans hreleased
  · exact (hcleared ..).trans hreleased

theorem controller_disconnect (engine : Engine) (c other : ControllerId) (evict : Bool) :
    (engine.disconnect c evict).controller other =
      if c = other ∧ other < engine.controllers.length
        then (engine.controller other).released evict else engine.controller other := by
  rw [controller, controllers_disconnect]
  exact controller_modifyController_eq c other (Controller.released · evict)

/-! ### The registry -/

/-- An eviction takes the entry of the registry that stands for the controller, and no other. -/
theorem get?_registry_disconnect_iff {name : String} :
    (engine.disconnect c evict).registry.get? name = some other ↔
      engine.registry.get? name = some other ∧ ¬(engine.Evicts c evict name ∧ other = c) := by
  rcases exists_keyed_or engine c with ⟨key, hrunning, hkey⟩ | hunkeyed
  · rw [registry_disconnect hrunning hkey, evicts_iff hrunning hkey]
    split
    next htaken =>
      rw [Bool.and_eq_true, decide_eq_true_eq] at htaken
      rw [KeyMap.get?_erase]
      grind
    next hkept => grind
  · rw [(withdraws_nothing evict hunkeyed).1]
    exact (and_iff_left fun h => hunkeyed name h.1.running h.1.keyed).symm

/-! ### The tables of instances -/

/-- An eviction takes the entries of instances that stand for the controller, and no other. -/
theorem get?_table_disconnect_iff {name : String} :
    ((engine.disconnect c evict).inst i).controllers.get? name = some other ↔
      (engine.inst i).controllers.get? name = some other ∧
        ¬(engine.Evicts c evict name ∧ i ∈ engine.instancesFor name ∧ other = c) := by
  rcases exists_keyed_or engine c with ⟨key, hrunning, hkey⟩ | hunkeyed
  · rw [inst_disconnect hrunning hkey, evicts_iff hrunning hkey]
    split
    next hknows =>
      rw [Instance.without]
      dsimp only
      split
      next htaken =>
        rw [Bool.and_eq_true, decide_eq_true_eq] at htaken
        rw [KeyMap.get?_erase]
        grind
      next hkept => grind
    next hout => grind
  · rw [(withdraws_nothing evict hunkeyed).2.1]
    exact (and_iff_left fun h => hunkeyed name h.1.running h.1.keyed).symm

/-! ### What has been applied and what is listened for -/

/-- A disconnection forgets the ids that the key of the controller takes part in. -/
theorem mem_memo_disconnect_iff {text : String} :
    text ∈ ((engine.disconnect c evict).inst i).memo ↔
      text ∈ (engine.inst i).memo ∧ ¬engine.Frees c i text := by
  rcases exists_keyed_or engine c with ⟨key, hrunning, hkey⟩ | hunkeyed
  · have hfrees : engine.Frees c i text ↔
        i ∈ engine.instancesFor key ∧ text ∈ (engine.inst i).interactionIdsFor key := by
      refine ⟨?_, fun h => ⟨hrunning, key, hkey, h⟩⟩
      rintro ⟨-, name, hname, h⟩
      exact Option.some.inj (hkey.symm.trans hname) ▸ h
    rw [inst_disconnect hrunning hkey, hfrees]
    split
    next hknows =>
      rw [Instance.without, List.mem_filter, decide_eq_true_eq, and_iff_right hknows]
    next hout => exact (and_iff_left fun h => hout h.1).symm
  · rw [(withdraws_nothing evict hunkeyed).2.1]
    refine (and_iff_left ?_).symm
    rintro ⟨hrunning, key, hkey, -⟩
    exact hunkeyed key hrunning hkey

/-- An instance knows the keys that take part in ids. -/
theorem knows_of_mem_interactionIdsFor {inst : Instance} {text : String}
    (h : text ∈ inst.interactionIdsFor key) : inst.graph.knows key = true := by
  rw [Instance.interactionIdsFor] at h
  split at h
  next => cases h
  next node hnode =>
    obtain ⟨graphKey, hresolve, -⟩ := Option.bind_eq_some_iff.mp hnode
    exact Option.isSome_of_eq_some hresolve

/-- The disconnection of a key lets its ids be applied again in the live instances. -/
theorem not_mem_memo_disconnect {text : String} (hrunning : engine.running = true)
    (hlive : i ∈ engine.live) (hkey : (engine.controller c).key = some key)
    (hid : text ∈ (engine.inst i).interactionIdsFor key) :
    text ∉ ((engine.disconnect c evict).inst i).memo := by
  rw [mem_memo_disconnect_iff, not_and_not_right]
  have hknown : i ∈ engine.instancesFor key :=
    List.mem_filter.mpr ⟨hlive, knows_of_mem_interactionIdsFor hid⟩
  exact fun _ => ⟨hrunning, key, hkey, hknown, hid⟩

/-- A disconnection that evicts from no key ends no subscription. -/
theorem deaf_disconnect_of_not_evicts (h : ∀ key, ¬engine.Evicts c evict key) :
    Deaf engine (engine.disconnect c evict) := by
  refine disconnect_ind (fun _ => ⟨rfl, fun _ => rfl⟩)
    (fun _ _ => deaf_releasedAtHost engine c evict) fun key hrunning hkey => ?_
  obtain rfl : evict = false := Bool.not_eq_true _ ▸ fun hevict => h key ⟨hrunning, hevict, hkey⟩
  exact List.foldlRecOn _ _ (deaf_releasedAtHost engine c false) fun state hstate i _ =>
    hstate.trans (deaf_forgetKey state i key)

/-- An eviction ends what instances listen for on behalf of the key of the controller. -/
theorem mem_listeners_disconnect_iff {listener : ConditionListener} :
    listener ∈ ((engine.disconnect c evict).inst i).listeners ↔
      listener ∈ (engine.inst i).listeners ∧ ¬∃ key, engine.Evicts c evict key ∧
        i ∈ engine.instancesFor key ∧ (listener.source = key ∨ listener.target = key) := by
  by_cases hevicts : ∃ key, engine.Evicts c evict key
  · obtain ⟨key, hrunning, rfl, hkey⟩ := hevicts
    simp only [mem_listeners_disconnect hrunning hkey, evicts_iff hrunning hkey, true_and,
      exists_eq_left]
  · have hnone : ∀ key, ¬engine.Evicts c evict key := not_exists.mp hevicts
    rw [(deaf_disconnect_of_not_evicts hnone).listeners]
    refine (and_iff_left ?_).symm
    rintro ⟨key, hevicts, -⟩
    exact hnone key hevicts

/-- A subscription at the host stands for a listener of a key, in one of some instances. -/
def Subscribes (engine : Engine) (instances : List InstanceId) (key : String) (token : Token) :
    Prop :=
  ∃ i ∈ instances, ∃ listener ∈ (engine.inst i).listeners,
    (listener.source = key ∨ listener.target = key) ∧ listener.token = token

theorem subscribes_iff {instances : List InstanceId} {token : Token} :
    engine.Subscribes instances key token ↔ token ∈ engine.tokensFor key instances := by
  simp only [Subscribes, mem_tokensFor_iff, ConditionListener.concerns_iff]

/-- An eviction ends the subscriptions on behalf of the key of the controller. -/
theorem mem_subscriptions_disconnect_iff {entry : Token × QuerySubscription} :
    entry ∈ (engine.disconnect c evict).host.subscriptions.entries ↔
      entry ∈ engine.host.subscriptions.entries ∧ ¬∃ key, engine.Evicts c evict key ∧
        engine.Subscribes (engine.instancesFor key) key entry.1 := by
  by_cases hevicts : ∃ key, engine.Evicts c evict key
  · obtain ⟨key, hrunning, rfl, hkey⟩ := hevicts
    rw [host_disconnect hrunning hkey]
    simp only [evicts_iff hrunning hkey, true_and, exists_eq_left, subscribes_iff, if_true,
      Host.unsubscribing, Host.subscriptions_unobserving, List.mem_filter, decide_eq_true_eq]
  · have hnone : ∀ key, ¬engine.Evicts c evict key := not_exists.mp hevicts
    rw [(deaf_disconnect_of_not_evicts hnone).subscriptions]
    refine (and_iff_left ?_).symm
    rintro ⟨key, hevicts, -⟩
    exact hnone key hevicts

end InteractionBinding.Engine
