import InteractionBinding.Proofs.Lifecycle.Disconnecting
/-!
# Disconnecting a replaced controller

A controller that mounts under a key takes the entries of the key in the registry and in the tables
of instances. The controller it replaces keeps the key, and can still be disconnected. This leaves
the successor and its entries as they are. What instances have applied under the key and what they
listen for on behalf of it is kept by the key alone, and is lost to the successor
(`Engine.disconnect_replaced`).
-/

namespace InteractionBinding.Engine

variable {engine : Engine} {c successor : ControllerId} {key : String}

/-- A controller has a key under which another one is registered. -/
structure Replaced (engine : Engine) (c successor : ControllerId) (key : String) : Prop where
  keyed : (engine.controller c).key = some key
  registered : engine.registry.get? key = some successor
  ne : successor ≠ c

/-- A disconnection of a controller that runs evicts it from its own key only. -/
theorem Replaced.exists_evicts_iff (h : engine.Replaced c successor key) {evict : Bool}
    {P : String → Prop} : (∃ name, engine.Evicts c evict name ∧ P name) ↔
      engine.running = true ∧ evict = true ∧ P key := by
  constructor
  · rintro ⟨name, ⟨hrunning, hevict, hkeyed⟩, hname⟩
    obtain rfl := Option.some.inj (h.keyed.symm.trans hkeyed)
    exact ⟨hrunning, hevict, hname⟩
  · rintro ⟨hrunning, hevict, hname⟩
    exact ⟨key, ⟨hrunning, hevict, h.keyed⟩, hname⟩

theorem Replaced.frees_iff (h : engine.Replaced c successor key) {i : InstanceId} {text : String} :
    engine.Frees c i text ↔ engine.running = true ∧ i ∈ engine.instancesFor key ∧
      text ∈ (engine.inst i).interactionIdsFor key := by
  constructor
  · rintro ⟨hrunning, name, hkeyed, hname⟩
    obtain rfl := Option.some.inj (h.keyed.symm.trans hkeyed)
    exact ⟨hrunning, hname⟩
  · rintro ⟨hrunning, hname⟩
    exact ⟨hrunning, key, h.keyed, hname⟩

/-- The registry is as it was after a disconnection of a replaced controller. -/
theorem Replaced.registry_eq (h : engine.Replaced c successor key) (evict : Bool) :
    (engine.disconnect c evict).registry = engine.registry := by
  refine KeyMap.ext_get? fun name => Option.ext fun other => ?_
  refine get?_registry_disconnect_iff.trans (and_iff_left_of_imp ?_)
  rintro hget ⟨hevicts, rfl⟩
  obtain rfl := Option.some.inj (h.keyed.symm.trans hevicts.keyed)
  exact h.ne (Option.some.inj (h.registered.symm.trans hget))

/-- The disconnection of a replaced controller leaves the registry, its successor and the entries of
the successor in the tables of instances as they are. In a running engine it forgets every id that
the key takes part in, and an eviction ends all that is listened for on behalf of the key, with the
subscriptions at the host. Nothing else is forgotten or ended. -/
theorem disconnect_replaced (h : engine.Replaced c successor key) (evict : Bool) :
    let after := engine.disconnect c evict
    after.registry = engine.registry ∧
      after.controller successor = engine.controller successor ∧
      (∀ i name, (after.inst i).controllers.get? name = some successor ↔
        (engine.inst i).controllers.get? name = some successor) ∧
      (∀ i text, text ∈ (after.inst i).memo ↔ text ∈ (engine.inst i).memo ∧
        ¬(engine.running = true ∧ i ∈ engine.instancesFor key ∧
          text ∈ (engine.inst i).interactionIdsFor key)) ∧
      (∀ i listener, listener ∈ (after.inst i).listeners ↔ listener ∈ (engine.inst i).listeners ∧
        ¬(engine.running = true ∧ evict = true ∧ i ∈ engine.instancesFor key ∧
          (listener.source = key ∨ listener.target = key))) ∧
      ∀ entry, entry ∈ after.host.subscriptions.entries ↔
        entry ∈ engine.host.subscriptions.entries ∧
        ¬(engine.running = true ∧ evict = true ∧
          engine.Subscribes (engine.instancesFor key) key entry.1) := by
  refine ⟨h.registry_eq evict, ?_, fun i name => ?_, fun i text => ?_, fun i listener => ?_,
    fun entry => ?_⟩
  · rw [controller_disconnect, if_neg fun hand => h.ne hand.1.symm]
  · exact get?_table_disconnect_iff.trans (and_iff_left fun hand => h.ne hand.2.2)
  · rw [mem_memo_disconnect_iff, h.frees_iff]
  · rw [mem_listeners_disconnect_iff, h.exists_evicts_iff]
  · rw [mem_subscriptions_disconnect_iff, h.exists_evicts_iff]

/-- The button on node 1 is disconnected and replaced by one on node 3, which is wired. Evicting the
first button takes the memo and the listeners of the second. -/
theorem disconnect_replaced_button :
    let wide : Query := ⟨.media, "(wide)"⟩
    let config := (Config.ofInteractions [(Interaction.ofTrigger "button" .click).withEffect
      (((Effect.byId "open").on "panel").withConditions ["wide"])]).withCondition "wide"
        ⟨.media, "wide"⟩
    let host := { Host.bare with queryState := fun _ => true }
    let engine := (start host .standard).run [.create config, .addNode 2 "panel",
      .addNode 1 "button", .disconnect 1 false, .addNode 3 "button"]
    let after := engine.disconnect 1 true
    engine.Replaced 1 2 "button" ∧ after.registry = engine.registry ∧
      engine.wires = [⟨3, 2, ⟨"panel", "open", 0⟩⟩] ∧ after.wires = engine.wires ∧
      (engine.inst 0).memo = ["panel::open::0"] ∧ "panel::open::0" ∉ (after.inst 0).memo ∧
      engine.host.tickets = [(1, wide)] ∧ after.host.tickets = [] := by
  intro wide config host engine after
  have hreplaced : engine.Replaced 1 2 "button" :=
    ⟨by decide +kernel, by decide +kernel, by decide⟩
  obtain ⟨hregistry, -, -, hmemo, -, -⟩ := disconnect_replaced hreplaced true
  refine ⟨hreplaced, hregistry, by decide +kernel, by decide +kernel, by decide +kernel, ?_,
    by decide +kernel, by decide +kernel⟩
  refine fun hmem => ((hmemo 0 _).mp hmem).2 ⟨?_, ?_, ?_⟩ <;> decide +kernel

end InteractionBinding.Engine
