import InteractionBinding.Proofs.Wiring.Releasing
/-!
# Connecting a key

A key of a seated scene that is not connected joins the others, either under its registered
controller (`Engine.joins_reconnected`) or under a new one (`Engine.joins_mounted`). What is left to
do is to resolve it (`Engine.connect_cases`, `Engine.addNode_cases`).
-/

namespace InteractionBinding.Engine

variable {ground : Ground} {configs : List Config} {keys keys' : List String} {engine : Engine}
  {c : ControllerId} {key : String}

/-- One engine comes from another by connecting a key, which is still to be resolved. -/
structure Joins (ground : Ground) (keys keys' : List String) (c : ControllerId) (key : String)
    (before after : Engine) : Prop where
  kept : keys ⊆ keys'
  added : keys' ⊆ keys ++ [key]
  seated : after.scene.Seated ground keys'
  live : after.scene.live = before.scene.live
  queryState : after.scene.queryState = before.scene.queryState
  connected (other : String) :
    after.scene.connectedController? other =
      if other = key then some c else before.scene.connectedController? other
  log : after.log = before.log
  instances : after.instances = before.instances
  subscriptions : after.host.subscriptions = before.host.subscriptions

namespace Joins

variable {after : Engine}

theorem orderly (h : Joins ground keys keys' c key engine after)
    (horderly : engine.scene.Orderly ground configs keys)
    (hindices : KeyTemplate.indices key = []) :
    after.scene.Orderly ground configs keys' :=
  { h.seated with
    live := h.live.trans horderly.live
    instances := (congrArg (List.map Instance.face) h.instances).trans horderly.instances
    plain := horderly.plain
    indices := fun other hother => by
      rcases List.mem_append.mp (h.added hother) with hmem | hmem
      · exact horderly.indices other hmem
      · exact List.mem_singleton.mp hmem ▸ hindices }

theorem deaf (h : Joins ground keys keys' c key engine after) : Deaf engine after :=
  ⟨h.subscriptions, fun i => by rw [inst, h.instances]; rfl⟩

theorem wires_eq (h : Joins ground keys keys' c key engine after) : after.wires = engine.wires := by
  rw [wires, wires, events, events, h.log]

theorem inst_eq (h : Joins ground keys keys' c key engine after) (i : InstanceId) :
    after.inst i = engine.inst i := by
  rw [inst, inst, h.instances]

theorem connectedController?_self (h : Joins ground keys keys' c key engine after) :
    after.connectedController? key = some c := by
  rw [Engine.connectedController?_eq, h.connected, if_pos rfl]

theorem isConnected_iff (h : Joins ground keys keys' c key engine after) (other : String) :
    after.scene.IsConnected other ↔ other = key ∨ engine.scene.IsConnected other := by
  rw [Scene.IsConnected, Scene.IsConnected, h.connected]
  split
  next heq => simp [heq]
  next hne => simp [hne]

end Joins

/-- A controller that is registered and not connected. -/
theorem joins_reconnected (hseated : engine.scene.Seated ground keys)
    (hregistered : engine.scene.registry.get? key = some c) :
    Joins ground keys keys c key engine (engine.reconnected c) where
  kept := List.Subset.refl _
  added := List.subset_append_left ..
  seated := scene_reconnected engine c ▸ hseated.setConnected hregistered true
  live := rfl
  queryState := rfl
  connected other := by
    rw [scene_reconnected, hseated.connectedController?_setConnected hregistered]
    rfl
  log := rfl
  instances := rfl
  subscriptions := rfl

/-- A new controller. -/
theorem joins_mounted (hseated : engine.scene.Seated ground keys)
    (hnew : engine.scene.registry.get? key = none) :
    Joins ground keys (keys ++ [key]) engine.controllers.length key engine
      (engine.mounted (ground.nodeOf key) key) where
  kept := List.subset_append_left ..
  added := List.Subset.refl _
  seated := scene_mounted engine (ground.nodeOf key) key ▸ hseated.mount hnew
  live := rfl
  queryState := rfl
  connected other := by
    rw [scene_mounted, hseated.connectedController?_mount, scene, List.length_map]
  log := rfl
  instances := rfl
  subscriptions := rfl

/-- A registered controller is connected already, or joins. -/
theorem connect_cases (hseated : engine.scene.Seated ground keys)
    (hregistered : engine.scene.registry.get? key = some c) (requested : Option String) :
    engine.scene.IsConnected key ∧ (engine.connect c requested).1 = engine ∨
      ¬engine.scene.IsConnected key ∧ ∃ after, Joins ground keys keys c key engine after ∧
        (engine.connect c requested).1 =
          (after.instancesFor key).foldl (resolveIn c key) after := by
  obtain ⟨hlength, hkey, -⟩ := registered_spec hseated hregistered
  have hisConnected : engine.scene.IsConnected key ↔ (engine.controller c).connected = true := by
    rw [Scene.isConnected_iff_of_registered hregistered, scene_controller]
    rfl
  rw [hisConnected]
  cases hconnected : (engine.controller c).connected with
  | true => exact .inl ⟨rfl, connect_of_connected hconnected requested⟩
  | false =>
    exact .inr ⟨Bool.false_ne_true, engine.reconnected c, joins_reconnected hseated hregistered,
      connect_of_registered hseated.running hlength hconnected hkey hregistered requested⟩

/-- Adding a key on its node connects the controller registered under the key, or else a new one. -/
theorem addNode_cases (hseated : engine.scene.Seated ground keys) (hkey : key ≠ "") :
    engine.scene.IsConnected key ∧ (engine.addNode (ground.nodeOf key) key).1 = engine ∨
      ¬engine.scene.IsConnected key ∧ ∃ keys' c after, Joins ground keys keys' c key engine after ∧
        (engine.addNode (ground.nodeOf key) key).1 =
          (after.instancesFor key).foldl (resolveIn c key) after := by
  cases hregistered : engine.registry.get? key with
  | none =>
    refine .inr ⟨fun hisConnected => ?_, keys ++ [key], engine.controllers.length,
      engine.mounted (ground.nodeOf key) key, joins_mounted hseated hregistered,
      addNode_of_new hseated.running hkey hregistered⟩
    have hnone : engine.scene.registry.get? key = none := hregistered
    rw [Scene.IsConnected, Scene.connectedController?, hnone] at hisConnected
    exact Bool.false_ne_true hisConnected
  | some c =>
    obtain ⟨-, -, hnode⟩ := registered_spec hseated hregistered
    rw [Engine.addNode, hregistered, Option.filter_some, hnode]
    simp only [decide_true, if_true]
    refine (connect_cases hseated hregistered (some key)).imp_right (And.imp_right ?_)
    rintro ⟨after, hjoins, heq⟩
    exact ⟨keys, c, after, hjoins, heq⟩

end InteractionBinding.Engine
