import InteractionBinding.Engine.Operation
import InteractionBinding.Proofs.Engine.Resolution
/-!
# Connecting a controller

A connection comes down to resolving a key for a controller that is connected and registered
(`Engine.connect_ind`). The controller is a new one if no controller is registered under the key
(`Engine.addNode_of_new`), and the registered one otherwise (`Engine.connect_of_registered`).
-/

namespace InteractionBinding

theorem KeyMap.insert_eq_self {α : Type} {m : KeyMap α} {key : String} {value : α}
    (h : m.get? key = some value) : m.insert key value = m := by
  refine KeyMap.ext_get? fun other => ?_
  rw [KeyMap.get?_insert]
  split
  next heq => rw [heq, h]
  next => rfl

namespace Engine

variable {engine : Engine} {c : ControllerId} {key : String}

/-- A key is resolved in the instances that know it, once its controller is registered. -/
theorem resolve_eq (engine : Engine) (c : ControllerId) (key : String) :
    (engine.resolve c key).1 = ((engine.register key c).1.instancesFor key).foldl
      (resolveIn c key) (engine.register key c).1 := rfl

/-- Resolving a key registers its controller, and changes nothing else in the scene. -/
theorem scene_resolve (engine : Engine) (c : ControllerId) (key : String) :
    (engine.resolve c key).1.scene = (engine.register key c).1.scene :=
  scene_foldl_resolveIn ..

theorem resolve_of_registered (h : engine.registry.get? key = some c) :
    (engine.resolve c key).1 = (engine.instancesFor key).foldl (resolveIn c key) engine := by
  simp only [resolve, KeyMap.insert_eq_self h]

/-! ### Any controller -/

/-- The engine in which a controller is connected under a key, before the key is resolved. -/
def connecting (engine : Engine) (c : ControllerId) (key : String) : Engine :=
  engine.modifyController c fun controller => { controller with key := some key, connected := true }

theorem controller_connecting (engine : Engine) (c other : ControllerId) (key : String) :
    (engine.connecting c key).controller other =
      if c = other ∧ other < engine.controllers.length
        then { engine.controller other with key := some key, connected := true }
        else engine.controller other :=
  controller_modifyController_eq c other _

theorem controller_connecting_self (hc : c < engine.controllers.length) (key : String) :
    (engine.connecting c key).controller c =
      { engine.controller c with key := some key, connected := true } := by
  rw [controller_connecting, if_pos ⟨rfl, hc⟩]

/-- A connection does nothing, or it connects a controller that is not connected under its key and
resolves the key. -/
theorem connect_ind {P : Engine → Prop} {requested : Option String} (hkept : P engine)
    (hconnecting : ∀ key, engine.running = true → c < engine.controllers.length →
      (engine.controller c).connected = false → engine.connectionKey? c requested = some key →
      P ((engine.connecting c key).resolve c key).1) :
    P (engine.connect c requested).1 := by
  rw [connect]
  split
  · exact hkept
  next hattached =>
    split
    · exact hkept
    next hoff =>
      split
      · exact hkept
      next key hkey =>
        simp only [Bool.or_eq_true, Bool.not_eq_true', decide_eq_true_eq, not_or, Nat.not_le,
          Bool.not_eq_false] at hattached
        exact hconnecting key hattached.1 hattached.2 (Bool.not_eq_true _ ▸ hoff) hkey

/-- A node is connected by the controller that is registered for it under the key, or by a new one.
-/
theorem addNode_ind {P : Engine × ControllerId → Prop} {node : NodeId}
    (hold : ∀ c, engine.registry.get? key = some c → (engine.controller c).node = node →
      P ((engine.connect c (some key)).1, c))
    (hnew : P (((engine.newController node false).1.connect engine.controllers.length (some key)).1,
      engine.controllers.length)) :
    P (engine.addNode node key) := by
  simp only [addNode]
  cases hexisting : (engine.registry.get? key).filter fun c =>
      (engine.controller c).node = node with
  | none => exact hnew
  | some c =>
    obtain ⟨hregistered, hnode⟩ := Option.filter_eq_some_iff.mp hexisting
    exact hold c hregistered (of_decide_eq_true hnode)

/-! ### New controllers -/

/-- The engine in which a node has just been connected under a new key, before the key is resolved.
-/
def mounted (engine : Engine) (node : NodeId) (key : String) : Engine :=
  { engine with
    registry := engine.registry.insert key engine.controllers.length
    controllers := engine.controllers ++
      [{ Controller.ofNode node false with key := some key, connected := true }] }

theorem addNode_of_new {engine : Engine} {node : NodeId} {key : String}
    (hrunning : engine.running = true) (hkey : key ≠ "") (hnew : engine.registry.get? key = none) :
    (engine.addNode node key).1 = ((engine.mounted node key).instancesFor key).foldl
      (resolveIn engine.controllers.length key) (engine.mounted node key) := by
  have hcontroller : (engine.newController node false).1.controller engine.controllers.length =
      .ofNode node false := by
    simp [newController, controller]
  have hmounted : { ((engine.newController node false).1.modifyController engine.controllers.length
      fun controller => { controller with key := some key, connected := true }) with
        registry := engine.registry.insert key engine.controllers.length } =
      engine.mounted node key := by
    simp [newController, modifyController, mounted, List.modify_eq_take_drop]
  have hkey' : (engine.newController node false).1.connectionKey? engine.controllers.length
      (some key) = some key := by
    have hempty : key.isEmpty = false := by simpa using hkey
    rw [connectionKey?, hcontroller]
    simp [Controller.ofNode, hempty]
  have hattached : (!(engine.newController node false).1.running ||
      decide ((engine.newController node false).1.controllers.length ≤
        engine.controllers.length)) = false := by
    simp [newController, hrunning]
  rw [addNode, hnew]
  simp only [Option.filter_none]
  rw [show (engine.newController node false).2 = engine.controllers.length from rfl, connect,
    hattached, hcontroller, hkey']
  simp only [Bool.false_eq_true, if_false, Controller.ofNode, resolve]
  rw [← hmounted]
  rfl

/-! ### Registered controllers -/

/-- The engine in which a controller is connected again under its key, before the key is resolved.
-/
def reconnected (engine : Engine) (c : ControllerId) : Engine :=
  engine.modifyController c fun controller => { controller with connected := true }

theorem connect_of_connected (h : (engine.controller c).connected = true)
    (requested : Option String) :
    (engine.connect c requested).1 = engine := by
  rw [connect, h]
  split <;> rfl

theorem connect_of_registered (hrunning : engine.running = true)
    (hc : c < engine.controllers.length)
    (hoff : (engine.controller c).connected = false) (hkey : (engine.controller c).key = some key)
    (hregistered : engine.registry.get? key = some c) (requested : Option String) :
    (engine.connect c requested).1 =
      ((engine.reconnected c).instancesFor key).foldl (resolveIn c key) (engine.reconnected c) := by
  have hattached : (!engine.running || decide (engine.controllers.length ≤ c)) = false := by
    simp [hrunning, hc]
  have hconnection : engine.connectionKey? c requested = some key := by
    rw [connectionKey?, hkey]
    rfl
  have hcontrollers : engine.controllers.modify c
        (fun controller => { controller with key := some key, connected := true }) =
      engine.controllers.modify c fun controller => { controller with connected := true } := by
    refine List.ext_getElem? fun d => ?_
    rw [List.getElem?_modify, List.getElem?_modify]
    split
    next heq =>
      subst heq
      rw [controller, List.getD_eq_getElem?_getD, List.getElem?_eq_getElem hc, Option.getD_some]
        at hkey
      rw [List.getElem?_eq_getElem hc]
      exact congrArg some (by rw [← hkey])
    next => rfl
  have hreconnected : (engine.modifyController c fun controller =>
      { controller with key := some key, connected := true }) = engine.reconnected c := by
    simp only [reconnected, modifyController, hcontrollers]
  have hregistered' : (engine.reconnected c).registry.get? key = some c := hregistered
  rw [connect, hattached, hoff, hconnection]
  simp only [Bool.false_eq_true, if_false]
  rw [hreconnected]
  exact resolve_of_registered hregistered'

end Engine

end InteractionBinding
