import InteractionBinding.Engine.Resolve
/-!
# Lifecycle of controllers, instances and engines

Controllers connect under a key and disconnect, softly or for good; an update is a soft
disconnection followed by a connection. Instances are created from configurations, which resolves
what is connected already, and destroyed. A disconnection releases what the controller holds at the
host, and lets the ids of its key be applied again.
-/

namespace InteractionBinding.Engine

/-- The nodes that a controller is torn down on: its anchor, and what the selectors recorded for its
key reach below it. -/
def ownedNodes (engine : Engine) (c : ControllerId) : List NodeId :=
  match engine.anchor c with
  | none => []
  | some anchor =>
    match (engine.controller c).key with
    | none => [anchor]
    | some key =>
      let selectors := (engine.instancesFor key).flatMap fun i =>
        (((engine.inst i).graph.get? key).map fun node => node.selectors.keys).getD []
      (selectors.flatMap fun selector => engine.host.dom.queryAll anchor selector).foldl
        (fun nodes node => if node ∈ nodes then nodes else nodes ++ [node]) [anchor]

/-! ### Disconnecting -/

/-- Releases at the host what a controller held: the wiring of its nodes if it was connected, its
stylesheet and its observations. -/
def releaseHost (engine : Engine) (c : ControllerId) (held : Controller) : Engine :=
  let engine := if held.connected then engine.teardown (engine.ownedNodes c) else engine
  let engine := held.stylesheet.toList.foldl removeSheet engine
  { engine with
    host := held.observers.foldl (fun host observer => host.unobserve observer.2) engine.host }

/-- Forgets in an instance that the ids of a key have been applied, and on eviction the controller
and the condition listeners of the key. -/
def releaseKey (c : ControllerId) (key : String) (evict : Bool) (engine : Engine)
    (i : InstanceId) : Engine :=
  let engine := engine.forgetKey i key
  if evict then ((engine.releaseController i key c).1).unlistenKey i key else engine

/-- Disconnects a controller. With `evict` the instances and the registry forget it as well. -/
def disconnect (engine : Engine) (c : ControllerId) (evict : Bool) : Engine :=
  let held := engine.controller c
  let engine := engine.modifyController c (Controller.released · evict)
  if !engine.running then engine
  else
    let engine := engine.releaseHost c held
    match held.key with
    | none => engine
    | some key =>
      let engine := (engine.instancesFor key).foldl (releaseKey c key evict) engine
      if evict then (engine.unregister key c).1 else engine

/-! ### Connecting -/

/-- What comes of a connection. -/
inductive ConnectOutcome where
  /-- Some live instance knows the key. -/
  | resolved
  /-- No instance knows the key yet. The controller is registered for later. -/
  | unresolved
  | alreadyConnected
  /-- There is no key: none stored, none given and none on the node. -/
  | missingKey
  /-- The engine is no longer running, or has no such controller. -/
  | detached
deriving DecidableEq, Repr

/-- The key a controller connects under: the one it has, the given one or that of its node, in this
order. Empty keys are none. -/
def connectionKey? (engine : Engine) (c : ControllerId) (requested : Option String) :
    Option String :=
  let controller := engine.controller c
  let nonEmpty (key : Option String) : Option String := key.filter fun key => !key.isEmpty
  controller.key.or <| (nonEmpty requested).or <|
    nonEmpty (engine.host.dom.attributeOf controller.node engine.options.keyAttribute)

/-- Connects a controller. A key that it once has stays. -/
def connect (engine : Engine) (c : ControllerId) (requested : Option String) :
    Engine × ConnectOutcome :=
  if !engine.running || engine.controllers.length ≤ c then (engine, .detached)
  else if (engine.controller c).connected then (engine, .alreadyConnected)
  else
    match engine.connectionKey? c requested with
    | none => (engine, .missingKey)
    | some key =>
      let engine := engine.modifyController c fun controller =>
        { controller with key := some key, connected := true }
      let (engine, known) := engine.resolve c key
      (engine, if known then .resolved else .unresolved)

/-- Builds up anew what a controller wires. -/
def update (engine : Engine) (c : ControllerId) : Engine × ConnectOutcome :=
  (engine.disconnect c false).connect c none

/-! ### Nodes and configurations -/

/-- Resolves a connected controller whose key a new instance knows. -/
def resolveForInstance (i : InstanceId) (engine : Engine) (c : ControllerId) : Engine :=
  let controller := engine.controller c
  match controller.connected, controller.key with
  | true, some key => if (engine.inst i).graph.knows key then (engine.resolve c key).1 else engine
  | _, _ => engine

/-- A new instance has a controller resolved that is connected under a key it knows, or it leaves the
controller alone. -/
theorem resolveForInstance_ind {engine : Engine} {i : InstanceId} {c : ControllerId}
    {P : Engine → Prop} (hkept : P engine)
    (hresolved : ∀ key, (engine.controller c).connected = true →
      (engine.controller c).key = some key → (engine.inst i).graph.knows key = true →
      P (engine.resolve c key).1) :
    P (resolveForInstance i engine c) := by
  simp only [resolveForInstance]
  split
  next key hconnected hkey =>
    split
    next hknows => exact hresolved key hconnected hkey hknows
    next => exact hkept
  next => exact hkept

/-- Makes a live instance of a configuration and resolves the registered controllers that are
connected under keys it knows. -/
def create (engine : Engine) (config : Config) : Engine × InstanceId :=
  let i := engine.instances.length
  let engine :=
    { engine with
      instances := engine.instances ++ [Instance.ofConfig config]
      live := engine.live ++ [i] }
  (engine.registry.values.foldl (resolveForInstance i) engine, i)

/-- Connects a node under a key. The controller registered under the key is used if it is that of
the node. -/
def addNode (engine : Engine) (node : NodeId) (key : String) : Engine × ControllerId :=
  let existing := (engine.registry.get? key).filter fun c => (engine.controller c).node = node
  let (engine, c) := match existing with
    | some c => (engine, c)
    | none => engine.newController node false
  ((engine.connect c (some key)).1, c)

/-- Disconnects the controller registered under a key and forgets it. Answers whether there was
one. -/
def removeKey (engine : Engine) (key : String) : Engine × Bool :=
  match engine.registry.get? key with
  | some c => (engine.disconnect c true, true)
  | none => (engine, false)

/-- Nobody is registered under a key, or whoever is has been evicted. -/
theorem removeKey_ind {engine : Engine} {key : String} {P : Engine → Prop} (hkept : P engine)
    (hevicted : ∀ c, engine.registry.get? key = some c → P (engine.disconnect c true)) :
    P (engine.removeKey key).1 := by
  rw [removeKey]
  split
  next c hregistered => exact hevicted c hregistered
  next => exact hkept

/-! ### Destroying -/

/-- Ends an instance: its subscriptions end, its controllers are disconnected softly, and it is no
longer live. -/
def destroyInstance (engine : Engine) (i : InstanceId) : Engine :=
  let inst := engine.inst i
  if inst.destroyed then engine
  else
    let engine := engine.modifyInstance i Instance.condemned
    let engine := engine.unsubscribeAll inst.listeners
    let engine := inst.controllers.values.foldl (fun engine c => engine.disconnect c false) engine
    let engine := engine.modifyInstance i fun inst => { inst with memo := [] }
    { engine with live := engine.live.filter fun other => other ≠ i }

/-- Ends every live instance, and disconnects and forgets every registered controller. -/
def destroy (engine : Engine) : Engine :=
  let engine := engine.live.foldl destroyInstance engine
  let controllers := engine.registry.values
  controllers.foldl (fun engine c => engine.disconnect c false) { engine with registry := .empty }

end InteractionBinding.Engine
