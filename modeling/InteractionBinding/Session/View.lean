import InteractionBinding.Session.Basic
/-!
# Views of sessions

What can be seen of a session after a step: its controllers, its instances as far as known keys show
them, the registry, and what the engine has subscribed to at the host.
-/

namespace InteractionBinding.Session

/-- What can be seen of a controller. -/
structure ControllerView where
  node : NodeId
  key : Option String
  connected : Bool
  observers : Nat
  stylesheet : Option SheetId
deriving DecidableEq, Repr

/-- What can be seen of an instance. -/
structure InstanceView where
  /-- The ids of known keys that have been applied. -/
  applied : List String
  appliedCount : Nat
  listeners : Nat
  destroyed : Bool
  controllers : List (String × ControllerId)
deriving DecidableEq, Repr

/-- What can be seen of the registry. -/
structure RegistryView where
  entries : List (String × ControllerId)
  size : Nat
  isEmpty : Bool
deriving DecidableEq, Repr

/-- What can be seen of a session. -/
structure View where
  controllers : List ControllerView
  instances : List InstanceView
  /-- There is no registry when the engine is no longer running. -/
  registry : Option RegistryView
  /-- The number of observations of each observed container. -/
  observed : List (NodeId × Nat)
  /-- The number of subscriptions to each query. -/
  subscriptions : List (Query × Nat)
deriving DecidableEq, Repr

/-- The keys of controllers and those named by steps, each once and in order. -/
def knownKeys (session : Session) : List String :=
  KeyMap.keys <|
    (session.engine.controllers.filterMap Controller.key ++ session.namedKeys).foldl KeySet.add
      (KeyMap.empty : KeySet)

/-- The entries of a table under the known keys. -/
def knownEntries (session : Session) (table : KeyMap ControllerId) : List (String × ControllerId) :=
  session.knownKeys.filterMap fun key => (table.get? key).map fun c => (key, c)

def controllerView (controller : Controller) : ControllerView :=
  ⟨controller.node, controller.key, controller.connected, controller.observers.length,
    controller.stylesheet⟩

def instanceView (session : Session) (inst : Instance) : InstanceView where
  applied :=
    let ids := session.knownKeys.flatMap fun key =>
      (inst.interactionIdsFor key).filter inst.isApplied
    KeyMap.keys (ids.foldl KeySet.add (KeyMap.empty : KeySet))
  appliedCount := inst.memo.length
  listeners := inst.listeners.length
  destroyed := inst.destroyed
  controllers := session.knownEntries inst.controllers

/-- Counts equal members of a list, keeping the order of their first occurrences. -/
def tally {α : Type} [DecidableEq α] : List α → List (α × Nat)
  | [] => []
  | a :: rest => (a, rest.count a + 1) :: (tally rest).filter fun entry => entry.1 ≠ a

/-- The order of queries by the names of their kinds and then by their texts. -/
def queryLe (a b : Query) : Bool :=
  if a.kind = b.kind then a.text ≤ b.text else a.kind.name ≤ b.kind.name

def view (session : Session) : View :=
  let engine := session.engine
  let containers := engine.host.observations.entries.map fun entry => entry.2.container
  let queries := engine.host.subscriptions.entries.map fun entry => entry.2.query
  { controllers := engine.controllers.map controllerView
    instances := engine.instances.map session.instanceView
    registry :=
      if engine.running then
        some ⟨session.knownEntries engine.registry, engine.registry.size, engine.registry.isEmpty⟩
      else none
    observed := (tally containers).mergeSort fun a b => a.1 ≤ b.1
    subscriptions := (tally queries).mergeSort fun a b => queryLe a.1 b.1 }

end InteractionBinding.Session
