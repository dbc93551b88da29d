import InteractionBinding.Engine.Lifecycle
/-!
# Changes of the host

How an engine answers to a change of a query and to a change of the children of a container. A query
that changes updates the controllers of the rules that listen to it; nodes added to a container are
wired for the rules bound to it, and removed nodes are torn down.
-/

namespace InteractionBinding.Engine

/-- Updates the connected controllers of the two keys of a rule. -/
def reconcile (engine : Engine) (source target : String) : Engine :=
  let keys := if target = source then [source] else [source, target]
  keys.foldl
    (fun engine key =>
      match engine.connectedController? key with
      | some c => (engine.update c).1
      | none => engine)
    engine

/-- Calls a query listener. -/
def callListener (subscription : QuerySubscription) (engine : Engine) : Engine :=
  match subscription.listener with
  | .inert => engine
  | .reconcile source target => if engine.running then engine.reconcile source target else engine

/-- Sets the state of a query and tells its listeners if it has changed. Answers whether it has. -/
def setQuery (engine : Engine) (query : Query) (isMatch : Bool) : Engine × Bool :=
  if engine.host.queryState query = isMatch then (engine, false)
  else
    let snapshot := engine.host.subscriptions.snapshot fun subscription =>
      subscription.query = query
    let engine :=
      { engine with
        host := { engine.host with
          queryState := fun other =>
            if other = query then isMatch else engine.host.queryState other } }
    (ListenerSet.deliver (fun engine => engine.host.subscriptions) callListener snapshot engine,
      true)

/-- Telling the listeners of a query updates connected controllers, one after the other. -/
theorem callListener_ind {P : Engine → Prop} {engine : Engine} {subscription : QuerySubscription}
    (hstart : P engine)
    (hupdated : ∀ state key c, state.connectedController? key = some c → P state →
      P (state.update c).1) : P (callListener subscription engine) := by
  rw [callListener]
  split
  · exact hstart
  · split
    · refine List.foldlRecOn (motive := P) _ _ hstart fun state hstate key _ => ?_
      split
      next c hc => exact hupdated state key c hc hstate
      next => exact hstate
    · exact hstart

/-- A query that changes is set for everyone before the first listener is told. -/
theorem setQuery_ind {P : Engine → Prop} {engine : Engine} {query : Query} {isMatch : Bool}
    (hkept : P engine)
    (hflipped : P { engine with
      host := { engine.host with
        queryState := fun other =>
          if other = query then isMatch else engine.host.queryState other } })
    (hupdated : ∀ state key c, state.connectedController? key = some c → P state →
      P (state.update c).1) : P (engine.setQuery query isMatch).1 := by
  simp only [setQuery, ListenerSet.deliver]
  split
  · exact hkept
  · refine List.foldlRecOn (motive := P) _ _ hflipped fun state hstate entry _ => ?_
    split
    · exact callListener_ind hstate hupdated
    · exact hstate

/-- What an observer makes of nodes that were added to its container and removed from it. -/
def onChildList (observation : Observation) (added removed : List NodeId) (engine : Engine) :
    Engine :=
  let c := observation.owner
  let controller := engine.controller c
  match engine.running && controller.connected, controller.key with
  | true, some key =>
    let engine := (engine.teardown removed).modifyController c (·.forgetItems removed)
    let added := added.filter fun node =>
      observation.itemSelector.all fun selector => engine.host.dom.matchesSelector node selector
    if added.isEmpty then engine
    else engine.addListItems c key observation.containerSelector added
  | _, _ => engine

/-- Reports nodes that were added to a container and removed from it to those that observe it.
Answers how many of them there are. -/
def childListChanged (engine : Engine) (container : NodeId) (added removed : List NodeId) :
    Engine × Nat :=
  let observers := engine.host.observations.snapshot fun observation =>
    observation.container = container
  (observers.foldl (fun engine entry => onChildList entry.2 added removed engine) engine,
    observers.length)

end InteractionBinding.Engine
