import InteractionBinding.Engine.Delivery
import InteractionBinding.Engine.EffectState
/-!
# Operations of an engine

The operations that an engine offers, and the changes of its host that it answers to, as one type.
`Engine.perform` performs an operation and answers a value; what a sequence of operations makes of
an engine is `Engine.run`.

Once an engine has stopped, its own operations answer `notRunning`; what controllers and instances
hold can still be asked for and released.
-/

namespace InteractionBinding.Engine

/-- What an operation answers. -/
inductive Answer where
  | nothing
  | truth (value : Bool)
  | outcome (value : ConnectOutcome)
  | number (value : Option Nat)
  | numbers (values : List Nat)
  | texts (values : List String)
  | notRunning
deriving DecidableEq, Repr

/-- An operation of an engine or a change of its host. -/
inductive Operation where
  -- changes of the host
  | readDocument (dom : Dom)
  | answerWith (handler : HandlerId → Handler)
  | setQuery (query : Query) (isMatch : Bool)
  | childListChanged (container : NodeId) (added removed : List NodeId)
  | stop
  -- controllers
  | connect (c : ControllerId) (key : Option String)
  | disconnect (c : ControllerId) (evict : Bool)
  | update (c : ControllerId)
  | toggle (c : ControllerId) (effectId : String) (action : EffectStateAction)
      (item : Option NodeId)
  | active (c : ControllerId) (item : Option NodeId)
  | watch (c : ControllerId) (container : String) (item : Option String)
  | style (c : ControllerId) (rules : List String)
  | ownedNodes (c : ControllerId)
  | anchor (c : ControllerId)
  | usesFirstChild (c : ControllerId)
  -- instances
  | destroyInstance (i : InstanceId)
  | isApplied (i : InstanceId) (id : String)
  | markApplied (i : InstanceId) (id : String)
  | interactionIds (i : InstanceId) (key : String)
  | clearKey (i : InstanceId) (key : String)
  | unlistenKey (i : InstanceId) (key : String)
  | listen (i : InstanceId) (id source target : String) (query : Query)
  | setController (i : InstanceId) (key : String) (c : ControllerId)
  | deleteController (i : InstanceId) (key : String)
  | releaseController (i : InstanceId) (key : String) (c : ControllerId)
  | controllerCount (i : InstanceId)
  -- the engine
  | create (config : Config)
  | addNode (node : NodeId) (key : String)
  | newController (node : NodeId) (useFirstChild : Bool)
  | removeKey (key : String)
  | destroy
  | instances
  | instancesFor (key : String)
  | instanceFor (key : String)
  | controllerFor (key : String)
  | reducedMotion
  | mediaMatches (text : String)
  | register (key : String) (c : ControllerId)
  | unregister (key : String) (c : ControllerId)
  | connectedFor (key : String)
  | isRegistered (key : String)

/-- The engine and answer of an operation that is for a running engine. -/
def whenRunning (engine : Engine) (result : Engine × Answer) : Engine × Answer :=
  if engine.running then result else (engine, .notRunning)

theorem whenRunning_of_running {engine : Engine} (h : engine.running = true)
    (result : Engine × Answer) : engine.whenRunning result = result := if_pos h

/-- An operation for a running engine does nothing once the engine has stopped. -/
theorem whenRunning_ind {engine : Engine} {result : Engine × Answer} {P : Engine → Prop}
    (hkept : P engine) (hperformed : engine.running = true → P result.1) :
    P (engine.whenRunning result).1 := by
  rw [whenRunning]
  split
  next hrunning => exact hperformed hrunning
  next => exact hkept

/-- The engine of a result and its value as an answer. -/
def answering {α : Type} (answer : α → Answer) (result : Engine × α) : Engine × Answer :=
  (result.1, answer result.2)

/-- Lets the engine read another document. -/
def readDocument (engine : Engine) (dom : Dom) : Engine :=
  { engine with host := { engine.host with dom := dom } }

/-- Lets handlers answer in another way. -/
def answerWith (engine : Engine) (handler : HandlerId → Handler) : Engine :=
  { engine with host := { engine.host with handler := handler } }

/-- Registers a controller under a key without resolving it. Answers the one it replaces. -/
def register (engine : Engine) (key : String) (c : ControllerId) :
    Engine × Option ControllerId :=
  ({ engine with registry := engine.registry.insert key c }, engine.registry.get? key)

/-- Performs an operation. -/
def perform (engine : Engine) : Operation → Engine × Answer
  | .readDocument dom => (engine.readDocument dom, .nothing)
  | .answerWith handler => (engine.answerWith handler, .nothing)
  | .setQuery query isMatch => answering .truth (engine.setQuery query isMatch)
  | .childListChanged container added removed =>
    answering (.number ∘ some) (engine.childListChanged container added removed)
  | .stop => ({ engine with running := false }, .nothing)
  | .connect c key => answering .outcome (engine.connect c key)
  | .disconnect c evict => (engine.disconnect c evict, .nothing)
  | .update c => answering .outcome (engine.update c)
  | .toggle c effectId action item =>
    answering .truth (engine.toggleEffect c effectId action item)
  | .active c item => (engine, .texts (engine.activeEffects c item))
  | .watch c container item =>
    if engine.running then answering .number (engine.watchChildList c container item)
    else (engine, .number none)
  | .style c rules => answering .number (engine.renderStyle c rules)
  | .ownedNodes c => (engine, .numbers (if engine.running then engine.ownedNodes c else []))
  | .anchor c => (engine, .number (if engine.running then engine.anchor c else none))
  | .usesFirstChild c => (engine, .truth (engine.controller c).useFirstChild)
  | .destroyInstance i => (engine.destroyInstance i, .nothing)
  | .isApplied i id => (engine, .truth ((engine.inst i).isApplied id))
  | .markApplied i id =>
    (engine.modifyInstance i (·.markApplied id), .truth (!(engine.inst i).isApplied id))
  | .interactionIds i key => (engine, .texts ((engine.inst i).interactionIdsFor key))
  | .clearKey i key => (engine.forgetKey i key, .nothing)
  | .unlistenKey i key => (engine.unlistenKey i key, .nothing)
  | .listen i id source target query =>
    answering .truth (engine.listen i id source target query .inert)
  | .setController i key c => (engine.setController i key c, .nothing)
  | .deleteController i key => answering .number (engine.deleteController i key)
  | .releaseController i key c => answering .truth (engine.releaseController i key c)
  | .controllerCount i => (engine, .number (some (engine.inst i).controllers.size))
  | .create config => engine.whenRunning (answering (.number ∘ some) (engine.create config))
  | .addNode node key =>
    engine.whenRunning (answering (.number ∘ some) (engine.addNode node key))
  | .newController node useFirstChild =>
    engine.whenRunning (answering (.number ∘ some) (engine.newController node useFirstChild))
  | .removeKey key => engine.whenRunning (answering .truth (engine.removeKey key))
  | .destroy => engine.whenRunning (engine.destroy, .nothing)
  | .instances => engine.whenRunning (engine, .numbers engine.live)
  | .instancesFor key => engine.whenRunning (engine, .numbers (engine.instancesFor key))
  | .instanceFor key => engine.whenRunning (engine, .number (engine.instancesFor key).head?)
  | .controllerFor key => engine.whenRunning (engine, .number (engine.registry.get? key))
  | .reducedMotion => engine.whenRunning (engine, .truth engine.reducedMotion)
  | .mediaMatches text =>
    engine.whenRunning (engine, .truth (engine.host.queryState ⟨.media, text⟩))
  | .register key c => engine.whenRunning (answering .number (engine.register key c))
  | .unregister key c => engine.whenRunning (answering .truth (engine.unregister key c))
  | .connectedFor key => engine.whenRunning (engine, .number (engine.connectedController? key))
  | .isRegistered key => engine.whenRunning (engine, .truth (engine.registry.contains key))

/-- What operations, one after the other, make of an engine. -/
def run (engine : Engine) (operations : List Operation) : Engine :=
  operations.foldl (fun engine operation => (engine.perform operation).1) engine

@[simp]
theorem run_nil (engine : Engine) : engine.run [] = engine := rfl

@[simp]
theorem run_cons (engine : Engine) (operation : Operation) (rest : List Operation) :
    engine.run (operation :: rest) = (engine.perform operation).1.run rest := rfl

theorem run_append (engine : Engine) (first second : List Operation) :
    engine.run (first ++ second) = (engine.run first).run second :=
  List.foldl_append

end InteractionBinding.Engine
