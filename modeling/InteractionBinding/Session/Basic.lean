import InteractionBinding.Config.Decode
import InteractionBinding.Document
import InteractionBinding.Engine.Operation
/-!
# Sessions

A session is an engine with a document that can be edited, handlers that refuse what is on a list,
and the configurations that it can create instances of. A step is a change of these or an operation
of the engine.
-/

namespace InteractionBinding

/-- A handler that refuses the effects and sequences of some ids. -/
structure ListedHandler where
  name : String
  kinds : List TriggerKind
  /-- Whether the handler wires sequences at all. -/
  sequences : Bool
  refused : List String
deriving DecidableEq, Repr

/-- How the handler answers. -/
def ListedHandler.handler (listed : ListedHandler) : Handler where
  add _ _ _ plan _ _ :=
    if plan.effectId ∈ listed.refused then some (.invalidEffect plan.effectId "refused") else none
  addSequence _ _ plan _ _ :=
    if !listed.sequences then some (.unsupportedSequence plan.sequenceId)
    else if plan.sequenceId ∈ listed.refused then some (.invalidEffect plan.sequenceId "refused")
    else none

/-- A node as it is put into a document. -/
structure NodePlacement where
  id : NodeId
  parent : Option NodeId
  position : Option Nat
  classes : List String
  attributes : KeyMap String
deriving DecidableEq

/-- What a session starts from. -/
structure SessionSetup where
  options : EngineOptions
  handlers : List ListedHandler
  nodes : List NodePlacement
  /-- The states of queries that do not start as they usually do. -/
  queries : List (Query × Bool)
  configs : KeyMap Json

/-- An engine with its document, handlers and configurations. -/
structure Session where
  engine : Engine
  document : Document
  handlers : List ListedHandler
  configs : KeyMap Json
  /-- The keys that steps have given controllers to directly. -/
  namedKeys : List String

namespace Session

/-- All queries match at first, but for the one that asks for reduced motion. -/
def usualState (query : Query) : Bool := query ≠ Engine.reducedMotionQuery

/-- The states of queries, of which the last one given for a query counts. -/
def initialState (given : List (Query × Bool)) (query : Query) : Bool :=
  ((given.reverse.find? fun entry => entry.1 = query).map Prod.snd).getD (usualState query)

/-- How the handlers of a list answer, by their positions. -/
def handlersOf (handlers : List ListedHandler) (handler : HandlerId) : Handler :=
  ((handlers[handler]?).getD ⟨"", [], false, []⟩).handler

/-- The handlers of a list, each of them registered for its kinds in turn. -/
def registered (handlers : List ListedHandler) : HandlerTable :=
  handlers.zipIdx.foldl
    (fun table (listed, handler) =>
      listed.kinds.foldl (fun table kind => table.register kind handler) table)
    .empty

/-- Puts a node into a document. -/
def place (document : Document) (node : NodePlacement) : Document :=
  document.put node.id node.parent node.position node.classes node.attributes

def start (setup : SessionSetup) : Session :=
  let document := setup.nodes.foldl place .empty
  let host := Host.fresh document.dom (handlersOf setup.handlers) (registered setup.handlers)
    (initialState setup.queries)
  ⟨.start host setup.options, document, setup.handlers, setup.configs, []⟩

/-- What a step answers. -/
inductive Answer where
  | engine (answer : Engine.Answer)
  /-- An instance of a configuration has been created. -/
  | created (instanceId : InstanceId) (keys : List String) (diagnostics : List Diagnostic)
  /-- The configuration is none. -/
  | refused (fault : Fault)

/-- A step of a session. -/
inductive Step where
  | putNode (node : NodePlacement)
  | detachNode (id : NodeId)
  /-- Replaces the list of what the handler at a position refuses. -/
  | refuse (handler : HandlerId) (ids : List String)
  /-- Creates an instance of the configuration of a name. -/
  | create (config : String)
  | engine (operation : Engine.Operation)

/-- Performs an operation of the engine. -/
def operate (session : Session) (operation : Engine.Operation) : Session × Answer :=
  let (engine, answer) := session.engine.perform operation
  ({ session with engine := engine }, .engine answer)

/-- Lets the engine read an edited document. -/
def edit (session : Session) (document : Document) : Session × Answer :=
  ({ session with document := document } : Session).operate (.readDocument document.dom)

/-- Creates an instance of the configuration of a name. -/
def create (session : Session) (name : String) : Session × Answer :=
  if !session.engine.running then (session, .engine .notRunning)
  else
    match Config.ofValue ((session.configs.get? name).getD .null) with
    | .error fault => (session, .refused fault)
    | .ok config =>
      let (engine, i) := session.engine.create config
      let graph := (engine.inst i).graph
      ({ session with engine := engine }, .created i graph.nodes.keys graph.diagnostics)

/-- The keys to which an operation gives a controller directly. An engine that has stopped registers
no controller. -/
def keysNamedBy (engine : Engine) : Engine.Operation → List String
  | .setController _ key _ => [key]
  | .register key _ => if engine.running then [key] else []
  | _ => []

/-- Performs a step. -/
def perform (session : Session) : Step → Session × Answer
  | .putNode node => session.edit (place session.document node)
  | .detachNode id => session.edit (session.document.detach id)
  | .refuse handler ids =>
    let handlers := session.handlers.modify handler fun listed => { listed with refused := ids }
    ({ session with handlers := handlers } : Session).operate (.answerWith (handlersOf handlers))
  | .create config => session.create config
  | .engine operation =>
    let namedKeys := session.namedKeys ++ keysNamedBy session.engine operation
    ({ session with namedKeys := namedKeys } : Session).operate operation

/-- The events that a session has logged since an earlier state of it. -/
def eventsSince (session earlier : Session) : List Event :=
  session.engine.events.drop earlier.engine.events.length

end Session

end InteractionBinding
