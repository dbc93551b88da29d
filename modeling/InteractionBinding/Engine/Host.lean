import InteractionBinding.Gate
import InteractionBinding.Graph.Basic
import InteractionBinding.Handlers
import InteractionBinding.Listeners
/-!
# Hosts

What an engine works against: a document it reads, handlers that wire plans, live queries and
observations of child lists that it subscribes to, and stylesheets. A handler may decide by all that
has been told before.
-/

namespace InteractionBinding

/-- A node of the document. -/
abbrev NodeId := Nat

abbrev ControllerId := Nat

abbrev InstanceId := Nat

abbrev SheetId := Nat

/-- The document as the engine reads it. -/
structure Dom where
  /-- The descendants of a node that match a selector, in document order. -/
  queryAll : NodeId → String → List NodeId
  children : NodeId → List NodeId
  matchesSelector : NodeId → String → Bool
  /-- The attribute of a node with a given name. -/
  attributeOf : NodeId → String → Option String

/-- The effect chosen for a source and a target node. -/
structure EffectPlan where
  /-- The id with the indices of a list item filled in. -/
  id : InteractionId
  effectId : String
  effect : Effect

/-- A member of a sequence with the nodes it lands on. -/
structure SequenceMember where
  id : InteractionId
  effectId : String
  targets : List NodeId
  effect : Effect

/-- A sequence to be wired as one unit. -/
structure SequencePlan where
  id : InteractionId
  sequenceId : String
  members : List SequenceMember
  payload : KeyMap Json

/-- What a handler is told beside a plan. -/
structure HandlerContext where
  id : InteractionId
  /-- The controller of the target. -/
  partner : Option ControllerId
  reducedMotion : Bool
  /-- What the target has to match when the trigger fires. -/
  selectorPredicate : Option String
  /-- Whether the handler should wire a keyboard listener, too. -/
  allowKeyboard : Bool

/-- What the engine tells its host. Plans are told on behalf of an instance, and come with the
handler's answer. -/
inductive Event where
  | add (instanceId : InstanceId) (handler : HandlerId) (source target : NodeId)
      (plan : EffectPlan) (params : KeyMap Json) (context : HandlerContext)
      (refusal : Option Refusal)
  | addSequence (instanceId : InstanceId) (handler : HandlerId) (source : NodeId)
      (plan : SequencePlan) (params : KeyMap Json) (context : HandlerContext)
      (refusal : Option Refusal)
  | remove (handler : HandlerId) (node : NodeId)
  | effectState (node : NodeId) (effects : List String)
  | insertSheet (sheet : SheetId) (rules : List String)
  | removeSheet (sheet : SheetId)

/-- How a handler answers. It knows what has been told before, and refuses a plan or does not. -/
structure Handler where
  add : List Event → NodeId → NodeId → EffectPlan → KeyMap Json → HandlerContext → Option Refusal
  addSequence : List Event → NodeId → SequencePlan → KeyMap Json → HandlerContext → Option Refusal

/-- What a query listener does when its query changes. -/
inductive QueryListener where
  /-- Updates the controllers of the two keys of a rule. -/
  | reconcile (source target : String)
  | inert
deriving DecidableEq, Repr

/-- A subscription to a live query. -/
structure QuerySubscription where
  query : Query
  listener : QueryListener
deriving DecidableEq, Repr

/-- An observation of the children of a container, for the controller that watches it. -/
structure Observation where
  container : NodeId
  owner : ControllerId
  containerSelector : String
  itemSelector : Option String
deriving DecidableEq, Repr

/-- The host of an engine. -/
structure Host where
  dom : Dom
  handler : HandlerId → Handler
  handlers : HandlerTable
  queryState : Query → Bool
  subscriptions : ListenerSet QuerySubscription
  observations : ListenerSet Observation
  nextSheet : SheetId

namespace Dom

/-- The first descendant that matches a selector. -/
def query? (dom : Dom) (root : NodeId) (selector : String) : Option NodeId :=
  (dom.queryAll root selector).head?

def firstChild? (dom : Dom) (node : NodeId) : Option NodeId := (dom.children node).head?

/-- The descendants that match a selector, or the root itself without a selector. -/
def select (dom : Dom) (root : NodeId) : Option String → List NodeId
  | some selector => dom.queryAll root selector
  | none => [root]

end Dom

/-- The document in which no node has a descendant. -/
def Dom.bare : Dom := ⟨fun _ _ => [], fun _ => [], fun _ _ => false, fun _ _ => none⟩

/-- The handler that accepts every plan. -/
def Handler.accepting : Handler := ⟨fun _ _ _ _ _ _ => none, fun _ _ _ _ _ => none⟩

namespace Host

/-- A host that nobody has subscribed to. -/
def fresh (dom : Dom) (handler : HandlerId → Handler) (handlers : HandlerTable)
    (queryState : Query → Bool) : Host where
  dom := dom
  handler := handler
  handlers := handlers
  queryState := queryState
  subscriptions := .empty
  observations := .empty
  nextSheet := 1

/-- A host with one handler, which accepts every plan for clicks, and without matching queries. -/
def bare : Host :=
  .fresh .bare (fun _ => .accepting) (HandlerTable.empty.register .click 0) fun _ => false

instance : Inhabited Host := ⟨bare⟩

def subscribe (host : Host) (subscription : QuerySubscription) : Host × Token :=
  let (set, token) := host.subscriptions.subscribe subscription
  ({ host with subscriptions := set }, token)

def unsubscribe (host : Host) (token : Token) : Host :=
  { host with subscriptions := host.subscriptions.unsubscribe token }

def observe (host : Host) (observation : Observation) : Host × Token :=
  let (set, token) := host.observations.subscribe observation
  ({ host with observations := set }, token)

def unobserve (host : Host) (token : Token) : Host :=
  { host with observations := host.observations.unsubscribe token }

end Host

end InteractionBinding
