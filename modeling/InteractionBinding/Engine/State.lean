import InteractionBinding.Engine.Host
import InteractionBinding.Graph.Compile
import InteractionBinding.Options
/-!
# The state of an engine

An engine has a host, controllers for nodes, instances of compiled configurations, and a registry of
controllers by key. Controllers and instances are known by their positions in the order of
their creation and are never forgotten; the instances that take part are listed as live.

Everything the engine tells its host is kept in a log, with the scene in which it was told, and so
is every time that an instance lets ids be applied again.

An engine that is no longer running answers nothing, but what its controllers and instances hold
can still be released.
-/

namespace InteractionBinding

/-- What an engine holds for a node. -/
structure Controller where
  node : NodeId
  /-- Whether selectors start at the first child of the node instead of the node. -/
  useFirstChild : Bool
  key : Option String
  connected : Bool
  stylesheet : Option SheetId
  /-- The observations of containers below the node, one for each container. -/
  observers : List (NodeId × Token)
  /-- The active effects of nodes, in the order of their activation. -/
  activeEffects : List (NodeId × List String)
  /-- The list items that have been wired, with the id they were wired for. -/
  wiredItems : List (String × NodeId)
deriving DecidableEq, Repr

namespace Controller

/-- The controller of a node before its first connection. -/
def ofNode (node : NodeId) (useFirstChild : Bool) : Controller :=
  ⟨node, useFirstChild, none, false, none, [], [], []⟩

instance : Inhabited Controller := ⟨ofNode 0 false⟩

/-- What a controller still holds after a disconnection. -/
def released (controller : Controller) (evict : Bool) : Controller :=
  { controller with
    connected := false
    stylesheet := none
    observers := []
    activeEffects := if evict then [] else controller.activeEffects
    wiredItems := [] }

/-- Forgets that list items have been wired. -/
def forgetItems (controller : Controller) (items : List NodeId) : Controller :=
  { controller with
    wiredItems := controller.wiredItems.filter fun entry => entry.2 ∉ items }

/-- The active effects that a controller holds for a node. -/
def activeOn (controller : Controller) (node : NodeId) : List String :=
  ((controller.activeEffects.find? fun entry => entry.1 = node).map Prod.snd).getD []

/-- Replaces the active effects that a controller holds for a node. -/
def setActive (controller : Controller) (node : NodeId) (active : List String) : Controller :=
  { controller with
    activeEffects := (node, active) :: controller.activeEffects.filter fun entry =>
      entry.1 ≠ node }

end Controller

/-- A subscription to a query on behalf of an interaction id. -/
structure ConditionListener where
  id : String
  query : Query
  /-- The concrete source key of the interaction. -/
  source : String
  /-- The concrete target key of the interaction. -/
  target : String
  token : Token
deriving DecidableEq, Repr

/-- A compiled configuration with what has been resolved of it. -/
structure Instance where
  graph : Graph
  /-- The ids that have been applied. -/
  memo : List String
  listeners : List ConditionListener
  controllers : KeyMap ControllerId
  destroyed : Bool

namespace Instance

def ofConfig (config : Config) : Instance := ⟨.ofConfig config, [], [], .empty, false⟩

instance : Inhabited Instance := ⟨ofConfig .empty⟩

def isApplied (inst : Instance) (id : String) : Bool := id ∈ inst.memo

/-- Keeps an id as applied. -/
def markApplied (inst : Instance) (id : String) : Instance :=
  if id ∈ inst.memo then inst else { inst with memo := inst.memo ++ [id] }

/-- The ids that a concrete key takes part in, with the indices of the key filled in. -/
def interactionIdsFor (inst : Instance) (key : String) : List String :=
  match inst.graph.get? key with
  | none => []
  | some node =>
    node.allInteractionIds.map fun id => (id.interpolate (KeyTemplate.indices key)).encode

/-- Forgets that the ids of a key have been applied. -/
def clearKey (inst : Instance) (key : String) : Instance :=
  { inst with memo := inst.memo.filter fun id => id ∉ inst.interactionIdsFor key }

/-- An instance that no longer takes part, before the host has been told to forget it. -/
def condemned (inst : Instance) : Instance :=
  { inst with destroyed := true, controllers := .empty, listeners := [] }

/-- Whether a listener is attached for an id and a query text. -/
def isListening (inst : Instance) (id : String) (queryText : String) : Bool :=
  inst.listeners.any fun listener => listener.id = id && listener.query.text = queryText

end Instance

/-! ### Scenes -/

/-- What others can tell of a controller. -/
structure Controller.Face where
  node : NodeId
  useFirstChild : Bool
  key : Option String
  connected : Bool
deriving DecidableEq, Repr

def Controller.face (controller : Controller) : Controller.Face :=
  ⟨controller.node, controller.useFirstChild, controller.key, controller.connected⟩

/-- What others can tell of an instance. -/
structure Instance.Face where
  graph : Graph
  destroyed : Bool

def Instance.face (inst : Instance) : Instance.Face := ⟨inst.graph, inst.destroyed⟩

/-- What wiring goes by at a moment: the document, the handlers, the states of queries, who is
connected, and which instances there are. -/
structure Scene where
  dom : Dom
  handler : HandlerId → Handler
  handlers : HandlerTable
  queryState : Query → Bool
  options : EngineOptions
  running : Bool
  registry : KeyMap ControllerId
  live : List InstanceId
  controllers : List Controller.Face
  instances : List Instance.Face

/-- An entry of the log of an engine. -/
inductive Entry where
  /-- The host is told of an event. -/
  | told (event : Event) (scene : Scene)
  /-- An instance lets the ids of a key be applied again. -/
  | forgot (instanceId : InstanceId) (key : String)

/-- The event that the host is told of. -/
def Entry.event? : Entry → Option Event
  | .told event _ => some event
  | .forgot _ _ => none

/-! ### Engines -/

/-- An engine and its host. -/
structure Engine where
  host : Host
  options : EngineOptions
  running : Bool
  registry : KeyMap ControllerId
  /-- The instances that take part, in the order of their creation. -/
  live : List InstanceId
  controllers : List Controller
  instances : List Instance
  log : List Entry

namespace Engine

/-- An engine without controllers and instances. -/
def start (host : Host) (options : EngineOptions) : Engine :=
  ⟨host, options, true, .empty, [], [], [], []⟩

/-! ### The log -/

def scene (engine : Engine) : Scene where
  dom := engine.host.dom
  handler := engine.host.handler
  handlers := engine.host.handlers
  queryState := engine.host.queryState
  options := engine.options
  running := engine.running
  registry := engine.registry
  live := engine.live
  controllers := engine.controllers.map Controller.face
  instances := engine.instances.map Instance.face

/-- The events that the host has been told of. -/
def events (engine : Engine) : List Event := engine.log.filterMap Entry.event?

/-- Tells the host of an event. -/
def tell (engine : Engine) (event : Event) : Engine :=
  { engine with log := engine.log ++ [.told event engine.scene] }

/-- Asks a handler to wire a plan. Answers whether it did. -/
def offer (engine : Engine) (i : InstanceId) (handler : HandlerId) (source target : NodeId)
    (plan : EffectPlan) (params : KeyMap Json) (context : HandlerContext) : Engine × Bool :=
  let refusal :=
    (engine.host.handler handler).add engine.events source target plan params context
  (engine.tell (.add i handler source target plan params context refusal), refusal.isNone)

/-- Asks a handler to wire a sequence. Answers whether it did. -/
def offerSequence (engine : Engine) (i : InstanceId) (handler : HandlerId) (source : NodeId)
    (plan : SequencePlan) (params : KeyMap Json) (context : HandlerContext) : Engine × Bool :=
  let refusal :=
    (engine.host.handler handler).addSequence engine.events source plan params context
  (engine.tell (.addSequence i handler source plan params context refusal), refusal.isNone)

/-- Tells every handler to drop what it holds for nodes. -/
def teardown (engine : Engine) (nodes : List NodeId) : Engine :=
  let events := engine.host.handlers.all.flatMap fun handler => nodes.map (.remove handler ·)
  events.foldl tell engine

def insertSheet (engine : Engine) (rules : List String) : Engine × SheetId :=
  let sheet := engine.host.nextSheet
  let engine := engine.tell (.insertSheet sheet rules)
  ({ engine with host := { engine.host with nextSheet := sheet + 1 } }, sheet)

def removeSheet (engine : Engine) (sheet : SheetId) : Engine := engine.tell (.removeSheet sheet)

/-! ### Controllers -/

def controller (engine : Engine) (c : ControllerId) : Controller :=
  engine.controllers.getD c default

def modifyController (engine : Engine) (c : ControllerId) (f : Controller → Controller) : Engine :=
  { engine with controllers := engine.controllers.modify c f }

theorem controller_modifyController (engine : Engine) (c other : ControllerId)
    (f : Controller → Controller) (h : c < engine.controllers.length) :
    (engine.modifyController c f).controller other =
      if c = other then f (engine.controller other) else engine.controller other := by
  simp only [controller, modifyController, List.getD_eq_getElem?_getD, List.getElem?_modify]
  split
  next heq =>
    subst heq
    simp [h]
  next => simp

/-- A new controller for a node, which is neither connected nor registered. -/
def newController (engine : Engine) (node : NodeId) (useFirstChild : Bool) :
    Engine × ControllerId :=
  ({ engine with controllers := engine.controllers ++ [.ofNode node useFirstChild] },
    engine.controllers.length)

/-- The node that the selectors of a controller start from. -/
def anchor (engine : Engine) (c : ControllerId) : Option NodeId :=
  let controller := engine.controller c
  if controller.useFirstChild then engine.host.dom.firstChild? controller.node
  else some controller.node

/-- The controller registered under a key, if it is connected. -/
def connectedController? (engine : Engine) (key : String) : Option ControllerId :=
  (engine.registry.get? key).filter fun c => (engine.controller c).connected

/-- Forgets a registry entry if it still stands for the controller. -/
def unregister (engine : Engine) (key : String) (c : ControllerId) : Engine × Bool :=
  if engine.registry.get? key = some c then
    ({ engine with registry := engine.registry.erase key }, true)
  else (engine, false)

/-- An entry of the registry stays, or it stands for the controller and is forgotten. -/
theorem unregister_ind {engine : Engine} {key : String} {c : ControllerId} {P : Engine → Prop}
    (hkept : P engine)
    (hforgotten : engine.registry.get? key = some c →
      P { engine with registry := engine.registry.erase key }) :
    P (engine.unregister key c).1 := by
  rw [unregister]
  split
  next hregistered => exact hforgotten hregistered
  next => exact hkept

/-- Notes that a list item is wired for an id. Answers whether it was not yet. -/
def markItem (engine : Engine) (c : ControllerId) (id : String) (item : NodeId) : Engine × Bool :=
  if (id, item) ∈ (engine.controller c).wiredItems then (engine, false)
  else
    (engine.modifyController c fun controller =>
      { controller with wiredItems := controller.wiredItems ++ [(id, item)] }, true)

theorem markItem_ind {P : Engine → Prop} {engine : Engine} {c : ControllerId} {id : String}
    {item : NodeId} (hkept : (id, item) ∈ (engine.controller c).wiredItems → P engine)
    (hmarked : P (engine.modifyController c fun controller =>
      { controller with wiredItems := controller.wiredItems ++ [(id, item)] })) :
    P (engine.markItem c id item).1 := by
  rw [markItem]
  split
  next hwired => exact hkept hwired
  next => exact hmarked

/-! ### Instances -/

def inst (engine : Engine) (i : InstanceId) : Instance := engine.instances.getD i default

def modifyInstance (engine : Engine) (i : InstanceId) (f : Instance → Instance) : Engine :=
  { engine with instances := engine.instances.modify i f }

theorem inst_modifyInstance (engine : Engine) (i other : InstanceId) (f : Instance → Instance)
    (h : i < engine.instances.length) :
    (engine.modifyInstance i f).inst other =
      if i = other then f (engine.inst other) else engine.inst other := by
  simp only [inst, modifyInstance, List.getD_eq_getElem?_getD, List.getElem?_modify]
  split
  next heq =>
    subst heq
    simp [h]
  next => simp

/-- Lets the ids of a key be applied again in an instance. -/
def forgetKey (engine : Engine) (i : InstanceId) (key : String) : Engine :=
  let engine := engine.modifyInstance i (·.clearKey key)
  { engine with log := engine.log ++ [.forgot i key] }

/-- The live instances that know a concrete key. -/
def instancesFor (engine : Engine) (key : String) : List InstanceId :=
  engine.live.filter fun i => (engine.inst i).graph.knows key

def setController (engine : Engine) (i : InstanceId) (key : String) (c : ControllerId) : Engine :=
  engine.modifyInstance i fun inst => { inst with controllers := inst.controllers.insert key c }

/-- Forgets the controller of a key in an instance. Answers the controller. -/
def deleteController (engine : Engine) (i : InstanceId) (key : String) :
    Engine × Option ControllerId :=
  (engine.modifyInstance i fun inst => { inst with controllers := inst.controllers.erase key },
    (engine.inst i).controllers.get? key)

/-- Forgets the controller of a key in an instance if it still is the given one. -/
def releaseController (engine : Engine) (i : InstanceId) (key : String) (c : ControllerId) :
    Engine × Bool :=
  if (engine.inst i).controllers.get? key = some c then
    ((engine.deleteController i key).1, true)
  else (engine, false)

/-- The controller of a key stays in an instance, or it is the given one and is forgotten. -/
theorem releaseController_ind {engine : Engine} {i : InstanceId} {key : String} {c : ControllerId}
    {P : Engine → Prop} (hkept : P engine)
    (hforgotten : (engine.inst i).controllers.get? key = some c →
      P (engine.deleteController i key).1) :
    P (engine.releaseController i key c).1 := by
  rw [releaseController]
  split
  next hlisted => exact hforgotten hlisted
  next => exact hkept

/-- Subscribes to a query on behalf of an id, once for each id and query text. Answers whether the
subscription is new. -/
def listen (engine : Engine) (i : InstanceId) (id source target : String) (query : Query)
    (listener : QueryListener) : Engine × Bool :=
  let inst := engine.inst i
  if inst.destroyed || inst.isListening id query.text then (engine, false)
  else
    let (host, token) := engine.host.subscribe ⟨query, listener⟩
    (({ engine with host := host } : Engine).modifyInstance i fun inst =>
      { inst with listeners := inst.listeners ++ [⟨id, query, source, target, token⟩] }, true)

theorem listen_ind {P : Engine → Prop} {engine : Engine} {i : InstanceId}
    {id source target : String} {query : Query} {listener : QueryListener} (hkept : P engine)
    (hsubscribed : P (({ engine with host := (engine.host.subscribe ⟨query, listener⟩).1 } :
      Engine).modifyInstance i fun inst => { inst with
        listeners := inst.listeners ++
          [⟨id, query, source, target, (engine.host.subscribe ⟨query, listener⟩).2⟩] })) :
    P (engine.listen i id source target query listener).1 := by
  simp only [listen]
  split
  · exact hkept
  · exact hsubscribed

/-- Ends the subscriptions of listeners at the host. -/
def unsubscribeAll (engine : Engine) (listeners : List ConditionListener) : Engine :=
  { engine with
    host := listeners.foldl (fun host listener => host.unsubscribe listener.token) engine.host }

/-- Ends the subscriptions that an instance holds on behalf of a key. -/
def unlistenKey (engine : Engine) (i : InstanceId) (key : String) : Engine :=
  let concerns (listener : ConditionListener) : Bool :=
    listener.source = key || listener.target = key
  (engine.unsubscribeAll ((engine.inst i).listeners.filter concerns)).modifyInstance i fun inst =>
    { inst with listeners := inst.listeners.filter fun listener => !concerns listener }

/-! ### The host's answers -/

def reducedMotionQuery : Query := ⟨.media, "(prefers-reduced-motion: reduce)"⟩

/-- Whether handlers are told to reduce motion. -/
def reducedMotion (engine : Engine) : Bool :=
  engine.options.forceReducedMotion || engine.host.queryState reducedMotionQuery

end Engine

end InteractionBinding
