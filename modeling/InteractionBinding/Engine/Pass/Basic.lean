import InteractionBinding.Engine.Watch
/-!
# Passes

A pass resolves what a key takes part in, for one instance. A full pass looks at the document as it
is, skips ids that have been applied and watches the containers of lists. A pass with a scope
looks only at nodes that were added to one container, and only at the rules bound to it.

A candidate is an effect selected for application, with the controllers of its two sides. It is
wired on pairs of nodes, and a list item is decided on once for all of its pairs.
-/

namespace InteractionBinding.Engine

/-- Nodes that were added to a container below the anchor of a controller. -/
structure ListScope where
  owner : ControllerId
  container : String
  nodes : List NodeId

/-- A pass over an instance. -/
structure Pass where
  instanceId : InstanceId
  scope : Option ListScope

/-- An effect selected for application. -/
structure Candidate where
  /-- The id with the indices of the resolved key filled in. -/
  id : InteractionId
  rule : Rule
  effect : CompiledEffect
  source : ControllerId
  target : ControllerId
  gate : Gate

/-- The text under which the candidate is kept as applied. -/
def Candidate.memoKey (candidate : Candidate) : String := candidate.id.encode

/-- A source node and a target node, and the list item that they belong to, if any. -/
structure NodePair where
  source : NodeId
  target : NodeId
  item : Option NodeId
deriving DecidableEq, Repr

namespace Pass

def graph (pass : Pass) (engine : Engine) : Graph := (engine.inst pass.instanceId).graph

/-- What the graph of the instance knows of a concrete key. -/
def node? (pass : Pass) (engine : Engine) (key : String) : Option GraphNode :=
  (pass.graph engine).get? key

/-- Whether an id needs no application in this pass. -/
def alreadyApplied (pass : Pass) (engine : Engine) (memoKey : String) : Bool :=
  pass.scope.isNone && (engine.inst pass.instanceId).isApplied memoKey

/-- The gate of lists of condition names at the moment. -/
def currentGate (pass : Pass) (engine : Engine) (lists : List (List String)) : Gate :=
  .resolveAll (pass.graph engine).conditions engine.host.queryState lists

/-- The gate of lists of condition names for an id, its live queries being listened to. -/
def gateFor (pass : Pass) (engine : Engine) (memoKey source target : String)
    (lists : List (List String)) : Engine × Gate :=
  let gate := pass.currentGate engine lists
  (gate.liveQueries.foldl
    (fun engine query =>
      (engine.listen pass.instanceId memoKey source target query (.reconcile source target)).1)
    engine, gate)

/-- Whether a rule between two controllers is bound to the container of the scope. -/
def inScope (pass : Pass) (rule : Rule) (effect : CompiledEffect) (source target : ControllerId) :
    Bool :=
  match pass.scope with
  | none => true
  | some scope =>
    (rule.listContainer = some scope.container && source = scope.owner) ||
      (effect.effect.listContainer = some scope.container && target = scope.owner)

/-- The items of a container below the anchor of a controller. A full pass starts to watch the
container; a pass with a scope sees the added nodes. -/
def listItems (pass : Pass) (engine : Engine) (owner : ControllerId) (container : String)
    (item : Option String) : Engine × List NodeId :=
  match pass.scope with
  | some scope =>
    (engine, if scope.container = container && owner = scope.owner then scope.nodes else [])
  | none =>
    match engine.anchor owner with
    | none => (engine, [])
    | some anchor =>
      ((engine.watchChildList owner container item).1,
        engine.host.dom.queryAll anchor (itemsSelector container item))

/-- The nodes that an effect lands on below the anchor of its target. -/
def effectNodes (pass : Pass) (engine : Engine) (target : ControllerId) (effect : Effect) :
    Engine × List NodeId :=
  match engine.anchor target with
  | none => (engine, [])
  | some anchor =>
    match effect.listContainer with
    | some container =>
      let (engine, items) := pass.listItems engine target container effect.listItemSelector
      (engine, items.flatMap fun item => engine.host.dom.select item effect.selector)
    | none => (engine, engine.host.dom.select anchor effect.selector)

/-- The pairs of nodes of a candidate. -/
def pairs (pass : Pass) (engine : Engine) (candidate : Candidate) : Engine × List NodePair :=
  let rule := candidate.rule
  let effect := candidate.effect.effect
  let dom := engine.host.dom
  match engine.anchor candidate.source, engine.anchor candidate.target with
  | some sourceAnchor, some targetAnchor =>
    match rule.listContainer, effect.listContainer with
    | some container, other =>
      let (engine, items) :=
        pass.listItems engine candidate.source container rule.listItemSelector
      (engine, items.flatMap fun item =>
        let targets := dom.select (if other = some container then item else targetAnchor)
          effect.selector
        (dom.select item rule.selector).flatMap fun source =>
          targets.map fun target => ⟨source, target, some item⟩)
    | none, some container =>
      let sources := dom.select sourceAnchor rule.selector
      let (engine, items) :=
        pass.listItems engine candidate.target container effect.listItemSelector
      (engine, items.flatMap fun item =>
        (dom.select item effect.selector).flatMap fun target =>
          sources.map fun source => ⟨source, target, some item⟩)
    | none, none =>
      (engine, (dom.select sourceAnchor rule.selector).flatMap fun source =>
        (dom.select targetAnchor effect.selector).map fun target => ⟨source, target, none⟩)
  | _, _ => (engine, [])

/-- What a handler is told beside the plan for an id. -/
def handlerContext (engine : Engine) (id : InteractionId) (partner : Option ControllerId)
    (gate : Gate) (rule : Rule) : HandlerContext where
  id := id
  partner := partner
  reducedMotion := engine.reducedMotion
  selectorPredicate := gate.selectorPredicate
  allowKeyboard := engine.options.allowKeyboardTriggers && rule.trigger.needsKeyboard

/-- The controller whose list a candidate is bound to, if it is bound to one. -/
def listOwner (candidate : Candidate) : ControllerId :=
  if candidate.rule.isListBound then candidate.source else candidate.target

/-- What has come of a candidate so far. -/
structure Progress where
  engine : Engine
  /-- The list items decided on, and whether they are wired. -/
  decided : List (NodeId × Bool)
  /-- Whether some pair has been wired. -/
  wired : Bool

/-- Decides on the item of a pair, if it has one. A pass with a scope leaves out items that are
wired for the id already. -/
def decideItem (pass : Pass) (candidate : Candidate) (progress : Progress) (item : Option NodeId) :
    Progress × Bool :=
  match item with
  | none => (progress, true)
  | some item =>
    match progress.decided.find? fun entry => entry.1 = item with
    | some (_, allowed) => (progress, allowed)
    | none =>
      let (engine, fresh) :=
        progress.engine.markItem (listOwner candidate) candidate.memoKey item
      let allowed := fresh || pass.scope.isNone
      ({ progress with engine := engine, decided := (item, allowed) :: progress.decided }, allowed)

/-- Wires a candidate on a pair of nodes. -/
def wirePair (pass : Pass) (handler : HandlerId) (candidate : Candidate) (context : HandlerContext)
    (progress : Progress) (pair : NodePair) : Progress :=
  let (progress, allowed) := pass.decideItem candidate progress pair.item
  if allowed then
    let plan : EffectPlan := ⟨candidate.id, candidate.effect.effectId, candidate.effect.effect⟩
    let (engine, accepted) := progress.engine.offer pass.instanceId handler pair.source pair.target
      plan candidate.rule.params context
    { progress with engine := engine, wired := progress.wired || accepted }
  else progress

/-- Wires a candidate. In a full pass its id counts as applied when a pair has been wired, or when
it is bound to a list, of which later items are wired as they are added. -/
def applyCandidate (pass : Pass) (engine : Engine) (candidate : Candidate) : Engine :=
  match engine.host.handlers.get? candidate.rule.trigger with
  | none => engine
  | some handler =>
    let context :=
      handlerContext engine candidate.id (some candidate.target) candidate.gate candidate.rule
    let (engine, pairs) := pass.pairs engine candidate
    let progress := pairs.foldl (pass.wirePair handler candidate context) ⟨engine, [], false⟩
    let listBound :=
      candidate.rule.isListBound || candidate.effect.effect.listContainer.isSome
    if pass.scope.isNone && (progress.wired || listBound) then
      progress.engine.modifyInstance pass.instanceId (·.markApplied candidate.memoKey)
    else progress.engine

/-- Wires candidates from the last selected to the first. -/
def applySelected (pass : Pass) (engine : Engine) (selected : List Candidate) : Engine :=
  selected.reverse.foldl pass.applyCandidate engine

end Pass

end InteractionBinding.Engine
