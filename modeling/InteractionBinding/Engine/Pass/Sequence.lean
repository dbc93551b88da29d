import InteractionBinding.Engine.Pass.Basic
/-!
# Sequences

A sequence is wired as one plan, and only when every member whose gate is open has a connected
target. The source wires its own sequences; a target that connects later wires the sequences that
it is a member of.
-/

namespace InteractionBinding.Engine.Pass

/-- The members of a sequence whose gates are open and that land on some node; none when a member
waits for its target. -/
def sequenceMembers (pass : Pass) (source : ControllerId) (sourceKey memoKey : String)
    (rule : Rule) (engine : Engine) : List CompiledEffect → Engine × Option (List SequenceMember)
  | [] => (engine, some [])
  | effect :: rest =>
    let indices := KeyTemplate.indices sourceKey
    let targetKey := KeyTemplate.interpolate effect.target indices
    let (engine, gate) := pass.gateFor engine memoKey sourceKey targetKey [effect.effect.conditions]
    if !gate.isOpen then pass.sequenceMembers source sourceKey memoKey rule engine rest
    else
      let target :=
        if effect.target = rule.key then some source else engine.connectedController? targetKey
      match target with
      | none => (engine, none)
      | some target =>
        let (engine, targets) := pass.effectNodes engine target effect.effect
        let (engine, members) := pass.sequenceMembers source sourceKey memoKey rule engine rest
        if targets.isEmpty then (engine, members)
        else
          (engine, members.map fun members =>
            ⟨effect.id.interpolate indices, effect.effectId, targets, effect.effect⟩ :: members)

/-- Wires a sequence plan on nodes. Answers whether some node accepted it. -/
def wireSequence (pass : Pass) (handler : HandlerId) (plan : SequencePlan) (params : KeyMap Json)
    (context : HandlerContext) (engine : Engine) (nodes : List NodeId) : Engine × Bool :=
  nodes.foldl
    (fun (engine, wired) node =>
      let (engine, accepted) :=
        engine.offerSequence pass.instanceId handler node plan params context
      (engine, wired || accepted))
    (engine, false)

/-- Wires a sequence of an interaction whose source is connected. -/
def applySequence (pass : Pass) (source : ControllerId) (sourceKey : String) (rule : Rule)
    (engine : Engine) (sequence : CompiledSequence) : Engine :=
  let id := sequence.id.interpolate (KeyTemplate.indices sourceKey)
  if pass.alreadyApplied engine id.encode then engine
  else
    let (engine, gate) :=
      pass.gateFor engine id.encode sourceKey sourceKey [rule.conditions, sequence.conditions]
    if !gate.isOpen then engine
    else
      match pass.sequenceMembers source sourceKey id.encode rule engine sequence.effects with
      | (engine, none) => engine
      | (engine, some []) => engine
      | (engine, some members) =>
        match engine.host.handlers.get? rule.trigger, engine.anchor source with
        | some handler, some anchor =>
          let plan : SequencePlan := ⟨id, sequence.sequenceId, members, sequence.payload⟩
          let context := handlerContext engine id none gate rule
          let (engine, wired) := pass.wireSequence handler plan rule.params context engine
            (engine.host.dom.select anchor rule.selector)
          if wired then engine.modifyInstance pass.instanceId (·.markApplied id.encode)
          else engine
        | _, _ => engine

/-- Resolves the sequences of a key's interactions. -/
def resolveOutgoingSequences (pass : Pass) (engine : Engine) (c : ControllerId) (key : String) :
    Engine :=
  match pass.node? engine key with
  | none => engine
  | some node =>
    node.triggers.foldl
      (fun engine interaction =>
        interaction.sequences.foldl (pass.applySequence c key interaction.rule) engine)
      engine

/-- Resolves the sequence that a link leads back to, unless its source is the given controller. -/
def resolveLink (pass : Pass) (c : ControllerId) (key : String) (engine : Engine)
    (link : SequenceLink) : Engine :=
  let sourceKey := KeyTemplate.interpolate link.source (KeyTemplate.indices key)
  match engine.connectedController? sourceKey, pass.node? engine sourceKey with
  | some source, some node =>
    if source = c then engine
    else
      node.triggers.foldl
        (fun engine interaction =>
          match interaction.sequences.find? fun sequence => sequence.id = link.sequence with
          | some sequence => pass.applySequence source sourceKey interaction.rule engine sequence
          | none => engine)
        engine
  | _, _ => engine

/-- Resolves the sequences that a key is a member target of. -/
def resolveIncomingSequences (pass : Pass) (engine : Engine) (c : ControllerId) (key : String) :
    Engine :=
  match pass.node? engine key with
  | none => engine
  | some node => node.sequenceLinks.foldl (pass.resolveLink c key) engine

end InteractionBinding.Engine.Pass
