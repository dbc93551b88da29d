import InteractionBinding.Engine.Pass.Sequence
import InteractionBinding.Engine.Pass.Outgoing
import InteractionBinding.Engine.Pass.Incoming
/-!
# Resolving a key

A key that connects is registered first and then resolved in every live instance that knows it, from
the source, from the target and as a member of sequences. A rule whose other side is missing
waits until that side connects, and is resolved from there.
-/

namespace InteractionBinding.Engine

/-- Resolves a key in one instance that knows it. -/
def resolveIn (c : ControllerId) (key : String) (engine : Engine) (i : InstanceId) : Engine :=
  let pass : Pass := ⟨i, none⟩
  let engine := engine.setController i key c
  let engine := pass.resolveOutgoing engine c key
  let engine := pass.resolveIncoming engine c key
  let engine := pass.resolveOutgoingSequences engine c key
  pass.resolveIncomingSequences engine c key

/-- Registers a controller under a key and resolves the key. Answers whether some live instance
knows the key. -/
def resolve (engine : Engine) (c : ControllerId) (key : String) : Engine × Bool :=
  let engine := { engine with registry := engine.registry.insert key c }
  let instances := engine.instancesFor key
  (instances.foldl (resolveIn c key) engine, !instances.isEmpty)

/-- Wires the rules bound to a container below the anchor of a controller on added nodes. -/
def addListItems (engine : Engine) (owner : ControllerId) (key container : String)
    (added : List NodeId) : Engine :=
  (engine.instancesFor key).foldl
    (fun engine i =>
      let pass : Pass := ⟨i, some ⟨owner, container, added⟩⟩
      pass.resolveIncoming (pass.resolveOutgoing engine owner key) owner key)
    engine

end InteractionBinding.Engine
