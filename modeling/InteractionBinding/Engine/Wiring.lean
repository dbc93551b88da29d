import InteractionBinding.Engine.Host
/-!
# Live wiring

What a host has wired at a moment, as its log shows it: an accepted plan wires its source node to
its target node under its id, and a teardown of a node ends every wire that the node takes part in.
-/

namespace InteractionBinding

/-- An effect wired from a node to a node. -/
structure Wire where
  source : NodeId
  target : NodeId
  id : InteractionId
deriving DecidableEq, Repr

namespace Wire

/-- Whether a node takes part in the wire. -/
def touches (wire : Wire) (node : NodeId) : Bool := wire.source = node || wire.target = node

end Wire

namespace Event

/-- The wires after an event. -/
def wire (wires : List Wire) : Event → List Wire
  | .add _ _ source target plan _ _ none =>
    if ⟨source, target, plan.id⟩ ∈ wires then wires else wires ++ [⟨source, target, plan.id⟩]
  | .remove _ node => wires.filter fun wire => !wire.touches node
  | _ => wires

/-- Whether an event is told on behalf of an instance, or on behalf of none. -/
def concerns (i : InstanceId) : Event → Bool
  | .add j _ _ _ _ _ _ _ => i = j
  | .addSequence j _ _ _ _ _ _ => i = j
  | _ => true

/-- The wires that are live after the events of a log. -/
def liveWires (log : List Event) : List Wire := log.foldl wire []

/-- The wires on behalf of an instance that are live after the events of a log. -/
def liveWiresOf (i : InstanceId) (log : List Event) : List Wire :=
  liveWires (log.filter (concerns i))

end Event

end InteractionBinding
