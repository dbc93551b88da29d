import InteractionBinding.Config.Basic
import InteractionBinding.InteractionId
/-!
# Interaction graphs

The compiled form of a configuration, looked up by element keys. A key can be the source of
interactions and the target of effects of others at the same time. A concrete key of a list item is
looked up by itself first and then by its template.
-/

namespace InteractionBinding

/-- An accepted interaction without its effects and sequences. -/
structure Rule where
  /-- The position among the accepted interactions. -/
  index : Nat
  /-- The source key, possibly a template. -/
  key : String
  trigger : TriggerKind
  params : KeyMap Json
  conditions : List String
  selector : Option String
  listContainer : Option String
  listItemSelector : Option String

/-- Whether the rule is bound to the items of a list. -/
def Rule.isListBound (rule : Rule) : Bool := rule.listContainer.isSome

theorem Rule.isListBound_of_some {rule : Rule} {container : String}
    (h : rule.listContainer = some container) : rule.isListBound = true := by
  rw [isListBound, h, Option.isSome_some]

theorem Rule.not_isListBound_of_none {rule : Rule} (h : rule.listContainer = none) :
    ¬rule.isListBound = true := by
  rw [isListBound, h, Option.isSome_none]
  exact Bool.false_ne_true

/-- An effect with its target and with the stored effect merged in. -/
structure CompiledEffect where
  id : InteractionId
  effectId : String
  /-- The target key, possibly a template. -/
  target : String
  effect : Effect

/-- One of the alternatives for an interaction id on its target. -/
structure Variant where
  rule : Rule
  effect : CompiledEffect

/-- A sequence with its members compiled, in declared order. -/
structure CompiledSequence where
  id : InteractionId
  sequenceId : String
  conditions : List String
  effects : List CompiledEffect
  payload : KeyMap Json

/-- An interaction as its source keeps it, the effects in reverse of their declared order. -/
structure CompiledInteraction where
  rule : Rule
  effects : List CompiledEffect
  sequences : List CompiledSequence

/-- The way back from the target of a sequence member to the sequence. -/
structure SequenceLink where
  source : String
  sequence : InteractionId
deriving DecidableEq, Repr

/-- The alternatives for one interaction id on its target, in the order of their priority. -/
structure TargetEffects where
  id : InteractionId
  variants : List Variant

/-- What a graph knows of one key. -/
structure GraphNode where
  /-- The interactions with this key as their source, in declared order. -/
  triggers : List CompiledInteraction
  /-- The effects with this key as their target and another one as their source. -/
  effects : List TargetEffects
  /-- The ids of effects and sequences of the interactions with this source. -/
  interactionIds : List InteractionId
  /-- The selectors that reach elements below the element of this key. -/
  selectors : KeySet
  sequenceLinks : List SequenceLink

namespace GraphNode

def empty : GraphNode := ⟨[], [], [], .empty, []⟩

instance : Inhabited GraphNode := ⟨empty⟩

/-- The alternatives for an id. -/
def effectsFor (node : GraphNode) (id : InteractionId) : Option (List Variant) :=
  (node.effects.find? fun entry => entry.id = id).map TargetEffects.variants

/-- All ids that the key takes part in: as source, as target and as target of sequence members. -/
def allInteractionIds (node : GraphNode) : List InteractionId :=
  node.interactionIds ++ node.effects.map TargetEffects.id ++
    node.sequenceLinks.map SequenceLink.sequence

end GraphNode

/-- What is wrong with a configuration without making it useless. -/
inductive Diagnostic where
  /-- The interaction at a position has no source key. -/
  | missingSourceKey (position : Nat)
  /-- The interaction on a key refers to an effect that is not stored. -/
  | unknownEffect (key effectId : String)
  /-- The interaction on a key refers to a sequence that is not stored. -/
  | unknownSequence (key sequenceId : String)
deriving DecidableEq, Repr

namespace Diagnostic

def message : Diagnostic → String
  | .missingSourceKey position => "interaction #" ++ toString position ++ " has no source key"
  | .unknownEffect key effectId =>
    "interaction on `" ++ key ++ "` references unknown effect `" ++ effectId ++ "`"
  | .unknownSequence key sequenceId =>
    "interaction on `" ++ key ++ "` references unknown sequence `" ++ sequenceId ++ "`"

def code : Diagnostic → String
  | .missingSourceKey _ => "interweave::graph::missing_source_key"
  | .unknownEffect _ _ => "interweave::graph::unknown_effect"
  | .unknownSequence _ _ => "interweave::graph::unknown_sequence"

def help : Diagnostic → Option String
  | .missingSourceKey _ =>
    some "Every interaction needs a `key` naming the element its trigger listens on."
  | .unknownEffect _ effectId =>
    some ("The reference is kept as-is; add `" ++ effectId ++
      "` to the effects table if it should carry a stored payload.")
  | .unknownSequence _ _ => none

end Diagnostic

/-- The compiled form of a configuration. -/
structure Graph where
  nodes : KeyMap GraphNode
  conditions : KeyMap Condition
  diagnostics : List Diagnostic
  /-- The number of accepted interactions. -/
  interactionCount : Nat

namespace Graph

/-- The graph key that a concrete key stands for: itself or else its template. -/
def resolveKey (graph : Graph) (key : String) : Option String :=
  if graph.nodes.contains key then some key
  else
    let template := KeyTemplate.template key
    if graph.nodes.contains template then some template else none

/-- What the graph knows of a concrete key. -/
def get? (graph : Graph) (key : String) : Option GraphNode :=
  (graph.resolveKey key).bind graph.nodes.get?

/-- Whether the graph knows a concrete key. -/
def knows (graph : Graph) (key : String) : Bool := (graph.resolveKey key).isSome

/-- The effects of an interaction and the members of its sequences, in stored order. -/
def effectsOf (interaction : CompiledInteraction) : List CompiledEffect :=
  interaction.effects ++ interaction.sequences.flatMap CompiledSequence.effects

/-! ### Edges

Edges are given out one by one, by a walk that visits the nodes in any order. The edges of a node
are put on a stack all at once when the node is visited, and the next node is visited when the stack
is used up. -/

/-- One effect, or one member of a sequence, as a step from its source to its target. -/
structure Edge where
  source : String
  target : String
  id : InteractionId
deriving DecidableEq, Repr

/-- The edge of an effect that is stored under a key. -/
def Edge.ofEffect (key : String) (effect : CompiledEffect) : Edge :=
  ⟨key, effect.target, effect.id⟩

/-- A walk over edges that is under way. -/
structure EdgeWalk where
  /-- The nodes that have not been visited, in the order of the walk. -/
  ahead : List (String × GraphNode)
  /-- The edges that are still to be given out of the nodes that have been visited, a stack with its
  top first. -/
  pending : List Edge

namespace EdgeWalk

/-- A walk that has not given out anything. -/
def start (visits : List (String × GraphNode)) : EdgeWalk := ⟨visits, []⟩

/-- Puts the edges of a node on a stack, the last one on top. -/
def push (key : String) (node : GraphNode) (pending : List Edge) : List Edge :=
  node.triggers.foldl (fun pending interaction =>
    (effectsOf interaction).foldl (fun pending effect => .ofEffect key effect :: pending) pending)
    pending

/-- Gives out the edge on top of the stack, and visits nodes first until there is one. -/
def advance : List (String × GraphNode) → List Edge → Option Edge × EdgeWalk
  | ahead, edge :: pending => (some edge, ⟨ahead, pending⟩)
  | [], [] => (none, ⟨[], []⟩)
  | (key, node) :: ahead, [] => advance ahead (push key node []).reverse

/-- The next edge of a walk, if there is one. -/
def next (walk : EdgeWalk) : Option Edge × EdgeWalk := advance walk.ahead walk.pending

/-- An edge that is given out leaves fewer nodes ahead, or a smaller stack. -/
theorem lex_of_advance {ahead : List (String × GraphNode)} {pending : List Edge} {edge : Edge}
    {rest : EdgeWalk} (h : advance ahead pending = (some edge, rest)) :
    Prod.Lex (· < ·) (· < ·) (rest.ahead.length, rest.pending.length)
      (ahead.length, pending.length) := by
  induction ahead, pending using advance.induct with
  | case1 ahead top pending =>
    rw [advance] at h
    rw [← (Prod.mk.inj h).2]
    exact .right _ (Nat.lt_succ_self _)
  | case2 => cases h
  | case3 key node ahead ih =>
    rw [advance] at h
    have hle : rest.ahead.length ≤ ahead.length := by
      rcases Prod.lex_def.mp (ih h) with hlt | ⟨heq, -⟩
      · exact Nat.le_of_lt hlt
      · exact Nat.le_of_eq heq
    exact .left _ _ (Nat.lt_succ_of_le hle)

/-- The edges that a walk gives out from now on, up to its end. -/
def toList (walk : EdgeWalk) : List Edge :=
  match _h : walk.next with
  | (none, _) => []
  | (some edge, rest) => edge :: rest.toList
termination_by (walk.ahead.length, walk.pending.length)
decreasing_by exact lex_of_advance _h

end EdgeWalk

/-- The edges of a graph, by a walk over its nodes in the order of their keys. -/
def edges (graph : Graph) : List Edge := (EdgeWalk.start graph.nodes.toList).toList

end Graph

end InteractionBinding
