import InteractionBinding.Engine.Host
import InteractionBinding.Text.Blank
/-!
# Documents

A document is a forest of nodes with class names and attributes. Its selectors are chains of parts
joined by ` > `: the last part is for the node itself, the one before it for its parent, and so on.
A part is `*`, which matches every node, or names of classes with a point before each of them; other
parts match nothing.
-/

namespace InteractionBinding

/-- A node of a document with its place in it. -/
structure DocumentNode where
  parent : Option NodeId
  children : List NodeId
  classes : List String
  attributes : KeyMap String
deriving DecidableEq

/-- The nodes of a document by their ids, in the order of their creation. -/
structure Document where
  nodes : List (NodeId × DocumentNode)
deriving DecidableEq

/-! ### Selectors -/

/-- A part of a selector. -/
inductive SelectorPart where
  | any
  | classes (names : List String)
  | nothing
deriving DecidableEq, Repr

namespace SelectorPart

/-- Cuts a text at each point. -/
def cutAtPoints : List Char → List (List Char)
  | [] => [[]]
  | '.' :: rest => [] :: cutAtPoints rest
  | c :: rest =>
    match cutAtPoints rest with
    | [] => [[c]]
    | first :: more => (c :: first) :: more

/-- The part that a text without blanks around it stands for. -/
def ofChars : List Char → SelectorPart
  | ['*'] => .any
  | '.' :: rest => .classes ((cutAtPoints rest).map String.ofList)
  | _ => .nothing

/-- Cuts a text at each ` > `. -/
def cutAtSteps : List Char → List (List Char)
  | [] => [[]]
  | ' ' :: '>' :: ' ' :: rest => [] :: cutAtSteps rest
  | c :: rest =>
    match cutAtSteps rest with
    | [] => [[c]]
    | first :: more => (c :: first) :: more

/-- The parts of a selector, the one for the node itself first. -/
def ofSelector (selector : String) : List SelectorPart :=
  ((cutAtSteps selector.toList).map fun part => ofChars (Text.trimChars part)).reverse

def accepts (part : SelectorPart) (node : DocumentNode) : Bool :=
  match part with
  | .any => true
  | .classes names => names.all fun name => name ∈ node.classes
  | .nothing => false

end SelectorPart

namespace Document

def empty : Document := ⟨[]⟩

instance : Inhabited Document := ⟨empty⟩

def get? (document : Document) (id : NodeId) : Option DocumentNode :=
  (document.nodes.find? fun entry => entry.1 = id).map Prod.snd

/-- Changes the node of an id, if there is one. -/
def modify (document : Document) (id : NodeId) (f : DocumentNode → DocumentNode) : Document :=
  ⟨document.nodes.map fun entry => if entry.1 = id then (entry.1, f entry.2) else entry⟩

/-- Takes a node out of its parent. -/
def detach (document : Document) (id : NodeId) : Document :=
  match (document.get? id).bind DocumentNode.parent with
  | none => document
  | some parent =>
    (document.modify parent fun node =>
      { node with children := node.children.filter fun child => child ≠ id }).modify id
        fun node => { node with parent := none }

/-- Gives a node, new or not, its classes and attributes. -/
def describe (document : Document) (id : NodeId) (classes : List String)
    (attributes : KeyMap String) : Document :=
  match document.get? id with
  | none => ⟨document.nodes ++ [(id, ⟨none, [], classes, attributes⟩)]⟩
  | some _ =>
    document.modify id fun node => { node with classes := classes, attributes := attributes }

/-- Puts a detached node under a parent, if there is such a node, at a position among its children
or behind them. -/
def attach (document : Document) (id parent : NodeId) (position : Option Nat) : Document :=
  match document.get? parent with
  | none => document
  | some node =>
    let position := min (position.getD node.children.length) node.children.length
    (document.modify parent fun node =>
      { node with children := node.children.insertIdx position id }).modify id
        fun node => { node with parent := some parent }

/-- Makes a node or moves it, with its children, to another place. -/
def put (document : Document) (id : NodeId) (parent : Option NodeId) (position : Option Nat)
    (classes : List String) (attributes : KeyMap String) : Document :=
  let document := (document.detach id).describe id classes attributes
  match parent with
  | none => document
  | some parent => document.attach id parent position

def children (document : Document) (id : NodeId) : List NodeId :=
  ((document.get? id).map DocumentNode.children).getD []

/-- The descendants of a node in document order, down to a depth. -/
def descendantsTo (document : Document) (depth : Nat) (id : NodeId) : List NodeId :=
  match depth with
  | 0 => []
  | depth + 1 =>
    (document.children id).flatMap fun child => child :: document.descendantsTo depth child

/-- The descendants of a node in document order. No path is longer than there are nodes. -/
def descendants (document : Document) (id : NodeId) : List NodeId :=
  document.descendantsTo document.nodes.length id

/-- Whether a node and its ancestors match parts, each of them one step up from the one before. -/
def matchesParts (document : Document) : List SelectorPart → Option NodeId → Bool
  | [], _ => true
  | _ :: _, none => false
  | part :: rest, some id =>
    match document.get? id with
    | none => false
    | some node => part.accepts node && document.matchesParts rest node.parent

def matchesSelector (document : Document) (id : NodeId) (selector : String) : Bool :=
  document.matchesParts (SelectorPart.ofSelector selector) (some id)

/-- The document as an engine reads it. -/
def dom (document : Document) : Dom where
  queryAll root selector :=
    (document.descendants root).filter fun id => document.matchesSelector id selector
  children := document.children
  matchesSelector := document.matchesSelector
  attributeOf id name := (document.get? id).bind fun node => node.attributes.get? name

end Document

end InteractionBinding
