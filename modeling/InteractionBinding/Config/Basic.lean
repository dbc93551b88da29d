import InteractionBinding.Json.Basic
/-!
# Configurations

A configuration lists interactions: when a trigger fires on the element of a key, effects are
applied to elements of the same or of other keys. Effects, conditions and sequences can be stored
in tables under names and be referred to by these names.

The engine does not interpret payloads and trigger parameters. The one operation on payloads is
the merge of a reference onto the stored effect: every field that the reference sets wins, and
payloads are merged member by member.
-/

namespace InteractionBinding

/-- What an interaction waits for on its source element. -/
inductive TriggerKind where
  | hover
  | click
  | viewEnter
  | viewProgress
  | pointerMove
  | animationEnd
  | custom (name : String)
deriving DecidableEq, Repr, Inhabited

namespace TriggerKind

/-- The kind of a name. Names without a kind of their own stand for custom kinds. -/
def ofName : String → TriggerKind
  | "hover" => .hover
  | "click" => .click
  | "viewEnter" => .viewEnter
  | "viewProgress" => .viewProgress
  | "pointerMove" => .pointerMove
  | "animationEnd" => .animationEnd
  | name => .custom name

def name : TriggerKind → String
  | .hover => "hover"
  | .click => "click"
  | .viewEnter => "viewEnter"
  | .viewProgress => "viewProgress"
  | .pointerMove => "pointerMove"
  | .animationEnd => "animationEnd"
  | .custom name => name

@[simp]
theorem name_ofName (s : String) : (ofName s).name = s := by
  unfold ofName
  split <;> rfl

def isCustom : TriggerKind → Bool
  | .custom _ => true
  | _ => false

/-- Activation by click and focus by hover have a counterpart on the keyboard. -/
def needsKeyboard : TriggerKind → Bool
  | .click => true
  | .hover => true
  | _ => false

end TriggerKind

/-- How a named condition is evaluated: as a live media or container query, or as a selector that
is checked against the element an effect lands on. -/
inductive ConditionKind where
  | media
  | container
  | selector
deriving DecidableEq, Repr, Inhabited

def ConditionKind.name : ConditionKind → String
  | .media => "media"
  | .container => "container"
  | .selector => "selector"

def ConditionKind.ofName? : String → Option ConditionKind
  | "media" => some .media
  | "container" => some .container
  | "selector" => some .selector
  | _ => none

/-- A condition that interactions, effects and sequences refer to by name. -/
structure Condition where
  kind : ConditionKind
  predicate : String
deriving DecidableEq, Repr, Inhabited

/-- An effect, or a reference to a stored one. What is set here wins over the stored effect. -/
structure Effect where
  effectId : Option String
  key : Option String
  listContainer : Option String
  listItemSelector : Option String
  selector : Option String
  conditions : List String
  payload : KeyMap Json

/-- A group of effects that its trigger plays as one unit. -/
structure SequenceDef where
  sequenceId : Option String
  conditions : List String
  effects : List Effect
  payload : KeyMap Json

/-- A reference to a stored sequence, with further conditions. -/
structure SequenceRef where
  sequenceId : String
  conditions : List String
deriving DecidableEq, Repr

/-- A sequence of an interaction: a stored one or one of its own. -/
inductive SequenceEntry where
  | stored (reference : SequenceRef)
  | inline (sequence : SequenceDef)

/-- A rule: when `trigger` fires on the element of `key`, apply `effects` and play `sequences`. -/
structure Interaction where
  key : Option String
  trigger : TriggerKind
  params : KeyMap Json
  conditions : List String
  selector : Option String
  listContainer : Option String
  listItemSelector : Option String
  effects : List Effect
  sequences : List SequenceEntry

/-- The configuration of one instance of the engine. -/
structure Config where
  interactions : List Interaction
  effects : KeyMap Effect
  conditions : KeyMap Condition
  sequences : KeyMap SequenceDef

namespace Effect

/-- The effect that sets nothing. -/
def empty : Effect := ⟨none, none, none, none, none, [], .empty⟩

instance : Inhabited Effect := ⟨empty⟩

/-- What a reference makes of the stored effect: fields it sets win, and payloads are merged one
level deep. -/
def mergedOnto (site stored : Effect) : Effect where
  effectId := site.effectId.or stored.effectId
  key := site.key.or stored.key
  listContainer := site.listContainer.or stored.listContainer
  listItemSelector := site.listItemSelector.or stored.listItemSelector
  selector := site.selector.or stored.selector
  conditions := if site.conditions.isEmpty then stored.conditions else site.conditions
  payload := stored.payload.override site.payload

end Effect

/-- The configuration without entries. -/
def Config.empty : Config := ⟨[], .empty, .empty, .empty⟩

instance : Inhabited Config := ⟨Config.empty⟩

end InteractionBinding
