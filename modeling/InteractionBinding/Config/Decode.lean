import InteractionBinding.Config.Basic
import InteractionBinding.Config.Fault
import InteractionBinding.Json.Tree.Reader
/-!
# Configurations from JSON

Configurations and their parts are read from JSON documents in document order, and the first fault
decides. Records are objects or, unless they carry a payload, arrays of their fields in order.
Members that a record does not know are passed over; in an effect or a sequence they are the
payload.

A document comes as text or as a value. In a value the members of an object are visited in the order
of their names, no name is repeated and there are no faults of the text. The two kinds of
documents differ in what is said about arrays that are too long and about condition kinds.
-/

namespace InteractionBinding

namespace Decode

open Json

/-- Whether a document comes as a text or as a value. -/
inductive Origin where
  | text
  | value
deriving DecidableEq, Repr

abbrev Decoder (α : Type) := Tree → Except Fault α

/-- The fault of a tree that stands where another kind of value is expected. -/
def mismatch (expected : Expected) : Tree → Fault
  | .null => .shape (.wrongType .null expected)
  | .bool value => .shape (.wrongType (.bool value) expected)
  | .number value => .shape (.wrongType (.number value) expected)
  | .string value => .shape (.wrongType (.string value) expected)
  | .array _ _ => .shape (.wrongType .sequence expected)
  | .object _ _ => .shape (.wrongType .map expected)
  | .valueless => .malformed
  | .broken => .malformed

def string : Decoder String
  | .string value => .ok value
  | tree => .error (mismatch .string tree)

/-- A text that may be null. -/
def optionalString : Decoder (Option String)
  | .null => .ok none
  | tree => some <$> string tree

/-- A value that is passed over: only its text has to be well formed. -/
def skipped : Decoder Unit := fun tree => if tree.isSound then .ok () else .error .malformed

/-- A value that is kept as it is. -/
def anyValue : Decoder Json := fun tree =>
  match tree.toJson? with
  | some value => .ok value
  | none => .error .malformed

/-- The end of an array or object. -/
def ending (closed : Bool) : Except Fault Unit := if closed then .ok () else .error .malformed

/-- The items of an array, from the first one on. -/
def items {α : Type} (item : Decoder α) (closed : Bool) : List Tree → Except Fault (List α)
  | [] => do
    ending closed
    return []
  | tree :: rest => do
    let value ← item tree
    return value :: (← items item closed rest)

def list {α : Type} (item : Decoder α) : Decoder (List α)
  | .array trees closed => items item closed trees
  | tree => .error (mismatch .sequence tree)

def strings : Decoder (List String) := list string

/-- Visits the members of an object from the first one on. -/
def visit {σ : Type} (member : σ → String → Tree → Except Fault σ) (closed : Bool) (state : σ) :
    List (Option String × Tree) → Except Fault σ
  | [] => do
    ending closed
    return state
  | (none, _) :: _ => .error .malformed
  | (some name, tree) :: rest => do
    visit member closed (← member state name tree) rest

/-- An object of any names; of several members of one name the last one counts. -/
def table {α : Type} (value : Decoder α) : Decoder (KeyMap α)
  | .object entries closed =>
    visit (fun table name tree => table.insert name <$> value tree) closed .empty entries
  | tree => .error (mismatch .map tree)

/-- A field of a record, which must not have been given before. -/
def once {α : Type} (name : String) (field : Option α) (value : Decoder α) : Decoder (Option α) :=
  fun tree =>
    match field with
    | some _ => .error (.shape (.duplicateField name))
    | none => some <$> value tree

/-- The value of a field that has to be given. -/
def required {α : Type} (name : String) (field : Option α) : Except Fault α :=
  match field with
  | some value => .ok value
  | none => .error (.shape (.missingField name))

/-! ### Records as arrays -/

/-- A field of a record that is given as an array: its value if the array is long enough, and the
items behind it. -/
def positional {α : Type} (value : Decoder α) (closed : Bool) :
    List Tree → Except Fault (Option α × List Tree)
  | [] => do
    ending closed
    return (none, [])
  | tree :: rest => do
    return (some (← value tree), rest)

/-- A field that an array of a record has to have, the one behind `length` others. -/
def reached {α : Type} (expected : Expected) (fields length : Nat) (field : Option α) :
    Except Fault α :=
  match field with
  | some value => .ok value
  | none => .error (.shape (.tooShort length expected fields))

/-- The end of an array that stands for a record: all items have been used. -/
def noMore (origin : Origin) (length : Nat) (closed : Bool) (rest : List Tree) :
    Except Fault Unit :=
  match rest, origin with
  | [], _ => ending closed
  | _ :: _, .text => .error .malformed
  | _ :: _, .value => .error (.shape (.tooLong length))

/-! ### Parts of a configuration -/

/-- A trigger kind by its name. -/
def triggerKind : Decoder TriggerKind := fun tree => TriggerKind.ofName <$> string tree

/-- A condition kind by its name alone. -/
def conditionKindOfName (name : String) : Except Fault ConditionKind :=
  match ConditionKind.ofName? name with
  | some kind => .ok kind
  | none => .error (.shape (.unknownConditionKind name))

def unit : Decoder Unit
  | .null => .ok ()
  | tree => .error (mismatch .unit tree)

/-- A condition kind: its name, or an object with the name as the only member and null for its
value. -/
def conditionKind (origin : Origin) : Decoder ConditionKind := fun tree =>
  match tree, origin with
  | .string name, _ => conditionKindOfName name
  | .object ((some name, value) :: rest) closed, .text => do
    let kind ← conditionKindOfName name
    unit value
    if rest.isEmpty && closed then return kind else .error .malformed
  | .object [(some name, value)] _, .value => do
    let kind ← conditionKindOfName name
    unit value
    return kind
  | .object _ _, .value => .error (.shape .notOneKey)
  | tree, .value => .error (mismatch .conditionKind tree)
  | _, .text => .error .malformed

/-- The fields of a condition met so far. -/
structure ConditionFields where
  kind : Option ConditionKind
  predicate : Option String

def conditionMember (origin : Origin) (fields : ConditionFields) (name : String) (tree : Tree) :
    Except Fault ConditionFields :=
  match name with
  | "type" => do return { fields with kind := ← once name fields.kind (conditionKind origin) tree }
  | "predicate" => do return { fields with predicate := ← once name fields.predicate string tree }
  | _ => do
    skipped tree
    return fields

/-- A condition, as an object or as the array of its two fields. -/
def condition (origin : Origin) : Decoder Condition
  | .object entries closed => do
    let fields ← visit (conditionMember origin) closed ⟨none, none⟩ entries
    return ⟨← required "type" fields.kind, ← required "predicate" fields.predicate⟩
  | .array trees closed => do
    let (kind, rest) ← positional (conditionKind origin) closed trees
    let kind ← reached .condition 2 0 kind
    let (predicate, rest) ← positional string closed rest
    let predicate ← reached .condition 2 1 predicate
    noMore origin trees.length closed rest
    return ⟨kind, predicate⟩
  | tree => .error (mismatch .condition tree)

/-- The fields of an effect met so far. -/
structure EffectFields where
  effectId : Option (Option String)
  key : Option (Option String)
  listContainer : Option (Option String)
  listItemSelector : Option (Option String)
  selector : Option (Option String)
  conditions : Option (List String)
  payload : KeyMap Json

def effectMember (fields : EffectFields) (name : String) (tree : Tree) :
    Except Fault EffectFields :=
  match name with
  | "effectId" => do
    return { fields with effectId := ← once name fields.effectId optionalString tree }
  | "key" => do return { fields with key := ← once name fields.key optionalString tree }
  | "listContainer" => do
    return { fields with listContainer := ← once name fields.listContainer optionalString tree }
  | "listItemSelector" => do
    return { fields with
      listItemSelector := ← once name fields.listItemSelector optionalString tree }
  | "selector" => do
    return { fields with selector := ← once name fields.selector optionalString tree }
  | "conditions" => do
    return { fields with conditions := ← once name fields.conditions strings tree }
  | _ => do return { fields with payload := fields.payload.insert name (← anyValue tree) }

def EffectFields.toEffect (fields : EffectFields) : Effect :=
  ⟨fields.effectId.join, fields.key.join, fields.listContainer.join, fields.listItemSelector.join,
    fields.selector.join, fields.conditions.getD [], fields.payload⟩

def effect : Decoder Effect
  | .object entries closed => do
    let fields ← visit effectMember closed ⟨none, none, none, none, none, none, .empty⟩ entries
    return fields.toEffect
  | tree => .error (mismatch .effect tree)

/-- The fields of a sequence met so far. -/
structure SequenceFields where
  sequenceId : Option (Option String)
  conditions : Option (List String)
  effects : Option (List Effect)
  payload : KeyMap Json

def sequenceMember (fields : SequenceFields) (name : String) (tree : Tree) :
    Except Fault SequenceFields :=
  match name with
  | "sequenceId" => do
    return { fields with sequenceId := ← once name fields.sequenceId optionalString tree }
  | "conditions" => do
    return { fields with conditions := ← once name fields.conditions strings tree }
  | "effects" => do return { fields with effects := ← once name fields.effects (list effect) tree }
  | _ => do return { fields with payload := fields.payload.insert name (← anyValue tree) }

def sequenceDef : Decoder SequenceDef
  | .object entries closed => do
    let fields ← visit sequenceMember closed ⟨none, none, none, .empty⟩ entries
    let effects ← required "effects" fields.effects
    return ⟨fields.sequenceId.join, fields.conditions.getD [], effects, fields.payload⟩
  | tree => .error (mismatch .sequenceDef tree)

/-- The fields of a reference to a stored sequence met so far. -/
structure ReferenceFields where
  sequenceId : Option String
  conditions : Option (List String)

/-- A reference has no members beside its two fields. -/
def referenceMember? (fields : ReferenceFields) (name : String) (tree : Tree) :
    Except Fault ReferenceFields :=
  match name with
  | "sequenceId" => do
    return { fields with sequenceId := ← once name fields.sequenceId string tree }
  | "conditions" => do
    return { fields with conditions := ← once name fields.conditions strings tree }
  | _ => .error (.shape .noSequenceForm)

/-- A reference to a stored sequence, as an object or as the array of one or both of its fields. -/
def sequenceRef : Decoder SequenceRef
  | .object entries closed => do
    let fields ← visit referenceMember? closed ⟨none, none⟩ entries
    return ⟨← required "sequenceId" fields.sequenceId, fields.conditions.getD []⟩
  | .array [sequenceId] _ => do return ⟨← string sequenceId, []⟩
  | .array [sequenceId, conditions] _ => do return ⟨← string sequenceId, ← strings conditions⟩
  | _ => .error (.shape .noSequenceForm)

/-- A sequence of an interaction. It is tried as a reference first, and then as a sequence of its
own; its whole text has to have a value before. -/
def sequenceEntry : Decoder SequenceEntry := fun tree =>
  if tree.toJson?.isNone then .error .malformed
  else match sequenceRef tree with
    | .ok reference => .ok (.stored reference)
    | .error _ =>
      match sequenceDef tree with
      | .ok sequence => .ok (.inline sequence)
      | .error _ => .error (.shape .noSequenceForm)

/-- The fields of an interaction met so far. -/
structure InteractionFields where
  key : Option (Option String)
  trigger : Option TriggerKind
  params : Option (KeyMap Json)
  conditions : Option (List String)
  selector : Option (Option String)
  listContainer : Option (Option String)
  listItemSelector : Option (Option String)
  effects : Option (List Effect)
  sequences : Option (List SequenceEntry)

def interactionMember (fields : InteractionFields) (name : String) (tree : Tree) :
    Except Fault InteractionFields :=
  match name with
  | "key" => do return { fields with key := ← once name fields.key optionalString tree }
  | "trigger" => do return { fields with trigger := ← once name fields.trigger triggerKind tree }
  | "params" => do return { fields with params := ← once name fields.params (table anyValue) tree }
  | "conditions" => do
    return { fields with conditions := ← once name fields.conditions strings tree }
  | "selector" => do
    return { fields with selector := ← once name fields.selector optionalString tree }
  | "listContainer" => do
    return { fields with listContainer := ← once name fields.listContainer optionalString tree }
  | "listItemSelector" => do
    return { fields with
      listItemSelector := ← once name fields.listItemSelector optionalString tree }
  | "effects" => do return { fields with effects := ← once name fields.effects (list effect) tree }
  | "sequences" => do
    return { fields with sequences := ← once name fields.sequences (list sequenceEntry) tree }
  | _ => do
    skipped tree
    return fields

/-- The interaction of the fields, with its trigger. -/
def InteractionFields.toInteraction (fields : InteractionFields) (trigger : TriggerKind) :
    Interaction :=
  ⟨fields.key.join, trigger, fields.params.getD .empty, fields.conditions.getD [],
    fields.selector.join, fields.listContainer.join, fields.listItemSelector.join,
    fields.effects.getD [], fields.sequences.getD []⟩

/-- An interaction, as an object or as an array of at least its first two fields. -/
def interaction (origin : Origin) : Decoder Interaction
  | .object entries closed => do
    let fields ← visit interactionMember closed
      ⟨none, none, none, none, none, none, none, none, none⟩ entries
    return fields.toInteraction (← required "trigger" fields.trigger)
  | .array trees closed => do
    let (key, rest) ← positional optionalString closed trees
    let (trigger, rest) ← positional triggerKind closed rest
    let kind ← reached .interaction 9 1 trigger
    let (params, rest) ← positional (table anyValue) closed rest
    let (conditions, rest) ← positional strings closed rest
    let (selector, rest) ← positional optionalString closed rest
    let (listContainer, rest) ← positional optionalString closed rest
    let (listItemSelector, rest) ← positional optionalString closed rest
    let (effects, rest) ← positional (list effect) closed rest
    let (sequences, rest) ← positional (list sequenceEntry) closed rest
    noMore origin trees.length closed rest
    let fields : InteractionFields :=
      ⟨key, trigger, params, conditions, selector, listContainer, listItemSelector, effects,
        sequences⟩
    return fields.toInteraction kind
  | tree => .error (mismatch .interaction tree)

/-- The fields of a configuration met so far. -/
structure ConfigFields where
  interactions : Option (List Interaction)
  effects : Option (KeyMap Effect)
  conditions : Option (KeyMap Condition)
  sequences : Option (KeyMap SequenceDef)

def configMember (origin : Origin) (fields : ConfigFields) (name : String) (tree : Tree) :
    Except Fault ConfigFields :=
  match name with
  | "interactions" => do
    return { fields with
      interactions := ← once name fields.interactions (list (interaction origin)) tree }
  | "effects" => do return { fields with effects := ← once name fields.effects (table effect) tree }
  | "conditions" => do
    return { fields with
      conditions := ← once name fields.conditions (table (condition origin)) tree }
  | "sequences" => do
    return { fields with sequences := ← once name fields.sequences (table sequenceDef) tree }
  | _ => do
    skipped tree
    return fields

def ConfigFields.toConfig (fields : ConfigFields) : Config :=
  ⟨fields.interactions.getD [], fields.effects.getD .empty, fields.conditions.getD .empty,
    fields.sequences.getD .empty⟩

/-- A configuration, as an object or as an array of its first fields. -/
def config (origin : Origin) : Decoder Config
  | .object entries closed => do
    let fields ← visit (configMember origin) closed ⟨none, none, none, none⟩ entries
    return fields.toConfig
  | .array trees closed => do
    let (interactions, rest) ← positional (list (interaction origin)) closed trees
    let (effects, rest) ← positional (table effect) closed rest
    let (conditions, rest) ← positional (table (condition origin)) closed rest
    let (sequences, rest) ← positional (table sequenceDef) closed rest
    noMore origin trees.length closed rest
    let fields : ConfigFields := ⟨interactions, effects, conditions, sequences⟩
    return fields.toConfig
  | tree => .error (mismatch .config tree)

/-- Reads a part of a configuration from a value. -/
def fromValue {α : Type} (decoder : Decoder α) (value : Json) : Except Fault α :=
  decoder (.ofJson value)

end Decode

namespace Config

/-- The configuration written in a JSON text. Anything but blanks behind it is a fault, which is
found last. -/
def ofText (text : String) : Except Fault Config := do
  let reading := Json.Reading.ofText text
  let config ← Decode.config .text reading.tree
  if reading.trailing then .error .malformed else return config

/-- The configuration that a JSON value stands for. -/
def ofValue (value : Json) : Except Fault Config := Decode.fromValue (Decode.config .value) value

end Config

end InteractionBinding
