import InteractionBinding.Config.Basic
/-!
# Configurations as JSON

The JSON form of configurations. A configuration always has its four members, an interaction its
`trigger` and `effects`, and a sequence its `effects`; everything else is written only when it is
set and not empty. The payload stands beside the named members, and wins over them.
-/

namespace InteractionBinding

namespace Json

/-- The array of strings. -/
def ofStrings (texts : List String) : Json := .array (texts.map .string)

/-- A member for an optional text that is set. -/
def optionalMember (name : String) (value : Option String) : List (String × Json) :=
  match value with
  | some text => [(name, .string text)]
  | none => []

/-- A member for a list of texts that is not empty. -/
def stringsMember (name : String) (texts : List String) : List (String × Json) :=
  if texts.isEmpty then [] else [(name, ofStrings texts)]

end Json

open Json

/-- The JSON form of an effect. -/
def Effect.toJson (effect : Effect) : Json :=
  .object <|
    optionalMember "effectId" effect.effectId ++
    optionalMember "key" effect.key ++
    optionalMember "listContainer" effect.listContainer ++
    optionalMember "listItemSelector" effect.listItemSelector ++
    optionalMember "selector" effect.selector ++
    stringsMember "conditions" effect.conditions ++
    effect.payload.toList

/-- The JSON form of a condition. -/
def Condition.toJson (condition : Condition) : Json :=
  .object [("type", .string condition.kind.name), ("predicate", .string condition.predicate)]

/-- The JSON form of a sequence. -/
def SequenceDef.toJson (sequence : SequenceDef) : Json :=
  .object <|
    optionalMember "sequenceId" sequence.sequenceId ++
    stringsMember "conditions" sequence.conditions ++
    [("effects", .array (sequence.effects.map Effect.toJson))] ++
    sequence.payload.toList

/-- The JSON form of a reference to a stored sequence. -/
def SequenceRef.toJson (reference : SequenceRef) : Json :=
  .object <|
    [("sequenceId", .string reference.sequenceId)] ++
    stringsMember "conditions" reference.conditions

/-- The JSON form of a sequence of an interaction. -/
def SequenceEntry.toJson : SequenceEntry → Json
  | .stored reference => reference.toJson
  | .inline sequence => sequence.toJson

/-- The JSON form of an interaction. -/
def Interaction.toJson (interaction : Interaction) : Json :=
  .object <|
    optionalMember "key" interaction.key ++
    [("trigger", .string interaction.trigger.name)] ++
    (if interaction.params.isEmpty then [] else [("params", .ofTable interaction.params)]) ++
    stringsMember "conditions" interaction.conditions ++
    optionalMember "selector" interaction.selector ++
    optionalMember "listContainer" interaction.listContainer ++
    optionalMember "listItemSelector" interaction.listItemSelector ++
    [("effects", .array (interaction.effects.map Effect.toJson))] ++
    (if interaction.sequences.isEmpty then []
      else [("sequences", .array (interaction.sequences.map SequenceEntry.toJson))])

/-- The JSON form of a table. -/
def KeyMap.toJson {α : Type} (encode : α → Json) (table : KeyMap α) : Json :=
  .object (table.toList.map fun (name, value) => (name, encode value))

/-- The JSON form of a configuration. -/
def Config.toJson (config : Config) : Json :=
  .object
    [("interactions", .array (config.interactions.map Interaction.toJson)),
      ("effects", config.effects.toJson Effect.toJson),
      ("conditions", config.conditions.toJson Condition.toJson),
      ("sequences", config.sequences.toJson SequenceDef.toJson)]

end InteractionBinding
