import InteractionBinding.Config.Basic
/-!
# Building configurations

Operations that build effects, interactions and configurations step by step. An effect or sequence
that is stored in a table takes the name of its entry as its id.
-/

namespace InteractionBinding

namespace Effect

/-- A reference to the effect stored under an id. -/
def byId (effectId : String) : Effect := { empty with effectId := some effectId }

/-- An effect with a payload of its own. A payload that is no object becomes the member `value`. -/
def inline (payload : Json) : Effect :=
  { empty with
    payload := match payload.toTable? with
      | some table => table
      | none => KeyMap.empty.insert "value" payload }

/-- Lets the effect land on the element of another key. -/
def on (effect : Effect) (key : String) : Effect := { effect with key := some key }

def withSelector (effect : Effect) (selector : String) : Effect :=
  { effect with selector := some selector }

/-- Binds the effect to the items of a list. -/
def withList (effect : Effect) (container : String) (item : Option String) : Effect :=
  { effect with listContainer := some container, listItemSelector := item }

/-- Adds condition names behind those the effect has. -/
def withConditions (effect : Effect) (names : List String) : Effect :=
  { effect with conditions := effect.conditions ++ names }

def withPayload (effect : Effect) (payload : KeyMap Json) : Effect :=
  { effect with payload := payload }

end Effect

namespace SequenceDef

/-- A sequence of effects without conditions and payload. -/
def ofEffects (effects : List Effect) : SequenceDef := ⟨none, [], effects, .empty⟩

end SequenceDef

namespace SequenceEntry

/-- A reference to the sequence stored under an id. -/
def byId (sequenceId : String) : SequenceEntry := .stored ⟨sequenceId, []⟩

end SequenceEntry

namespace Interaction

/-- The interaction of a trigger on the element of a key, without effects. -/
def ofTrigger (key : String) (trigger : TriggerKind) : Interaction :=
  ⟨some key, trigger, .empty, [], none, none, none, [], []⟩

def withEffect (interaction : Interaction) (effect : Effect) : Interaction :=
  { interaction with effects := interaction.effects ++ [effect] }

def withSequence (interaction : Interaction) (entry : SequenceEntry) : Interaction :=
  { interaction with sequences := interaction.sequences ++ [entry] }

/-- Adds condition names behind those the interaction has. -/
def withConditions (interaction : Interaction) (names : List String) : Interaction :=
  { interaction with conditions := interaction.conditions ++ names }

def withParams (interaction : Interaction) (params : KeyMap Json) : Interaction :=
  { interaction with params := params }

def withSelector (interaction : Interaction) (selector : String) : Interaction :=
  { interaction with selector := some selector }

/-- Binds the interaction to the items of a list. -/
def withList (interaction : Interaction) (container : String) (item : Option String) :
    Interaction :=
  { interaction with listContainer := some container, listItemSelector := item }

end Interaction

namespace Config

/-- The configuration with the given interactions and nothing stored. -/
def ofInteractions (interactions : List Interaction) : Config :=
  { empty with interactions := interactions }

def withInteraction (config : Config) (interaction : Interaction) : Config :=
  { config with interactions := config.interactions ++ [interaction] }

/-- Stores an effect under its id. -/
def withEffect (config : Config) (effectId : String) (effect : Effect) : Config :=
  { config with
    effects := config.effects.insert effectId { effect with effectId := some effectId } }

/-- Stores a condition under its name. -/
def withCondition (config : Config) (name : String) (condition : Condition) : Config :=
  { config with conditions := config.conditions.insert name condition }

/-- Stores a sequence under its id. -/
def withSequence (config : Config) (sequenceId : String) (sequence : SequenceDef) : Config :=
  { config with
    sequences :=
      config.sequences.insert sequenceId { sequence with sequenceId := some sequenceId } }

end Config

end InteractionBinding
