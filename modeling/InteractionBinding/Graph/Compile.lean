import InteractionBinding.Graph.Basic
/-!
# Compiling configurations

A graph is made of edits of its nodes: every accepted interaction is compiled on its own, and
yields a list of edits, each of them for one key. The node of a key is what the edits for that key
make of the empty node, in the order of the interactions.

An interaction without a source key is not accepted. Of an accepted one, effects that would join
two different lists and references to sequences that are not stored are left out.
-/

namespace InteractionBinding

/-- A change of what a graph knows of a key. -/
inductive NodeEdit where
  /-- The key becomes known. -/
  | touch
  | selector (text : String)
  | interactionId (id : InteractionId)
  /-- The variant comes before those that its id has. -/
  | variant (alternative : Variant)
  | link (back : SequenceLink)
  | trigger (interaction : CompiledInteraction)

namespace NodeEdit

/-- Puts a variant in front of those of its id. -/
def pushVariant (variant : Variant) : List TargetEffects → List TargetEffects
  | [] => [⟨variant.effect.id, [variant]⟩]
  | entry :: rest =>
    if entry.id = variant.effect.id then
      { entry with variants := variant :: entry.variants } :: rest
    else
      entry :: pushVariant variant rest

def apply (edit : NodeEdit) (node : GraphNode) : GraphNode :=
  match edit with
  | .touch => node
  | .selector text => { node with selectors := KeySet.add node.selectors text }
  | .interactionId id =>
    if id ∈ node.interactionIds then node
    else { node with interactionIds := node.interactionIds ++ [id] }
  | .variant alternative => { node with effects := pushVariant alternative node.effects }
  | .link back =>
    if back ∈ node.sequenceLinks then node
    else { node with sequenceLinks := node.sequenceLinks ++ [back] }
  | .trigger interaction => { node with triggers := node.triggers ++ [interaction] }

end NodeEdit

namespace Compile

/-- The edits that record a list container and its items. -/
def listEdits (key : String) (container item : Option String) : List (String × NodeEdit) :=
  match container with
  | none => []
  | some container =>
    [(key, .selector container), (key, .selector (container ++ " > " ++ item.getD "*"))]

/-- The edits that record how the elements of an effect or rule are reached. -/
def selectorEdits (key : String) (selector container item : Option String) :
    List (String × NodeEdit) :=
  (key, .touch) :: (selector.toList.map fun selector => (key, .selector selector)) ++
    listEdits key container item

/-- The source key of an interaction that is accepted. -/
def sourceKey? (interaction : Interaction) : Option String :=
  interaction.key.filter fun key => !key.isEmpty

/-- An accepted interaction without its effects. -/
def ruleOf (interaction : Interaction) (source : String) (index : Nat) : Rule :=
  ⟨index, source, interaction.trigger, interaction.params, interaction.conditions,
    interaction.selector, interaction.listContainer, interaction.listItemSelector⟩

/-! ### Effects -/

/-- An effect with the stored effect that it refers to merged in. -/
def mergeStored (stored : KeyMap Effect) (site : Effect) : Effect :=
  match site.effectId.bind stored.get? with
  | some effect => site.mergedOnto effect
  | none => site

/-- The diagnostic of a reference to an effect that is not stored. -/
def effectDiagnostics (stored : KeyMap Effect) (rule : Rule) (site : Effect) : List Diagnostic :=
  match site.effectId with
  | none => []
  | some effectId =>
    if stored.contains effectId then [] else [.unknownEffect rule.key effectId]

/-- Whether an effect with the given target would join the list of its rule with another one. -/
def joinsLists (rule : Rule) (target : String) (effect : Effect) : Bool :=
  match rule.listContainer, effect.listContainer with
  | some own, some other => target ≠ rule.key || own ≠ other
  | _, _ => false

/-- The effect declared at a position of a rule. -/
def compileEffect (stored : KeyMap Effect) (rule : Rule) (position : Nat) (site : Effect) :
    Option CompiledEffect :=
  let effect := mergeStored stored site
  let effectId := effect.effectId.getD ("inline-" ++ toString position)
  let target := effect.key.getD rule.key
  if joinsLists rule target effect then none
  else some ⟨⟨target, effectId, rule.index⟩, effectId, target, effect⟩

/-- The edits that make the target of an effect known. -/
def targetEdits (effect : CompiledEffect) : List (String × NodeEdit) :=
  selectorEdits effect.target effect.effect.selector effect.effect.listContainer
    effect.effect.listItemSelector

/-- The edits of an effect of a rule: its source learns the id, and its target, if it is another
key, the variant. -/
def effectEdits (rule : Rule) (effect : CompiledEffect) : List (String × NodeEdit) :=
  targetEdits effect ++ [(rule.key, .interactionId effect.id)] ++
    if effect.target = rule.key then [] else [(effect.target, .variant ⟨rule, effect⟩)]

/-- The effects declared at positions from `position` on, without those that are left out. -/
def compileEffects (stored : KeyMap Effect) (rule : Rule) (sites : List (Effect × Nat)) :
    List CompiledEffect :=
  sites.filterMap fun (site, position) => compileEffect stored rule position site

/-! ### Sequences -/

/-- The sequence an entry stands for, with the conditions that the entry adds. -/
def sequenceOf (stored : KeyMap SequenceDef) :
    SequenceEntry → Option (SequenceDef × List String)
  | .inline sequence => some (sequence, [])
  | .stored reference =>
    (stored.get? reference.sequenceId).map fun sequence =>
      ({ sequence with sequenceId := some reference.sequenceId }, reference.conditions)

/-- The sequence declared at a position of a rule. -/
def compileSequence (config : Config) (rule : Rule) (position : Nat) (entry : SequenceEntry) :
    Option CompiledSequence :=
  (sequenceOf config.sequences entry).map fun (sequence, conditions) =>
    let sequenceId := sequence.sequenceId.getD ("sequence-" ++ toString position)
    { id := ⟨rule.key, sequenceId, rule.index⟩
      sequenceId := sequenceId
      conditions := sequence.conditions ++ conditions
      effects := compileEffects config.effects rule sequence.effects.zipIdx
      payload := sequence.payload }

/-- The diagnostics of the sequence of an entry. -/
def sequenceDiagnostics (config : Config) (rule : Rule) : SequenceEntry → List Diagnostic
  | .inline sequence => sequence.effects.flatMap (effectDiagnostics config.effects rule)
  | .stored reference =>
    match config.sequences.get? reference.sequenceId with
    | some sequence => sequence.effects.flatMap (effectDiagnostics config.effects rule)
    | none => [.unknownSequence rule.key reference.sequenceId]

/-- The edits of a sequence: the targets of its members, if they are other keys, learn the way
back, and its source the id. -/
def sequenceEdits (rule : Rule) (sequence : CompiledSequence) : List (String × NodeEdit) :=
  (sequence.effects.flatMap fun effect =>
    targetEdits effect ++
      if effect.target = rule.key then []
      else [(effect.target, .link ⟨rule.key, sequence.id⟩)]) ++
    [(rule.key, .interactionId sequence.id)]

/-! ### Interactions -/

/-- An accepted interaction. -/
def compileInteraction (config : Config) (interaction : Interaction) (rule : Rule) :
    CompiledInteraction :=
  { rule := rule
    effects := compileEffects config.effects rule interaction.effects.zipIdx.reverse
    sequences := interaction.sequences.zipIdx.filterMap fun (entry, position) =>
      compileSequence config rule position entry }

/-- The diagnostics of an accepted interaction: its effects from the last to the first, and then
its sequences. -/
def interactionDiagnostics (config : Config) (interaction : Interaction) (rule : Rule) :
    List Diagnostic :=
  interaction.effects.reverse.flatMap (effectDiagnostics config.effects rule) ++
    interaction.sequences.flatMap (sequenceDiagnostics config rule)

/-- The edits of an accepted interaction. -/
def interactionEdits (interaction : CompiledInteraction) : List (String × NodeEdit) :=
  let rule := interaction.rule
  selectorEdits rule.key rule.selector rule.listContainer rule.listItemSelector ++
    interaction.effects.flatMap (effectEdits rule) ++
    interaction.sequences.flatMap (sequenceEdits rule) ++
    [(rule.key, .trigger interaction)]

/-- Makes an edit of the node of a key. -/
def applyEdit (nodes : KeyMap GraphNode) (edit : String × NodeEdit) : KeyMap GraphNode :=
  nodes.modify edit.1 .empty edit.2.apply

/-- Adds the interaction at a position to a graph. -/
def addInteraction (config : Config) (graph : Graph) (interaction : Interaction × Nat) : Graph :=
  match sourceKey? interaction.1 with
  | none =>
    { graph with diagnostics := graph.diagnostics ++ [.missingSourceKey interaction.2] }
  | some source =>
    let rule := ruleOf interaction.1 source graph.interactionCount
    let compiled := compileInteraction config interaction.1 rule
    { graph with
      nodes := (interactionEdits compiled).foldl applyEdit graph.nodes
      diagnostics := graph.diagnostics ++ interactionDiagnostics config interaction.1 rule
      interactionCount := graph.interactionCount + 1 }

end Compile

/-- The compiled form of a configuration. -/
def Graph.ofConfig (config : Config) : Graph :=
  config.interactions.zipIdx.foldl (Compile.addInteraction config)
    ⟨.empty, config.conditions, [], 0⟩

end InteractionBinding
