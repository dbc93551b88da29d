import InteractionBinding.Proofs.Graph.CrossReferences
/-!
# The numbers of accepted interactions

An interaction is accepted if it has a key that is not empty, and its number is the number of
accepted interactions before it. A compiled graph keeps every accepted interaction once, on the
node of its key and under its number, and what it reports is what is wrong with the interactions,
one after the other (`Graph.numbered_ofConfig`).

## Main definitions

* `Config.numbered` — the accepted interactions, in declared order and under their numbers.
* `Config.unresolved` — the references of an interaction that lead nowhere, one for each use.
* `Graph.Numbered` — the accepted interactions of a configuration make up the triggers of a graph.
-/

namespace InteractionBinding

open Compile

/-! ### Interactions and references of a configuration -/

/-- Whether an interaction has a key that is not empty. -/
def Interaction.isKeyed (interaction : Interaction) : Bool := interaction.key.any (· ≠ "")

/-- The id of the stored sequence that an entry refers to. -/
def SequenceEntry.reference? : SequenceEntry → Option String
  | .stored reference => some reference.sequenceId
  | .inline _ => none

namespace Config

variable (config : Config)

/-- How many accepted interactions stand before a position. -/
def number (position : Nat) : Nat := (config.interactions.take position).countP Interaction.isKeyed

/-- What the interaction at a position compiles to under its number, if it is accepted. -/
def numbered? (entry : Interaction × Nat) : Option CompiledInteraction :=
  (entry.1.key.filter (· ≠ "")).map fun key =>
    compileInteraction config entry.1 (ruleOf entry.1 key (config.number entry.2))

/-- What the accepted interactions compile to, in declared order. -/
def numbered : List CompiledInteraction := config.interactions.zipIdx.filterMap config.numbered?

/-- The members of the sequence that an entry stands for, none if it is not stored. -/
def membersOf : SequenceEntry → List Effect
  | .inline sequence => sequence.effects
  | .stored reference =>
    ((config.sequences.get? reference.sequenceId).map SequenceDef.effects).getD []

/-- The references of effects that lead nowhere. -/
def unresolvedEffects (key : String) (effects : List Effect) : List Diagnostic :=
  ((effects.filterMap Effect.effectId).filter fun effectId =>
    !config.effects.contains effectId).map (.unknownEffect key)

/-- The references of sequence entries that lead nowhere. -/
def unresolvedSequences (key : String) (entries : List SequenceEntry) : List Diagnostic :=
  ((entries.filterMap SequenceEntry.reference?).filter fun sequenceId =>
    !config.sequences.contains sequenceId).map (.unknownSequence key)

theorem unresolvedEffects_append (key : String) (front rest : List Effect) :
    config.unresolvedEffects key (front ++ rest) =
      config.unresolvedEffects key front ++ config.unresolvedEffects key rest := by
  simp only [unresolvedEffects, List.filterMap_append, List.filter_append, List.map_append]

theorem unresolvedSequences_append (key : String) (front rest : List SequenceEntry) :
    config.unresolvedSequences key (front ++ rest) =
      config.unresolvedSequences key front ++ config.unresolvedSequences key rest := by
  simp only [unresolvedSequences, List.filterMap_append, List.filter_append, List.map_append]

/-- The references of an accepted interaction that lead nowhere, one for each use: among its effects
and the members of its sequences, and among its sequences. -/
def unresolved (key : String) (interaction : Interaction) : List Diagnostic :=
  config.unresolvedEffects key
      (interaction.effects ++ interaction.sequences.flatMap config.membersOf) ++
    config.unresolvedSequences key interaction.sequences

/-- What is wrong with the interaction at a position. -/
def complaints (entry : Interaction × Nat) : List Diagnostic :=
  match entry.1.key.filter (· ≠ "") with
  | none => [.missingSourceKey entry.2]
  | some key => config.unresolved key entry.1

end Config

/-! ### Accepting -/

/-- All ids that an interaction produces have an index. -/
structure CompiledInteraction.CarriesIndex (ci : CompiledInteraction) (index : Nat) : Prop where
  rule : ci.rule.index = index
  effects : ∀ effect ∈ Graph.effectsOf ci, effect.id.index = index
  sequences : ∀ sequence ∈ ci.sequences, sequence.id.index = index

namespace Compile

variable {config : Config}

theorem sourceKey?_eq (interaction : Interaction) :
    sourceKey? interaction = interaction.key.filter (· ≠ "") := by
  rw [sourceKey?]
  refine congrArg (interaction.key.filter ·) (funext fun key => ?_)
  rw [Bool.eq_iff_iff]
  simp

theorem isSome_sourceKey? (interaction : Interaction) :
    (sourceKey? interaction).isSome = interaction.isKeyed := by
  rw [sourceKey?_eq, Interaction.isKeyed, Option.isSome_filter]

/-- The number of an interaction counts the accepted ones before it. -/
theorem number_length {front rest : List Interaction} (h : config.interactions = front ++ rest) :
    config.number front.length = front.countP Interaction.isKeyed := by
  rw [Config.number, h, List.take_left]

theorem acceptedFrom_eq_filterMap (front rest : List Interaction)
    (h : config.interactions = front ++ rest) :
    acceptedFrom config (front.countP Interaction.isKeyed) rest =
      (rest.zipIdx front.length).filterMap config.numbered? := by
  induction rest generalizing front with
  | nil => rfl
  | cons interaction rest ih =>
    have hrest := ih (front ++ [interaction]) (by rw [h, List.append_assoc]; rfl)
    rw [List.length_append, List.length_singleton, List.countP_append, List.countP_singleton,
      ← isSome_sourceKey?] at hrest
    rw [acceptedFrom, List.zipIdx_cons, List.filterMap_cons, Config.numbered?, ← sourceKey?_eq,
      number_length h]
    cases hsource : sourceKey? interaction with
    | none => simpa [hsource] using hrest
    | some source => simpa [hsource] using hrest

/-- The accepted interactions are those with a key, each under its number. -/
theorem accepted_eq_numbered (config : Config) : accepted config = config.numbered :=
  acceptedFrom_eq_filterMap [] config.interactions rfl

theorem length_acceptedFrom (index : Nat) (interactions : List Interaction) :
    (acceptedFrom config index interactions).length =
      interactions.countP Interaction.isKeyed := by
  induction interactions generalizing index with
  | nil => rfl
  | cons interaction rest ih =>
    rw [acceptedFrom, List.countP_cons, ← isSome_sourceKey?]
    cases sourceKey? interaction with
    | none => exact ih index
    | some source => exact congrArg (· + 1) (ih (index + 1))

theorem index_of_mem_compileEffects {stored : KeyMap Effect} {rule : Rule}
    {sites : List (Effect × Nat)} {effect : CompiledEffect}
    (h : effect ∈ compileEffects stored rule sites) : effect.id.index = rule.index := by
  obtain ⟨⟨site, position⟩, -, h⟩ := List.mem_filterMap.mp h
  simp only [compileEffect, Option.ite_none_left_eq_some, Option.some.injEq] at h
  obtain ⟨-, rfl⟩ := h
  rfl

/-- What an interaction compiles to carries its number. -/
theorem carriesIndex_compileInteraction (config : Config) (interaction : Interaction)
    (rule : Rule) : (compileInteraction config interaction rule).CarriesIndex rule.index where
  rule := rfl
  effects effect heffect := by
    rcases List.mem_append.mp heffect with heffect | heffect
    · exact index_of_mem_compileEffects heffect
    · obtain ⟨sequence, hsequence, heffect⟩ := List.mem_flatMap.mp heffect
      obtain ⟨⟨entry, position⟩, -, hsequence⟩ := List.mem_filterMap.mp hsequence
      obtain ⟨declared, -, rfl⟩ := Option.map_eq_some_iff.mp hsequence
      exact index_of_mem_compileEffects heffect
  sequences sequence hsequence := by
    obtain ⟨⟨entry, position⟩, -, hsequence⟩ := List.mem_filterMap.mp hsequence
    obtain ⟨declared, -, rfl⟩ := Option.map_eq_some_iff.mp hsequence
    rfl

/-! ### Reporting -/

/-- What compiling the interaction at a position reports. -/
def reportsOf (config : Config) (entry : Interaction × Nat) : List Diagnostic :=
  match sourceKey? entry.1 with
  | none => [.missingSourceKey entry.2]
  | some source => interactionDiagnostics config entry.1 (ruleOf entry.1 source 0)

/-- Compiling interactions counts those that are accepted and appends what it reports. -/
theorem foldl_addInteraction_reports (config : Config) (interactions : List (Interaction × Nat))
    (graph : Graph) :
    (interactions.foldl (addInteraction config) graph).interactionCount =
        graph.interactionCount + (interactions.map Prod.fst).countP Interaction.isKeyed ∧
      (interactions.foldl (addInteraction config) graph).diagnostics =
        graph.diagnostics ++ interactions.flatMap (reportsOf config) := by
  induction interactions generalizing graph with
  | nil => simp
  | cons entry rest ih =>
    obtain ⟨hcount, hdiagnostics⟩ := ih (addInteraction config graph entry)
    rw [List.foldl_cons, hcount, hdiagnostics, List.map_cons, List.countP_cons, List.flatMap_cons,
      ← isSome_sourceKey?, reportsOf, addInteraction]
    cases sourceKey? entry.1 with
    | none => exact ⟨rfl, List.append_assoc ..⟩
    | some source =>
      -- the number of an interaction has no part in what is reported
      refine ⟨?_, List.append_assoc ..⟩
      simp only [Option.isSome_some, if_true]
      omega

theorem effectDiagnostics_eq (rule : Rule) (site : Effect) :
    effectDiagnostics config.effects rule site = config.unresolvedEffects rule.key [site] := by
  rw [effectDiagnostics]
  cases hreference : site.effectId with
  | none => simp [Config.unresolvedEffects, hreference]
  | some effectId =>
    cases hknown : config.effects.contains effectId <;>
      simp [Config.unresolvedEffects, hreference, hknown]

theorem flatMap_effectDiagnostics (rule : Rule) (effects : List Effect) :
    effects.flatMap (effectDiagnostics config.effects rule) =
      config.unresolvedEffects rule.key effects := by
  induction effects with
  | nil => rfl
  | cons site rest ih =>
    rw [List.flatMap_cons, ih, effectDiagnostics_eq, ← Config.unresolvedEffects_append,
      List.singleton_append]

theorem sequenceDiagnostics_eq (rule : Rule) (entry : SequenceEntry) :
    sequenceDiagnostics config rule entry =
      config.unresolvedEffects rule.key (config.membersOf entry) ++
        config.unresolvedSequences rule.key [entry] := by
  cases entry with
  | inline sequence =>
    rw [sequenceDiagnostics, flatMap_effectDiagnostics]
    exact (List.append_nil _).symm
  | stored reference =>
    rw [sequenceDiagnostics, Config.membersOf]
    cases hstored : config.sequences.get? reference.sequenceId with
    | none =>
      simp [Config.unresolvedEffects, Config.unresolvedSequences, SequenceEntry.reference?,
        KeyMap.contains, hstored]
    | some sequence =>
      simp [flatMap_effectDiagnostics, Config.unresolvedSequences, SequenceEntry.reference?,
        KeyMap.contains, hstored]

/-- The sequences of an interaction report what is unknown among their members and themselves. -/
theorem flatMap_sequenceDiagnostics_perm (rule : Rule) (entries : List SequenceEntry) :
    (entries.flatMap (sequenceDiagnostics config rule)).Perm
      (config.unresolvedEffects rule.key (entries.flatMap config.membersOf) ++
        config.unresolvedSequences rule.key entries) := by
  induction entries with
  | nil => rfl
  | cons entry rest ih =>
    have hsequences := config.unresolvedSequences_append rule.key [entry] rest
    rw [List.singleton_append] at hsequences
    rw [List.flatMap_cons, List.flatMap_cons, sequenceDiagnostics_eq, hsequences,
      Config.unresolvedEffects_append, List.append_assoc, List.append_assoc]
    refine List.Perm.append_left _ ((ih.append_left _).trans ?_)
    rw [← List.append_assoc, ← List.append_assoc]
    exact List.perm_append_comm.append_right _

/-- What compiling an interaction reports is what is wrong with it. -/
theorem reportsOf_perm (config : Config) (entry : Interaction × Nat) :
    (reportsOf config entry).Perm (config.complaints entry) := by
  rw [reportsOf, Config.complaints, ← sourceKey?_eq]
  cases sourceKey? entry.1 with
  | none => rfl
  | some source =>
    have heffects : (entry.1.effects.reverse.flatMap
        (effectDiagnostics config.effects (ruleOf entry.1 source 0))).Perm
          (config.unresolvedEffects source entry.1.effects) := by
      refine ((List.reverse_perm entry.1.effects).flatMap_right _).trans (.of_eq ?_)
      exact flatMap_effectDiagnostics (ruleOf entry.1 source 0) entry.1.effects
    have hsequences := @flatMap_sequenceDiagnostics_perm config (ruleOf entry.1 source 0)
      entry.1.sequences
    refine (heffects.append hsequences).trans (.of_eq ?_)
    simp only [Config.unresolved, Config.unresolvedEffects_append, List.append_assoc, ruleOf]

end Compile

/-! ### Triggers -/

/-- Parted by keys without repetition, a list is reordered. -/
theorem flatMap_filter_perm {α : Type} (f : α → String) {keys : List String} (h : keys.Nodup)
    (l : List α) (hl : ∀ a ∈ l, f a ∈ keys) :
    (keys.flatMap fun key => l.filter fun a => f a = key).Perm l := by
  induction keys generalizing l with
  | nil => rw [List.eq_nil_iff_forall_not_mem.mpr fun a ha => List.not_mem_nil (hl a ha)]; rfl
  | cons key rest ih =>
    obtain ⟨hkey, hrest⟩ := List.nodup_cons.mp h
    -- what has another key than the first one is parted by the others
    have hothers := ih hrest (l.filter fun a => !decide (f a = key)) fun a ha => by
      obtain ⟨ha, hne⟩ := List.mem_filter.mp ha
      exact (List.mem_cons.mp (hl a ha)).resolve_left (by simpa using hne)
    have hsame : (rest.flatMap fun other => (l.filter fun a => !decide (f a = key)).filter
        fun a => f a = other) = rest.flatMap fun other => l.filter fun a => f a = other := by
      refine List.flatMap_congr fun other hother => ?_
      rw [List.filter_filter]
      refine List.filter_congr fun a _ => ?_
      have hne : other ≠ key := fun heq => hkey (heq ▸ hother)
      by_cases ha : f a = other <;> simp [ha, hne]
    rw [hsame] at hothers
    rw [List.flatMap_cons]
    exact (hothers.append_left _).trans (List.filter_append_perm ..)

namespace Graph

variable {config : Config}

/-- The accepted interactions of a configuration make up the triggers of a graph, and what is wrong
with its interactions makes up the diagnostics. -/
structure Numbered (config : Config) (graph : Graph) : Prop where
  /-- The triggers of a node are the accepted interactions of its key, in declared order. -/
  triggers (key : String) (node : GraphNode) : graph.nodes.get? key = some node →
    node.triggers = config.numbered.filter fun ci => ci.rule.key = key
  /-- Every accepted interaction is a trigger, and none is it twice. -/
  partition : (graph.nodes.values.flatMap GraphNode.triggers).Perm config.numbered
  indices : config.numbered.map (·.rule.index) = List.range graph.interactionCount
  ids (ci : CompiledInteraction) : ci ∈ config.numbered →
    (∀ effect ∈ effectsOf ci, effect.id.index = ci.rule.index) ∧
      ∀ sequence ∈ ci.sequences, sequence.id.index = ci.rule.index
  count : graph.interactionCount = config.interactions.countP Interaction.isKeyed
  /-- There is a group of diagnostics for each interaction, in declared order. -/
  diagnostics : ∃ groups : List (List Diagnostic), graph.diagnostics = groups.flatten ∧
    List.Forall₂ (fun entry group => group.Perm (config.complaints entry))
      config.interactions.zipIdx groups

/-- The triggers of all nodes are the accepted interactions. -/
theorem triggers_perm (config : Config) :
    ((ofConfig config).nodes.values.flatMap GraphNode.triggers).Perm (accepted config) := by
  have hparted : (ofConfig config).nodes.values.flatMap GraphNode.triggers =
      (ofConfig config).nodes.keys.flatMap fun key =>
        (accepted config).filter fun ci => ci.rule.key = key := by
    rw [KeyMap.values, KeyMap.keys, List.flatMap_map, List.flatMap_map]
    exact List.flatMap_congr fun entry hentry => triggers_eq (KeyMap.mem_entries_iff.mp hentry)
  rw [hparted]
  refine flatMap_filter_perm (·.rule.key) (KeyMap.nodup_keys _) (accepted config) fun ci hci => ?_
  obtain ⟨node, hnode, -⟩ := exists_node_of_mem_accepted hci
  exact KeyMap.mem_keys_iff.mpr ⟨node, hnode⟩

/-- The effects of an accepted interaction carry its number, and so do the members of its
sequences. -/
theorem index_of_mem_effectsOf {ci : CompiledInteraction} (hci : ci ∈ accepted config)
    {effect : CompiledEffect} (heffect : effect ∈ effectsOf ci) :
    effect.id.index = ci.rule.index := by
  obtain ⟨interaction, -, source, index, -, rfl⟩ := exists_of_mem_acceptedFrom hci
  exact (carriesIndex_compileInteraction config interaction _).effects effect heffect

theorem interactionCount_ofConfig (config : Config) :
    (ofConfig config).interactionCount = config.interactions.countP Interaction.isKeyed := by
  have hcount := (foldl_addInteraction_reports config config.interactions.zipIdx
    ⟨.empty, config.conditions, [], 0⟩).1
  rw [List.zipIdx_map_fst, Nat.zero_add] at hcount
  exact hcount

theorem interactionCount_eq_length (config : Config) :
    (ofConfig config).interactionCount = (accepted config).length := by
  rw [interactionCount_ofConfig, accepted, length_acceptedFrom]

theorem diagnostics_ofConfig (config : Config) :
    (ofConfig config).diagnostics = config.interactions.zipIdx.flatMap (reportsOf config) :=
  (foldl_addInteraction_reports config config.interactions.zipIdx
    ⟨.empty, config.conditions, [], 0⟩).2

/-- The accepted interactions of a configuration make up the triggers of its graph. -/
theorem numbered_ofConfig (config : Config) : Numbered config (ofConfig config) where
  triggers key node h := by rw [triggers_eq h, accepted_eq_numbered]
  partition := accepted_eq_numbered config ▸ triggers_perm config
  indices := by
    rw [← accepted_eq_numbered, accepted, map_index_acceptedFrom, length_acceptedFrom,
      interactionCount_ofConfig, List.range_eq_range']
  ids ci hci := by
    rw [← accepted_eq_numbered] at hci
    exact ⟨fun effect heffect => index_of_mem_effectsOf hci heffect, fun sequence hsequence => by
      rw [id_eq_of_mem_sequences hci hsequence]⟩
  count := interactionCount_ofConfig config
  diagnostics := by
    refine ⟨config.interactions.zipIdx.map (reportsOf config), diagnostics_ofConfig config, ?_⟩
    rw [List.forall₂_map_right_iff, List.forall₂_same]
    exact fun entry _ => reportsOf_perm config entry

end Graph

end InteractionBinding
