import InteractionBinding.Proofs.Config.Writable
/-!
# Reading what has been written

The JSON form of a configuration that can be written is read back as this configuration, part by
part. The order in which a record is written is the order of its fields, and members of different
names are read independently of each other, so the members are followed in this order.

## Main results

* `Decode.effect_ofJson`, `Decode.sequenceDef_ofJson`, `Decode.sequenceEntry_ofJson`,
  `Decode.interaction_ofJson`, `Decode.config_ofJson` — a part that can be written is read back.
* `Config.ofValue_toJson_of_ofValue` — a configuration that has been read from a value is read
  again from its JSON form.
-/

namespace InteractionBinding

/-- The names of the fields of an interaction. -/
def Interaction.memberNames : List String :=
  ["key", "trigger", "params", "conditions", "selector", "listContainer", "listItemSelector",
    "effects", "sequences"]

namespace Decode

open Json

/-! ### Members are read independently

Two members of one record set fields of their own, or put values under names of their own into the
payload. There is one case for every two names.
-/

theorem independent_conditionMember (origin : Origin) : Independent (conditionMember origin) := by
  intro state name tree next other item after hne h h'
  unfold conditionMember at *
  split at h <;> split at h' <;>
    simp only [bind_eq_ok, pure_eq_ok, once_eq_ok] at h h' ⊢ <;> grind

theorem independent_effectMember : Independent effectMember := by
  intro state name tree next other item after hne h h'
  unfold effectMember at *
  split at h <;> split at h' <;>
    simp only [bind_eq_ok, pure_eq_ok, once_eq_ok] at h h' ⊢ <;> grind [KeyMap.insert_comm]

theorem independent_sequenceMember : Independent sequenceMember := by
  intro state name tree next other item after hne h h'
  unfold sequenceMember at *
  split at h <;> split at h' <;>
    simp only [bind_eq_ok, pure_eq_ok, once_eq_ok] at h h' ⊢ <;> grind [KeyMap.insert_comm]

theorem independent_referenceMember? : Independent referenceMember? := by
  intro state name tree next other item after hne h h'
  unfold referenceMember? at *
  split at h <;> split at h' <;>
    simp only [bind_eq_ok, pure_eq_ok, once_eq_ok, reduceCtorEq] at h h' ⊢ <;> grind

/-- A name that no field of an interaction has is passed over. -/
theorem interactionMember_of_notMem {name : String} (hname : name ∉ Interaction.memberNames)
    (fields : InteractionFields) (tree : Tree) :
    interactionMember fields name tree = (fun _ => fields) <$> skipped tree := by
  unfold interactionMember
  split
  case h_10 => rfl
  all_goals exact absurd (by simp [Interaction.memberNames]) hname

theorem independent_interactionMember : Independent interactionMember := by
  intro state name tree next other item after hne h h'
  by_cases hname : name ∈ Interaction.memberNames
  case neg =>
    obtain ⟨_, hskipped, rfl⟩ := map_eq_ok.mp (interactionMember_of_notMem hname state tree ▸ h)
    exact ⟨after, h', by rw [interactionMember_of_notMem hname, hskipped]; rfl⟩
  by_cases hother : other ∈ Interaction.memberNames
  case neg =>
    obtain ⟨_, hskipped, rfl⟩ := map_eq_ok.mp (interactionMember_of_notMem hother next item ▸ h')
    exact ⟨state, by rw [interactionMember_of_notMem hother, hskipped]; rfl, h⟩
  -- With so many fields the pairs are taken by hand: `hne` refutes those of one name.
  simp only [Interaction.memberNames, List.mem_cons, List.not_mem_nil, or_false] at hname hother
  rcases hname with rfl | rfl | rfl | rfl | rfl | rfl | rfl | rfl | rfl <;>
    obtain ⟨_, hread, rfl⟩ := map_eq_ok.mp h <;>
      rcases hother with rfl | rfl | rfl | rfl | rfl | rfl | rfl | rfl | rfl <;>
        first
        | exact absurd rfl hne
        | obtain ⟨_, hread', rfl⟩ := map_eq_ok.mp h'
          exact ⟨_, map_eq_ok.mpr ⟨_, hread', rfl⟩, map_eq_ok.mpr ⟨_, hread, rfl⟩⟩

theorem independent_configMember (origin : Origin) : Independent (configMember origin) := by
  intro state name tree next other item after hne h h'
  unfold configMember at *
  split at h <;> split at h' <;>
    simp only [bind_eq_ok, pure_eq_ok, once_eq_ok] at h h' ⊢ <;> grind

/-! ### Effects -/

/-- A name that no field of an effect has belongs to the payload. -/
theorem effectMember_of_notMem {name : String} (hname : name ∉ Effect.memberNames)
    (fields : EffectFields) (tree : Tree) :
    effectMember fields name tree =
      (fun value => { fields with payload := fields.payload.insert name value }) <$>
        anyValue tree := by
  unfold effectMember
  split
  case h_7 => rfl
  all_goals exact absurd (by simp [Effect.memberNames]) hname

/-- A text that may be missing is read as it is. -/
theorem join_map_some {α : Type} (value : Option α) : (value.map some).join = value := by
  cases value <;> rfl

/-- A list that is left out when it is empty is read as it is. -/
theorem getD_unless_isEmpty {α : Type} (values : List α) :
    (if values.isEmpty then none else some values).getD [] = values := by
  cases values <;> rfl

theorem effect_ofJson {effect : Effect} (h : effect.IsWritable) :
    Decode.effect (Tree.ofJson effect.toJson) = .ok effect := by
  obtain ⟨effectId, key, container, item, selector, conditions, payload⟩ := effect
  have hwrites : Writes effectMember (Effect.memberNames ++ payload.keys)
      ⟨none, none, none, none, none, none, .empty⟩
      (optionalMember "effectId" effectId ++ optionalMember "key" key ++
        optionalMember "listContainer" container ++ optionalMember "listItemSelector" item ++
        optionalMember "selector" selector ++ stringsMember "conditions" conditions ++
        payload.toList)
      ⟨effectId.map some, key.map some, container.map some, item.map some, selector.map some,
        if conditions.isEmpty then none else some conditions, payload⟩ := by
    refine .append (.append (.append (.append (.append (.append
      (writes_optionalMember (EffectFields.mk · none none none none none .empty) _ fun _ => rfl)
      (writes_optionalMember (EffectFields.mk _ · none none none none .empty) _ fun _ => rfl))
      (writes_optionalMember (EffectFields.mk _ _ · none none none .empty) _ fun _ => rfl))
      (writes_optionalMember (EffectFields.mk _ _ _ · none none .empty) _ fun _ => rfl))
      (writes_optionalMember (EffectFields.mk _ _ _ _ · none .empty) _ fun _ => rfl))
      (writes_unless (EffectFields.mk _ _ _ _ _ · .empty) _ conditions ?_))
      (writes_payload (EffectFields.mk _ _ _ _ _ _) _ fun entry hentry done => ?_)
    · exact map_once (strings_ofStrings _)
    · rw [effectMember_of_notMem (h.foreign entry hentry),
        anyValue_eq_ok.mpr (h.rereads entry hentry)]
      rfl
  have hvisits := hwrites.object independent_effectMember (h.nodup (by decide))
  refine bind_eq_ok.mpr ⟨_, hvisits, ?_⟩
  simp only [pure_eq_ok, EffectFields.toEffect, join_map_some, getD_unless_isEmpty]

/-! ### Sequences -/

/-- A name that no field of a sequence has belongs to the payload. -/
theorem sequenceMember_of_notMem {name : String} (hname : name ∉ SequenceDef.memberNames)
    (fields : SequenceFields) (tree : Tree) :
    sequenceMember fields name tree =
      (fun value => { fields with payload := fields.payload.insert name value }) <$>
        anyValue tree := by
  unfold sequenceMember
  split
  case h_4 => rfl
  all_goals exact absurd (by simp [SequenceDef.memberNames]) hname

theorem effects_ofJson {effects : List Effect} (h : ∀ effect ∈ effects, effect.IsWritable) :
    list effect (Tree.ofJson (.array (effects.map Effect.toJson))) = .ok effects :=
  list_ofJson fun effect hmem => effect_ofJson (h effect hmem)

theorem writes_sequenceDef {sequence : SequenceDef} (h : sequence.IsWritable) :
    Writes sequenceMember (SequenceDef.memberNames ++ sequence.payload.keys)
      ⟨none, none, none, .empty⟩
      (optionalMember "sequenceId" sequence.sequenceId ++
        stringsMember "conditions" sequence.conditions ++
        [("effects", .array (sequence.effects.map Effect.toJson))] ++ sequence.payload.toList)
      ⟨sequence.sequenceId.map some,
        if sequence.conditions.isEmpty then none else some sequence.conditions,
        some sequence.effects, sequence.payload⟩ := by
  refine .append (.append (.append
    (writes_optionalMember (SequenceFields.mk · none none .empty) _ fun _ => rfl)
    (writes_unless (SequenceFields.mk _ · none .empty) _ sequence.conditions ?_))
    (writes_field (SequenceFields.mk _ _ · .empty) sequence.effects ?_))
    (writes_payload (SequenceFields.mk _ _ _) _ fun entry hentry done => ?_)
  · exact map_once (strings_ofStrings _)
  · exact map_once (effects_ofJson h.effects)
  · rw [sequenceMember_of_notMem (h.payload.foreign entry hentry),
      anyValue_eq_ok.mpr (h.payload.rereads entry hentry)]
    rfl

theorem sequenceDef_ofJson {sequence : SequenceDef} (h : sequence.IsWritable) :
    sequenceDef (Tree.ofJson sequence.toJson) = .ok sequence := by
  have hvisits := (writes_sequenceDef h).object independent_sequenceMember
    (h.payload.nodup (by decide))
  refine bind_eq_ok.mpr ⟨_, hvisits, bind_eq_ok.mpr ⟨sequence.effects, rfl, ?_⟩⟩
  simp only [pure_eq_ok, join_map_some, getD_unless_isEmpty]

theorem sequenceRef_ofJson (reference : SequenceRef) :
    sequenceRef (Tree.ofJson reference.toJson) = .ok reference := by
  obtain ⟨sequenceId, conditions⟩ := reference
  have hwrites : Writes referenceMember? ["sequenceId", "conditions"] ⟨none, none⟩
      ([("sequenceId", .string sequenceId)] ++ stringsMember "conditions" conditions)
      ⟨some sequenceId, if conditions.isEmpty then none else some conditions⟩ := by
    refine .append (writes_field (ReferenceFields.mk · none) sequenceId rfl)
      (writes_unless (ReferenceFields.mk _ ·) _ conditions ?_)
    exact map_once (strings_ofStrings _)
  have hvisits := hwrites.object independent_referenceMember? (by decide)
  refine bind_eq_ok.mpr ⟨_, hvisits, bind_eq_ok.mpr ⟨sequenceId, rfl, ?_⟩⟩
  simp only [pure_eq_ok, getD_unless_isEmpty]

/-- A reference has no members beside its two fields. -/
theorem name_of_visit_referenceMember? {closed : Bool} {entries : List (Option String × Tree)}
    {state after : ReferenceFields} (h : visit referenceMember? closed state entries = .ok after) :
    ∀ entry ∈ entries, entry.1 = some "sequenceId" ∨ entry.1 = some "conditions" := by
  induction entries generalizing state with
  | nil => exact List.forall_mem_nil _
  | cons entry rest ih =>
    obtain ⟨name | name, item⟩ := entry
    · cases h
    obtain ⟨next, hnext, hrest⟩ := bind_eq_ok.mp h
    refine List.forall_mem_cons.mpr ⟨?_, ih hrest⟩
    unfold referenceMember? at hnext
    split at hnext
    next => exact .inl rfl
    next => exact .inr rfl
    next => cases hnext

/-- The members of a reference are no effects of a sequence. -/
theorem effects_of_visit_sequenceMember {closed : Bool} {entries : List (Option String × Tree)}
    {state after : SequenceFields}
    (hnames : ∀ entry ∈ entries, entry.1 = some "sequenceId" ∨ entry.1 = some "conditions")
    (h : visit sequenceMember closed state entries = .ok after) :
    after.effects = state.effects := by
  induction entries generalizing state with
  | nil =>
    obtain ⟨_, _, heq⟩ := bind_eq_ok.mp h
    rw [pure_eq_ok.mp heq]
  | cons entry rest ih =>
    obtain ⟨_ | name, item⟩ := entry
    · cases h
    obtain ⟨hname, hrest⟩ := List.forall_mem_cons.mp hnames
    obtain ⟨next, hnext, h⟩ := bind_eq_ok.mp h
    refine (ih hrest h).trans ?_
    rcases hname with heq | heq <;> obtain rfl := Option.some.inj heq <;>
      obtain ⟨_, _, rfl⟩ := map_eq_ok.mp hnext <;> rfl

/-- A sequence is not taken for a reference: it always has effects. -/
theorem sequenceRef_of_sequenceDef {tree : Tree} {sequence : SequenceDef}
    (h : sequenceDef tree = .ok sequence) (reference : SequenceRef) :
    sequenceRef tree ≠ .ok reference := by
  intro href
  cases tree with
  | object entries closed =>
    obtain ⟨_, hreference, _⟩ := bind_eq_ok.mp href
    obtain ⟨fields, hfields, h⟩ := bind_eq_ok.mp h
    obtain ⟨effects, heffects, _⟩ := bind_eq_ok.mp h
    have hnone : fields.effects = none :=
      effects_of_visit_sequenceMember (name_of_visit_referenceMember? hreference) hfields
    rw [hnone] at heffects
    cases heffects
  | _ => cases h

theorem sequenceEntry_ofJson {entry : SequenceEntry} (h : entry.IsWritable) :
    sequenceEntry (Tree.ofJson entry.toJson) = .ok entry := by
  obtain ⟨value, hvalue⟩ := exists_toJson?_ofJson entry.toJson
  rw [sequenceEntry, hvalue]
  cases entry with
  | stored reference => simp [SequenceEntry.toJson, sequenceRef_ofJson]
  | inline sequence =>
    cases href : sequenceRef (Tree.ofJson sequence.toJson) with
    | ok reference =>
      exact absurd href (sequenceRef_of_sequenceDef (sequenceDef_ofJson h) reference)
    | error fault => simp [SequenceEntry.toJson, href, sequenceDef_ofJson h]

/-! ### Interactions -/

/-- A table that is left out when it is empty is read as it is. -/
theorem getD_unless_isEmpty_table {α : Type} (table : KeyMap α) :
    (if table.isEmpty then none else some table).getD .empty = table := by
  obtain ⟨_ | _, _⟩ := table <;> rfl

theorem params_ofJson {params : KeyMap Json} (h : ∀ entry ∈ params.entries, entry.2.Rereads) :
    table anyValue (Tree.ofJson (.ofTable params)) = .ok params := by
  refine (writes_payload id params fun entry hentry done => ?_).visits
  rw [anyValue_eq_ok.mpr (h entry hentry)]
  rfl

theorem interaction_ofJson {interaction : Interaction} (h : interaction.IsWritable)
    (origin : Origin) :
    Decode.interaction origin (Tree.ofJson interaction.toJson) = .ok interaction := by
  obtain ⟨key, trigger, params, conditions, selector, container, item, effects, sequences⟩ :=
    interaction
  have hsequences : list sequenceEntry
      (Tree.ofJson (.array (sequences.map SequenceEntry.toJson))) = .ok sequences :=
    list_ofJson fun entry hmem => sequenceEntry_ofJson (h.sequences entry hmem)
  have hwrites : Writes interactionMember Interaction.memberNames
      ⟨none, none, none, none, none, none, none, none, none⟩
      (optionalMember "key" key ++ [("trigger", .string trigger.name)] ++
        (if params.isEmpty then [] else [("params", .ofTable params)]) ++
        stringsMember "conditions" conditions ++ optionalMember "selector" selector ++
        optionalMember "listContainer" container ++ optionalMember "listItemSelector" item ++
        [("effects", .array (effects.map Effect.toJson))] ++
        (if sequences.isEmpty then []
          else [("sequences", .array (sequences.map SequenceEntry.toJson))]))
      ⟨key.map some, some trigger, if params.isEmpty then none else some params,
        if conditions.isEmpty then none else some conditions, selector.map some,
        container.map some, item.map some, some effects,
        if sequences.isEmpty then none else some sequences⟩ := by
    refine .append (.append (.append (.append (.append (.append (.append (.append
      (writes_optionalMember
        (InteractionFields.mk · none none none none none none none none) _ fun _ => rfl)
      (writes_field (InteractionFields.mk _ · none none none none none none none) trigger ?_))
      (writes_unless (InteractionFields.mk _ _ · none none none none none none) _ params ?_))
      (writes_unless (InteractionFields.mk _ _ _ · none none none none none) _ conditions ?_))
      (writes_optionalMember
        (InteractionFields.mk _ _ _ _ · none none none none) _ fun _ => rfl))
      (writes_optionalMember (InteractionFields.mk _ _ _ _ _ · none none none) _ fun _ => rfl))
      (writes_optionalMember (InteractionFields.mk _ _ _ _ _ _ · none none) _ fun _ => rfl))
      (writes_field (InteractionFields.mk _ _ _ _ _ _ _ · none) effects ?_))
      (writes_unless (InteractionFields.mk _ _ _ _ _ _ _ _ ·) _ sequences ?_)
    · exact congrArg (fun kind => Except.ok (InteractionFields.mk (key.map some) (some kind)
        none none none none none none none)) h.trigger
    · exact map_once (params_ofJson h.params)
    · exact map_once (strings_ofStrings _)
    · exact map_once (effects_ofJson h.effects)
    · exact map_once hsequences
  have hvisits := hwrites.object independent_interactionMember (by decide)
  refine bind_eq_ok.mpr ⟨_, hvisits, bind_eq_ok.mpr ⟨trigger, rfl, ?_⟩⟩
  simp only [pure_eq_ok, InteractionFields.toInteraction, join_map_some, getD_unless_isEmpty,
    getD_unless_isEmpty_table, Option.getD_some]

/-! ### Configurations -/

theorem condition_ofJson (condition : Condition) (origin : Origin) :
    Decode.condition origin (Tree.ofJson condition.toJson) = .ok condition := by
  obtain ⟨kind, predicate⟩ := condition
  have hkind : conditionMember origin ⟨none, none⟩ "type" (.string kind.name) =
      .ok ⟨some kind, none⟩ := by
    cases origin <;> cases kind <;> rfl
  have hwrites : Writes (conditionMember origin) ["type", "predicate"] ⟨none, none⟩
      [("type", .string kind.name), ("predicate", .string predicate)]
      ⟨some kind, some predicate⟩ :=
    .append (writes_field (ConditionFields.mk · none) kind hkind)
      (writes_field (ConditionFields.mk _ ·) predicate rfl)
  have hvisits := hwrites.object (independent_conditionMember origin) (by decide)
  exact bind_eq_ok.mpr ⟨_, hvisits, rfl⟩

theorem config_ofJson {config : Config} (h : config.IsWritable) (origin : Origin) :
    Decode.config origin (Tree.ofJson config.toJson) = .ok config := by
  obtain ⟨interactions, effects, conditions, sequences⟩ := config
  have hinteractions : list (interaction origin)
      (Tree.ofJson (.array (interactions.map Interaction.toJson))) = .ok interactions :=
    list_ofJson fun interaction hmem => interaction_ofJson (h.interactions interaction hmem) origin
  have heffects : table effect (Tree.ofJson (effects.toJson Effect.toJson)) = .ok effects :=
    table_ofJson fun entry hmem => effect_ofJson (h.effects entry hmem)
  have hconditions : table (condition origin)
      (Tree.ofJson (conditions.toJson Condition.toJson)) = .ok conditions :=
    table_ofJson fun entry _ => condition_ofJson entry.2 origin
  have hsequences : table sequenceDef
      (Tree.ofJson (sequences.toJson SequenceDef.toJson)) = .ok sequences :=
    table_ofJson fun entry hmem => sequenceDef_ofJson (h.sequences entry hmem)
  have hwrites : Writes (configMember origin)
      ["interactions", "effects", "conditions", "sequences"] ⟨none, none, none, none⟩
      [("interactions", .array (interactions.map Interaction.toJson)),
        ("effects", effects.toJson Effect.toJson),
        ("conditions", conditions.toJson Condition.toJson),
        ("sequences", sequences.toJson SequenceDef.toJson)]
      ⟨some interactions, some effects, some conditions, some sequences⟩ := by
    refine .append (.append (.append
      (writes_field (ConfigFields.mk · none none none) interactions ?_)
      (writes_field (ConfigFields.mk _ · none none) effects ?_))
      (writes_field (ConfigFields.mk _ _ · none) conditions ?_))
      (writes_field (ConfigFields.mk _ _ _ ·) sequences ?_)
    · exact map_once hinteractions
    · exact map_once heffects
    · exact map_once hconditions
    · exact map_once hsequences
  have hvisits := hwrites.object (independent_configMember origin) (by decide)
  exact bind_eq_ok.mpr ⟨_, hvisits, rfl⟩

end Decode

/-- A configuration that has been read from a value, whatever the form of the value, is read again
from its JSON form: payloads stay payloads, references stay references, and what is not written
because it is empty is read as empty. -/
theorem Config.ofValue_toJson_of_ofValue {value : Json} {config : Config}
    (h : Config.ofValue value = .ok config) : Config.ofValue config.toJson = .ok config :=
  Decode.config_ofJson (Decode.yields_config .value _ _ h) .value

/-- Arrays stand for the configuration and for a reference to a sequence, which comes behind a
sequence with a payload. -/
theorem Config.ofValue_toJson_positional :
    Config.ofValue (.array [.array [.object [("trigger", .string "click"),
        ("sequences", .array [.object [("effects", .array []), ("stagger", .null)],
          .array [.string "intro"]])]]]) =
      .ok ⟨[⟨none, .click, .empty, [], none, none, none, [],
        [.inline ⟨none, [], [], KeyMap.empty.insert "stagger" .null⟩, .stored ⟨"intro", []⟩]⟩],
        .empty, .empty, .empty⟩ ∧
    Config.ofValue (Config.mk [⟨none, .click, .empty, [], none, none, none, [],
        [.inline ⟨none, [], [], KeyMap.empty.insert "stagger" .null⟩, .stored ⟨"intro", []⟩]⟩]
        .empty .empty .empty).toJson =
      .ok ⟨[⟨none, .click, .empty, [], none, none, none, [],
        [.inline ⟨none, [], [], KeyMap.empty.insert "stagger" .null⟩, .stored ⟨"intro", []⟩]⟩],
        .empty, .empty, .empty⟩ :=
  have hread : Config.ofValue (.array [.array [.object [("trigger", .string "click"),
      ("sequences", .array [.object [("effects", .array []), ("stagger", .null)],
        .array [.string "intro"]])]]]) = .ok _ := rfl
  ⟨hread, Config.ofValue_toJson_of_ofValue hread⟩

end InteractionBinding
