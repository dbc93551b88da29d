import InteractionBinding.Proofs.Config.Records
/-!
# Configurations that can be written

Payloads stand in the same object as the named members, and a named trigger kind has the same
spelling as a custom kind of this name. So not every configuration can be told from its JSON form:
a payload must not use the names of the members beside it, and a custom kind must not have the name
of another kind. Every configuration that has been read is like that, whatever the document.

## Main definitions

* `IsPayload` — a table that can stand beside named members.
* `Effect.IsWritable`, `SequenceDef.IsWritable`, `SequenceEntry.IsWritable`,
  `Interaction.IsWritable`, `Config.IsWritable`.

## Main results

* `Decode.yields_config` — a configuration that has been read can be written.
-/

namespace InteractionBinding

/-- The table can stand beside members of the given names, and its values are read back. -/
structure IsPayload (names : List String) (payload : KeyMap Json) : Prop where
  foreign : ∀ entry ∈ payload.entries, entry.1 ∉ names
  rereads : ∀ entry ∈ payload.entries, entry.2.Rereads

theorem isPayload_empty (names : List String) : IsPayload names .empty where
  foreign _ hmem := absurd hmem List.not_mem_nil
  rereads _ hmem := absurd hmem List.not_mem_nil

theorem IsPayload.insert {names : List String} {payload : KeyMap Json} (h : IsPayload names payload)
    {name : String} {value : Json} (hname : name ∉ names) (hvalue : value.Rereads) :
    IsPayload names (payload.insert name value) where
  foreign entry hmem := by
    rcases KeyMap.mem_insertEntry hmem with rfl | hmem
    · exact hname
    · exact h.foreign entry hmem
  rereads entry hmem := by
    rcases KeyMap.mem_insertEntry hmem with rfl | hmem
    · exact hvalue
    · exact h.rereads entry hmem

/-- A payload does not repeat a name of the members beside it. -/
theorem IsPayload.nodup {names : List String} {payload : KeyMap Json} (h : IsPayload names payload)
    (hnames : names.Nodup) : (names ++ payload.keys).Nodup := by
  refine List.nodup_append.mpr ⟨hnames, payload.nodup_keys, ?_⟩
  rintro name hname _ hmem rfl
  obtain ⟨entry, hentry, rfl⟩ := List.mem_map.mp hmem
  exact h.foreign entry hentry hname

/-- A kind is read back from its name unless it is a custom kind with the name of another kind. -/
def TriggerKind.IsWritable (kind : TriggerKind) : Prop := ofName kind.name = kind

/-- The members of an effect beside its payload. -/
def Effect.memberNames : List String :=
  ["effectId", "key", "listContainer", "listItemSelector", "selector", "conditions"]

def Effect.IsWritable (effect : Effect) : Prop := IsPayload memberNames effect.payload

namespace SequenceDef

/-- The members of a sequence beside its payload. -/
def memberNames : List String := ["sequenceId", "conditions", "effects"]

structure IsWritable (sequence : SequenceDef) : Prop where
  effects : ∀ effect ∈ sequence.effects, effect.IsWritable
  payload : IsPayload memberNames sequence.payload

end SequenceDef

def SequenceEntry.IsWritable : SequenceEntry → Prop
  | .stored _ => True
  | .inline sequence => sequence.IsWritable

structure Interaction.IsWritable (interaction : Interaction) : Prop where
  trigger : interaction.trigger.IsWritable
  params : ∀ entry ∈ interaction.params.entries, entry.2.Rereads
  effects : ∀ effect ∈ interaction.effects, effect.IsWritable
  sequences : ∀ entry ∈ interaction.sequences, entry.IsWritable

structure Config.IsWritable (config : Config) : Prop where
  interactions : ∀ interaction ∈ config.interactions, interaction.IsWritable
  effects : ∀ entry ∈ config.effects.entries, entry.2.IsWritable
  sequences : ∀ entry ∈ config.sequences.entries, entry.2.IsWritable

namespace Decode

open Json

variable {α : Type}

/-- A list that is missing is read as the empty one. -/
theorem forall_mem_getD {P : α → Prop} {field : Option (List α)}
    (h : ∀ values ∈ field, ∀ value ∈ values, P value) : ∀ value ∈ field.getD [], P value := by
  cases field with
  | none => exact List.forall_mem_nil _
  | some values => exact h values rfl

/-- A table that is missing is read as the empty one. -/
theorem forall_entries_getD {P : α → Prop} {field : Option (KeyMap α)}
    (h : ∀ table ∈ field, ∀ entry ∈ table.entries, P entry.2) :
    ∀ entry ∈ (field.getD .empty).entries, P entry.2 := by
  cases field with
  | none => exact List.forall_mem_nil _
  | some table => exact h table rfl

theorem yields_triggerKind : Yields triggerKind TriggerKind.IsWritable := by
  intro tree kind h
  obtain ⟨name, _, rfl⟩ := map_eq_ok.mp h
  rw [TriggerKind.IsWritable, TriggerKind.name_ofName]

/-! ### Effects and sequences -/

theorem isPayload_of_effectMember {fields after : EffectFields} {name : String} {tree : Tree}
    (hfields : IsPayload Effect.memberNames fields.payload)
    (h : effectMember fields name tree = .ok after) :
    IsPayload Effect.memberNames after.payload := by
  unfold effectMember at h
  split at h
  case h_7 =>
    obtain ⟨value, hvalue, rfl⟩ := map_eq_ok.mp h
    exact hfields.insert (by simp_all [Effect.memberNames]) (yields_anyValue tree value hvalue)
  -- The other members leave the payload as it is.
  all_goals
    obtain ⟨_, _, rfl⟩ := map_eq_ok.mp h
    exact hfields

theorem yields_effect : Yields effect Effect.IsWritable := by
  intro tree effect h
  cases tree with
  | object entries closed =>
    obtain ⟨fields, hfields, heq⟩ := bind_eq_ok.mp h
    obtain rfl := pure_eq_ok.mp heq
    exact visit_induction (P := fun fields => IsPayload Effect.memberNames fields.payload)
      (fun _ _ _ _ => isPayload_of_effectMember) (isPayload_empty _) hfields
  | _ => cases h

/-- The fields of a sequence met so far can be written. -/
structure SequenceFields.IsWritable (fields : SequenceFields) : Prop where
  effects : ∀ effects ∈ fields.effects, ∀ effect ∈ effects, effect.IsWritable
  payload : IsPayload SequenceDef.memberNames fields.payload

theorem SequenceFields.IsWritable.member {fields after : SequenceFields} {name : String}
    {tree : Tree} (hfields : fields.IsWritable) (h : sequenceMember fields name tree = .ok after) :
    after.IsWritable := by
  unfold sequenceMember at h
  split at h <;> obtain ⟨_, hread, rfl⟩ := map_eq_ok.mp h
  · exact ⟨hfields.effects, hfields.payload⟩
  · exact ⟨hfields.effects, hfields.payload⟩
  · exact ⟨yields_effect.list.once hread, hfields.payload⟩
  · exact ⟨hfields.effects, hfields.payload.insert (by simp_all [SequenceDef.memberNames])
      (yields_anyValue _ _ hread)⟩

theorem yields_sequenceDef : Yields sequenceDef SequenceDef.IsWritable := by
  intro tree sequence h
  cases tree with
  | object entries closed =>
    obtain ⟨fields, hfields, h⟩ := bind_eq_ok.mp h
    obtain ⟨effects, heffects, heq⟩ := bind_eq_ok.mp h
    obtain rfl := pure_eq_ok.mp heq
    have hwritable : fields.IsWritable :=
      visit_induction (fun _ _ _ _ => SequenceFields.IsWritable.member)
        ⟨by simp, isPayload_empty _⟩ hfields
    exact ⟨hwritable.effects effects (required_eq_ok.mp heffects), hwritable.payload⟩
  | _ => cases h

theorem yields_sequenceEntry : Yields sequenceEntry SequenceEntry.IsWritable := by
  intro tree entry h
  unfold sequenceEntry at h
  split at h
  · cases h
  split at h
  · cases h
    trivial
  split at h
  next sequence hsequence =>
    cases h
    exact yields_sequenceDef tree sequence hsequence
  next => cases h

/-! ### Interactions -/

/-- The fields of an interaction met so far can be written. -/
structure InteractionFields.IsWritable (fields : InteractionFields) : Prop where
  trigger : ∀ kind ∈ fields.trigger, kind.IsWritable
  params : ∀ params ∈ fields.params, ∀ entry ∈ params.entries, entry.2.Rereads
  effects : ∀ effects ∈ fields.effects, ∀ effect ∈ effects, effect.IsWritable
  sequences : ∀ sequences ∈ fields.sequences, ∀ entry ∈ sequences, entry.IsWritable

namespace InteractionFields.IsWritable

theorem member {fields after : InteractionFields} {name : String} {tree : Tree}
    (hfields : fields.IsWritable) (h : interactionMember fields name tree = .ok after) :
    after.IsWritable := by
  unfold interactionMember at h
  obtain ⟨htrigger, hparams, heffects, hsequences⟩ := hfields
  split at h <;> obtain ⟨_, hread, rfl⟩ := map_eq_ok.mp h
  case h_2 => exact ⟨yields_triggerKind.once hread, hparams, heffects, hsequences⟩
  case h_3 => exact ⟨htrigger, yields_anyValue.table.once hread, heffects, hsequences⟩
  case h_8 => exact ⟨htrigger, hparams, yields_effect.list.once hread, hsequences⟩
  case h_9 => exact ⟨htrigger, hparams, heffects, yields_sequenceEntry.list.once hread⟩
  -- The other members are plain texts, or passed over.
  all_goals exact ⟨htrigger, hparams, heffects, hsequences⟩

theorem toInteraction {fields : InteractionFields} (hfields : fields.IsWritable)
    {kind : TriggerKind} (hkind : fields.trigger = some kind) :
    (fields.toInteraction kind).IsWritable where
  trigger := hfields.trigger kind hkind
  params := forall_entries_getD hfields.params
  effects := forall_mem_getD hfields.effects
  sequences := forall_mem_getD hfields.sequences

end InteractionFields.IsWritable

theorem yields_interaction (origin : Origin) :
    Yields (interaction origin) Interaction.IsWritable := by
  intro tree interaction h
  cases tree with
  | object entries closed =>
    obtain ⟨fields, hfields, h⟩ := bind_eq_ok.mp h
    obtain ⟨kind, hkind, heq⟩ := bind_eq_ok.mp h
    obtain rfl := pure_eq_ok.mp heq
    have hwritable : fields.IsWritable :=
      visit_induction (fun _ _ _ _ => InteractionFields.IsWritable.member)
        ⟨by simp, by simp, by simp, by simp⟩ hfields
    exact hwritable.toInteraction (required_eq_ok.mp hkind)
  | array trees closed =>
    obtain ⟨⟨key, rest⟩, _, h⟩ := bind_eq_ok.mp h
    obtain ⟨⟨trigger, rest⟩, htrigger, h⟩ := bind_eq_ok.mp h
    obtain ⟨kind, hkind, h⟩ := bind_eq_ok.mp h
    obtain ⟨⟨params, rest⟩, hparams, h⟩ := bind_eq_ok.mp h
    obtain ⟨⟨conditions, rest⟩, _, h⟩ := bind_eq_ok.mp h
    obtain ⟨⟨selector, rest⟩, _, h⟩ := bind_eq_ok.mp h
    obtain ⟨⟨listContainer, rest⟩, _, h⟩ := bind_eq_ok.mp h
    obtain ⟨⟨listItemSelector, rest⟩, _, h⟩ := bind_eq_ok.mp h
    obtain ⟨⟨effects, rest⟩, heffects, h⟩ := bind_eq_ok.mp h
    obtain ⟨⟨sequences, rest⟩, hsequences, h⟩ := bind_eq_ok.mp h
    obtain ⟨_, _, heq⟩ := bind_eq_ok.mp h
    obtain rfl := pure_eq_ok.mp heq
    refine InteractionFields.IsWritable.toInteraction ⟨?_, ?_, ?_, ?_⟩ (reached_eq_ok.mp hkind)
    · exact yields_triggerKind.positional htrigger
    · exact yields_anyValue.table.positional hparams
    · exact yields_effect.list.positional heffects
    · exact yields_sequenceEntry.list.positional hsequences
  | _ => cases h

/-! ### Configurations -/

/-- The fields of a configuration met so far can be written. -/
structure ConfigFields.IsWritable (fields : ConfigFields) : Prop where
  interactions : ∀ interactions ∈ fields.interactions,
    ∀ interaction ∈ interactions, interaction.IsWritable
  effects : ∀ effects ∈ fields.effects, ∀ entry ∈ effects.entries, entry.2.IsWritable
  sequences : ∀ sequences ∈ fields.sequences, ∀ entry ∈ sequences.entries, entry.2.IsWritable

namespace ConfigFields.IsWritable

theorem member {origin : Origin} {fields after : ConfigFields} {name : String} {tree : Tree}
    (hfields : fields.IsWritable) (h : configMember origin fields name tree = .ok after) :
    after.IsWritable := by
  unfold configMember at h
  obtain ⟨hinteractions, heffects, hsequences⟩ := hfields
  split at h <;> obtain ⟨_, hread, rfl⟩ := map_eq_ok.mp h
  · exact ⟨(yields_interaction origin).list.once hread, heffects, hsequences⟩
  · exact ⟨hinteractions, yields_effect.table.once hread, hsequences⟩
  · exact ⟨hinteractions, heffects, hsequences⟩
  · exact ⟨hinteractions, heffects, yields_sequenceDef.table.once hread⟩
  · exact ⟨hinteractions, heffects, hsequences⟩

theorem toConfig {fields : ConfigFields} (hfields : fields.IsWritable) :
    fields.toConfig.IsWritable where
  interactions := forall_mem_getD hfields.interactions
  effects := forall_entries_getD hfields.effects
  sequences := forall_entries_getD hfields.sequences

end ConfigFields.IsWritable

/-- A configuration that has been read can be written. -/
theorem yields_config (origin : Origin) : Yields (config origin) Config.IsWritable := by
  intro tree config h
  cases tree with
  | object entries closed =>
    obtain ⟨fields, hfields, heq⟩ := bind_eq_ok.mp h
    obtain rfl := pure_eq_ok.mp heq
    have hwritable : fields.IsWritable :=
      visit_induction (fun _ _ _ _ => ConfigFields.IsWritable.member)
        ⟨by simp, by simp, by simp⟩ hfields
    exact hwritable.toConfig
  | array trees closed =>
    obtain ⟨⟨interactions, rest⟩, hinteractions, h⟩ := bind_eq_ok.mp h
    obtain ⟨⟨effects, rest⟩, heffects, h⟩ := bind_eq_ok.mp h
    obtain ⟨⟨conditions, rest⟩, _, h⟩ := bind_eq_ok.mp h
    obtain ⟨⟨sequences, rest⟩, hsequences, h⟩ := bind_eq_ok.mp h
    obtain ⟨_, _, heq⟩ := bind_eq_ok.mp h
    obtain rfl := pure_eq_ok.mp heq
    refine ConfigFields.IsWritable.toConfig ⟨?_, ?_, ?_⟩
    · exact (yields_interaction origin).list.positional hinteractions
    · exact yields_effect.table.positional heffects
    · exact yields_sequenceDef.table.positional hsequences
  | _ => cases h

end Decode

end InteractionBinding
