import InteractionBinding.Config.Builder
import InteractionBinding.Engine.State
import InteractionBinding.Proofs.Graph.CrossReferences
import InteractionBinding.Proofs.Keys.InteractionIds
/-!
# Names of the places of an interaction

An interaction declares its effects and its sequences at places. The name of a place is the id
written there or else one made of the position. Names made of positions are all different
(`Place.positional_injective`), but a written id may be any text, the name of another place
included, and effects and sequences share one space of names. So two places of an interaction have
one id exactly if they have one target and one name (`Place.id_eq_iff`), and the memo entry of one
rule suppresses another one only under the name of the latter (`accepted_ids_eq_iff`).
-/

namespace InteractionBinding

open Compile

namespace InteractionId

/-- Behind a separator, a name is cut off as a whole. -/
structure IsPlainName (name : String) : Prop where
  undivided : ¬HasSeparator name.toList
  head : name.toList.head? ≠ some ':'

/-- Ids with plain names have different written forms. -/
theorem eq_of_encode_eq_of_isPlainName {id other : InteractionId} (hid : IsPlainName id.effectId)
    (hother : IsPlainName other.effectId) (h : id.encode = other.encode) : id = other := by
  have hcut (own : InteractionId) (hplain : IsPlainName own.effectId) :
      cutSeparator? (own.effectId.toList.reverse ++ ':' :: ':' :: own.target.toList.reverse) =
        some (own.effectId.toList.reverse, own.target.toList.reverse) := by
    refine cutSeparator?_eq_some_iff.mpr ⟨rfl, ?_⟩
    rw [hasSeparator_append_colon, hasSeparator_reverse, List.getLast?_reverse, not_or]
    exact ⟨hplain.undivided, hplain.head⟩
  have hfront := cutSeparator?_reverse_encode id
  rw [h, cutSeparator?_reverse_encode other, Option.some.injEq, Prod.mk.injEq] at hfront
  have hsame := hcut id hid
  rw [← hfront.2, hcut other hother, Option.some.injEq, Prod.mk.injEq] at hsame
  refine InteractionId.ext ?_ ?_ (index_eq_of_encode_eq h)
  · exact (String.toList_inj.mp (List.reverse_inj.mp hsame.2)).symm
  · exact (String.toList_inj.mp (List.reverse_inj.mp hsame.1)).symm

end InteractionId

/-- The id written at a sequence of an interaction. -/
def SequenceEntry.writtenId : SequenceEntry → Option String
  | .stored reference => some reference.sequenceId
  | .inline sequence => sequence.sequenceId

/-- A place of an interaction where an effect or a sequence is declared. -/
inductive Place where
  | effect (position : Nat)
  | sequence (position : Nat)
deriving DecidableEq, Repr

namespace Place

/-- The name made of the position, for a place without a written id. -/
def positional : Place → String
  | .effect position => "inline-" ++ toString position
  | .sequence position => "sequence-" ++ toString position

/-- The id that an interaction writes at a place. -/
def written? (interaction : Interaction) : Place → Option String
  | .effect position => interaction.effects[position]?.bind Effect.effectId
  | .sequence position => interaction.sequences[position]?.bind SequenceEntry.writtenId

def name (interaction : Interaction) (place : Place) : String :=
  (place.written? interaction).getD place.positional

/-- The id of what is compiled at a place, if it is not left out. -/
def id? (config : Config) (interaction : Interaction) (rule : Rule) :
    Place → Option InteractionId
  | .effect position => interaction.effects[position]?.bind fun site =>
      (compileEffect config.effects rule position site).map CompiledEffect.id
  | .sequence position => interaction.sequences[position]?.bind fun entry =>
      (compileSequence config rule position entry).map CompiledSequence.id

/-- Two places of an interaction have one name: one id is written at both, or the id written at one
of them is the name that the other one has from its position. -/
def Homonyms (interaction : Interaction) (place other : Place) : Prop :=
  (place.written? interaction = other.written? interaction ∧
      (place.written? interaction).isSome) ∨
    (place.written? interaction = some other.positional ∧ other.written? interaction = none) ∨
    (other.written? interaction = some place.positional ∧ place.written? interaction = none)

instance (interaction : Interaction) (place other : Place) :
    Decidable (Homonyms interaction place other) :=
  inferInstanceAs (Decidable (_ ∨ _ ∨ _))

variable {config : Config} {interaction : Interaction} {rule : Rule} {place other : Place}
  {id otherId : InteractionId}

theorem positional_injective : Function.Injective positional := by
  intro place other h
  have hlist := congrArg String.toList h
  cases place <;> cases other <;> simp [positional] at hlist ⊢
  all_goals simpa using congrArg (Nat.ofDigitChars 10 · 0) hlist

theorem name_eq_iff (h : place ≠ other) :
    place.name interaction = other.name interaction ↔ Homonyms interaction place other := by
  have hpositional : place.positional ≠ other.positional := positional_injective.ne h
  unfold name Homonyms
  cases place.written? interaction <;> cases other.written? interaction <;>
    simp [hpositional, eq_comm]

/-- A stored effect lends its id only to effects that refer to it by this id. -/
theorem effectId_mergeStored (stored : KeyMap Effect) (site : Effect) :
    (mergeStored stored site).effectId = site.effectId := by
  cases hsite : site.effectId with
  | none => simp [mergeStored, hsite]
  | some effectId =>
    rw [mergeStored, hsite, Option.bind_some]
    cases stored.get? effectId <;> simp [Effect.mergedOnto, hsite]

theorem sequenceId_of_sequenceOf {stored : KeyMap SequenceDef} {entry : SequenceEntry}
    {sequence : SequenceDef} {conditions : List String}
    (h : sequenceOf stored entry = some (sequence, conditions)) :
    sequence.sequenceId = entry.writtenId := by
  cases entry with
  | inline own =>
    obtain ⟨rfl, -⟩ := Prod.mk.inj (Option.some.inj h)
    rfl
  | stored reference =>
    obtain ⟨_, -, heq⟩ := Option.map_eq_some_iff.mp h
    obtain ⟨rfl, -⟩ := Prod.mk.inj heq
    rfl

theorem effectId_of_id? (h : place.id? config interaction rule = some id) :
    id.effectId = place.name interaction ∧ id.index = rule.index := by
  cases place with
  | effect position =>
    obtain ⟨site, hsite, h⟩ := Option.bind_eq_some_iff.mp h
    obtain ⟨effect, heffect, rfl⟩ := Option.map_eq_some_iff.mp h
    rw [compileEffect, Option.ite_none_left_eq_some, Option.some.injEq] at heffect
    obtain ⟨-, rfl⟩ := heffect
    simp [name, written?, hsite, positional, effectId_mergeStored]
  | sequence position =>
    obtain ⟨entry, hentry, h⟩ := Option.bind_eq_some_iff.mp h
    obtain ⟨compiled, hcompiled, rfl⟩ := Option.map_eq_some_iff.mp h
    obtain ⟨⟨sequence, conditions⟩, hsequence, rfl⟩ := Option.map_eq_some_iff.mp hcompiled
    simp [name, written?, hentry, positional, sequenceId_of_sequenceOf hsequence]

/-- Two places of an interaction share an id exactly if they share target and name. -/
theorem id_eq_iff (hne : place ≠ other) (hplace : place.id? config interaction rule = some id)
    (hother : other.id? config interaction rule = some otherId) :
    id = otherId ↔ id.target = otherId.target ∧ Homonyms interaction place other := by
  obtain ⟨hname, hindex⟩ := effectId_of_id? hplace
  obtain ⟨hothername, hotherindex⟩ := effectId_of_id? hother
  rw [InteractionId.ext_iff, hname, hothername, name_eq_iff hne, hindex, hotherindex]
  simp

end Place

/-- The ids that an accepted interaction can be kept as applied under. -/
def CompiledInteraction.ids (ci : CompiledInteraction) : List InteractionId :=
  ci.effects.map CompiledEffect.id ++ ci.sequences.map CompiledSequence.id

namespace Compile

variable {config : Config} {interaction : Interaction} {rule : Rule}
  {ci other : CompiledInteraction} {id otherId : InteractionId}

theorem mem_effects_compileInteraction :
    (∃ effect ∈ (compileInteraction config interaction rule).effects, effect.id = id) ↔
      ∃ position, (Place.effect position).id? config interaction rule = some id := by
  simp only [compileInteraction, compileEffects, List.mem_filterMap, List.mem_reverse, Place.id?,
    Option.bind_eq_some_iff, Option.map_eq_some_iff, Prod.exists, List.mem_zipIdx_iff_getElem?]
  grind

theorem mem_sequences_compileInteraction :
    (∃ sequence ∈ (compileInteraction config interaction rule).sequences, sequence.id = id) ↔
      ∃ position, (Place.sequence position).id? config interaction rule = some id := by
  simp only [compileInteraction, List.mem_filterMap, Place.id?,
    Option.bind_eq_some_iff, Option.map_eq_some_iff, Prod.exists, List.mem_zipIdx_iff_getElem?]
  grind

theorem index_of_mem_ids (hci : ci ∈ accepted config) (h : id ∈ ci.ids) :
    id.index = ci.rule.index := by
  obtain ⟨interaction, -, source, index, -, rfl⟩ := exists_of_mem_acceptedFrom hci
  have hplace : ∃ place : Place,
      place.id? config interaction (ruleOf interaction source index) = some id := by
    rcases List.mem_append.mp h with h | h
    · obtain ⟨position, h⟩ := mem_effects_compileInteraction.mp (List.mem_map.mp h)
      exact ⟨_, h⟩
    · obtain ⟨position, h⟩ := mem_sequences_compileInteraction.mp (List.mem_map.mp h)
      exact ⟨_, h⟩
  obtain ⟨place, hplace⟩ := hplace
  exact (Place.effectId_of_id? hplace).2

/-- Texts of different interactions are different, and those of one interaction agree only for ids
with one name and one interpolated target, if the names are plain. -/
theorem eq_of_encode_interpolate_eq (hci : ci ∈ accepted config) (hother : other ∈ accepted config)
    (hid : id ∈ ci.ids) (hotherId : otherId ∈ other.ids) {indices otherIndices : List String}
    (h : (id.interpolate indices).encode = (otherId.interpolate otherIndices).encode) :
    ci = other ∧ (InteractionId.IsPlainName id.effectId →
      InteractionId.IsPlainName otherId.effectId →
        id.interpolate indices = otherId.interpolate otherIndices) := by
  refine ⟨accepted_eq_of_index_eq hci hother ?_, fun hplain hotherPlain =>
    InteractionId.eq_of_encode_eq_of_isPlainName hplain hotherPlain h⟩
  rw [← index_of_mem_ids hci hid, ← index_of_mem_ids hother hotherId]
  exact (InteractionId.index_eq_of_encode_eq h :)

end Compile

theorem Instance.isApplied_markApplied {inst : Instance} {text other : String} :
    (inst.markApplied text).isApplied other = true ↔
      inst.isApplied other = true ∨ text = other := by
  unfold markApplied isApplied
  split <;> grind

/-- Two places of an accepted interaction share an id exactly if they share the target and the name,
which may be written at both, or written at one and made of the position of the other. The entry of
one id suppresses another one only within an interaction and, if their names are plain, only under
the same name and the same concrete target. -/
theorem accepted_ids_eq_iff {config : Config} {ci : CompiledInteraction}
    (h : (Graph.ofConfig config).HasTrigger ci) :
    (∃ interaction ∈ config.interactions, sourceKey? interaction = some ci.rule.key ∧
      ci = compileInteraction config interaction ci.rule ∧
      (∀ id, (∃ effect ∈ ci.effects, effect.id = id) ↔
        ∃ position, (Place.effect position).id? config interaction ci.rule = some id) ∧
      (∀ id, (∃ sequence ∈ ci.sequences, sequence.id = id) ↔
        ∃ position, (Place.sequence position).id? config interaction ci.rule = some id) ∧
      ∀ place other : Place, place ≠ other →
        ∀ id ∈ place.id? config interaction ci.rule,
          ∀ otherId ∈ other.id? config interaction ci.rule,
            id = otherId ↔ id.target = otherId.target ∧ place.Homonyms interaction other) ∧
    ∀ other, (Graph.ofConfig config).HasTrigger other →
      ∀ id ∈ ci.ids, ∀ otherId ∈ other.ids, ∀ (indices otherIndices : List String)
        (inst : Instance),
        (inst.markApplied (id.interpolate indices).encode).isApplied
            (otherId.interpolate otherIndices).encode = true →
          inst.isApplied (otherId.interpolate otherIndices).encode = true ∨
            ci = other ∧ (InteractionId.IsPlainName id.effectId →
              InteractionId.IsPlainName otherId.effectId →
                id.interpolate indices = otherId.interpolate otherIndices) := by
  have hci := Graph.hasTrigger_iff.mp h
  constructor
  · obtain ⟨interaction, hinteraction, source, index, hsource, rfl⟩ :=
      exists_of_mem_acceptedFrom hci
    refine ⟨interaction, hinteraction, hsource, rfl, fun id => mem_effects_compileInteraction,
      fun id => mem_sequences_compileInteraction, ?_⟩
    intro place other hne id hid otherId hother
    exact Place.id_eq_iff hne hid hother
  · intro other hother id hid otherId hotherId indices otherIndices inst happlied
    refine (Instance.isApplied_markApplied.mp happlied).imp_right fun heq => ?_
    exact eq_of_encode_interpolate_eq hci (Graph.hasTrigger_iff.mp hother) hid hotherId heq

/-- An effect and a sequence under one name: either of them keeps the other one from being
applied. -/
theorem accepted_ids_eq_iff_glow :
    let interaction := ((Interaction.ofTrigger "lamp" .click).withEffect
      (Effect.byId "glow")).withSequence (.inline ⟨some "glow", [], [], .empty⟩)
    let config := Config.ofInteractions [interaction]
    let ci := compileInteraction config interaction (ruleOf interaction "lamp" 0)
    (Graph.ofConfig config).HasTrigger ci ∧
      (Place.effect 0).Homonyms interaction (.sequence 0) ∧
      ci.ids = [⟨"lamp", "glow", 0⟩, ⟨"lamp", "glow", 0⟩] ∧
      ∃ effect ∈ ci.effects, ∃ sequence ∈ ci.sequences, effect.id = sequence.id := by
  intro interaction config ci
  have htrigger : (Graph.ofConfig config).HasTrigger ci :=
    Graph.hasTrigger_iff.mpr (List.mem_singleton_self ci)
  refine ⟨htrigger, by decide +kernel, by decide +kernel, ?_⟩
  obtain ⟨⟨declared, hdeclared, -, -, heffects, hsequences, hids⟩, -⟩ :=
    accepted_ids_eq_iff htrigger
  obtain rfl := List.mem_singleton.mp hdeclared
  obtain ⟨effect, heffect, hid⟩ := (heffects ⟨"lamp", "glow", 0⟩).mpr ⟨0, by decide +kernel⟩
  obtain ⟨sequence, hsequence, hother⟩ :=
    (hsequences ⟨"lamp", "glow", 0⟩).mpr ⟨0, by decide +kernel⟩
  exact ⟨effect, heffect, sequence, hsequence, hid.trans hother.symm⟩

end InteractionBinding
