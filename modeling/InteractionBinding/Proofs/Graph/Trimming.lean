import InteractionBinding.Proofs.Graph.Naming
import InteractionBinding.Proofs.Graph.Numbering
/-!
# Deleting what a graph leaves out

Compiling a configuration leaves out the interactions without a key, the effects that would join two
lists and the references to sequences that are not stored. It does so before anything is recorded,
so a configuration from which any of them are deleted compiles to the same nodes under the same
numbers (`Graph.ofConfig_trimmed`), whatever stands beside them. The names that are made of
positions are the exception: deleting an effect moves those behind it.

## Main definitions

* `Config.Trims` — a configuration from which parts are deleted that its graph leaves out.
* `Config.pruned` — the configuration without all of them.
* `Interaction.IsNamed` — no effect and no sequence of an interaction is named by its position.
-/

namespace InteractionBinding

open Compile

/-! ### Deleting from lists -/

/-- A list from which elements are deleted, all of them with a property, while the others are kept
up to a relation. -/
inductive Deletes {α : Type} (P : α → Prop) (R : α → α → Prop) : List α → List α → Prop
  | nil : Deletes P R [] []
  | keep {a b : α} {l slim : List α} :
      R a b → Deletes P R l slim → Deletes P R (a :: l) (b :: slim)
  | delete {a : α} {l slim : List α} : P a → Deletes P R l slim → Deletes P R (a :: l) slim

section

variable {α β : Type} {P : α → Prop} {R : α → α → Prop} {l slim : List α}

/-- What is deleted leaves no trace where it is left out anyway. -/
theorem Deletes.filterMap_eq (h : Deletes P Eq l slim) {f : α → Option β}
    (hf : ∀ a ∈ l, P a → f a = none) : slim.filterMap f = l.filterMap f := by
  induction h with
  | nil => rfl
  | keep heq _ ih =>
    subst heq
    rw [List.filterMap_cons, List.filterMap_cons, ih fun a ha => hf a (List.mem_cons_of_mem _ ha)]
  | delete hP _ ih =>
    rw [List.filterMap_cons, hf _ List.mem_cons_self hP,
      ih fun a ha => hf a (List.mem_cons_of_mem _ ha)]

theorem Deletes.subset (h : Deletes P Eq l slim) : slim ⊆ l := by
  induction h with
  | nil => exact List.Subset.refl _
  | keep heq _ ih => exact heq ▸ List.cons_subset_cons _ ih
  | delete _ _ ih => exact List.subset_cons_of_subset _ ih

/-- All elements without a property can be deleted at once, and the others be changed. -/
theorem deletes_filter_map (p : α → Bool) (f : α → α) (hR : ∀ a, R a (f a)) (l : List α) :
    Deletes (fun a => p a = false) R l ((l.filter p).map f) := by
  induction l with
  | nil => exact .nil
  | cons a l ih =>
    rw [List.filter_cons]
    split
    next hp => exact .keep (hR a) ih
    next hp => exact .delete (Bool.not_eq_true _ ▸ hp) ih

theorem filterMap_zipIdx {f : α → Nat → Option β} {g : α → Option β}
    (h : ∀ a ∈ l, ∀ position, f a position = g a) :
    (l.zipIdx.filterMap fun (a, position) => f a position) = l.filterMap g := by
  have hfst : l.filterMap g = (l.zipIdx.map Prod.fst).filterMap g := by rw [List.zipIdx_map_fst]
  rw [hfst, List.filterMap_map]
  exact List.filterMap_congr fun ⟨a, position⟩ ha => h a (List.fst_mem_of_mem_zipIdx ha) position

end

/-! ### What is left out of a configuration -/

/-- The effects and the sequences of an interaction have ids written at them. -/
structure Interaction.IsNamed (interaction : Interaction) : Prop where
  effects : ∀ site ∈ interaction.effects, site.effectId.isSome
  sequences : ∀ entry ∈ interaction.sequences, entry.writtenId.isSome

instance (interaction : Interaction) : Decidable interaction.IsNamed :=
  decidable_of_iff ((∀ site ∈ interaction.effects, site.effectId.isSome) ∧
      ∀ entry ∈ interaction.sequences, entry.writtenId.isSome)
    ⟨fun h => ⟨h.1, h.2⟩, fun h => ⟨h.effects, h.sequences⟩⟩

namespace Config

variable (config : Config)

/-- Whether an effect would join the list of its interaction with another one: both are bound to
lists, and the effect has another target than the key of the interaction, or another list. -/
def dropsEffect (interaction : Interaction) (site : Effect) : Bool :=
  let effect := mergeStored config.effects site
  match interaction.listContainer, effect.listContainer with
  | some own, some other =>
    effect.key.any (fun target => interaction.key ≠ some target) || own ≠ other
  | _, _ => false

/-- Whether the sequence of an entry is stored or written there. -/
def hasSequence : SequenceEntry → Bool
  | .inline _ => true
  | .stored reference => config.sequences.contains reference.sequenceId

/-- Effects that would join two lists and references to sequences that are not stored are deleted
from an interaction. -/
inductive TrimsInteraction : Interaction → Interaction → Prop
  | intro (interaction : Interaction) {effects : List Effect} {sequences : List SequenceEntry} :
      Deletes (config.dropsEffect interaction · = true) Eq interaction.effects effects →
      Deletes (config.hasSequence · = false) Eq interaction.sequences sequences →
      TrimsInteraction interaction { interaction with effects := effects, sequences := sequences }

/-- Interactions without a key are deleted from a configuration, and parts that are left out from
the others. -/
inductive Trims : Config → Prop
  | intro {interactions : List Interaction} :
      Deletes (·.isKeyed = false) config.TrimsInteraction config.interactions interactions →
      Trims { config with interactions := interactions }

/-- The configuration without all parts that are left out. -/
def pruned : Config :=
  { config with
    interactions := (config.interactions.filter Interaction.isKeyed).map fun interaction =>
      { interaction with
        effects := interaction.effects.filter (!config.dropsEffect interaction ·)
        sequences := interaction.sequences.filter config.hasSequence } }

theorem trims_pruned : config.Trims config.pruned := by
  have hkept {α : Type} (p : α → Bool) (l : List α) :
      Deletes (fun a => p a = false) Eq l (l.filter p) := by
    simpa using deletes_filter_map p id (fun _ => rfl) l
  refine .intro (deletes_filter_map Interaction.isKeyed _ (fun interaction => ?_) _)
  refine .intro interaction ?_ (hkept config.hasSequence interaction.sequences)
  simpa using hkept (!config.dropsEffect interaction ·) interaction.effects

end Config

/-! ### Compiling what is left -/

namespace Compile

variable {config : Config} {interaction slim : Interaction} {source : String} {rule : Rule}
  {site : Effect} {entry : SequenceEntry}

/-- An effect with a written id compiles alike at all positions. -/
theorem compileEffect_of_isSome (h : site.effectId.isSome) (stored : KeyMap Effect) (rule : Rule)
    (position : Nat) :
    compileEffect stored rule position site = compileEffect stored rule 0 site := by
  obtain ⟨effectId, h⟩ := Option.isSome_iff_exists.mp h
  simp only [compileEffect, Place.effectId_mergeStored, h, Option.getD_some]

theorem compileSequence_of_isSome (h : entry.writtenId.isSome) (config : Config) (rule : Rule)
    (position : Nat) :
    compileSequence config rule position entry = compileSequence config rule 0 entry := by
  obtain ⟨sequenceId, h⟩ := Option.isSome_iff_exists.mp h
  rw [compileSequence, compileSequence]
  cases hsequence : sequenceOf config.sequences entry with
  | none => rfl
  | some sequence =>
    obtain ⟨sequence, conditions⟩ := sequence
    simp only [Option.map_some, Place.sequenceId_of_sequenceOf hsequence, h, Option.getD_some]

theorem compileEffect_eq_none (hsource : sourceKey? interaction = some source)
    (h : config.dropsEffect interaction site = true) (index position : Nat) :
    compileEffect config.effects (ruleOf interaction source index) position site = none := by
  have hkey : interaction.key = some source := by
    rw [sourceKey?, Option.filter_eq_some_iff] at hsource
    exact hsource.1
  refine if_pos ?_
  rw [Config.dropsEffect] at h
  rw [joinsLists, ruleOf]
  cases hown : interaction.listContainer with
  | none => simp [hown] at h
  | some own =>
    cases hother : (mergeStored config.effects site).listContainer with
    | none => simp [hown, hother] at h
    | some other =>
      cases htarget : (mergeStored config.effects site).key with
      | none => simpa [hown, hother, htarget] using h
      | some target => simpa [hown, hother, htarget, hkey, @eq_comm _ source] using h

theorem compileSequence_eq_none (h : config.hasSequence entry = false) (rule : Rule)
    (position : Nat) : compileSequence config rule position entry = none := by
  cases entry with
  | inline sequence => cases h
  | stored reference =>
    have hstored : config.sequences.get? reference.sequenceId = none := by
      simpa [Config.hasSequence, KeyMap.contains] using h
    rw [compileSequence, sequenceOf, hstored]
    rfl

theorem compileEffects_trims {effects : List Effect}
    (h : Deletes (config.dropsEffect interaction · = true) Eq interaction.effects effects)
    (hsource : sourceKey? interaction = some source)
    (hnamed : ∀ site ∈ interaction.effects, site.effectId.isSome) (index : Nat) :
    compileEffects config.effects (ruleOf interaction source index) effects.zipIdx.reverse =
      compileEffects config.effects (ruleOf interaction source index)
        interaction.effects.zipIdx.reverse := by
  rw [compileEffects, compileEffects, List.filterMap_reverse, List.filterMap_reverse,
    filterMap_zipIdx fun site hsite => compileEffect_of_isSome (hnamed site (h.subset hsite)) _ _,
    filterMap_zipIdx fun site hsite => compileEffect_of_isSome (hnamed site hsite) _ _]
  exact congrArg List.reverse
    (h.filterMap_eq fun site _ hjoins => compileEffect_eq_none hsource hjoins index 0)

theorem compileSequences_trims {entries slim : List SequenceEntry}
    (h : Deletes (config.hasSequence · = false) Eq entries slim)
    (hnamed : ∀ entry ∈ entries, entry.writtenId.isSome) (rule : Rule) :
    (slim.zipIdx.filterMap fun (entry, position) => compileSequence config rule position entry) =
      entries.zipIdx.filterMap fun (entry, position) =>
        compileSequence config rule position entry := by
  rw [filterMap_zipIdx fun entry hentry =>
      compileSequence_of_isSome (hnamed entry (h.subset hentry)) _ _,
    filterMap_zipIdx fun entry hentry => compileSequence_of_isSome (hnamed entry hentry) _ _]
  exact h.filterMap_eq fun entry _ hunknown => compileSequence_eq_none hunknown rule 0

/-- An accepted interaction compiles to the same when parts are deleted that are left out. -/
theorem compileInteraction_trims (h : config.TrimsInteraction interaction slim)
    (hsource : sourceKey? interaction = some source) (hnamed : interaction.IsNamed) (index : Nat) :
    compileInteraction config slim (ruleOf slim source index) =
      compileInteraction config interaction (ruleOf interaction source index) := by
  cases h with
  | @intro effects sequences hkept hknown =>
    have hrule : ruleOf { interaction with effects := effects, sequences := sequences } source
      index = ruleOf interaction source index := rfl
    rw [hrule, compileInteraction, compileInteraction,
      compileEffects_trims hkept hsource hnamed.effects index,
      compileSequences_trims hknown hnamed.sequences]

theorem acceptedFrom_trims {interactions others : List Interaction}
    (h : Deletes (·.isKeyed = false) config.TrimsInteraction interactions others)
    (hnamed : ∀ interaction ∈ interactions, interaction.IsNamed) (index : Nat) :
    acceptedFrom config index others = acceptedFrom config index interactions := by
  induction h generalizing index with
  | nil => rfl
  | @keep interaction slim rest others htrims _ ih =>
    have hrest := ih fun other hother => hnamed other (List.mem_cons_of_mem _ hother)
    have hkey : sourceKey? slim = sourceKey? interaction := by cases htrims; rfl
    rw [acceptedFrom, acceptedFrom, hkey, hrest, hrest]
    cases hsource : sourceKey? interaction with
    | none => rfl
    | some source =>
      have hcompiled :=
        compileInteraction_trims htrims hsource (hnamed _ List.mem_cons_self) index
      exact congrArg (· :: _) hcompiled
  | @delete interaction rest others hkey _ ih =>
    -- an interaction without a key takes no number from those behind it
    have hsource : sourceKey? interaction = none := by
      rw [← Option.not_isSome_iff_eq_none, isSome_sourceKey?, hkey]
      exact Bool.false_ne_true
    rw [ih fun other hother => hnamed other (List.mem_cons_of_mem _ hother), acceptedFrom, hsource]

/-- What interactions compile to depends on what is stored, and not on the list they come from. -/
theorem acceptedFrom_interactions (config : Config) (others : List Interaction) (index : Nat)
    (interactions : List Interaction) :
    acceptedFrom { config with interactions := others } index interactions =
      acceptedFrom config index interactions := by
  induction interactions generalizing index with
  | nil => rfl
  | cons interaction rest ih =>
    rw [acceptedFrom, acceptedFrom, ih, ih]
    rfl

theorem accepted_trims {slim : Config} (h : config.Trims slim)
    (hnamed : ∀ interaction ∈ config.interactions, interaction.IsNamed) :
    accepted slim = accepted config := by
  cases h with
  | intro h => rw [accepted, acceptedFrom_interactions, acceptedFrom_trims h hnamed, accepted]

end Compile

namespace Graph

/-- Where no effect and no sequence of an interaction is named by its position, a configuration from
which parts are deleted that its graph leaves out compiles to the same nodes, conditions and number
of interactions, so to the same graph but for what is reported. All these parts can be deleted at
once. -/
theorem ofConfig_trimmed {config : Config}
    (hnamed : ∀ interaction ∈ config.interactions, interaction.IsNamed) :
    config.Trims config.pruned ∧ ∀ slim, config.Trims slim →
      (ofConfig slim).nodes = (ofConfig config).nodes ∧
        (ofConfig slim).conditions = (ofConfig config).conditions ∧
        (ofConfig slim).interactionCount = (ofConfig config).interactionCount := by
  refine ⟨config.trims_pruned, fun slim h => ?_⟩
  have haccepted := accepted_trims h hnamed
  refine ⟨?_, ?_, ?_⟩
  · rw [nodes_ofConfig, nodes_ofConfig, edits, edits, haccepted]
  · rw [conditions_ofConfig, conditions_ofConfig]
    cases h
    rfl
  · rw [interactionCount_eq_length, interactionCount_eq_length, haccepted]

/-- Interactions without a key before and behind another one, and among its parts an effect on
another list, one on another key and an unknown sequence: one effect and one sequence are left. -/
theorem ofConfig_trimmed_shelf :
    let shelf := ((((((Interaction.ofTrigger "shelf" .click).withList ".items" none).withEffect
      ((Effect.byId "slide").withList ".other" none)).withEffect
      (Effect.byId "glow")).withEffect
      (((Effect.byId "fade").on "lamp").withList ".items" none)).withSequence
      (.byId "intro")).withSequence (.inline ⟨some "own", [], [Effect.byId "pop"], .empty⟩)
    let config := Config.ofInteractions
      [{ shelf with key := none }, shelf, { shelf with key := some "" }]
    (∀ interaction ∈ config.interactions, interaction.IsNamed) ∧
      config.pruned.interactions.map (fun interaction =>
        (interaction.effects.map Effect.effectId, interaction.sequences.length)) =
          [([some "glow"], 1)] ∧
      (ofConfig config.pruned).nodes = (ofConfig config).nodes := by
  intro shelf config
  have hnamed : ∀ interaction ∈ config.interactions, interaction.IsNamed := by decide +kernel
  obtain ⟨hpruned, htrimmed⟩ := ofConfig_trimmed hnamed
  exact ⟨hnamed, by decide +kernel, (htrimmed _ hpruned).1⟩

end Graph

end InteractionBinding
