import InteractionBinding.Config.Builder
import InteractionBinding.Proofs.Graph.Numbering
/-!
# Appending an interaction

The graph of a configuration with one more interaction extends the graph without it
(`Graph.extends_withInteraction`). The edits of an interaction carry its number, and in the entries
of the graph before it only smaller numbers occur. So its effects never meet an old entry, and what
a node gains stands behind what it has (`NodeEdit.grows_apply`, `NodeEdit.grows_foldl_apply`).

## Main definitions

* `TargetEffects.CarriesIndex`, `NodeEdit.CarriesIndex` — all ids of an entry or an edit have an
  index.
* `GraphNode.Grows` — a node keeps what it has, and all ids that it gains have an index.
* `Graph.Extends` — a graph keeps its nodes and its diagnostics, and all its new ids have the next
  number.
-/

namespace InteractionBinding

open Compile

/-- A list is continued by elements with a property. -/
def Continues {α : Type} (P : α → Prop) (old new : List α) : Prop :=
  ∃ added, new = old ++ added ∧ ∀ a ∈ added, P a

section

variable {α : Type} {P : α → Prop} {old new : List α}

theorem Continues.refl (P : α → Prop) (l : List α) : Continues P l l :=
  ⟨[], (List.append_nil l).symm, List.forall_mem_nil P⟩

theorem Continues.concat (h : Continues P old new) {a : α} (ha : P a) :
    Continues P old (new ++ [a]) := by
  obtain ⟨added, rfl, hadded⟩ := h
  refine ⟨added ++ [a], List.append_assoc .., ?_⟩
  exact List.forall_mem_append.mpr ⟨hadded, List.forall_mem_singleton.mpr ha⟩

end

/-! ### Ids with an index -/

/-- The rule and the effect of a variant have an index. -/
structure Variant.CarriesIndex (variant : Variant) (index : Nat) : Prop where
  rule : variant.rule.index = index
  effect : variant.effect.id.index = index

/-- The id of an entry and those of its variants have an index. -/
structure TargetEffects.CarriesIndex (entry : TargetEffects) (index : Nat) : Prop where
  id : entry.id.index = index
  variants : ∀ variant ∈ entry.variants, variant.CarriesIndex index

/-- All ids of an edit have an index. -/
def NodeEdit.CarriesIndex (index : Nat) : NodeEdit → Prop
  | .touch => True
  | .selector _ => True
  | .interactionId id => id.index = index
  | .variant alternative => alternative.CarriesIndex index
  | .link back => back.sequence.index = index
  | .trigger interaction => interaction.CarriesIndex index

namespace Compile

variable {ci : CompiledInteraction} {index : Nat}

theorem carriesIndex_of_isReach {edit : NodeEdit} (h : edit.IsReach) : edit.CarriesIndex index := by
  cases edit <;> first | exact trivial | exact h.elim

/-- The edits of an interaction carry the number that it carries. -/
theorem carriesIndex_of_mem_interactionEdits (h : ci.CarriesIndex index) {key : String}
    {edit : NodeEdit} (hedit : (key, edit) ∈ interactionEdits ci) : edit.CarriesIndex index := by
  have hreach {other : String} {selector container item : Option String}
      (h : (key, edit) ∈ selectorEdits other selector container item) : edit.CarriesIndex index :=
    carriesIndex_of_isReach (isReach_of_mem_selectorEdits h)
  simp only [interactionEdits, effectEdits, sequenceEdits, targetEdits, List.mem_append,
    List.mem_flatMap, List.mem_singleton, Prod.mk.injEq] at hedit
  rcases hedit with ((hself | ⟨effect, heffect, (htarget | ⟨-, rfl⟩) | hvariant⟩) |
    ⟨sequence, hsequence, ⟨member, hmember, htarget | hlink⟩ | ⟨-, rfl⟩⟩) | ⟨-, rfl⟩
  · exact hreach hself
  · exact hreach htarget
  · exact h.effects effect (List.mem_append_left _ heffect)
  · split at hvariant
    · cases hvariant
    · obtain ⟨-, rfl⟩ := Prod.mk.inj (List.mem_singleton.mp hvariant)
      exact ⟨h.rule, h.effects effect (List.mem_append_left _ heffect)⟩
  · exact hreach htarget
  · split at hlink
    · cases hlink
    · obtain ⟨-, rfl⟩ := Prod.mk.inj (List.mem_singleton.mp hlink)
      exact h.sequences sequence hsequence
  · exact h.sequences sequence hsequence
  · exact h

end Compile

/-! ### Growing nodes -/

/-- A node keeps what it has, in its place, and all ids that it gains have an index. -/
structure GraphNode.Grows (index : Nat) (old new : GraphNode) : Prop where
  triggers : Continues (·.CarriesIndex index) old.triggers new.triggers
  effects : Continues (·.CarriesIndex index) old.effects new.effects
  interactionIds : Continues (·.index = index) old.interactionIds new.interactionIds
  selectors : ∀ text, old.selectors.contains text = true → new.selectors.contains text = true
  sequenceLinks : Continues (·.sequence.index = index) old.sequenceLinks new.sequenceLinks

theorem GraphNode.Grows.refl (index : Nat) (node : GraphNode) : node.Grows index node where
  triggers := .refl _ _
  effects := .refl _ _
  interactionIds := .refl _ _
  selectors _ h := h
  sequenceLinks := .refl _ _

namespace NodeEdit

variable {old new : GraphNode} {index : Nat} {edit : NodeEdit}

/-- A variant is pushed behind entries of other ids. -/
theorem pushVariant_append {variant : Variant} {entries : List TargetEffects}
    (h : ∀ entry ∈ entries, entry.id ≠ variant.effect.id) (rest : List TargetEffects) :
    pushVariant variant (entries ++ rest) = entries ++ pushVariant variant rest := by
  induction entries with
  | nil => rfl
  | cons entry entries ih =>
    obtain ⟨hentry, hentries⟩ := List.forall_mem_cons.mp h
    rw [List.cons_append, pushVariant, if_neg hentry, ih hentries, List.cons_append]

/-- A variant goes to the entry of its id, or makes one. -/
theorem carriesIndex_of_mem_pushVariant {variant : Variant} {entries : List TargetEffects}
    (hvariant : variant.CarriesIndex index)
    (hentries : ∀ entry ∈ entries, entry.CarriesIndex index) :
    ∀ entry ∈ pushVariant variant entries, entry.CarriesIndex index := by
  induction entries with
  | nil =>
    exact List.forall_mem_singleton.mpr ⟨hvariant.effect, List.forall_mem_singleton.mpr hvariant⟩
  | cons entry rest ih =>
    obtain ⟨hentry, hrest⟩ := List.forall_mem_cons.mp hentries
    rw [pushVariant]
    split
    · have hvariants : ∀ other ∈ variant :: entry.variants, other.CarriesIndex index :=
        List.forall_mem_cons.mpr ⟨hvariant, hentry.variants⟩
      exact List.forall_mem_cons.mpr ⟨⟨hentry.id, hvariants⟩, hrest⟩
    · exact List.forall_mem_cons.mpr ⟨hentry, ih hrest⟩

theorem continues_pushVariant {variant : Variant} {entries pushed : List TargetEffects}
    (hfresh : ∀ entry ∈ entries, entry.id.index ≠ index)
    (h : Continues (·.CarriesIndex index) entries pushed) (hvariant : variant.CarriesIndex index) :
    Continues (·.CarriesIndex index) entries (pushVariant variant pushed) := by
  obtain ⟨added, rfl, hadded⟩ := h
  -- the variant goes past the old entries, into one of the added ones or behind them
  have hother : ∀ entry ∈ entries, entry.id ≠ variant.effect.id := fun entry hentry heq =>
    hfresh entry hentry (heq ▸ hvariant.effect)
  exact ⟨pushVariant variant added, pushVariant_append hother added,
    carriesIndex_of_mem_pushVariant hvariant hadded⟩

/-- An edit with an index lets a node grow whose entries have other ones. -/
theorem grows_apply (hfresh : ∀ entry ∈ old.effects, entry.id.index ≠ index)
    (h : old.Grows index new) (hedit : edit.CarriesIndex index) :
    old.Grows index (edit.apply new) := by
  cases edit with
  | touch => exact h
  | selector text =>
    refine { h with selectors := fun other hother => ?_ }
    have hknown := h.selectors other hother
    rw [KeyMap.contains] at hknown ⊢
    rw [apply, KeySet.add, KeyMap.get?_insert]
    split
    · rfl
    · exact hknown
  | interactionId id =>
    rw [apply]
    split
    · exact h
    · exact { h with interactionIds := h.interactionIds.concat hedit }
  | variant alternative =>
    exact { h with effects := continues_pushVariant hfresh h.effects hedit }
  | link back =>
    rw [apply]
    split
    · exact h
    · exact { h with sequenceLinks := h.sequenceLinks.concat hedit }
  | trigger interaction => exact { h with triggers := h.triggers.concat hedit }

theorem grows_foldl_apply (edits : List NodeEdit)
    (hfresh : ∀ entry ∈ old.effects, entry.id.index ≠ index) (h : old.Grows index new)
    (hedits : ∀ edit ∈ edits, edit.CarriesIndex index) :
    old.Grows index (edits.foldl (fun node edit => edit.apply node) new) := by
  induction edits generalizing new with
  | nil => exact h
  | cons edit rest ih =>
    obtain ⟨hedit, hrest⟩ := List.forall_mem_cons.mp hedits
    exact ih (grows_apply hfresh h hedit) hrest

end NodeEdit

/-! ### Extending graphs -/

namespace Graph

/-- A graph keeps its nodes, which may grow, and what it has reported; all ids that are new, in old
nodes and in others, have the next number. -/
structure Extends (old new : Graph) : Prop where
  nodes (key : String) (node : GraphNode) : old.nodes.get? key = some node →
    ∃ grown, new.nodes.get? key = some grown ∧ node.Grows old.interactionCount grown
  others (key : String) (node : GraphNode) : new.nodes.get? key = some node →
    old.nodes.get? key = none → GraphNode.empty.Grows old.interactionCount node
  diagnostics : old.diagnostics <+: new.diagnostics
  conditions : new.conditions = old.conditions

/-- An interaction that is appended is compiled last, with what is stored already. -/
theorem ofConfig_withInteraction (config : Config) (interaction : Interaction) :
    ofConfig (config.withInteraction interaction) =
      addInteraction config (ofConfig config) (interaction, config.interactions.length) := by
  have hstored : addInteraction (config.withInteraction interaction) = addInteraction config := rfl
  rw [ofConfig, hstored, Config.withInteraction, List.zipIdx_append, List.foldl_append]
  simp [ofConfig]

theorem index_lt_of_mem_accepted {config : Config} {ci : CompiledInteraction}
    (h : ci ∈ accepted config) : ci.rule.index < (ofConfig config).interactionCount := by
  have hindex : ci.rule.index ∈ (accepted config).map (·.rule.index) := List.mem_map_of_mem h
  rw [accepted, map_index_acceptedFrom, List.mem_range'_1, Nat.zero_add, ← accepted,
    ← interactionCount_eq_length] at hindex
  exact hindex.2

/-- The entries of a graph have numbers of its interactions. -/
theorem index_lt_of_mem_effects {config : Config} {key : String} {node : GraphNode}
    (h : (ofConfig config).nodes.get? key = some node) {entry : TargetEffects}
    (hentry : entry ∈ node.effects) : entry.id.index < (ofConfig config).interactionCount := by
  obtain ⟨ci, hci, hindex, -⟩ := variants_eq h hentry
  exact hindex ▸ index_lt_of_mem_accepted hci

/-- What the edits of one more interaction make of the node of a key. -/
theorem grows_interactionEdits {config : Config} {ci : CompiledInteraction}
    (h : ci.CarriesIndex (ofConfig config).interactionCount) (key : String) :
    (((ofConfig config).nodes.get? key).getD .empty).Grows (ofConfig config).interactionCount
      ((editsOf key (interactionEdits ci)).foldl (fun node edit => edit.apply node)
        (((ofConfig config).nodes.get? key).getD .empty)) := by
  refine NodeEdit.grows_foldl_apply _ (fun entry hentry => ?_) (.refl _ _) fun edit hedit =>
    carriesIndex_of_mem_interactionEdits h (mem_editsOf.mp hedit)
  cases hnode : (ofConfig config).nodes.get? key with
  | none =>
    rw [hnode] at hentry
    cases hentry
  | some node =>
    rw [hnode] at hentry
    exact Nat.ne_of_lt (index_lt_of_mem_effects hnode hentry)

/-- Appending an interaction to a configuration extends its graph: nodes keep what they have in its
place, what is reported comes last, and all new ids have the number of interactions before. -/
theorem extends_withInteraction (config : Config) (interaction : Interaction) :
    (ofConfig config).Extends (ofConfig (config.withInteraction interaction)) := by
  rw [ofConfig_withInteraction, addInteraction]
  split
  next =>
    exact {
      nodes := fun key node h => ⟨node, h, .refl _ _⟩
      others := fun key node h hnone => by rw [hnone] at h; cases h
      diagnostics := List.prefix_append _ _
      conditions := rfl }
  next source _ =>
    have hgrows := grows_interactionEdits (carriesIndex_compileInteraction config interaction
      (ruleOf interaction source (ofConfig config).interactionCount))
    exact {
      nodes := fun key node h => by
        have hnode := hgrows key
        rw [h, Option.getD_some] at hnode
        refine ⟨_, ?_, hnode⟩
        rw [get?_foldl_applyEdit, h, Option.getD_some]
        split
        next hnil => rw [hnil, List.foldl_nil]
        next => rfl
      others := fun key node h hnone => by
        have hnode := hgrows key
        rw [get?_foldl_applyEdit, hnone, Option.getD_none] at h
        rw [hnone, Option.getD_none] at hnode
        split at h
        next => cases h
        next => exact Option.some.inj h ▸ hnode
      diagnostics := List.prefix_append _ _
      conditions := rfl }

end Graph

end InteractionBinding
