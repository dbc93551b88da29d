import InteractionBinding.Proofs.Graph.Participation
import InteractionBinding.Proofs.Keys.Templates
import InteractionBinding.Proofs.Wiring.Settling
/-!
# Choices between alternatives

Of the effects of an interaction that have one id, the first one in declared order whose gate is
open is chosen (`Config.Chooses`). At keys without indices, in a configuration without lists and
sequences whose ids are told apart by their texts (`Config.IsPlain`), both sides of a resolution
wire what is chosen: a key settles a text with the wires of the chosen effect with this text that
the key takes part in (`Site.exists_mem_offer_plain_iff`).
-/

namespace InteractionBinding

open Compile

/-- A graph knows a key without indices under this key only. -/
theorem Graph.get?_of_indices {graph : Graph} {key : String} (h : KeyTemplate.indices key = []) :
    graph.get? key = graph.nodes.get? key := by
  rw [get?, resolveKey, KeyTemplate.template_of_indices h]
  by_cases hcontains : graph.nodes.contains key
  · simp [hcontains]
  · have hnone : graph.nodes.get? key = none := by simpa [KeyMap.contains] using hcontains
    simp [hcontains, hnone]

theorem Graph.knows_of_indices {graph : Graph} {key : String} (h : KeyTemplate.indices key = []) :
    graph.knows key = (graph.nodes.get? key).isSome := by
  simp only [knows, resolveKey, KeyTemplate.template_of_indices h, KeyMap.contains]
  cases graph.nodes.get? key <;> rfl

/-! ### Alternatives -/

namespace Variant

/-- The text under which the variant is kept as applied. -/
def text (variant : Variant) : String := variant.effect.id.encode

/-- Whether a key is the source or the target of the variant. -/
def Touches (variant : Variant) (key : String) : Prop :=
  variant.rule.key = key ∨ variant.effect.target = key

end Variant

namespace Config

/-- The effect of the variant is declared by an interaction with the rule of the variant. -/
def Declares (config : Config) (variant : Variant) : Prop :=
  ∃ ci ∈ accepted config, variant.rule = ci.rule ∧ variant.effect ∈ ci.effects

/-- The variant is the first one in declared order that is open among those with its id. -/
def Chooses (config : Config) (isOpen : Variant → Bool) (variant : Variant) : Prop :=
  ∃ ci ∈ accepted config, variant.rule = ci.rule ∧
    (alternatives ci variant.effect.id).find? (fun effect => isOpen ⟨ci.rule, effect⟩) =
      some variant.effect

/-- The live queries of the gate of a variant. -/
def queriesOf (config : Config) (variant : Variant) : List Query :=
  (Gate.resolveAll config.conditions (fun _ => false)
    [variant.rule.conditions, variant.effect.effect.conditions]).liveQueries

/-- A configuration without lists and sequences, whose ids are told apart by their texts, and which
uses no text for queries of both kinds. -/
structure IsPlain (config : Config) : Prop where
  lists : ∀ ci ∈ accepted config, ci.rule.listContainer = none ∧
    ∀ effect ∈ ci.effects, effect.effect.listContainer = none
  sequences : ∀ ci ∈ accepted config, ci.sequences = []
  ids (variant variant' : Variant) : config.Declares variant → config.Declares variant' →
    variant.text = variant'.text → variant.effect.id = variant'.effect.id
  queries (variant variant' : Variant) : config.Declares variant → config.Declares variant' →
    ∀ query ∈ config.queriesOf variant, ∀ query' ∈ config.queriesOf variant',
      query.text = query'.text → query = query'

variable {config : Config} {isOpen : Variant → Bool} {variant variant' : Variant}

theorem Chooses.declares (h : config.Chooses isOpen variant) : config.Declares variant := by
  obtain ⟨ci, hci, hrule, hfind⟩ := h
  exact ⟨ci, hci, hrule, (mem_alternatives.mp (List.mem_of_find?_eq_some hfind)).1⟩

theorem Declares.id_eq (h : config.Declares variant) :
    variant.effect.id =
      ⟨variant.effect.target, variant.effect.effectId, variant.rule.index⟩ := by
  obtain ⟨ci, hci, hrule, heffect⟩ := h
  rw [hrule]
  exact id_eq_of_mem_effects hci heffect

theorem Declares.target_eq (h : config.Declares variant) :
    variant.effect.id.target = variant.effect.target := by
  rw [h.id_eq]

/-- A graph knows the keys of the variants that its configuration declares. -/
theorem Declares.exists_node (h : config.Declares variant) {key : String}
    (htouches : variant.Touches key) :
    ∃ node, (Graph.ofConfig config).nodes.get? key = some node := by
  obtain ⟨ci, hci, hrule, heffect⟩ := h
  by_cases hown : variant.rule.key = key
  · obtain ⟨node, hnode, -⟩ := Graph.exists_node_of_mem_accepted hci
    exact ⟨node, hown ▸ hrule ▸ hnode⟩
  · have htarget := htouches.resolve_left hown
    obtain ⟨node, hnode, -⟩ := Graph.exists_entry hci heffect fun heq => hown (by
      rw [hrule, ← heq, htarget])
    exact ⟨node, htarget ▸ hnode⟩

/-- Variants with one id belong to one interaction. -/
theorem Declares.rule_eq (h : config.Declares variant) (h' : config.Declares variant')
    (hid : variant.effect.id = variant'.effect.id) : variant.rule = variant'.rule := by
  have hindex : variant.rule.index = variant'.rule.index := by
    rw [h.id_eq, h'.id_eq] at hid
    exact congrArg InteractionId.index hid
  obtain ⟨ci, hci, hrule, -⟩ := h
  obtain ⟨ci', hci', hrule', -⟩ := h'
  rw [hrule, hrule'] at hindex ⊢
  rw [accepted_eq_of_index_eq hci hci' hindex]

/-- Variants with one id have the same source and the same target. -/
theorem Declares.touches_iff (h : config.Declares variant) (h' : config.Declares variant')
    (hid : variant.effect.id = variant'.effect.id) (key : String) :
    variant.Touches key ↔ variant'.Touches key := by
  rw [Variant.Touches, Variant.Touches, h.rule_eq h' hid, ← h.target_eq, ← h'.target_eq, hid]

/-- At most one of the variants with an id is chosen. -/
theorem Chooses.unique (h : config.Chooses isOpen variant) (h' : config.Chooses isOpen variant')
    (hid : variant.effect.id = variant'.effect.id) : variant = variant' := by
  have hrule := h.declares.rule_eq h'.declares hid
  obtain ⟨ci, hci, hci_rule, hfind⟩ := h
  obtain ⟨ci', hci', hci_rule', hfind'⟩ := h'
  have hindex : ci.rule.index = ci'.rule.index := by rw [← hci_rule, ← hci_rule', hrule]
  obtain rfl := accepted_eq_of_index_eq hci hci' hindex
  rw [hid, hfind'] at hfind
  obtain ⟨rule, effect⟩ := variant
  obtain ⟨rule', effect'⟩ := variant'
  exact congrArg₂ Variant.mk hrule (Option.some.inj hfind).symm

end Config

/-! ### Links of chosen effects -/

/-- If only one member of a list has values under a function, these values come last. -/
theorem getLast?_flatMap_of_unique {α β : Type} {l : List α} {f : α → List β} {a : α} (ha : a ∈ l)
    (h : ∀ b ∈ l, b = a ∨ f b = []) : (l.flatMap f).getLast? = (f a).getLast? := by
  induction l using List.reverseRecOn with
  | nil => cases ha
  | append_singleton front last ih =>
    have hfront : ∀ b ∈ front, b = a ∨ f b = [] := fun b hb => h b (List.mem_append_left _ hb)
    rw [List.flatMap_append, List.flatMap_singleton, List.getLast?_append]
    rcases h last (by simp) with rfl | hnil
    · cases hlast : (f last).getLast? with
      | some b => rfl
      | none =>
        have hnil : f last = [] := List.getLast?_eq_none_iff.mp hlast
        have hall : front.flatMap f = [] := List.flatMap_eq_nil_iff.mpr fun b hb =>
          (hfront b hb).elim (fun heq => heq ▸ hnil) id
        rw [hall]
        rfl
    · rw [hnil, List.getLast?_nil, Option.none_or]
      rcases List.mem_append.mp ha with hmem | hmem
      · exact ih hmem hfront
      · rw [List.mem_singleton.mp hmem, hnil, List.getLast?_nil, List.getLast?_eq_none_iff]
        exact List.flatMap_eq_nil_iff.mpr fun b hb =>
          (hfront b hb).elim (fun heq => heq ▸ List.mem_singleton.mp hmem ▸ hnil) id

namespace Engine.Site

variable {site : Site} {config : Config} {key text : String} {others : List String}
  {link : Link} {variant : Variant}

/-- Whether the gate of a variant is open. -/
def isOpen (site : Site) (variant : Variant) : Bool :=
  (site.gate variant.rule variant.effect).isOpen

/-- The link of a variant from its source. -/
def linkOf (variant : Variant) : Link :=
  ⟨variant.effect.id, variant.rule, variant.effect, variant.effect.target⟩

/-- The wires of a variant between its source and its target. -/
def wiresOf (site : Site) (variant : Variant) : List Wire :=
  site.wires (linkOf variant) variant.rule.key variant.effect.target

theorem outgoing_of_indices (hkey : KeyTemplate.indices key = [])
    (hgraph : site.graph = .ofConfig config) :
    site.outgoing key = (((site.graph.nodes.get? key).map GraphNode.triggers).getD []).flatMap
      fun ci => (ci.effects.filter fun effect => site.isOpen ⟨ci.rule, effect⟩).map
        fun effect => linkOf ⟨ci.rule, effect⟩ := by
  rw [outgoing, Graph.get?_of_indices hkey]
  cases hnode : site.graph.nodes.get? key with
  | none => rfl
  | some node =>
    refine List.flatMap_congr fun ci hci => ?_
    rw [hgraph] at hnode
    obtain ⟨-, hrule⟩ := (Graph.mem_triggers_iff hnode).mp hci
    refine List.map_congr_left fun effect _ => ?_
    rw [hkey, InteractionId.interpolate_nil, KeyTemplate.interpolate_nil, linkOf]
    split
    next htarget => rw [htarget, hrule]
    next => rfl

/-- The links of a source for the text of an effect end with the first open alternative. -/
theorem getLast?_linksTo_outgoing (hplain : config.IsPlain) (hkey : KeyTemplate.indices key = [])
    (hgraph : site.graph = .ofConfig config) {ci : CompiledInteraction} (hci : ci ∈ accepted config)
    (hrule : ci.rule.key = key) {effect : CompiledEffect} (heffect : effect ∈ ci.effects)
    (hother : effect.target ∈ key :: others) :
    (linksTo (site.outgoing key) key others effect.id.encode).getLast? =
      ((alternatives ci effect.id).find? fun other => site.isOpen ⟨ci.rule, other⟩).map
        fun other => linkOf ⟨ci.rule, other⟩ := by
  obtain ⟨node, hnode, htrigger⟩ := Graph.exists_node_of_mem_accepted hci
  rw [hrule] at hnode
  have hdeclares : config.Declares ⟨ci.rule, effect⟩ := ⟨ci, hci, rfl, heffect⟩
  have hid {ci' : CompiledInteraction} (hci' : ci' ∈ accepted config) {effect' : CompiledEffect}
      (heffect' : effect' ∈ ci'.effects) (htext : effect'.id.encode = effect.id.encode) :
      effect'.id = effect.id :=
    hplain.ids ⟨ci'.rule, effect'⟩ ⟨ci.rule, effect⟩ ⟨ci', hci', rfl, heffect'⟩ hdeclares htext
  have hfilter : (ci.effects.filter fun other => site.isOpen ⟨ci.rule, other⟩).filter
        ((fun link => decide (link.text = effect.id.encode) &&
          decide (link.other ∈ key :: others)) ∘ fun other => linkOf ⟨ci.rule, other⟩) =
      (ci.effects.filter fun other => other.id = effect.id).filter
        fun other => site.isOpen ⟨ci.rule, other⟩ := by
    rw [List.filter_filter, List.filter_filter]
    refine List.filter_congr fun other hmem => ?_
    rw [Function.comp_apply, Bool.and_comm]
    refine congrArg (site.isOpen ⟨ci.rule, other⟩ && ·) ?_
    by_cases heq : other.id = effect.id
    · have htarget : other.target = effect.target := by
        rw [← (show config.Declares ⟨ci.rule, other⟩ from ⟨ci, hci, rfl, hmem⟩).target_eq,
          ← hdeclares.target_eq, heq]
      simp only [linkOf, Link.text, heq, htarget, hother, decide_true, Bool.and_self]
    · have htext : other.id.encode ≠ effect.id.encode := fun htext => heq (hid hci hmem htext)
      simp [linkOf, Link.text, heq, htext]
  rw [outgoing_of_indices hkey hgraph, hgraph, hnode, Option.map_some, Option.getD_some, linksTo,
    List.filter_flatMap, getLast?_flatMap_of_unique htrigger, List.filter_map, hfilter,
    List.getLast?_map, List.getLast?_eq_head?_reverse, ← List.filter_reverse, List.head?_filter,
    alternatives]
  intro ci' htrigger'
  obtain ⟨hci', -⟩ := (Graph.mem_triggers_iff hnode).mp htrigger'
  by_cases hne : ((ci'.effects.filter fun other => site.isOpen ⟨ci'.rule, other⟩).map
      fun other => linkOf ⟨ci'.rule, other⟩).filter (fun link =>
        decide (link.text = effect.id.encode) && decide (link.other ∈ key :: others)) = []
  · exact .inr hne
  · obtain ⟨link, hlink⟩ := List.exists_mem_of_ne_nil _ hne
    simp only [List.mem_filter, List.mem_map, Bool.and_eq_true, decide_eq_true_eq] at hlink
    obtain ⟨⟨effect', ⟨heffect', -⟩, rfl⟩, htext, -⟩ := hlink
    have hindex := congrArg InteractionId.index (hid hci' heffect' htext)
    rw [id_eq_of_mem_effects hci' heffect', id_eq_of_mem_effects hci heffect] at hindex
    exact .inl (accepted_eq_of_index_eq hci' hci hindex)

/-- The source side of a key selects the chosen effect for a text. -/
theorem getLast?_outgoing_iff (hplain : config.IsPlain) (hkey : KeyTemplate.indices key = [])
    (hgraph : site.graph = .ofConfig config) :
    (linksTo (site.outgoing key) key others text).getLast? = some link ↔
      ∃ variant, config.Chooses site.isOpen variant ∧ variant.rule.key = key ∧
        variant.effect.target ∈ key :: others ∧ variant.text = text ∧ link = linkOf variant := by
  constructor
  · intro hlast
    obtain ⟨hmem, htext, hother⟩ := mem_linksTo.mp (List.mem_of_getLast? hlast)
    rw [outgoing_of_indices hkey hgraph, hgraph] at hmem
    obtain ⟨ci, hci, hmem⟩ := List.mem_flatMap.mp hmem
    obtain ⟨effect, heffect, rfl⟩ := List.mem_map.mp hmem
    obtain ⟨node, hnode, htrigger⟩ : ∃ node, (Graph.ofConfig config).nodes.get? key = some node ∧
        ci ∈ node.triggers := by
      cases hnode : (Graph.ofConfig config).nodes.get? key with
      | none => simp [hnode] at hci
      | some node => exact ⟨node, rfl, by simpa [hnode] using hci⟩
    obtain ⟨hci, hrule⟩ := (Graph.mem_triggers_iff hnode).mp htrigger
    obtain ⟨heffect, -⟩ := List.mem_filter.mp heffect
    have hfirst := @getLast?_linksTo_outgoing site config key others hplain hkey hgraph ci hci hrule
      effect heffect hother
    have htext' : effect.id.encode = text := htext
    rw [htext', hlast] at hfirst
    obtain ⟨chosen, hfind, heq⟩ := Option.map_eq_some_iff.mp hfirst.symm
    obtain ⟨-, hid⟩ := mem_alternatives.mp (List.mem_of_find?_eq_some hfind)
    refine ⟨⟨ci.rule, chosen⟩, ⟨ci, hci, rfl, hid ▸ hfind⟩, hrule, ?_, ?_, heq.symm⟩
    · have htarget : chosen.target = effect.target := congrArg Link.other heq
      change chosen.target ∈ key :: others
      rw [htarget]
      exact hother
    · rw [← htext', Variant.text, hid]
  · rintro ⟨variant, hchooses, hrule, hother, rfl, rfl⟩
    obtain ⟨ci, hci, hci_rule, hfind⟩ := hchooses
    obtain ⟨heffect, -⟩ := mem_alternatives.mp (List.mem_of_find?_eq_some hfind)
    rw [Variant.text, getLast?_linksTo_outgoing hplain hkey hgraph hci (hci_rule ▸ hrule) heffect
      hother, hfind, Option.map_some, ← hci_rule]

/-- The links of a target are the chosen effects of other keys that land on it. -/
theorem mem_incoming_iff (hkey : KeyTemplate.indices key = [])
    (hgraph : site.graph = .ofConfig config) :
    link ∈ site.incoming key ↔ ∃ variant, config.Chooses site.isOpen variant ∧
      variant.effect.target = key ∧ variant.rule.key ≠ key ∧
        link = { linkOf variant with other := variant.rule.key } := by
  rw [incoming, Graph.get?_of_indices hkey, hgraph]
  constructor
  · intro hmem
    split at hmem
    next => cases hmem
    next node hnode =>
      obtain ⟨entry, hentry, hmem⟩ := List.mem_filterMap.mp hmem
      obtain ⟨variant, hfind, rfl⟩ := Option.map_eq_some_iff.mp hmem
      obtain ⟨ci, hci, -, hne, htarget, -, hvariants⟩ := Graph.variants_eq hnode hentry
      rw [hvariants, List.find?_map, Option.map_eq_some_iff] at hfind
      obtain ⟨effect, hfind, rfl⟩ := hfind
      obtain ⟨heffect, hid⟩ := mem_alternatives.mp (List.mem_of_find?_eq_some hfind)
      have hdeclares : config.Declares ⟨ci.rule, effect⟩ := ⟨ci, hci, rfl, heffect⟩
      refine ⟨⟨ci.rule, effect⟩, ⟨ci, hci, rfl, hid ▸ hfind⟩, ?_, hne, ?_⟩
      · rw [← hdeclares.target_eq, hid, htarget]
      · rw [hkey, InteractionId.interpolate_nil, KeyTemplate.interpolate_nil, linkOf, hid]
  · rintro ⟨variant, ⟨ci, hci, hrule, hfind⟩, htarget, hne, rfl⟩
    obtain ⟨heffect, -⟩ := mem_alternatives.mp (List.mem_of_find?_eq_some hfind)
    rw [hrule] at hne
    obtain ⟨node, hnode, entry, hentry, hid⟩ :=
      Graph.exists_entry hci heffect fun heq => hne (htarget ▸ heq).symm
    rw [htarget] at hnode
    have hvariants := Graph.variants_eq_of_index hnode hentry hci <| by
      rw [hid, id_eq_of_mem_effects hci heffect]
    rw [hnode]
    refine List.mem_filterMap.mpr ⟨entry, hentry, ?_⟩
    rw [hvariants, hid, List.find?_map, hkey]
    have hopen : (alternatives ci variant.effect.id).find?
        ((fun variant => (site.gate variant.rule variant.effect).isOpen) ∘ Variant.mk ci.rule) =
          some variant.effect := hfind
    rw [hopen]
    simp only [Option.map_some, InteractionId.interpolate_nil, KeyTemplate.interpolate_nil, linkOf,
      hrule]

/-- Whether a key takes part in a variant whose keys are the key itself or among others. -/
def Meets (variant : Variant) (key : String) (others : List String) : Prop :=
  variant.Touches key ∧ variant.rule.key ∈ key :: others ∧
    variant.effect.target ∈ key :: others

theorem takes_linkOf_iff (hplain : config.IsPlain) (h : config.Declares variant) :
    site.takes (linkOf variant) variant.rule.key variant.effect.target = true ↔
      site.wiresOf variant ≠ [] := by
  obtain ⟨ci, hci, hrule, heffect⟩ := h
  obtain ⟨hlist, hlists⟩ := hplain.lists ci hci
  have hbound : (variant.rule.isListBound || variant.effect.effect.listContainer.isSome) =
      false := by
    rw [Rule.isListBound, hrule, hlist, hlists variant.effect heffect]
    rfl
  have hbound' : ((linkOf variant).rule.isListBound ||
      (linkOf variant).effect.effect.listContainer.isSome) = false := hbound
  rw [takes, hbound', Bool.and_false, Bool.or_false, wiresOf]
  simp

/-- What a key settles a text with: the wires of the chosen effect with the text. -/
theorem exists_mem_offer_plain_iff (hplain : config.IsPlain) (hkey : KeyTemplate.indices key = [])
    (hgraph : site.graph = .ofConfig config) {wire : Wire} :
    (∃ wires, site.offer key others text = some wires ∧ wire ∈ wires) ↔
      ∃ variant, config.Chooses site.isOpen variant ∧ Meets variant key others ∧
        variant.text = text ∧ wire ∈ site.wiresOf variant := by
  rw [exists_mem_offer_iff]
  constructor
  · rintro (⟨link, hlast, hwire⟩ | ⟨-, link, hlink, hwire⟩)
    · obtain ⟨variant, hchooses, rfl, hother, htext, rfl⟩ :=
        (getLast?_outgoing_iff hplain hkey hgraph).mp hlast
      exact ⟨variant, hchooses, ⟨.inl rfl, .head _, hother⟩, htext, hwire⟩
    · obtain ⟨hlink, htext, hother⟩ := mem_linksTo.mp hlink
      obtain ⟨variant, hchooses, rfl, -, rfl⟩ := (mem_incoming_iff hkey hgraph).mp hlink
      exact ⟨variant, hchooses, ⟨.inr rfl, hother, .head _⟩, htext, hwire⟩
  · rintro ⟨variant, hchooses, ⟨htouches, hsource, htarget⟩, htext, hwire⟩
    by_cases hrule : variant.rule.key = key
    · have hlast : (linksTo (site.outgoing key) key others text).getLast? =
          some (linkOf variant) :=
        (getLast?_outgoing_iff hplain hkey hgraph).mpr
          ⟨variant, hchooses, hrule, htarget, htext, rfl⟩
      exact .inl ⟨_, hlast, hrule ▸ hwire⟩
    · have hlands := htouches.resolve_left hrule
      refine .inr ⟨?_, _, mem_linksTo.mpr ⟨(mem_incoming_iff hkey hgraph).mpr
        ⟨variant, hchooses, hlands, hrule, rfl⟩, htext, hsource⟩, hlands ▸ hwire⟩
      -- an effect of the source side with the same text would belong to the same interaction
      rintro ⟨link, hlast, -⟩
      obtain ⟨other, hother, hother_rule, -, hother_text, -⟩ :=
        (getLast?_outgoing_iff hplain hkey hgraph).mp hlast
      have hid := hplain.ids _ _ hother.declares hchooses.declares (hother_text.trans htext.symm)
      exact hrule (hother.declares.rule_eq hchooses.declares hid ▸ hother_rule)

/-- A key settles a text if the chosen effect with the text has wires. -/
theorem isSome_offer_plain_iff (hplain : config.IsPlain) (hkey : KeyTemplate.indices key = [])
    (hgraph : site.graph = .ofConfig config) :
    (site.offer key others text).isSome ↔
      ∃ variant, config.Chooses site.isOpen variant ∧ Meets variant key others ∧
        variant.text = text ∧ site.wiresOf variant ≠ [] := by
  constructor
  · intro hsome
    rcases isSome_offer_iff.mp hsome with ⟨link, hlast, htakes⟩ | ⟨link, hlink, htakes⟩
    · obtain ⟨variant, hchooses, rfl, hother, htext, rfl⟩ :=
        (getLast?_outgoing_iff hplain hkey hgraph).mp hlast
      exact ⟨variant, hchooses, ⟨.inl rfl, .head _, hother⟩, htext,
        (takes_linkOf_iff hplain hchooses.declares).mp htakes⟩
    · obtain ⟨hlink, htext, hother⟩ := mem_linksTo.mp hlink
      obtain ⟨variant, hchooses, rfl, -, rfl⟩ := (mem_incoming_iff hkey hgraph).mp hlink
      exact ⟨variant, hchooses, ⟨.inr rfl, hother, .head _⟩, htext,
        (takes_linkOf_iff hplain hchooses.declares).mp htakes⟩
  · rintro ⟨variant, hchooses, hmeets, htext, hne⟩
    obtain ⟨wire, hwire⟩ := List.exists_mem_of_ne_nil _ hne
    obtain ⟨wires, hoffer, -⟩ := (exists_mem_offer_plain_iff hplain hkey hgraph).mpr
      ⟨variant, hchooses, hmeets, htext, hwire⟩
    exact Option.isSome_of_eq_some hoffer

end Engine.Site

end InteractionBinding
