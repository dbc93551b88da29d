import InteractionBinding.Proofs.Keys.ConcreteKeys
import InteractionBinding.Proofs.Lifecycle.Disconnecting
import InteractionBinding.Proofs.Subscriptions.Hearing
import InteractionBinding.Proofs.Wiring.Attention
/-!
# Counterparts among list items

An effect between two templates stands for one effect on each item: the keys of its sides and its id
take the indices of the item (`Counterparts.ofItem`). Either side starts from its own concrete key
alone. It looks the key up by its template, reads the indices back off it and fills them into the
other side's template, and arrives at the other key and at the same id
(`Counterparts.agree_ofItem`). So either side finds what the other one has applied, and lets it be
applied again when it disconnects.

## Main definitions

* `Counterparts` — two concrete keys that are the sides of an effect, and its id between them.
* `Counterparts.Agree` — resolution from either side arrives at the counterparts.
-/

namespace InteractionBinding

open Compile Engine KeyTemplate

/-- Two concrete keys that are the sides of an effect, and the id of the effect between them. -/
structure Counterparts where
  source : String
  target : String
  id : InteractionId
deriving DecidableEq, Repr

namespace Counterparts

/-- The counterparts of an effect of a rule for the list item at some indices. -/
def ofItem (rule : Rule) (effect : CompiledEffect) (indices : List String) : Counterparts :=
  ⟨interpolate rule.key indices, interpolate effect.target indices, effect.id.interpolate indices⟩

/-- The text under which the effect is kept as applied. -/
def memoKey (sides : Counterparts) : String := sides.id.encode

/-- The consultation for an effect between the counterparts. -/
def consultation (sides : Counterparts) (variant : Variant) : Consultation :=
  ⟨sides.memoKey, sides.source, sides.target,
    [variant.rule.conditions, variant.effect.effect.conditions]⟩

/-- The consultations for alternatives between the counterparts: those up to the first open one,
unless the id has been applied. -/
def consultations (sides : Counterparts) (pass : Pass) (engine : Engine)
    (variants : List Variant) : List Consultation :=
  if pass.alreadyApplied engine sides.memoKey then []
  else (Pass.upTo (pass.isOpen engine) variants).map sides.consultation

/-- The candidate that an effect makes between the controllers of the counterparts. -/
def candidate? (sides : Counterparts) (pass : Pass) (engine : Engine)
    (source target : Option ControllerId) (variant : Variant) : Option Candidate :=
  if !pass.isOpen engine variant || pass.alreadyApplied engine sides.memoKey then none
  else
    source.bind fun source => target.bind fun target =>
      if pass.inScope variant.rule variant.effect source target then
        some ⟨sides.id, variant.rule, variant.effect, source, target,
          pass.currentGate engine [variant.rule.conditions, variant.effect.effect.conditions]⟩
      else none

/-- Resolving the source selects an effect as one between the counterparts: it consults the gate on
behalf of both keys under their id, and takes the controller that is connected under the target. -/
structure SelectsOutgoing (sides : Counterparts) (variant : Variant) (pass : Pass)
    (engine : Engine) (c : ControllerId) (selected : List Candidate) : Prop where
  consults : pass.Consults [sides.consultation variant] engine
    (pass.selectOutgoing c sides.source variant.rule (engine, selected) variant.effect).1
  selects : (pass.selectOutgoing c sides.source variant.rule (engine, selected) variant.effect).2 =
    (sides.candidate? pass engine (some c) (engine.connectedController? sides.target)
      variant).toList.foldl Pass.selectCandidate selected

/-- Resolving the target selects an alternative as an effect between the counterparts: it consults
the gates on behalf of both keys under their id, and takes the controller that is connected under
the source. -/
structure SelectsIncoming (sides : Counterparts) (entry : TargetEffects) (pass : Pass)
    (engine : Engine) (c : ControllerId) (selected : List Candidate) : Prop where
  consults : pass.Consults (sides.consultations pass engine entry.variants) engine
    (pass.selectIncoming c sides.target (engine, selected) entry).1
  selects : (pass.selectIncoming c sides.target (engine, selected) entry).2 =
    selected ++ ((entry.variants.find? (pass.isOpen engine)).bind
      (sides.candidate? pass engine (engine.connectedController? sides.source) (some c))).toList

/-- Resolution from either side arrives at the counterparts, and either key takes part in their
id. -/
structure Agree (sides : Counterparts) (graph : Graph) (ci : CompiledInteraction)
    (effect : CompiledEffect) : Prop where
  source : ∃ node, graph.get? sides.source = some node ∧ ci ∈ node.triggers ∧
    ∀ pass engine c selected, sides.SelectsOutgoing ⟨ci.rule, effect⟩ pass engine c selected
  target : ∃ node entry, graph.get? sides.target = some node ∧ entry ∈ node.effects ∧
    ⟨ci.rule, effect⟩ ∈ entry.variants ∧ (∀ variant ∈ entry.variants, variant.rule = ci.rule) ∧
    ∀ pass engine c selected, sides.SelectsIncoming entry pass engine c selected
  memo (inst : Instance) : inst.graph = graph →
    sides.memoKey ∈ inst.interactionIdsFor sides.source ∧
      sides.memoKey ∈ inst.interactionIdsFor sides.target
  /-- A disconnection of either side lets the effect be applied again. -/
  cleared (engine : Engine) (i : InstanceId) (c : ControllerId) (evict : Bool) :
    engine.running = true → i ∈ engine.live → (engine.inst i).graph = graph →
      ((engine.controller c).key = some sides.source ∨
        (engine.controller c).key = some sides.target) →
        sides.memoKey ∉ ((engine.disconnect c evict).inst i).memo

/-- An effect on another key than its source's joins two templates with one placeholder for each
index of an item, and the keys of the item stand in the graph only if they are the templates. -/
structure IsItem (graph : Graph) (rule : Rule) (effect : CompiledEffect)
    (filled : List String) : Prop where
  numerals : ∀ index ∈ filled, IsNumeral index.toList
  other : effect.target ≠ rule.key
  source_plain : indices rule.key = []
  target_plain : indices effect.target = []
  source_count : placeholderCount rule.key.toList = filled.length
  target_count : placeholderCount effect.target.toList = filled.length
  source_own : graph.nodes.contains (interpolate rule.key filled) →
    interpolate rule.key filled = rule.key
  target_own : graph.nodes.contains (interpolate effect.target filled) →
    interpolate effect.target filled = effect.target

variable {config : Config} {graph : Graph} {ci : CompiledInteraction} {rule : Rule}
  {effect : CompiledEffect} {filled : List String} {key : String} {node : GraphNode}

/-! ### Looking up the key of an item -/

/-- The key of an item is looked up by its template. -/
theorem get?_interpolate (hnode : graph.nodes.get? key = some node) (hplain : indices key = [])
    (hnumerals : ∀ index ∈ filled, IsNumeral index.toList)
    (hown : graph.nodes.contains (interpolate key filled) → interpolate key filled = key) :
    graph.get? (interpolate key filled) = some node := by
  have hcontains : graph.nodes.contains key = true := by
    rw [KeyMap.contains, hnode, Option.isSome_some]
  have htemplate := (cut_interpolate hplain hnumerals).1
  rw [Graph.get?, Graph.resolveKey_of_template_eq hcontains htemplate, Option.bind_some]
  split
  next hknown => rw [hown hknown, hnode]
  next => exact hnode

/-- A key of an item takes part in the ids of its template, with the indices of the item. -/
theorem mem_interactionIdsFor (hnode : graph.get? (interpolate key filled) = some node)
    (hread : indices (interpolate key filled) = filled) {id : InteractionId}
    (hid : id ∈ node.allInteractionIds) {inst : Instance} (hgraph : inst.graph = graph) :
    (id.interpolate filled).encode ∈ inst.interactionIdsFor (interpolate key filled) := by
  subst hgraph
  simp only [Instance.interactionIdsFor, hnode, hread]
  exact List.mem_map_of_mem (f := fun id => (InteractionId.interpolate id filled).encode) hid

namespace IsItem

theorem read_source (h : IsItem graph rule effect filled) :
    indices (interpolate rule.key filled) = filled := by
  rw [(cut_interpolate h.source_plain h.numerals).2, h.source_count, List.take_length]

theorem read_target (h : IsItem graph rule effect filled) :
    indices (interpolate effect.target filled) = filled := by
  rw [(cut_interpolate h.target_plain h.numerals).2, h.target_count, List.take_length]

/-- The source side reads the indices off its key and fills them into the target and the id. -/
theorem selectsOutgoing (h : IsItem graph rule effect filled) (pass : Pass) (engine : Engine)
    (c : ControllerId) (selected : List Candidate) :
    (ofItem rule effect filled).SelectsOutgoing ⟨rule, effect⟩ pass engine c selected := by
  have hselect := @Pass.selectOutgoing_eq engine pass c (interpolate rule.key filled) rule selected
    effect
  rw [h.read_source] at hselect
  have hcandidate : pass.outgoing? engine c (interpolate rule.key filled) rule effect =
      (ofItem rule effect filled).candidate? pass engine (some c)
        (engine.connectedController? (interpolate effect.target filled)) ⟨rule, effect⟩ := by
    simp only [Pass.outgoing?, h.read_source, Pass.targetController?, if_neg h.other, candidate?,
      Pass.isOpen, memoKey, ofItem, Option.bind_some]
    refine ite_congr rfl (fun _ => rfl) fun _ => ?_
    cases engine.connectedController? (interpolate effect.target filled) <;> rfl
  rw [hcandidate] at hselect
  constructor
  · exact hselect ▸ .single pass engine ((ofItem rule effect filled).consultation ⟨rule, effect⟩)
  · exact congrArg Prod.snd hselect

/-- The target side reads the indices off its key and fills them into the source and the id. -/
theorem selectsIncoming (h : IsItem graph rule effect filled) {entry : TargetEffects}
    (hid : entry.id = effect.id) (hrules : ∀ variant ∈ entry.variants, variant.rule = rule)
    (pass : Pass) (engine : Engine) (c : ControllerId) (selected : List Candidate) :
    (ofItem rule effect filled).SelectsIncoming entry pass engine c selected := by
  constructor
  · have hconsults := pass.consults_listenIncoming (interpolate effect.target filled) engine entry
    rw [← pass.fst_selectIncoming c _ _ selected] at hconsults
    have hconsultations :
        pass.entryConsultations engine (interpolate effect.target filled) entry =
          (ofItem rule effect filled).consultations pass engine entry.variants := by
      simp only [Pass.entryConsultations, h.read_target, hid, consultations, memoKey, ofItem]
      refine ite_congr rfl (fun _ => rfl) fun _ => List.map_congr_left fun variant hvariant => ?_
      have hrule := hrules variant (Pass.mem_of_mem_upTo hvariant)
      rw [Pass.variantConsultation, consultation, h.read_target, hrule]
      rfl
    rwa [hconsultations] at hconsults
  · have hselect := (pass.selectIncoming_eq c (interpolate effect.target filled) selected entry
      (.refl engine)).2
    have hcandidate : pass.incoming? engine c (interpolate effect.target filled) entry =
        (entry.variants.find? (pass.isOpen engine)).bind
          ((ofItem rule effect filled).candidate? pass engine
            (engine.connectedController? (interpolate rule.key filled)) (some c)) := by
      simp only [Pass.incoming?, h.read_target, hid]
      cases hfind : entry.variants.find? (pass.isOpen engine) with
      | none => exact ite_self none
      | some variant =>
        have hopen : pass.isOpen engine variant = true := List.find?_some hfind
        have hrule := hrules variant (List.mem_of_find?_eq_some hfind)
        simp only [Option.bind_some, candidate?, hopen, Bool.not_true, Bool.false_or, memoKey,
          ofItem, hrule]
        refine ite_congr rfl (fun _ => rfl) fun _ => ?_
        cases engine.connectedController? (interpolate rule.key filled) <;> rfl
    exact hcandidate ▸ hselect

end IsItem

/-! ### Meeting from both sides -/

/-- The alternatives for the id of an effect are effects of its own rule. -/
theorem rule_eq_of_mem_variants (hci : ci ∈ accepted config) (heffect : effect ∈ ci.effects)
    (hnode : (Graph.ofConfig config).nodes.get? key = some node) {entry : TargetEffects}
    (hentry : entry ∈ node.effects) (hid : entry.id = effect.id) :
    ⟨ci.rule, effect⟩ ∈ entry.variants ∧ ∀ variant ∈ entry.variants, variant.rule = ci.rule := by
  rw [Graph.variants_eq_of_index hnode hentry hci (by rw [hid, id_eq_of_mem_effects hci heffect])]
  refine ⟨List.mem_map_of_mem (mem_alternatives.mpr ⟨heffect, hid.symm⟩),
    fun variant hvariant => ?_⟩
  obtain ⟨alternative, -, rfl⟩ := List.mem_map.mp hvariant
  rfl

/-- Source and target of an effect between templates arrive at the counterparts of every item. -/
theorem agree_ofItem (hci : (Graph.ofConfig config).Declares ci) (heffect : effect ∈ ci.effects)
    (h : IsItem (Graph.ofConfig config) ci.rule effect filled) :
    (ofItem ci.rule effect filled).Agree (Graph.ofConfig config) ci effect := by
  obtain ⟨node, hnode, htrigger⟩ := hci
  have haccepted := Graph.declares_ofConfig_iff.mp ⟨node, hnode, htrigger⟩
  obtain ⟨target, htarget, entry, hentry, hid⟩ := Graph.exists_entry haccepted heffect h.other
  obtain ⟨hvariant, hrules⟩ :=
    rule_eq_of_mem_variants haccepted heffect htarget hentry hid
  have hsource_node := get?_interpolate hnode h.source_plain h.numerals h.source_own
  have htarget_node := get?_interpolate htarget h.target_plain h.numerals h.target_own
  have htakes {key : String} {node : GraphNode}
      (hnode : (Graph.ofConfig config).nodes.get? key = some node)
      (hside : ci.rule.key = key ∨ effect.target = key) : effect.id ∈ node.allInteractionIds :=
    (Graph.mem_allInteractionIds_iff hnode).mpr
      ⟨ci, haccepted, .inl ⟨effect, heffect, rfl, hside⟩⟩
  have hmemo (inst : Instance) (hgraph : inst.graph = Graph.ofConfig config) :=
    And.intro (mem_interactionIdsFor hsource_node h.read_source (htakes hnode (.inl rfl)) hgraph)
      (mem_interactionIdsFor htarget_node h.read_target (htakes htarget (.inr rfl)) hgraph)
  refine ⟨⟨node, hsource_node, htrigger, h.selectsOutgoing⟩, ⟨target, entry, htarget_node, hentry,
    hvariant, hrules, h.selectsIncoming hid hrules⟩, hmemo, ?_⟩
  rintro engine i c evict hrunning hlive hgraph (hkey | hkey)
  · exact not_mem_memo_disconnect hrunning hlive hkey (hmemo (engine.inst i) hgraph).1
  · exact not_mem_memo_disconnect hrunning hlive hkey (hmemo (engine.inst i) hgraph).2

/-- The cells of a table light the lamps of a panel. -/
def panelInteraction : Interaction :=
  (Interaction.ofTrigger "row[].cell[]" .click).withEffect
    ((Effect.byId "glow").on "panel[].lamp[]")

/-- The cell in row 4 and column 07 and its lamp arrive at one another. -/
theorem agree_ofItem_panel :
    let config := Config.ofInteractions [panelInteraction]
    let ci := compileInteraction config panelInteraction (ruleOf panelInteraction "row[].cell[]" 0)
    let effect : CompiledEffect := ⟨⟨"panel[].lamp[]", "glow", 0⟩, "glow", "panel[].lamp[]",
      (Effect.byId "glow").on "panel[].lamp[]"⟩
    let sides : Counterparts :=
      ⟨"row[4].cell[07]", "panel[4].lamp[07]", ⟨"panel[4].lamp[07]", "glow", 0⟩⟩
    (Graph.ofConfig config).Declares ci ∧ effect ∈ ci.effects ∧
      IsItem (Graph.ofConfig config) ci.rule effect ["4", "07"] ∧
      ofItem ci.rule effect ["4", "07"] = sides ∧
      sides.Agree (Graph.ofConfig config) ci effect := by
  intro config ci effect sides
  have hci : (Graph.ofConfig config).Declares ci :=
    Graph.declares_ofConfig_iff.mpr (List.mem_singleton.mpr rfl)
  have heffect : effect ∈ ci.effects := List.mem_singleton.mpr rfl
  have hsides : ofItem ci.rule effect ["4", "07"] = sides := by decide +kernel
  have hfirst : IsNumeral "4".toList := ⟨by decide, List.all_eq_true.mp (by decide)⟩
  have hsecond : IsNumeral "07".toList := ⟨by decide, List.all_eq_true.mp (by decide)⟩
  have hitem : IsItem (Graph.ofConfig config) ci.rule effect ["4", "07"] :=
    { numerals := List.forall_mem_cons.mpr ⟨hfirst, List.forall_mem_singleton.mpr hsecond⟩
      other := by decide
      source_plain := by decide +kernel
      target_plain := by decide +kernel
      source_count := by decide
      target_count := by decide
      source_own := by decide +kernel
      target_own := by decide +kernel }
  exact ⟨hci, heffect, hitem, hsides, hsides ▸ agree_ofItem hci heffect hitem⟩

end Counterparts

end InteractionBinding
