import InteractionBinding.Config.Builder
import InteractionBinding.Engine.Operation
import InteractionBinding.Proofs.Graph.CrossReferences
import InteractionBinding.Proofs.Wiring.Choices
/-!
# Both sides choose the same alternative

Of the effects of an interaction with one id, the source walks those whose gate is open from the
last to the first and keeps the one it meets last, and the target takes the first one that is open
in the list it has of them. In a full pass at keys without indices both select the first open effect
in declared order (`Engine.Pass.cascades_agree`), whatever else the two keys take part in.
-/

namespace InteractionBinding

open Compile

namespace Config

/-- Ids of effects are told apart by their texts. -/
def IsLegible (config : Config) : Prop :=
  ∀ variant variant', config.Declares variant → config.Declares variant' →
    variant.text = variant'.text → variant.effect.id = variant'.effect.id

end Config

namespace Engine.Pass

/-! ### Candidates with one text -/

theorem filter_eraseP_of_nodup {selected : List Candidate} {text : String}
    (h : (selected.map Candidate.memoKey).Nodup) :
    (selected.eraseP fun other => other.memoKey = text).filter
      (fun other => other.memoKey = text) = [] := by
  induction selected with
  | nil => rfl
  | cons first rest ih =>
    rw [List.map_cons, List.nodup_cons] at h
    rw [List.eraseP_cons]
    by_cases heq : first.memoKey = text
    · rw [decide_eq_true heq, cond_true, List.filter_eq_nil_iff]
      intro other hmem hother
      exact h.1 (heq ▸ of_decide_eq_true hother ▸ List.mem_map_of_mem hmem)
    · rw [decide_eq_false heq, cond_false, List.filter_cons_of_neg (by simpa using heq), ih h.2]

theorem filter_eraseP_of_ne {selected : List Candidate} {text other : String} (hne : other ≠ text) :
    (selected.eraseP fun candidate => candidate.memoKey = other).filter
      (fun candidate => candidate.memoKey = text) =
        selected.filter fun candidate => candidate.memoKey = text := by
  induction selected with
  | nil => rfl
  | cons first rest ih =>
    rw [List.eraseP_cons]
    by_cases heq : first.memoKey = other
    · rw [decide_eq_true heq, cond_true, List.filter_cons_of_neg]
      rw [heq]
      simpa using hne
    · rw [decide_eq_false heq, cond_false, List.filter_cons, List.filter_cons, ih]

/-- Of the candidates offered for a text the last one is selected, and no other. -/
theorem filter_foldl_selectCandidate (offers : List Candidate) (text : String) :
    (offers.foldl selectCandidate []).filter (fun other => other.memoKey = text) =
      (offers.filter fun other => other.memoKey = text).getLast?.toList := by
  induction offers using List.reverseRecOn with
  | nil => rfl
  | append_singleton front last ih =>
    rw [List.foldl_append, List.foldl_cons, List.foldl_nil, selectCandidate, List.filter_append,
      List.filter_append]
    by_cases heq : last.memoKey = text
    · rw [heq, filter_eraseP_of_nodup (nodup_foldl_selectCandidate front),
        List.filter_singleton, decide_eq_true heq, cond_true, List.getLast?_concat]
      rfl
    · rw [filter_eraseP_of_ne heq, ih, List.filter_singleton, decide_eq_false heq,
        cond_false, List.append_nil, List.append_nil]

theorem filter_id_eq_singleton {entries : List TargetEffects}
    (hnodup : (entries.map TargetEffects.id).Nodup) {entry : TargetEffects} (h : entry ∈ entries) :
    entries.filter (fun other => other.id = entry.id) = [entry] := by
  induction entries with
  | nil => cases h
  | cons first rest ih =>
    obtain ⟨hfirst, hrest⟩ := List.nodup_cons.mp hnodup
    rcases List.mem_cons.mp h with rfl | h
    · rw [List.filter_cons_of_pos (by simp), List.filter_eq_nil_iff.mpr]
      intro other hother heq
      exact hfirst (of_decide_eq_true heq ▸ List.mem_map_of_mem hother)
    · rw [List.filter_cons_of_neg, ih hrest h]
      exact fun heq => hfirst (of_decide_eq_true heq ▸ List.mem_map_of_mem h)

/-! ### The two sides -/

variable {engine : Engine} {config : Config} {interaction : Interaction} {rule : Rule}
  {i : InstanceId} {source target : String} {c d : ControllerId} {ci : CompiledInteraction}
  {id : InteractionId}

/-- The candidate of an effect between two controllers in a full pass. -/
def candidateOf (engine : Engine) (i : InstanceId) (rule : Rule) (c d : ControllerId)
    (effect : CompiledEffect) : Candidate :=
  ⟨effect.id, rule, effect, c, d,
    (Pass.mk i none).currentGate engine [rule.conditions, effect.effect.conditions]⟩

/-- The first alternative for an id whose gate is open. -/
def chosen? (engine : Engine) (i : InstanceId) (ci : CompiledInteraction) (id : InteractionId) :
    Option CompiledEffect :=
  (alternatives ci id).find? fun effect => (Pass.mk i none).isOpen engine ⟨ci.rule, effect⟩

/-- The first effect that an interaction declares with an id and whose gate is open. -/
def firstDeclared? (config : Config) (engine : Engine) (i : InstanceId) (interaction : Interaction)
    (rule : Rule) (id : InteractionId) : Option CompiledEffect :=
  (compileEffects config.effects rule interaction.effects.zipIdx).find? fun effect =>
    effect.id = id && (Pass.mk i none).isOpen engine ⟨rule, effect⟩

theorem chosen?_compileInteraction (config : Config) (engine : Engine) (i : InstanceId)
    (interaction : Interaction) (rule : Rule) (id : InteractionId) :
    chosen? engine i (compileInteraction config interaction rule) id =
      firstDeclared? config engine i interaction rule id := by
  rw [chosen?, alternatives_compileInteraction, List.find?_filter, firstDeclared?]
  refine congrArg (List.find? · _) (funext fun effect => ?_)
  rw [Bool.decide_and, Bool.decide_eq_true, Bool.decide_eq_true, compileInteraction]

theorem outgoing?_eq_candidateOf (hindices : KeyTemplate.indices source = [])
    (hkey : ci.rule.key = source) {effect : CompiledEffect} (hother : effect.target ≠ source)
    (htarget : engine.connectedController? effect.target = some d)
    (hunapplied : effect.id.encode ∉ (engine.inst i).memo) :
    (Pass.mk i none).outgoing? engine c source ci.rule effect =
      if (Pass.mk i none).isOpen engine ⟨ci.rule, effect⟩ then
        some (candidateOf engine i ci.rule c d effect)
      else none := by
  have happlied : (Pass.mk i none).alreadyApplied engine effect.id.encode = false :=
    decide_eq_false hunapplied
  simp only [outgoing?, hindices, InteractionId.interpolate_nil, KeyTemplate.interpolate_nil,
    happlied, Bool.or_false, targetController?, hkey, hother, if_false, htarget, inScope, if_true,
    Pass.isOpen, candidateOf]
  by_cases hopen : ((Pass.mk i none).currentGate engine
    [ci.rule.conditions, effect.effect.conditions]).isOpen <;> simp [hopen]

theorem memoKey_of_outgoing? {pass : Pass} (hindices : KeyTemplate.indices source = [])
    {rule : Rule} {effect : CompiledEffect} {candidate : Candidate}
    (h : pass.outgoing? engine c source rule effect = some candidate) :
    candidate.memoKey = effect.id.encode := by
  obtain ⟨-, -, -, -, -, rfl⟩ := outgoing?_eq_some.mp h
  rw [Candidate.memoKey, hindices, InteractionId.interpolate_nil]

theorem id_eq_of_encode_eq (hlegible : config.IsLegible) {ci ci' : CompiledInteraction}
    (hci : ci ∈ accepted config) (hci' : ci' ∈ accepted config) {effect effect' : CompiledEffect}
    (heffect : effect ∈ ci.effects) (heffect' : effect' ∈ ci'.effects)
    (htext : effect.id.encode = effect'.id.encode) : effect.id = effect'.id :=
  hlegible ⟨ci.rule, effect⟩ ⟨ci'.rule, effect'⟩ ⟨ci, hci, rfl, heffect⟩ ⟨ci', hci', rfl, heffect'⟩
    htext

/-- Of the effects of a rule, those with an id and an open gate are offered under its text. -/
theorem filter_offers (hlegible : config.IsLegible) (hindices : KeyTemplate.indices source = [])
    (hci : ci ∈ accepted config) (hkey : ci.rule.key = source)
    (hid : ∃ effect ∈ ci.effects, effect.id = id) (hother : id.target ≠ source)
    (htarget : engine.connectedController? id.target = some d)
    (hunapplied : id.encode ∉ (engine.inst i).memo) :
    (ci.effects.filterMap ((Pass.mk i none).outgoing? engine c source ci.rule)).filter
        (fun candidate => candidate.memoKey = id.encode) =
      ((ci.effects.filter fun effect => effect.id = id).filter fun effect =>
        (Pass.mk i none).isOpen engine ⟨ci.rule, effect⟩).map
          (candidateOf engine i ci.rule c d) := by
  obtain ⟨declared, hdeclared, rfl⟩ := hid
  rw [List.filter_filterMap, List.filter_filter, ← List.filterMap_eq_map, List.filterMap_filter]
  refine List.filterMap_congr fun effect heffect => ?_
  by_cases heq : effect.id = declared.id
  · have hlands : effect.target = declared.id.target := by
      rw [← heq, id_eq_of_mem_effects hci heffect]
    rw [outgoing?_eq_candidateOf (d := d) hindices hkey (hlands ▸ hother) (hlands ▸ htarget)
      (heq ▸ hunapplied), decide_eq_true heq, Bool.and_true]
    split
    · simp [Option.filter, candidateOf, Candidate.memoKey, heq]
    · rfl
  · have hne : effect.id.encode ≠ declared.id.encode := fun htext =>
      heq (id_eq_of_encode_eq hlegible hci hci heffect hdeclared htext)
    rw [decide_eq_false heq, Bool.and_false, if_neg Bool.false_ne_true, Option.filter_eq_none_iff]
    intro candidate hcandidate
    rw [memoKey_of_outgoing? hindices hcandidate]
    simpa using hne

/-- The source side selects the first open effect for an id, and nothing else with its text. -/
theorem filter_outgoing (hlegible : config.IsLegible) (hindices : KeyTemplate.indices source = [])
    {node : GraphNode} (hnode : (Graph.ofConfig config).nodes.get? source = some node)
    (hci : ci ∈ accepted config) (hkey : ci.rule.key = source)
    (hid : ∃ effect ∈ ci.effects, effect.id = id) (hother : id.target ≠ source)
    (htarget : engine.connectedController? id.target = some d)
    (hunapplied : id.encode ∉ (engine.inst i).memo) :
    ((Pass.mk i none).outgoing engine c source node).filter
        (fun candidate => candidate.memoKey = id.encode) =
      ((chosen? engine i ci id).map (candidateOf engine i ci.rule c d)).toList := by
  have htrigger := (Graph.mem_triggers_iff hnode).mpr ⟨hci, hkey⟩
  rw [outgoing, filter_foldl_selectCandidate, offered, List.filter_flatMap,
    getLast?_flatMap_of_unique htrigger,
    filter_offers hlegible hindices hci hkey hid hother htarget hunapplied, List.getLast?_map,
    List.getLast?_eq_head?_reverse, ← List.filter_reverse, List.head?_filter]
  · rfl
  · -- no other rule offers anything under the text
    intro ci' htrigger'
    obtain ⟨hci', -⟩ := (Graph.mem_triggers_iff hnode).mp htrigger'
    refine or_iff_not_imp_right.mpr fun hne => ?_
    obtain ⟨candidate, hcandidate⟩ := List.exists_mem_of_ne_nil _ hne
    obtain ⟨hmem, htext⟩ := List.mem_filter.mp hcandidate
    obtain ⟨effect, heffect, hmade⟩ := List.mem_filterMap.mp hmem
    obtain ⟨declared, hdeclared, rfl⟩ := hid
    rw [memoKey_of_outgoing? hindices hmade] at htext
    have hindex := congrArg InteractionId.index
      (id_eq_of_encode_eq hlegible hci' hci heffect hdeclared (of_decide_eq_true htext))
    rw [id_eq_of_mem_effects hci' heffect, id_eq_of_mem_effects hci hdeclared] at hindex
    exact accepted_eq_of_index_eq hci' hci hindex

/-- What the target side selects under the text of an id is made of its entry. -/
theorem filter_incoming_eq (hlegible : config.IsLegible)
    (hindices : KeyTemplate.indices target = []) {node : GraphNode}
    (hnode : (Graph.ofConfig config).nodes.get? target = some node) (hci : ci ∈ accepted config)
    {declared : CompiledEffect} (hdeclared : declared ∈ ci.effects) {entry : TargetEffects}
    (hentry : entry ∈ node.effects) (hentry_id : entry.id = declared.id) :
    ((Pass.mk i none).incoming engine d target node).filter
        (fun candidate => candidate.memoKey = declared.id.encode) =
      ((Pass.mk i none).incoming? engine d target entry).toList := by
  have hnodup : (node.effects.map TargetEffects.id).Nodup := by
    rw [Graph.effects_eq hnode]
    exact NodeEdit.nodup_map_id_foldl_pushVariant _ [] List.nodup_nil
  have hentries : ((Pass.mk i none).incoming engine d target node).filter
      (fun candidate => candidate.memoKey = declared.id.encode) =
        (node.effects.filter fun other => other.id = entry.id).filterMap
          ((Pass.mk i none).incoming? engine d target) := by
    rw [incoming, List.filter_filterMap, List.filterMap_filter]
    refine List.filterMap_congr fun other hmem => ?_
    obtain ⟨made, hmade, -, -, -, hne, -⟩ := Graph.variants_eq hnode hmem
    obtain ⟨effect, heffect⟩ := List.exists_mem_of_ne_nil _ hne
    obtain ⟨heffect, heffect_id⟩ := mem_alternatives.mp heffect
    have htext (candidate : Candidate)
        (hcandidate : (Pass.mk i none).incoming? engine d target other = some candidate) :
        candidate.memoKey = declared.id.encode ↔ other.id = entry.id := by
      obtain ⟨-, -, -, -, -, -, rfl⟩ := incoming?_eq_some.mp hcandidate
      rw [Candidate.memoKey, hindices, InteractionId.interpolate_nil, hentry_id, ← heffect_id]
      exact ⟨id_eq_of_encode_eq hlegible hmade hci heffect hdeclared, congrArg _⟩
    cases hcandidate : (Pass.mk i none).incoming? engine d target other with
    | none => simp
    | some candidate => simp [Option.filter, htext candidate hcandidate]
  rw [hentries, filter_id_eq_singleton hnodup hentry, List.filterMap_cons, List.filterMap_nil]
  cases (Pass.mk i none).incoming? engine d target entry <;> rfl

/-- The target side finds the first open effect for an id, and selects nothing else with its text.
-/
theorem filter_incoming (hlegible : config.IsLegible) (hindices : KeyTemplate.indices target = [])
    {node : GraphNode} (hnode : (Graph.ofConfig config).nodes.get? target = some node)
    (hci : ci ∈ accepted config) (hid : ∃ effect ∈ ci.effects, effect.id = id)
    (hlands : id.target = target) (hother : ci.rule.key ≠ target)
    (hsource : engine.connectedController? ci.rule.key = some c)
    (hunapplied : id.encode ∉ (engine.inst i).memo) :
    ((Pass.mk i none).incoming engine d target node).filter
        (fun candidate => candidate.memoKey = id.encode) =
      ((chosen? engine i ci id).map (candidateOf engine i ci.rule c d)).toList := by
  obtain ⟨declared, hdeclared, rfl⟩ := hid
  have hdeclared_id := id_eq_of_mem_effects hci hdeclared
  obtain ⟨entry, hentry, hentry_id⟩ := (Graph.exists_entry_iff hnode).mpr ⟨ci, hci, declared,
    hdeclared, by rw [← hlands, hdeclared_id], hother.symm, rfl⟩
  have hvariants := Graph.variants_eq_of_index hnode hentry hci <| by
    rw [hentry_id, hdeclared_id]
  have happlied : (Pass.mk i none).alreadyApplied engine declared.id.encode = false :=
    decide_eq_false hunapplied
  rw [filter_incoming_eq hlegible hindices hnode hci hdeclared hentry hentry_id, incoming?]
  simp only [hindices, InteractionId.interpolate_nil, KeyTemplate.interpolate_nil, hentry_id,
    happlied, Bool.false_eq_true, if_false, hvariants, List.find?_map, chosen?]
  cases hfirst : (alternatives ci declared.id).find?
      ((Pass.mk i none).isOpen engine ∘ Variant.mk ci.rule) with
  | none =>
    have hnone : (alternatives ci declared.id).find?
        (fun effect => (Pass.mk i none).isOpen engine ⟨ci.rule, effect⟩) = none := hfirst
    rw [hnone]
    rfl
  | some first =>
    have hsome : (alternatives ci declared.id).find?
        (fun effect => (Pass.mk i none).isOpen engine ⟨ci.rule, effect⟩) = some first := hfirst
    have hfirst_id := (mem_alternatives.mp (List.mem_of_find?_eq_some hfirst)).2
    rw [hsome]
    simp only [Option.map_some, hsource, inScope, if_true, candidateOf, hfirst_id,
      Option.toList_some]

/-- In a full pass at keys without indices, both sides of an id that has not been applied select the
first effect that is declared with the id and whose gate is open, and select nothing for the id when
there is none. -/
theorem cascades_agree (hlegible : config.IsLegible)
    (hgraph : (engine.inst i).graph = .ofConfig config)
    (hdeclared : compileInteraction config interaction rule ∈ accepted config)
    (hid : ∃ effect ∈ compileEffects config.effects rule interaction.effects.zipIdx, effect.id = id)
    (hother : id.target ≠ rule.key) (hsource_indices : KeyTemplate.indices rule.key = [])
    (htarget_indices : KeyTemplate.indices id.target = [])
    (hsource : engine.connectedController? rule.key = some c)
    (htarget : engine.connectedController? id.target = some d)
    (hunapplied : id.encode ∉ (engine.inst i).memo) :
    let pass : Pass := ⟨i, none⟩
    let selected := ((firstDeclared? config engine i interaction rule id).map
      (candidateOf engine i rule c d)).toList
    ∃ source target, pass.node? engine rule.key = some source ∧
      pass.node? engine id.target = some target ∧
      (source.triggers.foldl (pass.selectInteraction c rule.key) (engine, [])).2.filter
        (fun candidate => candidate.memoKey = id.encode) = selected ∧
      (target.effects.foldl (pass.selectIncoming d id.target) (engine, [])).2.filter
        (fun candidate => candidate.memoKey = id.encode) = selected ∧
      ∃ entry ∈ target.effects, entry.id = id ∧
        (pass.firstOpen id.target id.encode engine entry.variants).2.map (fun found => found.1) =
          (firstDeclared? config engine i interaction rule id).map (Variant.mk rule) := by
  intro pass selected
  have hmem {effect : CompiledEffect} :
      effect ∈ (compileInteraction config interaction rule).effects ↔
        effect ∈ compileEffects config.effects rule interaction.effects.zipIdx := by
    simp only [compileInteraction, compileEffects, List.filterMap_reverse, List.mem_reverse]
  have hid' : ∃ effect ∈ (compileInteraction config interaction rule).effects, effect.id = id := by
    obtain ⟨effect, heffect, heq⟩ := hid
    exact ⟨effect, hmem.mpr heffect, heq⟩
  have hnode {key : String} (hindices : KeyTemplate.indices key = []) :
      pass.node? engine key = (Graph.ofConfig config).nodes.get? key := by
    rw [Pass.node?, Pass.graph, hgraph, Graph.get?_of_indices hindices]
  obtain ⟨source, hsource_node, -⟩ := Graph.exists_node_of_mem_accepted hdeclared
  obtain ⟨effect, heffect, heffect_id⟩ := hid'
  have heffect_target : effect.target = id.target := by
    rw [← heffect_id, id_eq_of_mem_effects hdeclared heffect]
  obtain ⟨target, htarget_node, entry, hentry, hentry_id⟩ :=
    Graph.exists_entry hdeclared heffect (heffect_target ▸ hother)
  rw [heffect_target] at htarget_node
  refine ⟨source, target, (hnode hsource_indices).trans hsource_node,
    (hnode htarget_indices).trans htarget_node, ?_, ?_, entry, hentry,
    hentry_id.trans heffect_id, ?_⟩
  · rw [(foldl_selectInteraction pass c rule.key source.triggers [] (.refl engine)).2]
    have hside := filter_outgoing (c := c) hlegible hsource_indices hsource_node hdeclared rfl
      ⟨effect, heffect, heffect_id⟩ hother htarget hunapplied
    rwa [chosen?_compileInteraction] at hside
  · rw [(foldl_selectIncoming pass d id.target target.effects [] (.refl engine)).2, List.nil_append]
    have hside := filter_incoming (d := d) hlegible htarget_indices htarget_node hdeclared
      ⟨effect, heffect, heffect_id⟩ rfl hother.symm hsource hunapplied
    rwa [chosen?_compileInteraction] at hside
  · obtain ⟨ci, hci, hindex, -, -, -, hvariants⟩ := Graph.variants_eq htarget_node hentry
    rw [hentry_id, id_eq_of_mem_effects hdeclared heffect] at hindex
    obtain rfl := accepted_eq_of_index_eq hci hdeclared hindex
    rw [(firstOpen_eq pass id.target id.encode entry.variants (.refl engine)).2, hvariants,
      hentry_id, heffect_id, List.find?_map, Option.map_map, Option.map_map,
      ← chosen?_compileInteraction]
    rfl

/-- Of two alternatives of which the first one is closed, both sides select the second one. -/
theorem cascades_agree_closed :
    let interaction := ((Interaction.ofTrigger "a" .click).withEffect
      (((Effect.byId "f").on "b").withConditions ["wide"])).withEffect ((Effect.byId "f").on "b")
    let config := (Config.ofInteractions [interaction]).withCondition "wide" ⟨.media, "wide"⟩
    let rule := ruleOf interaction "a" 0
    let engine := { (start .bare .standard).run [.addNode 1 "a", .addNode 2 "b"] with
      instances := [Instance.ofConfig config], live := [0] }
    let pass : Pass := ⟨0, none⟩
    ((firstDeclared? config engine 0 interaction rule ⟨"b", "f", 0⟩).map
        fun effect => effect.effect.conditions) = some [] ∧
      ∃ source target, pass.node? engine "a" = some source ∧ pass.node? engine "b" = some target ∧
        (source.triggers.foldl (pass.selectInteraction 0 "a") (engine, [])).2.filter
          (fun candidate => candidate.memoKey = "b::f::0") =
        (target.effects.foldl (pass.selectIncoming 1 "b") (engine, [])).2.filter
          (fun candidate => candidate.memoKey = "b::f::0") := by
  intro interaction config rule engine pass
  have hlegible : config.IsLegible := by
    rintro variant variant' ⟨ci, hci, -, heffect⟩ ⟨ci', hci', -, heffect'⟩ -
    have hids : ∀ ci ∈ accepted config, ∀ effect ∈ ci.effects, effect.id = ⟨"b", "f", 0⟩ := by
      decide +kernel
    rw [hids ci hci _ heffect, hids ci' hci' _ heffect']
  have hgraph : (engine.inst 0).graph = Graph.ofConfig config := rfl
  have hdeclared : compileInteraction config interaction rule ∈ accepted config := .head _
  have hid : ∃ effect ∈ compileEffects config.effects rule interaction.effects.zipIdx,
      effect.id = ⟨"b", "f", 0⟩ := by decide +kernel
  have hsource : engine.connectedController? rule.key = some 0 := by decide +kernel
  have htarget : engine.connectedController? "b" = some 1 := by decide +kernel
  obtain ⟨source, target, hsource, htarget, hout, hin, -⟩ :=
    cascades_agree hlegible hgraph hdeclared
    hid (by decide) (by decide +kernel) (by decide +kernel) hsource htarget (by decide +kernel)
  exact ⟨by decide +kernel, source, target, hsource, htarget, hout.trans hin.symm⟩

end Engine.Pass

end InteractionBinding
