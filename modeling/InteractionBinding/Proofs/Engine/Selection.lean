import InteractionBinding.Proofs.Engine.Scene
import Mathlib.Data.List.Induction
import Mathlib.Data.List.Nodup
/-!
# What a pass selects

Selecting candidates subscribes to queries and watches containers, and changes nothing else
(`Engine.Quiet`). What is selected is therefore a function of the engine that the pass starts from:
`Pass.outgoing` for a source and `Pass.incoming` for a target. Of several outgoing candidates with
one id the one offered last is kept (`Pass.mem_foldl_selectCandidate`), so no two of them share an
id (`Pass.nodup_foldl_selectCandidate`).
-/

namespace InteractionBinding.Engine

/-- One engine comes from another without a change of the scene, of the log and of what has been
applied. -/
structure Quiet (before after : Engine) : Prop where
  scene : after.scene = before.scene
  log : after.log = before.log
  memo (i : InstanceId) : (after.inst i).memo = (before.inst i).memo

namespace Quiet

variable {before middle after : Engine}

@[refl]
theorem refl (engine : Engine) : Quiet engine engine := ⟨rfl, rfl, fun _ => rfl⟩

theorem trans (first : Quiet before middle) (second : Quiet middle after) : Quiet before after :=
  ⟨second.scene.trans first.scene, second.log.trans first.log,
    fun i => (second.memo i).trans (first.memo i)⟩

theorem events (h : Quiet before after) : after.events = before.events := by
  rw [Engine.events, Engine.events, h.log]

theorem connectedController? (h : Quiet before after) (key : String) :
    after.connectedController? key = before.connectedController? key := by
  rw [connectedController?_eq, connectedController?_eq, h.scene]

theorem currentGate (h : Quiet before after) (pass : Pass) (lists : List (List String)) :
    pass.currentGate after lists = pass.currentGate before lists := by
  rw [Pass.currentGate_eq, Pass.currentGate_eq, h.scene]

theorem node? (h : Quiet before after) (pass : Pass) (key : String) :
    pass.node? after key = pass.node? before key := by
  rw [Pass.node?_eq, Pass.node?_eq, h.scene]

theorem alreadyApplied (h : Quiet before after) (pass : Pass) (memoKey : String) :
    pass.alreadyApplied after memoKey = pass.alreadyApplied before memoKey := by
  simp only [Pass.alreadyApplied, Instance.isApplied, h.memo]

theorem targetController? (h : Quiet before after) (source : ControllerId) (rule : Rule)
    (effect : CompiledEffect) (targetKey : String) :
    Pass.targetController? after source rule effect targetKey =
      Pass.targetController? before source rule effect targetKey := by
  rw [Pass.targetController?, Pass.targetController?, h.connectedController?]

end Quiet

variable (engine : Engine)

theorem quiet_modifyInstance {i : InstanceId} {f : Instance → Instance}
    (hface : ∀ inst, (f inst).face = inst.face) (hmemo : ∀ inst, (f inst).memo = inst.memo) :
    Quiet engine (engine.modifyInstance i f) := by
  refine ⟨scene_modifyInstance hface, rfl, fun j => ?_⟩
  rw [inst_modifyInstance_eq]
  split
  · exact hmemo _
  · rfl

theorem quiet_listen (i : InstanceId) (id source target : String) (query : Query)
    (listener : QueryListener) :
    Quiet engine (engine.listen i id source target query listener).1 := by
  refine listen_ind (.refl engine) ⟨scene_modifyInstance fun _ => rfl, rfl, fun j => ?_⟩
  rw [inst_modifyInstance_eq]
  split <;> rfl

theorem quiet_watchChildList (c : ControllerId) (container : String) (item : Option String) :
    Quiet engine (engine.watchChildList c container item).1 :=
  watchChildList_ind (.refl engine) fun _ _ =>
    ⟨scene_modifyController fun _ => rfl, rfl, fun _ => rfl⟩

theorem quiet_markItem (c : ControllerId) (id : String) (item : NodeId) :
    Quiet engine (engine.markItem c id item).1 :=
  markItem_ind (fun _ => .refl engine) ⟨scene_modifyController fun _ => rfl, rfl, fun _ => rfl⟩

namespace Pass

variable {engine}

theorem quiet_gateFor (pass : Pass) (engine : Engine) (memoKey source target : String)
    (lists : List (List String)) :
    Quiet engine (pass.gateFor engine memoKey source target lists).1 := by
  simp only [gateFor]
  generalize (pass.currentGate engine lists).liveQueries = queries
  induction queries generalizing engine with
  | nil => exact .refl _
  | cons query rest ih => exact (quiet_listen ..).trans (ih _)

theorem quiet_watchRule (pass : Pass) (engine : Engine) (c : ControllerId) (rule : Rule) :
    Quiet engine (pass.watchRule engine c rule) := by
  rw [watchRule]
  split
  · split
    · exact quiet_watchChildList ..
    · exact .refl _
  · exact .refl _

/-! ### Outgoing candidates -/

/-- The candidate that an effect of a rule makes, its source being resolved. -/
def outgoing? (pass : Pass) (engine : Engine) (c : ControllerId) (key : String) (rule : Rule)
    (effect : CompiledEffect) : Option Candidate :=
  let id := effect.id.interpolate (KeyTemplate.indices key)
  let gate := pass.currentGate engine [rule.conditions, effect.effect.conditions]
  if !gate.isOpen || pass.alreadyApplied engine id.encode then none
  else
    match targetController? engine c rule effect
        (KeyTemplate.interpolate effect.target (KeyTemplate.indices key)) with
    | none => none
    | some target =>
      if pass.inScope rule effect c target then some ⟨id, rule, effect, c, target, gate⟩ else none

/-- The candidates that the effects of a node make, in the order in which they are offered. -/
def offered (pass : Pass) (engine : Engine) (c : ControllerId) (key : String)
    (node : GraphNode) : List Candidate :=
  node.triggers.flatMap fun interaction =>
    interaction.effects.filterMap (pass.outgoing? engine c key interaction.rule)

/-- The candidates selected for a source. -/
def outgoing (pass : Pass) (engine : Engine) (c : ControllerId) (key : String)
    (node : GraphNode) : List Candidate :=
  (pass.offered engine c key node).foldl selectCandidate []

theorem outgoing?_congr {before after : Engine} (h : Quiet before after) (pass : Pass)
    (c : ControllerId) (key : String) (rule : Rule) (effect : CompiledEffect) :
    pass.outgoing? after c key rule effect = pass.outgoing? before c key rule effect := by
  simp only [outgoing?, h.currentGate, h.alreadyApplied, h.targetController?]

theorem selectOutgoing_eq (pass : Pass) (c : ControllerId) (key : String) (rule : Rule)
    (selected : List Candidate) (effect : CompiledEffect) :
    pass.selectOutgoing c key rule (engine, selected) effect =
      ((pass.gateFor engine (effect.id.interpolate (KeyTemplate.indices key)).encode key
          (KeyTemplate.interpolate effect.target (KeyTemplate.indices key))
          [rule.conditions, effect.effect.conditions]).1,
        (pass.outgoing? engine c key rule effect).toList.foldl selectCandidate selected) := by
  have hquiet := pass.quiet_gateFor engine
    (effect.id.interpolate (KeyTemplate.indices key)).encode key
    (KeyTemplate.interpolate effect.target (KeyTemplate.indices key))
    [rule.conditions, effect.effect.conditions]
  have hgate : (pass.gateFor engine (effect.id.interpolate (KeyTemplate.indices key)).encode key
      (KeyTemplate.interpolate effect.target (KeyTemplate.indices key))
      [rule.conditions, effect.effect.conditions]).2 =
      pass.currentGate engine [rule.conditions, effect.effect.conditions] := rfl
  simp only [selectOutgoing, outgoing?, hgate, hquiet.alreadyApplied, hquiet.targetController?]
  split
  · rfl
  · cases targetController? engine c rule effect
      (KeyTemplate.interpolate effect.target (KeyTemplate.indices key)) with
    | none => rfl
    | some target =>
      dsimp only
      split <;> rfl

theorem foldl_selectOutgoing {start : Engine} (pass : Pass) (c : ControllerId) (key : String)
    (rule : Rule) (effects : List CompiledEffect) (selected : List Candidate)
    (h : Quiet start engine) :
    Quiet start (effects.foldl (pass.selectOutgoing c key rule) (engine, selected)).1 ∧
      (effects.foldl (pass.selectOutgoing c key rule) (engine, selected)).2 =
        (effects.filterMap (pass.outgoing? start c key rule)).foldl selectCandidate selected := by
  induction effects generalizing engine selected with
  | nil => exact ⟨h, rfl⟩
  | cons effect rest ih =>
    rw [List.foldl_cons, selectOutgoing_eq, outgoing?_congr h]
    obtain ⟨hquiet, hselected⟩ := ih
      ((pass.outgoing? start c key rule effect).toList.foldl selectCandidate selected)
      (h.trans (pass.quiet_gateFor ..))
    refine ⟨hquiet, hselected.trans ?_⟩
    rw [List.filterMap_cons]
    cases pass.outgoing? start c key rule effect <;> rfl

theorem foldl_selectInteraction {start : Engine} (pass : Pass) (c : ControllerId) (key : String)
    (triggers : List CompiledInteraction) (selected : List Candidate) (h : Quiet start engine) :
    Quiet start (triggers.foldl (pass.selectInteraction c key) (engine, selected)).1 ∧
      (triggers.foldl (pass.selectInteraction c key) (engine, selected)).2 =
        (triggers.flatMap fun interaction =>
          interaction.effects.filterMap
            (pass.outgoing? start c key interaction.rule)).foldl selectCandidate selected := by
  induction triggers generalizing engine selected with
  | nil => exact ⟨h, rfl⟩
  | cons interaction rest ih =>
    obtain ⟨hquiet, hselected⟩ := foldl_selectOutgoing pass c key interaction.rule
      interaction.effects selected (h.trans (pass.quiet_watchRule engine c interaction.rule))
    obtain ⟨hquiet', hselected'⟩ := ih
      (interaction.effects.foldl (pass.selectOutgoing c key interaction.rule)
        (pass.watchRule engine c interaction.rule, selected)).2 hquiet
    rw [List.foldl_cons, List.flatMap_cons, List.foldl_append, ← hselected]
    exact ⟨hquiet', hselected'⟩

/-- Resolving a source is wiring the candidates selected for it. -/
theorem resolveOutgoing_eq {pass : Pass} {c : ControllerId} {key : String} {node : GraphNode}
    (h : pass.node? engine key = some node) :
    Quiet engine (node.triggers.foldl (pass.selectInteraction c key) (engine, [])).1 ∧
      pass.resolveOutgoing engine c key =
        pass.applySelected (node.triggers.foldl (pass.selectInteraction c key) (engine, [])).1
          (pass.outgoing engine c key node) := by
  obtain ⟨hquiet, hselected⟩ :=
    foldl_selectInteraction pass c key node.triggers [] (.refl engine)
  refine ⟨hquiet, ?_⟩
  simp only [resolveOutgoing, h]
  rw [hselected]
  rfl

theorem outgoing?_eq_some {pass : Pass} {c : ControllerId} {key : String} {rule : Rule}
    {effect : CompiledEffect} {candidate : Candidate} :
    pass.outgoing? engine c key rule effect = some candidate ↔
      ∃ target, (pass.currentGate engine [rule.conditions, effect.effect.conditions]).isOpen ∧
        pass.alreadyApplied engine
            (effect.id.interpolate (KeyTemplate.indices key)).encode = false ∧
        targetController? engine c rule effect
          (KeyTemplate.interpolate effect.target (KeyTemplate.indices key)) = some target ∧
        pass.inScope rule effect c target ∧
        candidate = ⟨effect.id.interpolate (KeyTemplate.indices key), rule, effect, c, target,
          pass.currentGate engine [rule.conditions, effect.effect.conditions]⟩ := by
  rw [outgoing?]
  split
  · grind
  · split
    · grind
    · split <;> grind

/-! ### Candidates that replace others -/

theorem nodup_selectCandidate {selected : List Candidate} (candidate : Candidate)
    (h : (selected.map Candidate.memoKey).Nodup) :
    ((selectCandidate selected candidate).map Candidate.memoKey).Nodup := by
  have hkeys : ((selected.eraseP fun other => other.memoKey = candidate.memoKey).map
      Candidate.memoKey) = (selected.map Candidate.memoKey).erase candidate.memoKey := by
    rw [List.erase_eq_eraseP', List.eraseP_map]
    congr 2
  rw [selectCandidate, List.map_append, hkeys, List.map_singleton]
  refine List.Nodup.append (h.erase _) (List.nodup_singleton _) ?_
  rw [List.disjoint_singleton]
  exact fun hmem => h.not_mem_erase hmem

/-- No two of the selected candidates share an id. -/
theorem nodup_foldl_selectCandidate (offers : List Candidate) :
    ((offers.foldl selectCandidate []).map Candidate.memoKey).Nodup := by
  induction offers using List.reverseRecOn with
  | nil => exact List.nodup_nil
  | append_singleton front last ih =>
    rw [List.foldl_append]
    exact nodup_selectCandidate last ih

theorem mem_selectCandidate {selected : List Candidate} {candidate other : Candidate}
    (h : (selected.map Candidate.memoKey).Nodup) :
    other ∈ selectCandidate selected candidate ↔
      other = candidate ∨ other ∈ selected ∧ other.memoKey ≠ candidate.memoKey := by
  rw [selectCandidate, List.mem_append, List.mem_singleton, or_comm]
  refine or_congr_right ?_
  induction selected with
  | nil => simp
  | cons first rest ih =>
    rw [List.map_cons, List.nodup_cons] at h
    rw [List.eraseP_cons]
    by_cases heq : first.memoKey = candidate.memoKey
    · have hne : ∀ member ∈ rest, member.memoKey ≠ candidate.memoKey := fun member hmem hsame =>
        h.1 (heq ▸ hsame ▸ List.mem_map_of_mem hmem)
      simp only [heq, decide_true, cond_true, List.mem_cons]
      refine ⟨fun hmem => ⟨.inr hmem, hne other hmem⟩, ?_⟩
      rintro ⟨rfl | hmem, hother⟩
      · exact absurd heq hother
      · exact hmem
    · simp only [heq, decide_false, cond_false, List.mem_cons, ih h.2]
      refine ⟨?_, fun ⟨hmem, hother⟩ => hmem.imp id fun hrest => ⟨hrest, hother⟩⟩
      rintro (rfl | ⟨hmem, hother⟩)
      · exact ⟨.inl rfl, heq⟩
      · exact ⟨.inr hmem, hother⟩

/-- Of the candidates offered for an id the last one is selected. -/
theorem mem_foldl_selectCandidate {offers : List Candidate} {candidate : Candidate} :
    candidate ∈ offers.foldl selectCandidate [] ↔
      offers.reverse.find? (fun other => other.memoKey = candidate.memoKey) = some candidate := by
  induction offers using List.reverseRecOn with
  | nil => simp
  | append_singleton front last ih =>
    rw [List.foldl_append, List.foldl_cons, List.foldl_nil,
      mem_selectCandidate (nodup_foldl_selectCandidate front), ih, List.reverse_append,
      List.reverse_singleton, List.singleton_append, List.find?_cons]
    by_cases heq : last.memoKey = candidate.memoKey
    · simp only [heq, decide_true]
      refine ⟨?_, fun hsome => .inl (Option.some.inj hsome).symm⟩
      rintro (hsame | ⟨-, hne⟩)
      · rw [hsame]
      · exact absurd rfl hne
    · simp only [heq, decide_false]
      refine ⟨?_, fun hfind => .inr ⟨hfind, fun hsame => heq hsame.symm⟩⟩
      rintro (hsame | ⟨hfind, -⟩)
      · exact absurd (congrArg Candidate.memoKey hsame.symm) heq
      · exact hfind

theorem mem_offered_of_mem_outgoing {pass : Pass} {c : ControllerId} {key : String}
    {node : GraphNode} {candidate : Candidate} (h : candidate ∈ pass.outgoing engine c key node) :
    candidate ∈ pass.offered engine c key node := by
  have hfind := mem_foldl_selectCandidate.mp h
  exact List.mem_reverse.mp (List.mem_of_find?_eq_some hfind)

/-! ### Incoming candidates -/

/-- Whether the gate of a variant is open. -/
def isOpen (pass : Pass) (engine : Engine) (variant : Variant) : Bool :=
  (pass.currentGate engine [variant.rule.conditions, variant.effect.effect.conditions]).isOpen

/-- The candidate that the alternatives of an id make, their target being resolved. -/
def incoming? (pass : Pass) (engine : Engine) (c : ControllerId) (key : String)
    (entry : TargetEffects) : Option Candidate :=
  let id := entry.id.interpolate (KeyTemplate.indices key)
  if pass.alreadyApplied engine id.encode then none
  else
    match entry.variants.find? (pass.isOpen engine) with
    | none => none
    | some variant =>
      match engine.connectedController?
          (KeyTemplate.interpolate variant.rule.key (KeyTemplate.indices key)) with
      | none => none
      | some source =>
        if pass.inScope variant.rule variant.effect source c then
          some ⟨id, variant.rule, variant.effect, source, c,
            pass.currentGate engine [variant.rule.conditions, variant.effect.effect.conditions]⟩
        else none

/-- The candidates selected for a target. -/
def incoming (pass : Pass) (engine : Engine) (c : ControllerId) (key : String)
    (node : GraphNode) : List Candidate :=
  node.effects.filterMap (pass.incoming? engine c key)

theorem incoming?_eq_some {pass : Pass} {c : ControllerId} {key : String} {entry : TargetEffects}
    {candidate : Candidate} :
    pass.incoming? engine c key entry = some candidate ↔
      ∃ variant source,
        pass.alreadyApplied engine (entry.id.interpolate (KeyTemplate.indices key)).encode = false ∧
        entry.variants.find? (pass.isOpen engine) = some variant ∧
        engine.connectedController?
          (KeyTemplate.interpolate variant.rule.key (KeyTemplate.indices key)) = some source ∧
        pass.inScope variant.rule variant.effect source c ∧
        candidate = ⟨entry.id.interpolate (KeyTemplate.indices key), variant.rule, variant.effect,
          source, c, pass.currentGate engine
            [variant.rule.conditions, variant.effect.effect.conditions]⟩ := by
  rw [incoming?]
  split
  · grind
  · split
    · grind
    · split
      · grind
      · split <;> grind

theorem isOpen_congr {before after : Engine} (h : Quiet before after) (pass : Pass) :
    pass.isOpen after = pass.isOpen before := by
  funext variant
  rw [isOpen, isOpen, h.currentGate]

theorem firstOpen_eq {start : Engine} (pass : Pass) (key memoKey : String)
    (variants : List Variant) (h : Quiet start engine) :
    Quiet start (pass.firstOpen key memoKey engine variants).1 ∧
      (pass.firstOpen key memoKey engine variants).2 =
        (variants.find? (pass.isOpen start)).map fun variant =>
          (variant, KeyTemplate.interpolate variant.rule.key (KeyTemplate.indices key),
            pass.currentGate start
              [variant.rule.conditions, variant.effect.effect.conditions]) := by
  induction variants generalizing engine with
  | nil => exact ⟨h, rfl⟩
  | cons variant rest ih =>
    have hgate := h.currentGate pass [variant.rule.conditions, variant.effect.effect.conditions]
    have hquiet := h.trans (pass.quiet_gateFor engine memoKey
      (KeyTemplate.interpolate variant.rule.key (KeyTemplate.indices key)) key
      [variant.rule.conditions, variant.effect.effect.conditions])
    rw [firstOpen]
    simp only [gateFor, hgate] at hquiet ⊢
    rw [List.find?_cons, isOpen]
    split
    next hopen => exact ⟨hquiet, by simp [hopen]⟩
    next hclosed =>
      simp only [Bool.not_eq_true] at hclosed
      rw [hclosed]
      exact ih hquiet

theorem selectIncoming_eq {start : Engine} (pass : Pass) (c : ControllerId) (key : String)
    (selected : List Candidate) (entry : TargetEffects) (h : Quiet start engine) :
    Quiet start (pass.selectIncoming c key (engine, selected) entry).1 ∧
      (pass.selectIncoming c key (engine, selected) entry).2 =
        selected ++ (pass.incoming? start c key entry).toList := by
  obtain ⟨hquiet, hfirst⟩ := firstOpen_eq pass key
    (entry.id.interpolate (KeyTemplate.indices key)).encode entry.variants h
  simp only [selectIncoming, incoming?, h.alreadyApplied]
  split
  · exact ⟨h, by simp⟩
  · generalize pass.firstOpen key (entry.id.interpolate (KeyTemplate.indices key)).encode engine
      entry.variants = result at hquiet hfirst
    obtain ⟨heard, found⟩ := result
    dsimp only at hquiet hfirst
    subst hfirst
    cases entry.variants.find? (pass.isOpen start) with
    | none => exact ⟨hquiet, by simp⟩
    | some variant =>
      simp only [Option.map_some, hquiet.connectedController?]
      cases start.connectedController?
          (KeyTemplate.interpolate variant.rule.key (KeyTemplate.indices key)) with
      | none => exact ⟨hquiet, by simp⟩
      | some source =>
        dsimp only
        split
        · exact ⟨hquiet, rfl⟩
        · exact ⟨hquiet, by simp⟩

theorem foldl_selectIncoming {start : Engine} (pass : Pass) (c : ControllerId) (key : String)
    (entries : List TargetEffects) (selected : List Candidate) (h : Quiet start engine) :
    Quiet start (entries.foldl (pass.selectIncoming c key) (engine, selected)).1 ∧
      (entries.foldl (pass.selectIncoming c key) (engine, selected)).2 =
        selected ++ entries.filterMap (pass.incoming? start c key) := by
  induction entries generalizing engine selected with
  | nil => exact ⟨h, by simp⟩
  | cons entry rest ih =>
    obtain ⟨hquiet, hselected⟩ := selectIncoming_eq pass c key selected entry h
    obtain ⟨hquiet', hselected'⟩ :=
      ih (pass.selectIncoming c key (engine, selected) entry).2 hquiet
    refine ⟨hquiet', hselected'.trans ?_⟩
    rw [hselected, List.filterMap_cons]
    cases pass.incoming? start c key entry <;> simp

/-- Resolving a target is wiring the candidates selected for it. -/
theorem resolveIncoming_eq {pass : Pass} {c : ControllerId} {key : String} {node : GraphNode}
    (h : pass.node? engine key = some node) :
    Quiet engine (node.effects.foldl (pass.selectIncoming c key) (engine, [])).1 ∧
      pass.resolveIncoming engine c key =
        pass.applySelected (node.effects.foldl (pass.selectIncoming c key) (engine, [])).1
          (pass.incoming engine c key node) := by
  obtain ⟨hquiet, hselected⟩ := foldl_selectIncoming pass c key node.effects [] (.refl engine)
  refine ⟨hquiet, ?_⟩
  simp only [resolveIncoming, h]
  rw [hselected]
  rfl

end Pass

end InteractionBinding.Engine
