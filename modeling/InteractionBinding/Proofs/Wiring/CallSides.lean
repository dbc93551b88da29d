import InteractionBinding.Proofs.Wiring.Entering
/-!
# The order of calls from both sides

If the source of an interaction connects last, the ids of its effects on the other key are called
for in the order of their first open alternatives; if the target connects last, in the order of
their last declared alternatives (`Engine.run_connect_sides`). Under each id both sides call for the
same pairs, so the two sequences of calls are equal exactly if the ids that are called for at all
come in one order. An interaction that declares every id once is called for in declared order from
both sides.
-/

namespace InteractionBinding

open Compile
open Engine (Candidate Pass)

/-! ### Lists -/

/-- Of what the members of a list are expanded to, the values with the key of one member are those
of this member. -/
theorem filter_flatMap_of_nodup {α β : Type} {l : List α} {f : α → List β} {member : α → Nat}
    {value : β → Nat} (hnodup : (l.map member).Nodup)
    (hvalue : ∀ a ∈ l, ∀ b ∈ f a, value b = member a) {a : α} (ha : a ∈ l) :
    (l.flatMap f).filter (fun b => value b = member a) = f a := by
  induction l with
  | nil => cases ha
  | cons first rest ih =>
    obtain ⟨hfirst, hrest⟩ := List.nodup_cons.mp hnodup
    obtain ⟨hvalue_first, hvalue_rest⟩ := List.forall_mem_cons.mp hvalue
    rw [List.flatMap_cons, List.filter_append]
    rcases List.mem_cons.mp ha with rfl | ha
    · rw [List.filter_eq_self.mpr fun b hb => decide_eq_true (hvalue_first b hb),
        List.filter_eq_nil_iff.mpr, List.append_nil]
      intro b hb hsame
      obtain ⟨other, hother, hb⟩ := List.mem_flatMap.mp hb
      have heq := (hvalue_rest other hother b hb).symm.trans (of_decide_eq_true hsame)
      exact hfirst (heq ▸ List.mem_map_of_mem hother)
    · rw [ih hrest hvalue_rest ha, List.filter_eq_nil_iff.mpr, List.nil_append]
      intro b hb hsame
      have heq := (hvalue_first b hb).symm.trans (of_decide_eq_true hsame)
      exact hfirst (heq ▸ List.mem_map_of_mem ha)

/-- If every block shows which member it belongs to, two lists expand to the same blocks exactly if
their members with a block are the same. -/
theorem flatMap_eq_flatMap_iff {α β : Type} [DecidableEq α] {f : α → List β} {tag : β → α}
    (htag : ∀ a, ∀ b ∈ f a, tag b = a) (l l' : List α) :
    l.flatMap f = l'.flatMap f ↔
      l.filter (fun a => !(f a).isEmpty) = l'.filter fun a => !(f a).isEmpty := by
  have hfilter (l : List α) : l.flatMap f = (l.filter fun a => !(f a).isEmpty).flatMap f := by
    induction l with
    | nil => rfl
    | cons a rest ih =>
      rw [List.flatMap_cons, ih, List.filter_cons]
      cases hempty : (f a).isEmpty with
      | true => rw [List.isEmpty_iff.mp hempty]; rfl
      | false => rfl
  have hne (l : List α) (a : α) (ha : a ∈ l.filter fun a => !(f a).isEmpty) : f a ≠ [] := by
    simpa using (List.mem_filter.mp ha).2
  refine ⟨fun h => ?_, fun h => by rw [hfilter l, hfilter l', h]⟩
  rw [hfilter l, hfilter l'] at h
  have hl := hne l
  have hl' := hne l'
  generalize l.filter (fun a => !(f a).isEmpty) = l at h hl
  generalize l'.filter (fun a => !(f a).isEmpty) = l' at h hl'
  clear hfilter hne
  induction l generalizing l' with
  | nil =>
    cases l' with
    | nil => rfl
    | cons a' rest' =>
      exact absurd (List.append_eq_nil_iff.mp h.symm).1 (hl' a' List.mem_cons_self)
  | cons a rest ih =>
    cases l' with
    | nil => exact absurd (List.append_eq_nil_iff.mp h).1 (hl a List.mem_cons_self)
    | cons a' rest' =>
      -- the first value shows that the first blocks belong to one member
      obtain ⟨b, block, hb⟩ := List.exists_cons_of_ne_nil (hl a List.mem_cons_self)
      obtain ⟨b', block', hb'⟩ := List.exists_cons_of_ne_nil (hl' a' List.mem_cons_self)
      rw [List.flatMap_cons, List.flatMap_cons, hb, hb', List.cons_append, List.cons_append] at h
      obtain rfl := (List.cons.inj h).1
      obtain rfl : a = a' := by
        rw [← htag a b (hb ▸ List.mem_cons_self), htag a' b (hb' ▸ List.mem_cons_self)]
      rw [hb, List.cons.injEq] at hb'
      rw [hb'.2] at h
      have hrest := List.append_cancel_left (List.cons.inj h).2
      rw [ih (fun x hx => hl x (List.mem_cons_of_mem _ hx)) rest' hrest
        fun x hx => hl' x (List.mem_cons_of_mem _ hx)]

/-! ### The entries of a target -/

namespace NodeEdit

theorem filter_pushVariant (index : Nat) (variant : Variant) (entries : List TargetEffects) :
    (pushVariant variant entries).filter (fun entry => entry.id.index = index) =
      if variant.effect.id.index = index then
        pushVariant variant (entries.filter fun entry => entry.id.index = index)
      else entries.filter fun entry => entry.id.index = index := by
  induction entries with
  | nil => simp [pushVariant, List.filter_cons]
  | cons entry rest ih =>
    rw [pushVariant]
    by_cases hid : entry.id = variant.effect.id
    · by_cases hindex : variant.effect.id.index = index <;>
        simp [pushVariant, hid, hindex]
    · by_cases hentry : entry.id.index = index
      · simp only [if_neg hid, List.filter_cons, hentry, decide_true, if_true, ih]
        split
        · rw [pushVariant, if_neg hid]
        · rfl
      · simp only [if_neg hid, List.filter_cons, hentry, decide_false, Bool.false_eq_true, if_false,
          ih]

theorem filter_foldl_pushVariant (index : Nat) (variants : List Variant)
    (entries : List TargetEffects) :
    (variants.foldl (fun entries variant => pushVariant variant entries) entries).filter
        (fun entry => entry.id.index = index) =
      (variants.filter fun variant => variant.effect.id.index = index).foldl
        (fun entries variant => pushVariant variant entries)
        (entries.filter fun entry => entry.id.index = index) := by
  induction variants generalizing entries with
  | nil => rfl
  | cons variant rest ih =>
    rw [List.foldl_cons, ih, filter_pushVariant, List.filter_cons]
    by_cases hindex : variant.effect.id.index = index <;> simp [hindex]

/-- Entries come in the order in which their ids are pushed for the first time. -/
theorem map_id_foldl_pushVariant (variants : List Variant) :
    (variants.foldl (fun entries variant => pushVariant variant entries) []).map TargetEffects.id =
      ((variants.map fun variant => variant.effect.id).reverse.dedup).reverse := by
  induction variants using List.reverseRecOn with
  | nil => rfl
  | append_singleton front last ih =>
    rw [List.foldl_append, List.foldl_cons, List.foldl_nil, map_id_pushVariant, ih, List.map_append,
      List.map_singleton, List.reverse_append, List.reverse_singleton, List.singleton_append,
      List.dedup_cons]
    simp only [List.mem_reverse, List.mem_dedup]
    split <;> simp

end NodeEdit

/-- A target lists the ids of an interaction in reverse of the order of their last declared
alternatives. -/
theorem Graph.map_id_entries {config : Config} {ci : CompiledInteraction}
    (hci : ci ∈ accepted config) {target : String} {node : GraphNode}
    (hnode : (Graph.ofConfig config).nodes.get? target = some node)
    (htargets : ∀ effect ∈ ci.effects, effect.target = target) (hother : target ≠ ci.rule.key) :
    (node.effects.filter fun entry => entry.id.index = ci.rule.index).map TargetEffects.id =
      ((ci.declared.map CompiledEffect.id).dedup).reverse := by
  have hvariants : ((accepted config).flatMap (variantsTo target)).filter
      (fun variant => variant.effect.id.index = ci.rule.index) =
        ci.effects.map (Variant.mk ci.rule) := by
    rw [filter_flatMap_of_nodup (nodup_index_accepted config)
      (fun other hmem variant hvariant => id_index_of_mem_variantsTo hmem hvariant) hci, variantsTo,
      List.filter_eq_self.mpr]
    intro effect heffect
    rw [htargets effect heffect]
    simpa using hother
  rw [Graph.effects_eq hnode, NodeEdit.filter_foldl_pushVariant, hvariants, List.filter_nil,
    NodeEdit.map_id_foldl_pushVariant, List.map_map, CompiledInteraction.declared, List.map_reverse]
  rfl

namespace Engine

variable {engine : Engine} {config : Config} {i : InstanceId} {ci : CompiledInteraction}
  {c d : ControllerId} {key name source target : String} {cue : Cue}

/-! ### Two ends that meet -/

/-- The text of an effect of an interaction for a concrete source key. -/
def textOf (source : String) (effect : CompiledEffect) : String :=
  (effect.id.interpolate (KeyTemplate.indices source)).encode

/-- The source and the target of an interaction that declares all its effects on the other key. No
connected controller is registered under their keys, nothing has been applied for the effects, and
no sequence of the interaction has the text of one of them. -/
structure Meets (engine : Engine) (config : Config) (i : InstanceId) (ci : CompiledInteraction)
    (name : String) (c d : ControllerId) (source target : String) : Prop where
  declared : ci ∈ accepted config
  graph : (engine.inst i).graph = .ofConfig config
  live : i ∈ engine.live
  targets : ∀ effect ∈ ci.effects, effect.target = name
  other : name ≠ ci.rule.key
  source_name : (Graph.ofConfig config).resolveKey source = some ci.rule.key
  target_name : (Graph.ofConfig config).resolveKey target = some name
  /-- The two concrete keys find one another. -/
  indices : KeyTemplate.indices target = KeyTemplate.indices source
  source_found : KeyTemplate.interpolate ci.rule.key (KeyTemplate.indices target) = source
  target_found : KeyTemplate.interpolate name (KeyTemplate.indices source) = target
  ne : c ≠ d
  source_free : ∀ e, engine.registry.get? source = some e →
    e ≠ d ∧ (engine.controller e).connected = false
  target_free : ∀ e, engine.registry.get? target = some e →
    e ≠ c ∧ (engine.controller e).connected = false
  fresh : ∀ effect ∈ ci.effects, textOf source effect ∉ (engine.inst i).memo
  apart : ∀ effect ∈ ci.effects, ∀ sequence ∈ ci.sequences, textOf source effect ≠
    (sequence.id.interpolate (KeyTemplate.indices source)).encode

namespace Meets

variable {requested requestedTarget : Option String} {effect : CompiledEffect}

theorem key_ne (h : Meets engine config i ci name c d source target) : source ≠ target := by
  rintro rfl
  exact h.other (Option.some.inj (h.target_name.symm.trans h.source_name))

theorem index_eq (h : Meets engine config i ci name c d source target)
    (heffect : effect ∈ ci.effects) : effect.id.index = ci.rule.index := by
  rw [id_eq_of_mem_effects h.declared heffect]

/-- Effects of the interaction are told apart by their texts. -/
theorem textOf_inj (h : Meets engine config i ci name c d source target) {effect' : CompiledEffect}
    (heffect : effect ∈ ci.effects) (heffect' : effect' ∈ ci.effects) :
    textOf source effect = textOf source effect' ↔ effect.id = effect'.id := by
  refine ⟨fun htext => ?_, fun hid => by rw [textOf, textOf, hid]⟩
  rw [textOf, textOf] at htext
  have hid := id_eq_of_mem_effects h.declared heffect
  have hid' := id_eq_of_mem_effects h.declared heffect'
  rw [h.targets effect heffect] at hid
  rw [h.targets effect' heffect'] at hid'
  rw [hid, hid'] at htext ⊢
  have heq := @InteractionId.eq_of_encode_eq
    (InteractionId.interpolate ⟨name, effect.effectId, ci.rule.index⟩ _)
    (InteractionId.interpolate ⟨name, effect'.effectId, ci.rule.index⟩ _) rfl htext
  have heffectId : effect.effectId = effect'.effectId := congrArg InteractionId.effectId heq
  rw [heffectId]

/-- The interaction of a cue with the text of an effect. -/
theorem interaction_of_text (h : Meets engine config i ci name c d source target)
    (heffect : effect ∈ ci.effects) {other : CompiledInteraction} (hother : other ∈ accepted config)
    (hsequence : cue.sequence ∈ other.sequences) (htext : cue.text = textOf source effect) :
    other = ci := by
  have htexts : cue.id.index = (effect.id.interpolate (KeyTemplate.indices source)).index :=
    InteractionId.index_eq_of_encode_eq htext
  have hindex : cue.sequence.id.index = effect.id.index := htexts
  rw [h.index_eq heffect, index_of_mem_ids hother
    (List.mem_append_right _ (List.mem_map_of_mem hsequence))] at hindex
  exact accepted_eq_of_index_eq hother h.declared hindex

/-- A key that does not face the interaction leaves its effects as they are. -/
theorem after_silent (h : Meets engine config i ci name c d source target)
    (hlisted : engine.Listed) (hcompiled : engine.Compiled) (haccepts : engine.scene.Accepts)
    {e : ControllerId} (henters : engine.Enters e requested key) {own : String}
    (hname : (Graph.ofConfig config).resolveKey key = some own)
    (hsource : ci.rule.key = own → key = source)
    (hfaces : ¬(engine.entered e key).scene.Faces ci key own) :
    (engine.connect e requested).1.calls i (· = ci.rule.index) =
        engine.calls i (· = ci.rule.index) ∧
      ∀ effect ∈ ci.effects,
        textOf source effect ∉ ((engine.connect e requested).1.inst i).memo := by
  have hgraph : ((engine.entered e key).inst i).graph = .ofConfig config := h.graph
  have hselection : ∀ candidate ∈ (engine.entered e key).selection i e key,
      candidate.id.index ≠ ci.rule.index := by
    intro candidate hcandidate hindex
    obtain ⟨other, hother, hother_index, hother_faces⟩ :=
      exists_faces_of_mem_selection hgraph hname hcandidate
    obtain rfl := accepted_eq_of_index_eq hother h.declared (hother_index.symm.trans hindex)
    exact hfaces hother_faces
  constructor
  · rw [calls_connect hlisted hcompiled haccepts henters h.live,
      List.filter_eq_nil_iff.mpr fun candidate hcandidate => ?_, List.flatMap_nil, List.append_nil]
    simpa using hselection candidate hcandidate
  · intro effect heffect hmem
    rcases henters.mem_memo_connect hlisted hcompiled hmem with
      hmem | ⟨candidate, hcandidate, htext⟩ | ⟨cue, hcue, htext⟩
    · exact h.fresh effect heffect hmem
    · have hindex : candidate.id.index =
          (effect.id.interpolate (KeyTemplate.indices source)).index :=
        InteractionId.index_eq_of_encode_eq htext
      exact hselection candidate hcandidate (hindex.trans (h.index_eq heffect))
    · obtain ⟨other, hother, hsequence, hcases⟩ := exists_faces_of_mem_cues hgraph hname hcue
      obtain rfl := h.interaction_of_text heffect hother hsequence htext
      rcases hcases with ⟨hown, hkey⟩ | hother_faces
      · rw [Cue.text, Cue.id, hkey, hsource hown] at htext
        exact h.apart effect heffect cue.sequence hsequence htext.symm
      · exact hfaces hother_faces

/-- The target connects first: the source is not connected. -/
theorem after_target (h : Meets engine config i ci name c d source target)
    (hlisted : engine.Listed) (hcompiled : engine.Compiled) (haccepts : engine.scene.Accepts)
    (henters : engine.Enters d requested target) :
    (engine.connect d requested).1.calls i (· = ci.rule.index) =
        engine.calls i (· = ci.rule.index) ∧
      ∀ effect ∈ ci.effects,
        textOf source effect ∉ ((engine.connect d requested).1.inst i).memo := by
  have hfree : (engine.entered d target).scene.connectedController? source = none :=
    connectedController?_entered_of_free h.key_ne h.source_free
  refine h.after_silent hlisted hcompiled haccepts henters h.target_name
    (fun hown => absurd hown.symm h.other) ?_
  rintro (⟨hown, -⟩ | ⟨-, hsource⟩)
  · exact h.other hown.symm
  · rw [h.source_found, hfree] at hsource
    cases hsource

/-- The source connects first: the target is not connected. -/
theorem after_source (h : Meets engine config i ci name c d source target)
    (hlisted : engine.Listed) (hcompiled : engine.Compiled) (haccepts : engine.scene.Accepts)
    (henters : engine.Enters c requested source) :
    (engine.connect c requested).1.calls i (· = ci.rule.index) =
        engine.calls i (· = ci.rule.index) ∧
      ∀ effect ∈ ci.effects,
        textOf source effect ∉ ((engine.connect c requested).1.inst i).memo := by
  have hfree : (engine.entered c source).scene.connectedController? target = none :=
    connectedController?_entered_of_free h.key_ne.symm h.target_free
  refine h.after_silent hlisted hcompiled haccepts henters h.source_name (fun _ => rfl) ?_
  rintro (⟨-, effect, heffect, hown | htarget⟩ | ⟨hne, -⟩)
  · exact h.other ((h.targets effect heffect).symm.trans hown)
  · rw [h.targets effect heffect, h.target_found, hfree] at htarget
    cases htarget
  · exact hne rfl

end Meets

end Engine

/-! ### Calls under an id -/

namespace Scene

variable {scene : Scene} {i : InstanceId} {ci : CompiledInteraction} {c d : ControllerId}
  {source : String} {id : InteractionId}

/-- The effects of an interaction whose gates are open, in declared order. -/
def openEffects (scene : Scene) (i : InstanceId) (ci : CompiledInteraction) :
    List CompiledEffect :=
  ci.declared.filter fun effect => (scene.effectGate i ci.rule effect).isOpen

/-- The candidate of an effect of an interaction for two controllers. -/
def between (scene : Scene) (i : InstanceId) (ci : CompiledInteraction) (c d : ControllerId)
    (source : String) (effect : CompiledEffect) : Candidate :=
  ⟨effect.id.interpolate (KeyTemplate.indices source), ci.rule, effect, c, d,
    scene.effectGate i ci.rule effect⟩

/-- The candidate of the first open alternative of an id. -/
def firstOpen? (scene : Scene) (i : InstanceId) (ci : CompiledInteraction) (c d : ControllerId)
    (source : String) (id : InteractionId) : Option Candidate :=
  ((scene.openEffects i ci).find? fun effect => effect.id = id).map
    (scene.between i ci c d source)

/-- The calls for the first open alternative of an id. -/
def callsUnder (scene : Scene) (i : InstanceId) (ci : CompiledInteraction) (c d : ControllerId)
    (source : String) (id : InteractionId) : List Event :=
  ((scene.firstOpen? i ci c d source id).map (scene.callsOf i)).getD []

theorem mem_openEffects {effect : CompiledEffect} : effect ∈ scene.openEffects i ci ↔
    effect ∈ ci.effects ∧ (scene.effectGate i ci.rule effect).isOpen = true := by
  rw [openEffects, List.mem_filter, CompiledInteraction.declared, List.mem_reverse]

theorem effectId?_of_mem_callsUnder {event : Event}
    (h : event ∈ scene.callsUnder i ci c d source id) :
    ∃ effect ∈ scene.openEffects i ci, effect.id = id ∧
      event.effectId? = some effect.effectId := by
  rw [callsUnder, firstOpen?, Option.map_map] at h
  cases hfind : (scene.openEffects i ci).find? fun effect => effect.id = id with
  | none =>
    rw [hfind] at h
    cases h
  | some effect =>
    rw [hfind] at h
    obtain ⟨proposal, hproposal, rfl⟩ := List.mem_map.mp h
    obtain ⟨hcandidate, -, -⟩ := Engine.Pass.mem_proposals.mp hproposal
    refine ⟨effect, List.mem_of_find?_eq_some hfind, by simpa using List.find?_some hfind, ?_⟩
    simp [Engine.Proposal.call, Engine.Offer.event, Event.effectId?, Engine.Candidate.plan,
      hcandidate, between]

end Scene

namespace Engine

variable {engine : Engine} {config : Config} {i : InstanceId} {ci : CompiledInteraction}
  {c d : ControllerId} {name source target : String}

/-- If texts tell ids apart, of the candidates of effects the last one with each id stays. -/
theorem Pass.lastOfEach_map {effects : List CompiledEffect} {made : CompiledEffect → Candidate}
    (htext : ∀ effect ∈ effects, ∀ effect' ∈ effects,
      (made effect).memoKey = (made effect').memoKey ↔ effect.id = effect'.id) :
    lastOfEach (effects.map made) = (effects.map CompiledEffect.id).dedup.filterMap fun id =>
      (effects.reverse.find? fun effect => effect.id = id).map made := by
  induction effects with
  | nil => rfl
  | cons effect rest ih =>
    have hrest := ih fun effect heffect effect' heffect' =>
      htext effect (List.mem_cons_of_mem _ heffect) effect' (List.mem_cons_of_mem _ heffect')
    have hmem : (made effect).memoKey ∈ (rest.map made).map Candidate.memoKey ↔
        effect.id ∈ rest.map CompiledEffect.id := by
      simp only [List.mem_map, exists_exists_and_eq_and]
      refine exists_congr fun other => and_congr_right fun hother => ?_
      exact htext other (List.mem_cons_of_mem _ hother) effect List.mem_cons_self
    have hfind (id : InteractionId) (hid : id ∈ rest.map CompiledEffect.id) :
        (effect :: rest).reverse.find? (fun effect => effect.id = id) =
          rest.reverse.find? fun effect => effect.id = id := by
      obtain ⟨other, hother, rfl⟩ := List.mem_map.mp hid
      have hsome : (rest.reverse.find? fun effect => effect.id = other.id).isSome :=
        List.find?_isSome.mpr ⟨other, List.mem_reverse.mpr hother, decide_eq_true rfl⟩
      obtain ⟨found, hfound⟩ := Option.isSome_iff_exists.mp hsome
      rw [List.reverse_cons, List.find?_append, hfound, Option.some_or]
    have hkept : lastOfEach (rest.map made) =
        (rest.map CompiledEffect.id).dedup.filterMap fun id =>
          ((effect :: rest).reverse.find? fun effect => effect.id = id).map made := by
      rw [hrest]
      exact List.filterMap_congr fun id hid => by rw [hfind id (List.mem_dedup.mp hid)]
    rw [List.map_cons, List.map_cons, lastOfEach, List.dedup_cons]
    simp only [hmem]
    split
    · exact hkept
    next hnew =>
      have hnone : rest.reverse.find? (fun other => other.id = effect.id) = none := by
        refine List.find?_eq_none.mpr fun other hother hsame => hnew ?_
        rw [← of_decide_eq_true hsame]
        exact List.mem_map_of_mem (List.mem_reverse.mp hother)
      have hself : (effect :: rest).reverse.find? (fun other => other.id = effect.id) =
          some effect := by
        rw [List.reverse_cons, List.find?_append, hnone, Option.none_or, List.find?_singleton,
          if_pos (decide_eq_true rfl)]
      rw [List.filterMap_cons, hself, ← hkept]
      rfl

theorem Pass.firstOfEach_map {effects : List CompiledEffect} {made : CompiledEffect → Candidate}
    (htext : ∀ effect ∈ effects, ∀ effect' ∈ effects,
      (made effect).memoKey = (made effect').memoKey ↔ effect.id = effect'.id) :
    firstOfEach (effects.map made) =
      (effects.map CompiledEffect.id).reverse.dedup.reverse.filterMap fun id =>
        (effects.find? fun effect => effect.id = id).map made := by
  rw [firstOfEach, ← List.map_reverse, lastOfEach_map fun effect heffect effect' heffect' =>
    htext effect (List.mem_reverse.mp heffect) effect' (List.mem_reverse.mp heffect'),
    List.reverse_reverse, List.map_reverse, List.filterMap_reverse]

theorem Pass.filter_firstOfEach {keep : Candidate → Bool}
    (hkeep : ∀ candidate other : Candidate, candidate.memoKey = other.memoKey →
      keep candidate = keep other) (candidates : List Candidate) :
    (firstOfEach candidates).filter keep = firstOfEach (candidates.filter keep) := by
  rw [firstOfEach, List.filter_reverse, filter_lastOfEach hkeep, List.filter_reverse, firstOfEach]

/-- The candidates of one interaction for a source whose effects all lead to one target. -/
theorem filter_callCandidates {scene : Scene} (hci : ci ∈ accepted config)
    (htargets : ∀ effect ∈ ci.effects, effect.target = name) (hother : name ≠ ci.rule.key)
    (htarget : scene.connectedController?
      (KeyTemplate.interpolate name (KeyTemplate.indices source)) = some d) :
    (scene.callCandidates i c source (config.interactionsOf ci.rule.key)).filter
        (fun candidate => candidate.id.index = ci.rule.index) =
      (scene.openEffects i ci).map (scene.between i ci c d source) := by
  have hnodup :
      ((config.interactionsOf ci.rule.key).reverse.map fun ci => ci.rule.index).Nodup := by
    rw [List.map_reverse, List.nodup_reverse]
    exact (nodup_index_accepted config).sublist (List.filter_sublist.map _)
  have hindex (other : CompiledInteraction)
      (hmem : other ∈ (config.interactionsOf ci.rule.key).reverse) (candidate : Candidate)
      (hcandidate : candidate ∈
        other.declared.filterMap (scene.sourceCandidate? i c source other.rule)) :
      candidate.id.index = other.rule.index := by
    obtain ⟨effect, heffect, hmade⟩ := List.mem_filterMap.mp hcandidate
    have haccepted := (Config.mem_interactionsOf.mp (List.mem_reverse.mp hmem)).1
    simp only [Scene.sourceCandidate?, Option.ite_none_right_eq_some, Option.map_eq_some_iff]
      at hmade
    obtain ⟨-, -, -, rfl⟩ := hmade
    have hid := id_eq_of_mem_effects haccepted (List.mem_reverse.mp heffect)
    exact congrArg InteractionId.index hid
  rw [Scene.callCandidates, filter_flatMap_of_nodup hnodup hindex (List.mem_reverse.mpr
    (Config.mem_interactionsOf.mpr ⟨hci, rfl⟩)), Scene.openEffects, ← List.filterMap_eq_map,
    List.filterMap_filter]
  refine List.filterMap_congr fun effect heffect => ?_
  have heffect_target := htargets effect (List.mem_reverse.mp heffect)
  rw [Scene.sourceCandidate?, heffect_target, if_neg hother, htarget]
  rfl

/-- What a source selects of an interaction whose effects all lead to one target. -/
theorem filter_selection_source (hgraph : (engine.inst i).graph = .ofConfig config)
    (hname : (Graph.ofConfig config).resolveKey source = some ci.rule.key)
    (hci : ci ∈ accepted config) (htargets : ∀ effect ∈ ci.effects, effect.target = name)
    (hother : name ≠ ci.rule.key)
    (htarget : engine.scene.connectedController?
      (KeyTemplate.interpolate name (KeyTemplate.indices source)) = some d)
    (hfresh : ∀ effect ∈ ci.effects, textOf source effect ∉ (engine.inst i).memo) :
    (engine.selection i c source).filter (fun candidate => candidate.id.index = ci.rule.index) =
      Pass.firstOfEach
        ((engine.scene.openEffects i ci).map (engine.scene.between i ci c d source)) := by
  have hown : (engine.selection i c source).filter
      (fun candidate => candidate.id.index = ci.rule.index) =
        ((Pass.mk i none).outgoingOf engine c source).reverse.filter
          fun candidate => candidate.id.index = ci.rule.index := by
    rw [← filter_selection hgraph hname, List.filter_filter]
    refine List.filter_congr fun candidate _ => ?_
    have hrule := (Config.isRuleOf_iff hci).mpr rfl
    by_cases heq : candidate.id.index = ci.rule.index <;> simp [heq, hrule]
  rw [hown, Pass.reverse_outgoingOf hgraph hname, Pass.filter_firstOfEach, List.filter_comm]
  · rw [filter_callCandidates hci htargets hother htarget, List.filter_eq_self.mpr]
    intro candidate hcandidate
    obtain ⟨effect, heffect, rfl⟩ := List.mem_map.mp hcandidate
    exact decide_eq_true (hfresh effect (Scene.mem_openEffects.mp heffect).1)
  · intro candidate other hsame
    rw [InteractionId.index_eq_of_encode_eq hsame]

/-- The entry of an id makes the candidate of its first open alternative. -/
theorem targetCandidate?_eq {scene : Scene} (hci : ci ∈ accepted config) {node : GraphNode}
    (hnode : (Graph.ofConfig config).nodes.get? name = some node)
    (hindices : KeyTemplate.indices target = KeyTemplate.indices source)
    (hsource : scene.connectedController?
      (KeyTemplate.interpolate ci.rule.key (KeyTemplate.indices target)) = some c)
    {entry : TargetEffects} (hentry : entry ∈ node.effects)
    (hindex : entry.id.index = ci.rule.index) :
    scene.targetCandidate? i d target entry = scene.firstOpen? i ci c d source entry.id := by
  have hvariants := Graph.variants_eq_of_index hnode hentry hci hindex
  have hfind : (alternatives ci entry.id).find?
      (fun effect => (scene.effectGate i ci.rule effect).isOpen) =
        (scene.openEffects i ci).find? fun effect => effect.id = entry.id := by
    rw [alternatives, ← List.filter_reverse, List.find?_filter, Scene.openEffects,
      List.find?_filter, CompiledInteraction.declared]
    exact congrArg (List.find? · _) (funext fun effect => decide_eq_decide.mpr and_comm)
  rw [Scene.targetCandidate?, hvariants, List.find?_map]
  simp only [Function.comp_def]
  rw [hfind, Scene.firstOpen?]
  cases hfound : (scene.openEffects i ci).find? fun effect => effect.id = entry.id with
  | none => rfl
  | some effect =>
    have hid : effect.id = entry.id := by simpa using List.find?_some hfound
    rw [Option.map_some, Option.bind_some, hsource]
    simp only [Option.map_some, Scene.between, hid, hindices]

/-- What a target selects of an interaction whose effects all lead to it. -/
theorem filter_selection_target (hgraph : (engine.inst i).graph = .ofConfig config)
    (hname : (Graph.ofConfig config).resolveKey target = some name)
    (hci : ci ∈ accepted config) (htargets : ∀ effect ∈ ci.effects, effect.target = name)
    (hother : name ≠ ci.rule.key)
    (hindices : KeyTemplate.indices target = KeyTemplate.indices source)
    (hsource : engine.scene.connectedController?
      (KeyTemplate.interpolate ci.rule.key (KeyTemplate.indices target)) = some c)
    (hfresh : ∀ effect ∈ ci.effects, textOf source effect ∉ (engine.inst i).memo) :
    (engine.selection i d target).filter (fun candidate => candidate.id.index = ci.rule.index) =
      (ci.declared.map CompiledEffect.id).dedup.filterMap
        (engine.scene.firstOpen? i ci c d source) := by
  obtain ⟨node, hnode⟩ := Graph.exists_node_of_resolveKey hname
  have hout : ((Pass.mk i none).outgoingOf engine d target).reverse.filter
      (fun candidate => candidate.id.index = ci.rule.index) = [] := by
    refine List.filter_eq_nil_iff.mpr fun candidate hcandidate heq => hother ?_
    have hrule := Pass.isRuleOf_of_mem_outgoingOf hgraph hname (List.mem_reverse.mp hcandidate)
    rw [of_decide_eq_true heq] at hrule
    exact ((Config.isRuleOf_iff hci).mp hrule).symm
  have hentries : (node.effects.filterMap (engine.scene.targetCandidate? i d target)).filter
      (fun candidate => candidate.id.index = ci.rule.index) =
        ((node.effects.filter fun entry => entry.id.index = ci.rule.index).map
          TargetEffects.id).filterMap (engine.scene.firstOpen? i ci c d source) := by
    rw [List.filter_filterMap, List.filterMap_map, List.filterMap_filter]
    refine List.filterMap_congr fun entry hentry => ?_
    have hmade (candidate : Candidate)
        (hcandidate : engine.scene.targetCandidate? i d target entry = some candidate) :
        candidate.id.index = entry.id.index := by
      rw [Pass.memoKey_of_targetCandidate? hcandidate]
      rfl
    by_cases hindex : entry.id.index = ci.rule.index
    · rw [if_pos (decide_eq_true hindex), Function.comp_apply,
        ← targetCandidate?_eq hci hnode hindices hsource hentry hindex]
      cases hcandidate : engine.scene.targetCandidate? i d target entry with
      | none => rfl
      | some candidate =>
        rw [Option.filter_some, if_pos (decide_eq_true ((hmade candidate hcandidate).trans hindex))]
    · rw [if_neg (by simpa using hindex)]
      refine Option.filter_eq_none_iff.mpr fun candidate hcandidate heq => hindex ?_
      rw [← hmade candidate hcandidate, of_decide_eq_true heq]
  rw [selection, List.filter_append, hout, List.nil_append, Pass.incomingOf_eq, ← graph_inst_eq,
    hgraph, Graph.get?, hname, Option.bind_some, hnode]
  dsimp only
  rw [List.filter_reverse, List.filter_comm, hentries,
    Graph.map_id_entries hci hnode htargets hother, List.filterMap_reverse, List.filter_reverse,
    List.reverse_reverse, List.filter_eq_self.mpr]
  intro candidate hcandidate
  obtain ⟨id, -, hfirst⟩ := List.mem_filterMap.mp hcandidate
  obtain ⟨effect, hfind, rfl⟩ := Option.map_eq_some_iff.mp hfirst
  exact decide_eq_true
    (hfresh effect (Scene.mem_openEffects.mp (List.mem_of_find?_eq_some hfind)).1)

/-! ### Connecting both ends -/

namespace Meets

variable {requested requestedTarget : Option String}

/-- The candidates that an interaction makes for two ends have the texts of their effects. -/
theorem memoKey_between_eq_iff (h : Meets engine config i ci name c d source target)
    (scene : Scene) : ∀ effect ∈ scene.openEffects i ci, ∀ effect' ∈ scene.openEffects i ci,
      (scene.between i ci c d source effect).memoKey =
        (scene.between i ci c d source effect').memoKey ↔ effect.id = effect'.id :=
  fun _ heffect _ heffect' => h.textOf_inj (Scene.mem_openEffects.mp heffect).1
    (Scene.mem_openEffects.mp heffect').1

/-- The source connects last: the ids come in the order of their first open alternatives. -/
theorem calls_source_last (h : Meets engine config i ci name c d source target)
    (hlisted : engine.Listed) (hcompiled : engine.Compiled) (haccepts : engine.scene.Accepts)
    (hsource : engine.Enters c requested source)
    (htarget : engine.Enters d requestedTarget target) :
    let scene := (engine.scene.entered c source).entered d target
    ((engine.connect d requestedTarget).1.connect c requested).1.calls i (· = ci.rule.index) =
      engine.calls i (· = ci.rule.index) ++
        ((scene.openEffects i ci).map CompiledEffect.id).reverse.dedup.reverse.flatMap
          (scene.callsUnder i ci c d source) := by
  intro scene
  obtain ⟨hcalls, hfresh⟩ := h.after_target hlisted hcompiled haccepts htarget
  have hscene : ((engine.connect d requestedTarget).1.entered c source).scene = scene := by
    rw [scene_entered, htarget.scene_connect_eq]
    exact Scene.entered_comm h.ne.symm h.key_ne.symm
  have hgraph : (((engine.connect d requestedTarget).1.entered c source).inst i).graph =
      .ofConfig config := (graph_eq_of_instances htarget.instances_connect i).trans h.graph
  have hfound : ((engine.connect d requestedTarget).1.entered c source).scene.connectedController?
      (KeyTemplate.interpolate name (KeyTemplate.indices source)) = some d := by
    rw [hscene, h.target_found]
    refine Scene.connectedController?_entered_self ?_
    rw [Scene.length_entered]
    exact htarget.lt_length
  rw [htarget.calls_connect_connect hsource h.ne.symm hlisted hcompiled haccepts h.live, hcalls,
    filter_selection_source hgraph h.source_name h.declared h.targets h.other hfound hfresh, hscene,
    Pass.firstOfEach_map (h.memoKey_between_eq_iff scene), flatMap_filterMap,
    Scene.entered_comm h.ne.symm h.key_ne.symm]
  rfl

/-- The target connects last: the ids come in the order of their last declared alternatives. -/
theorem calls_target_last (h : Meets engine config i ci name c d source target)
    (hlisted : engine.Listed) (hcompiled : engine.Compiled) (haccepts : engine.scene.Accepts)
    (hsource : engine.Enters c requested source)
    (htarget : engine.Enters d requestedTarget target) :
    let scene := (engine.scene.entered c source).entered d target
    ((engine.connect c requested).1.connect d requestedTarget).1.calls i (· = ci.rule.index) =
      engine.calls i (· = ci.rule.index) ++
        (ci.declared.map CompiledEffect.id).dedup.flatMap
          (scene.callsUnder i ci c d source) := by
  intro scene
  obtain ⟨hcalls, hfresh⟩ := h.after_source hlisted hcompiled haccepts hsource
  have hscene : ((engine.connect c requested).1.entered d target).scene = scene := by
    rw [scene_entered, hsource.scene_connect_eq]
  have hgraph : (((engine.connect c requested).1.entered d target).inst i).graph =
      .ofConfig config := (graph_eq_of_instances hsource.instances_connect i).trans h.graph
  have hfound : ((engine.connect c requested).1.entered d target).scene.connectedController?
      (KeyTemplate.interpolate ci.rule.key (KeyTemplate.indices target)) = some c := by
    rw [hscene, h.source_found]
    simp only [scene]
    rw [Scene.entered_comm h.ne h.key_ne]
    refine Scene.connectedController?_entered_self ?_
    rw [Scene.length_entered]
    exact hsource.lt_length
  rw [hsource.calls_connect_connect htarget h.ne hlisted hcompiled haccepts h.live, hcalls,
    filter_selection_target hgraph h.target_name h.declared h.targets h.other h.indices hfound
      hfresh, hscene, flatMap_filterMap]
  rfl

end Meets

/-- Under ids that are declared once, exactly the open effects are called for, in declared order. -/
theorem filter_callsUnder_of_nodup {scene : Scene}
    (hnodup : (ci.declared.map CompiledEffect.id).Nodup) :
    (ci.declared.map CompiledEffect.id).filter
        (fun id => !(scene.callsUnder i ci c d source id).isEmpty) =
      ((scene.openEffects i ci).map CompiledEffect.id).filter
        fun id => !(scene.callsUnder i ci c d source id).isEmpty := by
  rw [List.filter_map, List.filter_map, Scene.openEffects, List.filter_filter]
  refine congrArg (List.map CompiledEffect.id) (List.filter_congr fun effect heffect => ?_)
  cases hcalls : scene.callsUnder i ci c d source effect.id with
  | nil => simp [hcalls]
  | cons event calls =>
    have hevent : event ∈ scene.callsUnder i ci c d source effect.id :=
      hcalls ▸ List.mem_cons_self
    obtain ⟨opened, hopened, hid, -⟩ := Scene.effectId?_of_mem_callsUnder hevent
    have hopen := List.mem_filter.mp hopened
    obtain rfl := List.inj_on_of_nodup_map hnodup hopen.1 heffect hid
    simp [hcalls, hopen.2]

/-- After any run, with handlers that accept everything, the source and the target of an interaction
connect, one after the other. If the source is last, the ids of the interaction are called for in
the order of their first open alternatives, and if the target is last, in the order of their last
declared alternatives, under each id with the same calls. So both sides make the same calls in one
order exactly if these orders agree for the ids under which there are calls, and they do if every id
is declared once. -/
theorem run_connect_sides {host : Host} {options : EngineOptions} {operations : List Operation}
    {requested requestedTarget : Option String}
    (hmeets : Meets ((start host options).run operations) config i ci name c d source target)
    (haccepts : ((start host options).run operations).scene.Accepts)
    (hsource : ((start host options).run operations).Enters c requested source)
    (htarget : ((start host options).run operations).Enters d requestedTarget target) :
    let engine := (start host options).run operations
    let sourceLast := ((engine.connect d requestedTarget).1.connect c requested).1
    let targetLast := ((engine.connect c requested).1.connect d requestedTarget).1
    let own (index : Nat) : Bool := index = ci.rule.index
    let calls := sourceLast.scene.callsUnder i ci c d source
    let firstOpen :=
      ((sourceLast.scene.openEffects i ci).map CompiledEffect.id).reverse.dedup.reverse
    let lastDeclared := (ci.declared.map CompiledEffect.id).dedup
    sourceLast.scene = targetLast.scene ∧
      sourceLast.calls i own = engine.calls i own ++ firstOpen.flatMap calls ∧
      targetLast.calls i own = engine.calls i own ++ lastDeclared.flatMap calls ∧
      (sourceLast.calls i own = targetLast.calls i own ↔
        firstOpen.filter (fun id => !(calls id).isEmpty) =
          lastDeclared.filter fun id => !(calls id).isEmpty) ∧
      ((ci.declared.map CompiledEffect.id).Nodup →
        sourceLast.calls i own = targetLast.calls i own) := by
  intro engine sourceLast targetLast own calls firstOpen lastDeclared
  have hlisted := listed_run host options operations
  have hcompiled := compiled_run (tidy_start host options) (compiled_start host options) operations
  have htargetScene : targetLast.scene = (engine.scene.entered c source).entered d target := by
    rw [(hsource.after_connect htarget hmeets.ne).scene_connect_eq, hsource.scene_connect_eq]
  have hsourceScene : sourceLast.scene = (engine.scene.entered c source).entered d target := by
    rw [(htarget.after_connect hsource hmeets.ne.symm).scene_connect_eq, htarget.scene_connect_eq,
      Scene.entered_comm hmeets.ne.symm hmeets.key_ne.symm]
  have hsourceLast : sourceLast.calls i own = engine.calls i own ++ firstOpen.flatMap calls := by
    have h := hmeets.calls_source_last hlisted hcompiled haccepts hsource htarget
    rwa [← hsourceScene] at h
  have htargetLast : targetLast.calls i own = engine.calls i own ++ lastDeclared.flatMap calls := by
    have h := hmeets.calls_target_last hlisted hcompiled haccepts hsource htarget
    rwa [← hsourceScene] at h
  have htag (id : InteractionId) (event : Event) (hevent : event ∈ calls id) :
      InteractionId.mk name (event.effectId?.getD "") ci.rule.index = id := by
    obtain ⟨effect, hopened, rfl, heffectId⟩ := Scene.effectId?_of_mem_callsUnder hevent
    have heffect := (Scene.mem_openEffects.mp hopened).1
    rw [heffectId, id_eq_of_mem_effects hmeets.declared heffect, hmeets.targets effect heffect]
    rfl
  have hiff : sourceLast.calls i own = targetLast.calls i own ↔
      firstOpen.filter (fun id => !(calls id).isEmpty) =
        lastDeclared.filter fun id => !(calls id).isEmpty := by
    rw [hsourceLast, htargetLast, List.append_cancel_left_eq]
    exact flatMap_eq_flatMap_iff htag firstOpen lastDeclared
  refine ⟨hsourceScene.trans htargetScene.symm, hsourceLast, htargetLast, hiff, fun hnodup => ?_⟩
  have hopen : ((sourceLast.scene.openEffects i ci).map CompiledEffect.id).Nodup :=
    hnodup.sublist (List.filter_sublist.map _)
  have hfirst : firstOpen = (sourceLast.scene.openEffects i ci).map CompiledEffect.id := by
    simp only [firstOpen]
    rw [(List.nodup_reverse.mpr hopen).dedup, List.reverse_reverse]
  have hlast : lastDeclared = ci.declared.map CompiledEffect.id := hnodup.dedup
  rw [hiff, hfirst, hlast]
  exact (filter_callsUnder_of_nodup hnodup).symm

/-- An id of two alternatives, of which only the first one is open, around another id: the sides
call in different orders. -/
theorem run_connect_sides_closed :
    let interaction := (((Interaction.ofTrigger "a" .click).withEffect
      ((Effect.byId "f").on "b")).withEffect ((Effect.byId "g").on "b")).withEffect
        (((Effect.byId "f").on "b").withConditions ["wide"])
    let config := (Config.ofInteractions [interaction]).withCondition "wide" ⟨.media, "wide"⟩
    let ci := compileInteraction config interaction (ruleOf interaction "a" 0)
    let engine := (start .bare .standard).run [.create config, .newController 1 false,
      .newController 2 false, .answerWith fun _ => .accepting]
    let sourceLast := ((engine.connect 1 (some "b")).1.connect 0 (some "a")).1
    let targetLast := ((engine.connect 0 (some "a")).1.connect 1 (some "b")).1
    let own (index : Nat) : Bool := index = ci.rule.index
    Meets engine config 0 ci "b" 0 1 "a" "b" ∧ engine.Enters 0 (some "a") "a" ∧
      engine.Enters 1 (some "b") "b" ∧
      (sourceLast.calls 0 own).map Event.effectId? = [some "f", some "g"] ∧
      (targetLast.calls 0 own).map Event.effectId? = [some "g", some "f"] := by
  intro interaction config ci engine sourceLast targetLast own
  have haccepts : engine.scene.Accepts := fun _ => Handler.accepts_accepting
  have hfree (key : String) (hkey : engine.registry.get? key = none) {free : ControllerId → Prop}
      (e : ControllerId) (he : engine.registry.get? key = some e) : free e := by
    rw [hkey] at he
    cases he
  have hmeets : Meets engine config 0 ci "b" 0 1 "a" "b" :=
    { declared := List.mem_singleton_self ci
      graph := graph_run_create ..
      live := by decide +kernel
      targets := by decide +kernel
      other := by decide +kernel
      source_name := by decide +kernel
      target_name := by decide +kernel
      indices := by decide +kernel
      source_found := by decide +kernel
      target_found := by decide +kernel
      ne := by decide
      source_free := hfree "a" (by decide +kernel)
      target_free := hfree "b" (by decide +kernel)
      fresh := by decide +kernel
      apart := by decide +kernel }
  have hsource : engine.Enters 0 (some "a") "a" :=
    ⟨by decide +kernel, by decide +kernel, by decide +kernel, by decide +kernel⟩
  have htarget : engine.Enters 1 (some "b") "b" :=
    ⟨by decide +kernel, by decide +kernel, by decide +kernel, by decide +kernel⟩
  obtain ⟨-, hsourceLast, htargetLast, -⟩ := run_connect_sides hmeets haccepts hsource htarget
  refine ⟨hmeets, hsource, htarget, ?_, ?_⟩
  · rw [hsourceLast]
    decide +kernel
  · rw [htargetLast]
    decide +kernel

end Engine

end InteractionBinding
