import InteractionBinding.Proofs.Wiring.Reflection
/-!
# Attention to queries

Which alternative of an id is chosen depends on the gates up to the first open one, and on no others
(`Config.Reaches`). An engine heeds a variant if it hears every query of the gates that are reached
for a connected pair of keys (`Engine.Heeds`): as long as it does, no query can change a choice
without being heard (`Config.chooses_congr`). Resolving a key makes the engine heed the variants of
the key (`Engine.heeds_resolve`).
-/

namespace InteractionBinding

open Compile

namespace Engine.Pass

variable {α β : Type} {p q : α → Bool} {l : List α}

theorem mem_of_mem_upTo {a : α} (h : a ∈ upTo p l) : a ∈ l := by
  induction l with
  | nil => cases h
  | cons b rest ih =>
    rw [upTo] at h
    split at h
    · exact List.mem_singleton.mp h ▸ .head _
    · exact (List.mem_cons.mp h).elim (fun heq => heq ▸ .head _) fun hmem => .tail _ (ih hmem)

theorem upTo_map (f : β → α) (l : List β) : upTo p (l.map f) = (upTo (p ∘ f) l).map f := by
  induction l with
  | nil => rfl
  | cons b rest ih =>
    rw [List.map_cons, upTo, upTo, ih, Function.comp_apply]
    split <;> rfl

/-- What is reached depends only on what is reached. -/
theorem upTo_congr (h : ∀ a ∈ upTo p l, p a = q a) : upTo q l = upTo p l := by
  induction l with
  | nil => rfl
  | cons a rest ih =>
    rw [upTo] at h ⊢
    rw [upTo]
    split at h
    next hp => rw [if_pos ((h a (.head _)).symm.trans hp), if_pos hp]
    next hp =>
      rw [if_neg fun hq => hp ((h a (.head _)).trans hq), if_neg hp,
        ih fun b hb => h b (.tail _ hb)]

theorem find?_congr_upTo (h : ∀ a ∈ upTo p l, p a = q a) : l.find? q = l.find? p := by
  induction l with
  | nil => rfl
  | cons a rest ih =>
    rw [upTo] at h
    rw [List.find?_cons, List.find?_cons]
    split at h
    next hp => rw [← h a (.head _), hp]
    next hp =>
      rw [← h a (.head _), ih fun b hb => h b (.tail _ hb)]

end Engine.Pass

namespace Config

variable {config : Config} {isOpen isOpen' : Variant → Bool} {variant : Variant}

/-- No variant before this one in declared order is open among those with its id. -/
def Reaches (config : Config) (isOpen : Variant → Bool) (variant : Variant) : Prop :=
  ∃ ci ∈ accepted config, variant.rule = ci.rule ∧
    variant.effect ∈ Engine.Pass.upTo (fun effect => isOpen ⟨ci.rule, effect⟩)
      (alternatives ci variant.effect.id)

theorem Reaches.declares (h : config.Reaches isOpen variant) : config.Declares variant := by
  obtain ⟨ci, hci, hrule, hmem⟩ := h
  exact ⟨ci, hci, hrule, (mem_alternatives.mp (Engine.Pass.mem_of_mem_upTo hmem)).1⟩

/-- Gates that are open alike as far as they are reached make the same choice. -/
theorem chooses_and_reaches_congr
    (h : ∀ other, config.Reaches isOpen other → other.effect.id = variant.effect.id →
      isOpen other = isOpen' other) :
    (config.Chooses isOpen' variant ↔ config.Chooses isOpen variant) ∧
      (config.Reaches isOpen' variant ↔ config.Reaches isOpen variant) := by
  have hagree {ci : CompiledInteraction} (hci : ci ∈ accepted config) :
      ∀ effect ∈ Engine.Pass.upTo (fun effect => isOpen ⟨ci.rule, effect⟩)
        (alternatives ci variant.effect.id),
          isOpen ⟨ci.rule, effect⟩ = isOpen' ⟨ci.rule, effect⟩ := by
    intro effect heffect
    obtain ⟨-, hid⟩ := mem_alternatives.mp (Engine.Pass.mem_of_mem_upTo heffect)
    exact h ⟨ci.rule, effect⟩ ⟨ci, hci, rfl, hid.symm ▸ heffect⟩ hid
  constructor
  · refine exists_congr fun ci => and_congr_right fun hci => and_congr_right fun _ => ?_
    rw [Engine.Pass.find?_congr_upTo (hagree hci)]
  · refine exists_congr fun ci => and_congr_right fun hci => and_congr_right fun _ => ?_
    rw [Engine.Pass.upTo_congr (hagree hci)]

/-- Whether a variant is open depends on its queries only. -/
theorem isOpen_congr {state state' : Query → Bool}
    (h : ∀ query ∈ config.queriesOf variant, state query = state' query) :
    config.isOpen state variant = config.isOpen state' variant := by
  have hmedia (text : String) (hmem : text ∈ (Gate.resolveAll config.conditions (fun _ => false)
      [variant.rule.conditions, variant.effect.effect.conditions]).media) :
      state ⟨.media, text⟩ = state' ⟨.media, text⟩ := by
    refine h _ (List.mem_append_left _ (List.mem_map_of_mem ?_))
    exact Option.mem_toList.mpr hmem
  have hcontainer (text : String) (hmem : text ∈ (Gate.resolveAll config.conditions (fun _ => false)
      [variant.rule.conditions, variant.effect.effect.conditions]).container) :
      state ⟨.container, text⟩ = state' ⟨.container, text⟩ := by
    refine h _ (List.mem_append_right _ (List.mem_map_of_mem ?_))
    exact Option.mem_toList.mpr hmem
  simp only [isOpen, Gate.resolveAll, Gate.resolve] at hmedia hcontainer ⊢
  refine congrArg₂ and ?_ ?_
  · cases hquery : combineQueries (Gate.predicatesOf .media _) with
    | none => rfl
    | some text => exact hmedia text hquery
  · cases hquery : combineQueries (Gate.predicatesOf .container _) with
    | none => rfl
    | some text => exact hcontainer text hquery

end Config

namespace Engine

/-- What instances of plain configurations may listen for: the queries of their variants. -/
def interestOf (configs : List Config) (hplain : ∀ config ∈ configs, config.IsPlain) :
    Interest where
  Covers i id source target query := ∃ config variant, configs[i]? = some config ∧
    config.Declares variant ∧ variant.text = id ∧ variant.rule.key = source ∧
      variant.effect.target = target ∧ query ∈ config.queriesOf variant
  unique := by
    rintro i id source target source' target' query query'
      ⟨config, variant, hi, hdeclares, rfl, rfl, rfl, hquery⟩
      ⟨config', variant', hi', hdeclares', htext, rfl, rfl, hquery'⟩ hsame
    obtain rfl := Option.some.inj (hi.symm.trans hi')
    have hconfig := hplain config (List.mem_of_getElem? hi)
    have hid := hconfig.ids _ _ hdeclares hdeclares' htext.symm
    refine ⟨?_, ?_, hconfig.queries _ _ hdeclares hdeclares' _ hquery _ hquery' hsame⟩
    · rw [hdeclares.rule_eq hdeclares' hid]
    · rw [← hdeclares.target_eq, ← hdeclares'.target_eq, hid]

/-- An instance hears what may change the choice for a variant between connected keys. -/
def Heeds (configs : List Config) (engine : Engine) (i : InstanceId) (variant : Variant) : Prop :=
  ∀ config, configs[i]? = some config →
    config.Reaches (config.isOpen engine.scene.queryState) variant →
      engine.scene.IsConnected variant.rule.key → engine.scene.IsConnected variant.effect.target →
        ∀ query ∈ config.queriesOf variant,
          engine.Hears i variant.text variant.rule.key variant.effect.target query

variable {ground : Ground} {configs : List Config} {keys : List String} {engine : Engine}
  {i j : InstanceId} {c : ControllerId} {key : String} {config : Config}

/-- Listening for more does not make an engine heed less. -/
theorem Heeds.attends {interest : Interest} {after : Engine} {variant : Variant}
    (h : Heeds configs engine i variant) (hattends : Attends interest engine after) :
    Heeds configs after i variant := by
  intro config hi hreaches hsource htarget query hquery
  rw [hattends.scene] at hreaches hsource htarget
  exact hattends.hears (h config hi hreaches hsource htarget query hquery)

/-- The live queries of a gate in an instance are those of the variant. -/
theorem liveQueries_gate (horderly : engine.scene.Orderly ground configs keys)
    (hi : configs[i]? = some config) (variant : Variant) :
    (engine.scene.gate i [variant.rule.conditions, variant.effect.effect.conditions]).liveQueries =
      config.queriesOf variant := by
  rw [Scene.gate, horderly.inst_eq hi, Graph.conditions_ofConfig]
  rfl

theorem isOpen_eq (horderly : engine.scene.Orderly ground configs keys)
    (hi : configs[i]? = some config) :
    (Pass.mk i none).isOpen engine = config.isOpen engine.scene.queryState := by
  funext variant
  rw [Pass.isOpen, Pass.currentGate_eq, Scene.gate, horderly.inst_eq hi, Graph.conditions_ofConfig]
  rfl

theorem node?_eq_nodes (horderly : engine.scene.Orderly ground configs keys)
    (hindices : KeyTemplate.indices key = []) (hi : configs[i]? = some config) :
    (Pass.mk i none).node? engine key = (Graph.ofConfig config).nodes.get? key := by
  rw [Pass.node?_eq, horderly.inst_eq hi, Graph.get?_of_indices hindices]

/-! ### What a resolution listens for -/

section Covers

variable {hplain : ∀ config ∈ configs, config.IsPlain} {node : GraphNode}

theorem coversOutgoing (horderly : engine.scene.Orderly ground configs keys)
    (hindices : KeyTemplate.indices key = []) (hi : configs[i]? = some config)
    (hnode : (Graph.ofConfig config).nodes.get? key = some node) {ci : CompiledInteraction}
    (hci : ci ∈ node.triggers) {effect : CompiledEffect} (heffect : effect ∈ ci.effects) :
    Pass.CoversOutgoing (interestOf configs hplain) ⟨i, none⟩ engine.scene key ci.rule effect := by
  obtain ⟨haccepted, hkey⟩ := (Graph.mem_triggers_iff hnode).mp hci
  intro query hquery
  rw [hindices, InteractionId.interpolate_nil, KeyTemplate.interpolate_nil]
  refine ⟨config, ⟨ci.rule, effect⟩, hi, ⟨ci, haccepted, rfl, heffect⟩, rfl, hkey, rfl, ?_⟩
  rw [← liveQueries_gate horderly hi]
  exact hquery

theorem coversIncoming (horderly : engine.scene.Orderly ground configs keys)
    (hindices : KeyTemplate.indices key = []) (hi : configs[i]? = some config)
    (hnode : (Graph.ofConfig config).nodes.get? key = some node) {entry : TargetEffects}
    (hentry : entry ∈ node.effects) {variant : Variant} (hvariant : variant ∈ entry.variants) :
    Pass.CoversIncoming (interestOf configs hplain) ⟨i, none⟩ engine.scene key
      (entry.id.interpolate (KeyTemplate.indices key)).encode variant := by
  obtain ⟨ci, hci, effect, heffect, rfl, hid, htarget, -⟩ :=
    Graph.exists_effect_of_mem_variants hnode hentry hvariant
  have hdeclares : config.Declares ⟨ci.rule, effect⟩ := ⟨ci, hci, rfl, heffect⟩
  intro query hquery
  rw [hindices, InteractionId.interpolate_nil, KeyTemplate.interpolate_nil]
  refine ⟨config, ⟨ci.rule, effect⟩, hi, hdeclares, ?_, rfl, htarget, ?_⟩
  · rw [Variant.text, hid]
  · rw [← liveQueries_gate horderly hi]
    exact hquery

end Covers

/-! ### Resolving a key in an instance -/

/-- Without sequences there is nothing to resolve of sequences. -/
theorem resolve_sequences_eq (horderly : engine.scene.Orderly ground configs keys)
    (hindices : KeyTemplate.indices key = []) (hi : configs[i]? = some config) (c : ControllerId) :
    (Pass.mk i none).resolveOutgoingSequences engine c key = engine ∧
      (Pass.mk i none).resolveIncomingSequences engine c key = engine := by
  have hsequences := (horderly.plain config (List.mem_of_getElem? hi)).sequences
  rw [Pass.resolveOutgoingSequences, Pass.resolveIncomingSequences,
    node?_eq_nodes horderly hindices hi]
  split
  · exact ⟨rfl, rfl⟩
  next node hnode =>
    constructor
    · refine List.foldlRecOn (motive := fun (state : Engine) => state = engine) node.triggers _ rfl
        fun state hstate ci hci => ?_
      obtain ⟨haccepted, -⟩ := (Graph.mem_triggers_iff hnode).mp hci
      rw [hsequences ci haccepted, List.foldl_nil, hstate]
    · have hnone : node.sequenceLinks = [] := by
        refine List.eq_nil_iff_forall_not_mem.mpr fun back hback => ?_
        obtain ⟨ci, hci, sequence, hsequence, -⟩ := (Graph.mem_sequenceLinks_iff hnode).mp hback
        rw [hsequences ci hci] at hsequence
        cases hsequence
      rw [hnone, List.foldl_nil]

/-- The engine after a key has been resolved as a source in an instance. -/
def resolvedSource (c : ControllerId) (key : String) (engine : Engine) (i : InstanceId) : Engine :=
  (Pass.mk i none).resolveOutgoing (engine.setController i key c) c key

theorem scene_resolvedSource (c : ControllerId) (key : String) (engine : Engine) (i : InstanceId) :
    (resolvedSource c key engine i).scene = engine.scene :=
  ((Pass.mk i none).resolveOutgoing_spec _ c key).scene.trans
    (quiet_setController engine i key c).scene

theorem resolveIn_eq (horderly : engine.scene.Orderly ground configs keys)
    (hindices : KeyTemplate.indices key = []) (hi : configs[i]? = some config) :
    resolveIn c key engine i =
      (Pass.mk i none).resolveIncoming (resolvedSource c key engine i) c key := by
  have hscene : ((Pass.mk i none).resolveIncoming (resolvedSource c key engine i) c key).scene =
      engine.scene :=
    ((Pass.mk i none).resolveIncoming_spec _ c key).scene.trans
      (scene_resolvedSource c key engine i)
  obtain ⟨hout, hin⟩ := resolve_sequences_eq (hscene ▸ horderly) hindices hi c
  rw [resolveIn]
  change (Pass.mk i none).resolveIncomingSequences ((Pass.mk i none).resolveOutgoingSequences
    ((Pass.mk i none).resolveIncoming (resolvedSource c key engine i) c key) c key) c key = _
  rw [hout, hin]

section Resolve

variable {hplain : ∀ config ∈ configs, config.IsPlain}

theorem attends_setController (engine : Engine) (i : InstanceId) (key : String) (c : ControllerId) :
    Attends (interestOf configs hplain) engine (engine.setController i key c) := by
  refine Deaf.attends (deaf_modifyInstance engine i _ fun _ => ?_)
    (quiet_setController engine i key c).scene
  rfl

theorem attends_resolvedSource (horderly : engine.scene.Orderly ground configs keys)
    (hindices : KeyTemplate.indices key = []) (hi : configs[i]? = some config) :
    Attends (interestOf configs hplain) engine (resolvedSource c key engine i) := by
  have hset := (quiet_setController engine i key c).scene
  have horderly' : (engine.setController i key c).scene.Orderly ground configs keys :=
    hset ▸ horderly
  refine (attends_setController engine i key c).trans (Pass.attends_resolveOutgoing ?_)
  intro node hnode ci hci effect heffect
  rw [node?_eq_nodes horderly' hindices hi] at hnode
  exact coversOutgoing horderly' hindices hi hnode hci heffect

/-- What is left of the resolution of a key once its source side is done. -/
theorem attends_resolvedTarget (horderly : engine.scene.Orderly ground configs keys)
    (hindices : KeyTemplate.indices key = []) (hi : configs[i]? = some config) :
    Attends (interestOf configs hplain) (resolvedSource c key engine i)
      (resolveIn c key engine i) := by
  rw [resolveIn_eq horderly hindices hi]
  have horderly' : (resolvedSource c key engine i).scene.Orderly ground configs keys :=
    scene_resolvedSource c key engine i ▸ horderly
  refine Pass.attends_resolveIncoming fun node hnode entry hentry variant hvariant => ?_
  rw [node?_eq_nodes horderly' hindices hi] at hnode
  exact coversIncoming horderly' hindices hi hnode hentry hvariant

theorem attends_resolveIn (horderly : engine.scene.Orderly ground configs keys)
    (hindices : KeyTemplate.indices key = []) (hi : configs[i]? = some config) :
    Attends (interestOf configs hplain) engine (resolveIn c key engine i) :=
  (attends_resolvedSource horderly hindices hi).trans (attends_resolvedTarget horderly hindices hi)

theorem listens_of_orderly (horderly : engine.scene.Orderly ground configs keys)
    (hi : configs[i]? = some config) : engine.Listens i := by
  refine ⟨?_, ?_⟩
  · have hlength := horderly.lt_of_getElem? hi
    rwa [scene, List.length_map] at hlength
  · have hinst := horderly.inst_eq hi
    rw [scene_inst] at hinst
    exact congrArg Instance.Face.destroyed hinst

/-- Once a key has been resolved in an instance, the variants from the key are heeded. -/
theorem hears_resolveIn_source (horderly : engine.scene.Orderly ground configs keys)
    (hindices : KeyTemplate.indices key = []) (hi : configs[i]? = some config)
    (hattuned : engine.Attuned (interestOf configs hplain)) {variant : Variant}
    (hdeclares : config.Declares variant) (hsource : variant.rule.key = key) {query : Query}
    (hquery : query ∈ config.queriesOf variant) :
    (resolveIn c key engine i).Hears i variant.text variant.rule.key
      variant.effect.target query := by
  obtain ⟨ci, hci, hrule, heffect⟩ := hdeclares
  obtain ⟨node, hnode, htrigger⟩ := Graph.exists_node_of_mem_accepted hci
  rw [hrule] at hsource
  rw [hsource] at hnode
  have hset := (quiet_setController engine i key c).scene
  have horderly' : (engine.setController i key c).scene.Orderly ground configs keys :=
    hset ▸ horderly
  refine (@attends_resolvedTarget ground configs keys engine i c key config hplain horderly hindices
    hi).hears ?_
  have hgate : query ∈ ((engine.setController i key c).scene.gate i
      [ci.rule.conditions, variant.effect.effect.conditions]).liveQueries := by
    rw [← hrule, liveQueries_gate horderly' hi variant]
    exact hquery
  have hhears : (resolvedSource c key engine i).Hears i
      (variant.effect.id.interpolate (KeyTemplate.indices key)).encode key
      (KeyTemplate.interpolate variant.effect.target (KeyTemplate.indices key)) query :=
    Pass.hears_resolveOutgoing (node?_eq_nodes horderly' hindices hi ▸ hnode)
      (listens_of_orderly horderly' hi) ((attends_setController engine i key c).attuned hattuned)
      (fun ci hci effect heffect => coversOutgoing horderly' hindices hi hnode hci heffect) htrigger
      heffect hgate
  rw [hindices, InteractionId.interpolate_nil, KeyTemplate.interpolate_nil] at hhears
  rw [hrule, hsource]
  exact hhears

/-- Resolving a source applies no id of another source. -/
theorem not_mem_memo_resolvedSource (horderly : engine.scene.Orderly ground configs keys)
    (hindices : KeyTemplate.indices key = []) (hi : configs[i]? = some config) {variant : Variant}
    (hdeclares : config.Declares variant) (hother : variant.rule.key ≠ key)
    (hunapplied : variant.text ∉ (engine.inst i).memo) :
    variant.text ∉ ((resolvedSource c key engine i).inst i).memo := by
  have hquiet := quiet_setController engine i key c
  have horderly' : (engine.setController i key c).scene.Orderly ground configs keys :=
    hquiet.scene ▸ horderly
  have hwires := (Pass.mk i none).resolveOutgoing_spec (engine.setController i key c) c key
  rw [resolvedSource, hwires.mem_memo rfl horderly'.accepts, hquiet.memo, not_or]
  refine ⟨hunapplied, ?_⟩
  rintro ⟨-, -, candidate, hcandidate, htext, -⟩
  obtain ⟨node, ci, effect, hnode, htrigger, heffect, hcandidate⟩ := Pass.mem_outgoingOf hcandidate
  obtain ⟨target, -, -, -, -, rfl⟩ := Pass.outgoing?_eq_some.mp hcandidate
  rw [node?_eq_nodes horderly' hindices hi] at hnode
  obtain ⟨hci, hkey⟩ := (Graph.mem_triggers_iff hnode).mp htrigger
  rw [Candidate.memoKey, hindices, InteractionId.interpolate_nil] at htext
  have hdeclares' : config.Declares ⟨ci.rule, effect⟩ := ⟨ci, hci, rfl, heffect⟩
  have hplain := horderly.plain config (List.mem_of_getElem? hi)
  have hid := hplain.ids _ _ hdeclares' hdeclares htext
  exact hother (hdeclares'.rule_eq hdeclares hid ▸ hkey)

/-- Once a key has been resolved in an instance, the variants that land on the key are heard as far
as they are reached, if their ids had not been applied. -/
theorem hears_resolveIn_target (horderly : engine.scene.Orderly ground configs keys)
    (hindices : KeyTemplate.indices key = []) (hi : configs[i]? = some config)
    (hattuned : engine.Attuned (interestOf configs hplain)) {variant : Variant}
    (hreaches : config.Reaches (config.isOpen engine.scene.queryState) variant)
    (htarget : variant.effect.target = key) (hother : variant.rule.key ≠ key)
    (hunapplied : variant.text ∉ (engine.inst i).memo) {query : Query}
    (hquery : query ∈ config.queriesOf variant) :
    (resolveIn c key engine i).Hears i variant.text variant.rule.key
      variant.effect.target query := by
  have hdeclares := hreaches.declares
  obtain ⟨ci, hci, hrule, hmem⟩ := hreaches
  have heffect := (mem_alternatives.mp (Pass.mem_of_mem_upTo hmem)).1
  obtain ⟨node, hnode, entry, hentry, hid⟩ := Graph.exists_entry hci heffect fun heq =>
    hother (by rw [hrule, ← heq, htarget])
  rw [htarget] at hnode
  have hvariants := Graph.variants_eq_of_index hnode hentry hci <| by
    rw [hid, id_eq_of_mem_effects hci heffect]
  have horderly' : (resolvedSource c key engine i).scene.Orderly ground configs keys :=
    scene_resolvedSource c key engine i ▸ horderly
  have hstate : (resolvedSource c key engine i).scene.queryState = engine.scene.queryState := by
    rw [scene_resolvedSource]
  have hunapplied' : (Pass.mk i none).alreadyApplied (resolvedSource c key engine i)
      (entry.id.interpolate (KeyTemplate.indices key)).encode = false := by
    rw [hindices, InteractionId.interpolate_nil, hid]
    exact decide_eq_false
      (not_mem_memo_resolvedSource horderly hindices hi hdeclares hother hunapplied)
  have hreached : variant ∈ Pass.upTo ((Pass.mk i none).isOpen (resolvedSource c key engine i))
      entry.variants := by
    rw [hvariants, Pass.upTo_map, isOpen_eq horderly' hi, hstate, hid]
    exact List.mem_map.mpr ⟨variant.effect, hmem, by rw [← hrule]⟩
  have hgate : query ∈ ((resolvedSource c key engine i).scene.gate i
      [variant.rule.conditions, variant.effect.effect.conditions]).liveQueries := by
    rw [liveQueries_gate horderly' hi variant]
    exact hquery
  have hhears : ((Pass.mk i none).resolveIncoming (resolvedSource c key engine i) c key).Hears i
      (entry.id.interpolate (KeyTemplate.indices key)).encode
      (KeyTemplate.interpolate variant.rule.key (KeyTemplate.indices key)) key query :=
    Pass.hears_resolveIncoming (node?_eq_nodes horderly' hindices hi ▸ hnode)
      (listens_of_orderly horderly' hi)
      ((attends_resolvedSource horderly hindices hi).attuned hattuned)
      (fun entry hentry variant => coversIncoming horderly' hindices hi hnode hentry) hentry
      hunapplied' hreached hgate
  rw [hindices, InteractionId.interpolate_nil, KeyTemplate.interpolate_nil, hid] at hhears
  rw [resolveIn_eq horderly hindices hi, htarget]
  exact hhears

/-! ### Resolving a key in all instances -/

theorem attends_step (hplain : ∀ config ∈ configs, config.IsPlain) {start : Engine}
    (horderly : start.scene.Orderly ground configs keys)
    (hindices : KeyTemplate.indices key = []) (hi : i < configs.length)
    (hscene : engine.scene = start.scene) :
    Attends (interestOf configs hplain) engine (resolveIn c key engine i) ∧
      (resolveIn c key engine i).scene = start.scene := by
  have horderly' : engine.scene.Orderly ground configs keys := hscene ▸ horderly
  exact ⟨attends_resolveIn horderly' hindices (List.getElem?_eq_getElem hi),
    (scene_resolveIn c key engine i).trans hscene⟩

theorem lt_of_mem_instancesFor (horderly : engine.scene.Orderly ground configs keys)
    (hi : i ∈ engine.instancesFor key) : i < configs.length := by
  rw [instancesFor_eq, List.mem_filter, horderly.live, List.mem_range] at hi
  exact hi.1

theorem attends_foldl_resolveIn (hplain : ∀ config ∈ configs, config.IsPlain)
    (horderly : engine.scene.Orderly ground configs keys) (hindices : KeyTemplate.indices key = [])
    {instances : List InstanceId} (hbound : ∀ i ∈ instances, i < configs.length) :
    Attends (interestOf configs hplain) engine (instances.foldl (resolveIn c key) engine) := by
  obtain ⟨hattends, -⟩ := attends_foldl (P := fun state => state.scene = engine.scene)
    (fun state i hi => attends_step hplain horderly hindices (hbound i hi)) rfl
  exact hattends

theorem attends_resolve (hplain : ∀ config ∈ configs, config.IsPlain)
    (horderly : engine.scene.Orderly ground configs keys)
    (hindices : KeyTemplate.indices key = []) :
    Attends (interestOf configs hplain) engine
      ((engine.instancesFor key).foldl (resolveIn c key) engine) :=
  attends_foldl_resolveIn hplain horderly hindices fun _ hi => lt_of_mem_instancesFor horderly hi

theorem mem_instancesFor_of_touches (horderly : engine.scene.Orderly ground configs keys)
    (hindices : KeyTemplate.indices key = []) (hi : configs[i]? = some config) {variant : Variant}
    (hdeclares : config.Declares variant) (htouches : variant.Touches key) :
    i ∈ engine.instancesFor key := by
  obtain ⟨node, hnode⟩ := hdeclares.exists_node htouches
  exact (mem_instancesFor_iff horderly hindices).mpr ⟨config, hi, by rw [hnode]; rfl⟩

/-- Once a key has been resolved, the variants from the key are heeded. -/
theorem heeds_resolve_source (horderly : engine.scene.Orderly ground configs keys)
    (hindices : KeyTemplate.indices key = [])
    (hattuned : engine.Attuned (interestOf configs hplain))
    {variant : Variant} (hsource : variant.rule.key = key) :
    Heeds configs ((engine.instancesFor key).foldl (resolveIn c key) engine) i variant := by
  intro config hi hreaches _ _ query hquery
  have hmem := mem_instancesFor_of_touches horderly hindices hi hreaches.declares (.inl hsource)
  refine hears_foldl (P := fun state => state.scene = engine.scene)
    (fun state i hi => attends_step hplain horderly hindices
      (lt_of_mem_instancesFor horderly hi)) rfl
    hattuned hmem fun state hscene hstate => ?_
  have horderly' : state.scene.Orderly ground configs keys := hscene ▸ horderly
  exact hears_resolveIn_source horderly' hindices hi hstate hreaches.declares hsource hquery

/-- Once a key has been resolved to which nothing has been wired, the variants to it are heeded. -/
theorem heeds_resolve_target {wiring : Wiring} (h : Reflects ground configs wiring engine)
    (horderly : engine.scene.Orderly ground configs keys) (hindices : KeyTemplate.indices key = [])
    (hattuned : engine.Attuned (interestOf configs hplain))
    (hnone : ∀ i variant, wiring i variant → ¬variant.Touches key) {variant : Variant}
    (htarget : variant.effect.target = key) (hsource : variant.rule.key ≠ key) :
    Heeds configs ((engine.instancesFor key).foldl (resolveIn c key) engine) i variant := by
  intro config hi hreaches _ _ query hquery
  rw [scene_foldl_resolveIn] at hreaches
  have htouches : variant.Touches key := .inr htarget
  have hunapplied : variant.text ∉ (engine.inst i).memo := fun hmem => by
    obtain ⟨other, hwired, -, hsame⟩ := h.exists_of_applied horderly hi hreaches.declares hmem
    exact hnone i other hwired ((hsame key).mpr htouches)
  have hmem := mem_instancesFor_of_touches horderly hindices hi hreaches.declares htouches
  have hbound : ∀ j ∈ engine.instancesFor key, j < configs.length :=
    fun j hj => lt_of_mem_instancesFor horderly hj
  generalize engine.instancesFor key = instances at hmem hbound
  -- the instances in front leave open what this one has applied
  obtain ⟨front, back, rfl, hfront⟩ := List.eq_append_cons_of_mem hmem
  rw [List.foldl_append, List.foldl_cons]
  have hopen : variant.text ∉ ((front.foldl (resolveIn c key) engine).inst i).memo := by
    rw [mem_memo_foldl_resolveIn_of_not_mem hfront]
    exact hunapplied
  have hscene := scene_foldl_resolveIn c key engine front
  have hattends : Attends (interestOf configs hplain) engine
      (front.foldl (resolveIn c key) engine) :=
    attends_foldl_resolveIn hplain horderly hindices fun j hj =>
      hbound j (List.mem_append_left _ hj)
  generalize front.foldl (resolveIn c key) engine = state at *
  have horderly' : state.scene.Orderly ground configs keys := hscene ▸ horderly
  have hresolved : (resolveIn c key state i).scene.Orderly ground configs keys := by
    rw [scene_resolveIn]
    exact horderly'
  refine (attends_foldl_resolveIn hplain hresolved hindices fun j hj =>
    hbound j (List.mem_append_right _ (.tail _ hj))).hears ?_
  exact hears_resolveIn_target horderly' hindices hi (hattends.attuned hattuned)
    (hscene ▸ hreaches) htarget hsource hopen hquery

/-- Once a key of which nothing is wired has been resolved, the variants of the key are heeded. -/
theorem heeds_resolve {wiring : Wiring} (h : Reflects ground configs wiring engine)
    (horderly : engine.scene.Orderly ground configs keys) (hindices : KeyTemplate.indices key = [])
    (hattuned : engine.Attuned (interestOf configs hplain))
    (hnone : ∀ i variant, wiring i variant → ¬variant.Touches key) {variant : Variant}
    (htouches : variant.Touches key) :
    Heeds configs ((engine.instancesFor key).foldl (resolveIn c key) engine) i variant := by
  by_cases hsource : variant.rule.key = key
  · exact heeds_resolve_source horderly hindices hattuned hsource
  · exact heeds_resolve_target h horderly hindices hattuned hnone
      (htouches.resolve_left hsource) hsource

end Resolve

end Engine

end InteractionBinding
