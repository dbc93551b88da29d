import InteractionBinding.Proofs.Subscriptions.Watching
import InteractionBinding.Proofs.Wiring.Deliveries
/-!
# Vigils over lists

An id that is bound to a list is kept as applied with no items yet, since later items are wired when
the container of the list reports them. This takes an observation of the container. An engine is on
its vigil if every id that is kept as applied stands for an effect whose list owner observes the
container, as far as there is one to find (`Engine.Vigil`). Whatever leaves documents, observations
and connections alone keeps the vigil (`Engine.Vigil.carry`), and so does a pass, which observes a
container before it keeps an id (`Engine.Vigil.resolveIn`). A disconnection gives up the
observations of a controller and lets the ids of its key be applied again, at the same time
(`Engine.Vigil.disconnect`).
-/

namespace InteractionBinding.Engine

variable {engine before middle after : Engine} {c : ControllerId} {i : InstanceId}
  {key text : String} {node : NodeId} {token : Token}

/-! ### What ids stand for -/

/-- A graph declares a sequence that has a text as its id for some key. -/
def DeclaresSequence (graph : Graph) (text : String) : Prop :=
  ∃ key node interaction sequence, graph.get? key = some node ∧ interaction ∈ node.triggers ∧
    sequence ∈ interaction.sequences ∧
    (sequence.id.interpolate (KeyTemplate.indices key)).encode = text

namespace Warrant

/-- A graph declares the effect that a warrant stands for. -/
structure IsDeclared (warrant : Warrant) (graph : Graph) : Prop where
  interaction : ∃ node, graph.nodes.get? warrant.interaction.rule.key = some node ∧
    warrant.interaction ∈ node.triggers
  effect : warrant.effect ∈ warrant.interaction.effects

/-- The keys of the two sides of a warrant. The graph resolves the key of one side to the key that
is declared for it, and the other side has the key that is declared for it, with the indices of the
first one filled in. -/
inductive Keyed (warrant : Warrant) (graph : Graph) (engine : Engine) : Prop
  | ofSource (hresolve : graph.resolveKey warrant.key = some warrant.interaction.rule.key)
      (hsource : (engine.controller warrant.source).key = some warrant.key)
      (hself : warrant.effect.target = warrant.interaction.rule.key →
        warrant.target = warrant.source)
      (hother : warrant.effect.target ≠ warrant.interaction.rule.key →
        (engine.controller warrant.target).key = some (KeyTemplate.interpolate
          warrant.effect.target (KeyTemplate.indices warrant.key)))
  | ofTarget (hresolve : graph.resolveKey warrant.key = some warrant.effect.target)
      (htarget : (engine.controller warrant.target).key = some warrant.key)
      (hsource : (engine.controller warrant.source).key = some (KeyTemplate.interpolate
        warrant.interaction.rule.key (KeyTemplate.indices warrant.key)))

/-- The container that has to be observed on behalf of a warrant. -/
def listNode? (warrant : Warrant) (engine : Engine) : Option NodeId :=
  engine.listNode? warrant.interaction.rule warrant.effect.effect warrant.source warrant.target

/-- The owner of the list of a warrant is connected and observes the container. -/
structure Attended (warrant : Warrant) (engine : Engine) : Prop where
  connected : (engine.controller warrant.listOwner).connected = true
  observes (node : NodeId) : warrant.listNode? engine = some node →
    engine.Observes warrant.listOwner node

theorem listOwner_eq (warrant : Warrant) :
    warrant.listOwner = warrant.source ∨ warrant.listOwner = warrant.target := by
  rw [listOwner]
  split
  · exact .inl rfl
  · exact .inr rfl

namespace Keyed

variable {warrant : Warrant} {graph : Graph}

theorem key_isSome_source (h : warrant.Keyed graph engine) :
    (engine.controller warrant.source).key.isSome = true := by
  cases h with
  | ofSource hresolve hsource hself hother => exact Option.isSome_of_eq_some hsource
  | ofTarget hresolve htarget hsource => exact Option.isSome_of_eq_some hsource

theorem key_isSome_target (h : warrant.Keyed graph engine) :
    (engine.controller warrant.target).key.isSome = true := by
  cases h with
  | ofSource hresolve hsource hself hother =>
    by_cases heq : warrant.effect.target = warrant.interaction.rule.key
    · rw [hself heq]
      exact Option.isSome_of_eq_some hsource
    · exact Option.isSome_of_eq_some (hother heq)
  | ofTarget hresolve htarget hsource => exact Option.isSome_of_eq_some htarget

theorem key_isSome_listOwner (h : warrant.Keyed graph engine) :
    (engine.controller warrant.listOwner).key.isSome = true := by
  rcases warrant.listOwner_eq with heq | heq <;> rw [heq]
  · exact h.key_isSome_source
  · exact h.key_isSome_target

theorem congr (h : warrant.Keyed graph before) (hkey : ∀ c own,
    (before.controller c).key = some own → (after.controller c).key = some own) :
    warrant.Keyed graph after := by
  cases h with
  | ofSource hresolve hsource hself hother =>
    exact .ofSource hresolve (hkey _ _ hsource) hself fun hne => hkey _ _ (hother hne)
  | ofTarget hresolve htarget hsource =>
    exact .ofTarget hresolve (hkey _ _ htarget) (hkey _ _ hsource)

/-- The key of the source stands for the key of the rule, if no indices have been filled in. -/
theorem resolveKey_source (h : warrant.Keyed graph engine)
    (hplain : KeyTemplate.indices warrant.key = [])
    (hknown : graph.nodes.contains warrant.interaction.rule.key = true)
    (hkey : (engine.controller warrant.source).key = some key) :
    graph.resolveKey key = some warrant.interaction.rule.key := by
  cases h with
  | ofSource hresolve hsource hself hother =>
    obtain rfl := Option.some.inj (hsource.symm.trans hkey)
    exact hresolve
  | ofTarget hresolve htarget hsource =>
    rw [hplain, KeyTemplate.interpolate_nil] at hsource
    obtain rfl := Option.some.inj (hsource.symm.trans hkey)
    rw [Graph.resolveKey, if_pos hknown]

/-- The key of the target stands for the target key of the effect, if no indices have been filled
in. -/
theorem resolveKey_target (h : warrant.Keyed graph engine)
    (hplain : KeyTemplate.indices warrant.key = [])
    (hknown : graph.nodes.contains warrant.effect.target = true)
    (hkey : (engine.controller warrant.target).key = some key) :
    graph.resolveKey key = some warrant.effect.target := by
  cases h with
  | ofSource hresolve hsource hself hother =>
    by_cases heq : warrant.effect.target = warrant.interaction.rule.key
    · rw [hself heq] at hkey
      obtain rfl := Option.some.inj (hsource.symm.trans hkey)
      rw [hresolve, heq]
    · have htarget := hother heq
      rw [hplain, KeyTemplate.interpolate_nil] at htarget
      obtain rfl := Option.some.inj (htarget.symm.trans hkey)
      rw [Graph.resolveKey, if_pos hknown]
  | ofTarget hresolve htarget hsource =>
    obtain rfl := Option.some.inj (htarget.symm.trans hkey)
    exact hresolve

/-- The id of a warrant is one of those of the key of the list owner, if no indices are filled
in. -/
theorem mem_interactionIdsFor {config : Config} (h : warrant.Keyed (engine.inst i).graph engine)
    (hgraph : (engine.inst i).graph = Graph.ofConfig config)
    (hdeclared : warrant.IsDeclared (engine.inst i).graph)
    (hplain : KeyTemplate.indices warrant.key = []) (hplain' : KeyTemplate.indices key = [])
    (hkey : (engine.controller warrant.listOwner).key = some key) :
    warrant.plan.id.encode ∈ (engine.inst i).interactionIdsFor key := by
  rw [hgraph] at h hdeclared
  obtain ⟨node, hnode, htrigger⟩ := hdeclared.interaction
  obtain ⟨haccepted, -⟩ := (Graph.mem_triggers_iff hnode).mp htrigger
  obtain ⟨other, hother⟩ := Graph.exists_target haccepted (List.mem_append_left _ hdeclared.effect)
  have hknown {name : String} {node : GraphNode}
      (hnode : (Graph.ofConfig config).nodes.get? name = some node) :
      (Graph.ofConfig config).nodes.contains name = true := by
    rw [KeyMap.contains, hnode]
    rfl
  obtain ⟨graphKey, graphNode, hresolve, hget, htakes⟩ : ∃ graphKey graphNode,
      (Graph.ofConfig config).resolveKey key = some graphKey ∧
        (Graph.ofConfig config).nodes.get? graphKey = some graphNode ∧
        (warrant.interaction.rule.key = graphKey ∨ warrant.effect.target = graphKey) := by
    rcases warrant.listOwner_eq with heq | heq <;> rw [heq] at hkey
    · exact ⟨_, node, h.resolveKey_source hplain (hknown hnode) hkey, hnode, .inl rfl⟩
    · exact ⟨_, other, h.resolveKey_target hplain (hknown hother) hkey, hother, .inr rfl⟩
  have hnode : (engine.inst i).graph.get? key = some graphNode := by
    rw [hgraph, Graph.get?, hresolve]
    exact hget
  rw [Instance.interactionIdsFor, hnode]
  refine List.mem_map.mpr ⟨warrant.effect.id, (Graph.mem_allInteractionIds_iff hget).mpr
    ⟨_, haccepted, .inl ⟨_, hdeclared.effect, rfl, htakes⟩⟩, ?_⟩
  rw [plan, hplain, hplain']

end Keyed

end Warrant

/-- What an id that an instance keeps as applied stands for: a sequence, or an effect between two
controllers that have been connected. If the id is one of those of the key of the list owner, the
list owner attends to the list. -/
inductive Grounds (engine : Engine) (i : InstanceId) (text : String) : Prop
  | effect (warrant : Warrant) (hdeclared : warrant.IsDeclared (engine.inst i).graph)
      (htext : warrant.plan.id.encode = text)
      (hkeyed : warrant.Keyed (engine.inst i).graph engine)
      (hattended : ∀ key, (engine.controller warrant.listOwner).key = some key →
        text ∈ (engine.inst i).interactionIdsFor key → warrant.Attended engine)
  | sequence (hdeclares : DeclaresSequence (engine.inst i).graph text)

/-- A running engine in which everyone connected or registered has a key, the one of the
registration, and every id that a live instance keeps as applied has its grounds. -/
structure Vigil (engine : Engine) : Prop where
  running : engine.running = true
  posted : engine.Posted
  keyed (c : ControllerId) : (engine.controller c).connected = true →
    (engine.controller c).key.isSome = true
  registered (key : String) (c : ControllerId) : engine.registry.get? key = some c →
    (engine.controller c).key = some key
  grounds (i : InstanceId) : i ∈ engine.live → ∀ text ∈ (engine.inst i).memo, engine.Grounds i text

theorem vigil_start {host : Host} (h : host.observations.Issued) (options : EngineOptions) :
    (start host options).Vigil where
  running := rfl
  posted := ⟨h, fun _ _ _ hmem => absurd hmem List.not_mem_nil⟩
  keyed _ hconnected := Bool.noConfusion hconnected
  registered _ _ hget := by cases hget
  grounds _ hlive := absurd hlive List.not_mem_nil

/-! ### What keeps the vigil -/

namespace Carries

theorem listNode? (h : Carries before after) {warrant : Warrant}
    (hsource : warrant.source < before.controllers.length)
    (htarget : warrant.target < before.controllers.length) :
    warrant.listNode? after = warrant.listNode? before := by
  refine listNode?_congr (h.anchor hsource) (h.anchor htarget) fun selector _ => ?_
  split
  · rw [h.container? hsource]
  · rw [h.container? htarget]

theorem grounds (h : Carries before after)
    (hgraph : (after.inst i).graph = (before.inst i).graph) (hgrounds : before.Grounds i text) :
    after.Grounds i text := by
  cases hgrounds with
  | effect warrant hdeclared htext hkeyed hattended =>
    have hlist := h.listNode? (lt_of_key_isSome hkeyed.key_isSome_source)
      (lt_of_key_isSome hkeyed.key_isSome_target)
    refine .effect warrant (hgraph.symm ▸ hdeclared) htext (hgraph.symm ▸ hkeyed.congr h.key)
      fun key hkey hmem => ?_
    obtain ⟨own, hown⟩ := Option.isSome_iff_exists.mp hkeyed.key_isSome_listOwner
    obtain rfl : own = key := Option.some.inj ((h.key _ own hown).symm.trans hkey)
    rw [Instance.interactionIdsFor, hgraph] at hmem
    obtain ⟨hconnected, hobserves⟩ := hattended own hown hmem
    refine ⟨h.connected _ hconnected, fun node hnode => ?_⟩
    exact (hobserves node (hlist.symm.trans hnode)).imp fun _ hmem => h.observers _ hmem
  | sequence hdeclares => exact .sequence (hgraph.symm ▸ hdeclares)

end Carries

/-- An id that is kept was kept before, by a live instance of the same graph. -/
def KeptFrom (before after : Engine) : Prop :=
  ∀ i ∈ after.live, ∀ text ∈ (after.inst i).memo, i ∈ before.live ∧
    text ∈ (before.inst i).memo ∧ (after.inst i).graph = (before.inst i).graph

theorem keptFrom_of_instances (hlive : after.live = before.live)
    (hinstances : after.instances = before.instances) : KeptFrom before after := by
  have hsame (i : InstanceId) : after.inst i = before.inst i := by
    rw [inst, hinstances]
    rfl
  intro i hi text htext
  rw [hsame] at htext ⊢
  exact ⟨hlive ▸ hi, htext, rfl⟩

theorem keptFrom_of_quiet (h : Quiet before after) : KeptFrom before after := by
  intro i hi text htext
  rw [h.memo] at htext
  have hlive : after.live = before.live := congrArg Scene.live h.scene
  exact ⟨hlive ▸ hi, htext, graph_eq_of_instances (congrArg Scene.instances h.scene) i⟩

/-- What changes neither observations nor connections, and keeps no new id, keeps the vigil. -/
theorem Vigil.carry (h : before.Vigil) (hcarries : Carries before after)
    (hrunning : after.running = before.running)
    (hobservations : after.host.observations = before.host.observations)
    (hobservers : ∀ c, (after.controller c).observers = (before.controller c).observers)
    (hkeyed : ∀ c, (after.controller c).connected = true →
      (after.controller c).key.isSome = true)
    (hregistered : ∀ key c, after.registry.get? key = some c →
      (after.controller c).key = some key)
    (hkept : KeptFrom before after) : after.Vigil where
  running := hrunning.trans h.running
  posted := h.posted.carry hcarries hobservations hobservers
  keyed := hkeyed
  registered := hregistered
  grounds i hi text htext := by
    obtain ⟨hlive, htext, hgraph⟩ := hkept i hi text htext
    exact hcarries.grounds hgraph (h.grounds i hlive text htext)

/-- What leaves all controllers as they are keeps the vigil. -/
theorem Vigil.of_controllers (h : before.Vigil) (hrunning : after.running = before.running)
    (hdom : after.host.dom = before.host.dom)
    (hobservations : after.host.observations = before.host.observations)
    (hcontrollers : after.controllers = before.controllers)
    (hregistered : ∀ key c, after.registry.get? key = some c →
      (before.controller c).key = some key)
    (hkept : KeptFrom before after) : after.Vigil := by
  have hsame (c : ControllerId) : after.controller c = before.controller c := by
    rw [controller, hcontrollers]
    rfl
  refine h.carry (carries_of_controllers hdom hcontrollers) hrunning hobservations
    (fun c => congrArg _ (hsame c)) (fun c hc => ?_) (fun key c hget => ?_) hkept
  · rw [hsame] at hc ⊢
    exact h.keyed c hc
  · rw [hsame]
    exact hregistered key c hget

/-- What is quiet keeps the vigil if it leaves observations and controllers alone. -/
theorem Vigil.of_quiet (h : before.Vigil) (hquiet : Quiet before after)
    (hobservations : after.host.observations = before.host.observations)
    (hcontrollers : after.controllers = before.controllers) : after.Vigil := by
  have hregistry : after.registry = before.registry := congrArg Scene.registry hquiet.scene
  exact h.of_controllers (congrArg Scene.running hquiet.scene) (congrArg Scene.dom hquiet.scene)
    hobservations hcontrollers (hregistry ▸ h.registered) (keptFrom_of_quiet hquiet)

/-- What others can tell of an engine stays, and nobody loses an observation. New ids have their
grounds. -/
theorem Vigil.of_scene_eq (h : before.Vigil) (hscene : after.scene = before.scene)
    (hobservers : ∀ c, (before.controller c).observers ⊆ (after.controller c).observers)
    (hposted : after.Posted) (hnew : ∀ i ∈ after.live, ∀ text ∈ (after.inst i).memo,
      text ∈ (before.inst i).memo ∨ after.Grounds i text) : after.Vigil where
  running := (congrArg Scene.running hscene).trans h.running
  posted := hposted
  keyed c hc := by
    have hface := face_controller_eq hscene c
    exact (congrArg Option.isSome (congrArg Controller.Face.key hface)).trans
      (h.keyed c ((congrArg Controller.Face.connected hface).symm.trans hc))
  registered key c hget := by
    have hregistry : after.registry = before.registry := congrArg Scene.registry hscene
    exact (congrArg Controller.Face.key (face_controller_eq hscene c)).trans
      (h.registered key c (hregistry ▸ hget))
  grounds i hi text htext := by
    refine (hnew i hi text htext).elim (fun hold => ?_) id
    have hlive : after.live = before.live := congrArg Scene.live hscene
    exact (carries_of_scene_eq hscene hobservers).grounds
      (graph_eq_of_instances (congrArg Scene.instances hscene) i)
      (h.grounds i (hlive ▸ hi) text hold)

/-- A controller may change in what others cannot tell, but for what it observes. -/
theorem Vigil.modifyController (h : engine.Vigil) (c : ControllerId) {f : Controller → Controller}
    (hface : ∀ controller, (f controller).face = controller.face)
    (hobservers : ∀ controller, (f controller).observers = controller.observers) :
    (engine.modifyController c f).Vigil := by
  have hscene : (engine.modifyController c f).scene = engine.scene := scene_modifyController hface
  have hsame (d : ControllerId) : ((engine.modifyController c f).controller d).observers =
      (engine.controller d).observers := by
    rw [controller_modifyController_eq]
    split
    · exact hobservers _
    · rfl
  have hsubset (d : ControllerId) : (engine.controller d).observers ⊆
      ((engine.modifyController c f).controller d).observers := by
    rw [hsame]
    exact List.Subset.refl _
  exact h.of_scene_eq hscene hsubset
    (h.posted.carry (carries_of_scene_eq hscene hsubset) rfl hsame) fun _ _ _ => .inl

theorem Vigil.watchChildList (h : engine.Vigil) (c : ControllerId) (selector : String)
    (item : Option String) : (engine.watchChildList c selector item).1.Vigil := by
  have hquiet := engine.quiet_watchChildList c selector item
  refine h.of_scene_eq hquiet.scene (engine.observers_subset_watchChildList c · selector item)
    (h.posted.watchChildList c selector item) fun i _ text htext => .inl ?_
  rwa [hquiet.memo] at htext

/-- Moves keep the vigil if every new id has its grounds. -/
theorem Moves.vigil (h : Moves before after) (hvigil : before.Vigil)
    (hnew : ∀ i ∈ after.live, ∀ text ∈ (after.inst i).memo,
      text ∈ (before.inst i).memo ∨ after.Grounds i text) : after.Vigil :=
  hvigil.of_scene_eq h.scene h.carries.observers (h.posted hvigil.posted) hnew

/-! ### Candidates -/

namespace Pass

variable {occasion : Occasion} {candidate : Candidate}

/-- A warrant stands behind a candidate of an instance, and both sides are connected. -/
structure Backed (engine : Engine) (i : InstanceId) (candidate : Candidate) (warrant : Warrant) :
    Prop where
  declared : warrant.IsDeclared (engine.inst i).graph
  keyed : warrant.Keyed (engine.inst i).graph engine
  stands : candidate = ⟨warrant.plan.id, warrant.interaction.rule, warrant.effect, warrant.source,
    warrant.target, candidate.gate⟩
  meets : Meets engine candidate

theorem Backed.listNode?_eq {warrant : Warrant} (h : Backed engine i candidate warrant)
    (other : Engine) : warrant.listNode? other = listNode? other candidate := by
  rw [h.stands]
  rfl

theorem Backed.listOwner_eq {warrant : Warrant} (h : Backed engine i candidate warrant) :
    warrant.listOwner = listOwner candidate := by
  rw [h.stands]
  rfl

theorem key_eq_of_connectedController? (h : engine.Vigil)
    (hfound : engine.connectedController? key = some c) : (engine.controller c).key = some key :=
  h.registered key c (Option.filter_eq_some_iff.mp hfound).1

theorem exists_backed_of_mem_outgoingOf (h : engine.Vigil) (hcompiled : engine.Compiled)
    (hentitled : Entitled occasion engine.scene ⟨i, none⟩ c key)
    (hmem : candidate ∈ (Pass.mk i none).outgoingOf engine c key) :
    ∃ warrant, Backed engine i candidate warrant := by
  have hconnected := hentitled.connected
  have hkeyed := hentitled.keyed
  rw [scene_controller] at hconnected hkeyed
  obtain ⟨config, hgraph⟩ := hcompiled i
  obtain ⟨node, interaction, effect, hnode, htrigger, heffect, hmade⟩ := mem_outgoingOf hmem
  obtain ⟨graphKey, hresolve, hget⟩ := node?_eq_some.mp hnode
  rw [Pass.graph] at hresolve hget
  obtain ⟨-, rfl⟩ := (Graph.mem_triggers_iff (hgraph ▸ hget)).mp htrigger
  have hmeets := meets_of_outgoing? hconnected hmade
  obtain ⟨target, -, -, htarget, -, rfl⟩ := outgoing?_eq_some.mp hmade
  rw [targetController?] at htarget
  refine ⟨⟨interaction, effect, key, c, target⟩, ⟨⟨node, hget, htrigger⟩, heffect⟩,
    .ofSource hresolve hkeyed (fun hself => ?_) fun hother => ?_, rfl, hmeets⟩
  · rw [if_pos hself] at htarget
    exact (Option.some.inj htarget).symm
  · rw [if_neg hother] at htarget
    exact key_eq_of_connectedController? h htarget

theorem exists_backed_of_mem_incomingOf (h : engine.Vigil) (hcompiled : engine.Compiled)
    (hentitled : Entitled occasion engine.scene ⟨i, none⟩ c key)
    (hmem : candidate ∈ (Pass.mk i none).incomingOf engine c key) :
    ∃ warrant, Backed engine i candidate warrant := by
  have hconnected := hentitled.connected
  have hkeyed := hentitled.keyed
  rw [scene_controller] at hconnected hkeyed
  obtain ⟨config, hgraph⟩ := hcompiled i
  obtain ⟨node, entry, hentry, hnode, hmade⟩ := mem_incomingOf hmem
  obtain ⟨graphKey, hresolve, hget⟩ := node?_eq_some.mp hnode
  rw [Pass.graph] at hresolve hget
  have hmeets := meets_of_incoming? hconnected hmade
  obtain ⟨variant, source, -, hfind, hsource, -, rfl⟩ := incoming?_eq_some.mp hmade
  obtain ⟨interaction, haccepted, effect, heffect, rfl, hid, rfl, -⟩ :=
    Graph.exists_effect_of_mem_variants (hgraph ▸ hget) hentry (List.mem_of_find?_eq_some hfind)
  obtain ⟨declaring, hdeclaring⟩ := Graph.exists_node_of_mem_accepted haccepted
  refine ⟨⟨interaction, effect, key, source, c⟩, ⟨⟨declaring, hgraph ▸ hdeclaring⟩, heffect⟩,
    .ofTarget hresolve hkeyed (key_eq_of_connectedController? h hsource), ?_, hmeets⟩
  rw [← hid]
  rfl

/-- The id of a candidate has its grounds as soon as the container of the list is observed. -/
theorem Backed.grounds {warrant : Warrant} (h : Backed before i candidate warrant)
    (hscene : after.scene = before.scene)
    (hobserves : ∀ node, listNode? before candidate = some node →
      after.Observes (listOwner candidate) node) : after.Grounds i candidate.memoKey := by
  have hface := face_controller_eq hscene
  have hgraph : (after.inst i).graph = (before.inst i).graph :=
    graph_eq_of_instances (congrArg Scene.instances hscene) i
  have hkeyed : warrant.Keyed (after.inst i).graph after :=
    hgraph.symm ▸ h.keyed.congr fun d own hown =>
      (congrArg Controller.Face.key (hface d)).trans hown
  refine .effect warrant (hgraph.symm ▸ h.declared) ?_ hkeyed
    fun _ _ _ => ⟨?_, fun node hnode => ?_⟩
  · rw [h.stands]
    rfl
  · have hmeets := h.meets.congr hscene
    rw [h.listOwner_eq, listOwner]
    split
    · exact hmeets.source
    · exact hmeets.target
  · rw [h.listOwner_eq]
    refine hobserves node (Eq.trans (Eq.symm ?_) hnode)
    rw [h.listNode?_eq, listNode?_congr hscene]

end Pass

/-! ### Resolving -/

/-- A full pass keeps the vigil if the candidates that it wires are backed. -/
theorem Vigil.wires {heard : Engine} {selected : List Candidate} (h : before.Vigil)
    (hheard : heard.scene = before.scene)
    (hafter : after = (Pass.mk i none).applySelected heard selected)
    (hmoves : Moves before after) (hwires : (Pass.mk i none).Wires selected before after)
    (hbacked : ∀ candidate ∈ selected, ∃ warrant, Pass.Backed before i candidate warrant) :
    after.Vigil := by
  obtain ⟨offers, hoffers, hextends⟩ := hwires
  refine hmoves.vigil h fun j _ text htext => ?_
  refine ((hextends.memo j text).mp htext).imp_right fun ⟨hj, _, hmark⟩ => ?_
  obtain rfl : j = i := hj
  obtain ⟨candidate, hmem, hhandler, rfl⟩ : ∃ candidate ∈ selected,
      (before.host.handlers.get? candidate.rule.trigger).isSome = true ∧
        candidate.memoKey = text := by
    obtain ⟨-, ⟨offer, hoffer, -, htext⟩ | ⟨candidate, hmem, ⟨hhandler, -⟩, htext⟩⟩ :=
      Pass.mem_marks.mp hmark
    · obtain ⟨hmem, hproposal⟩ := hoffers.candidate_mem hoffer
      obtain ⟨-, hhandler, -⟩ := Pass.mem_proposals.mp hproposal
      exact ⟨offer.candidate, List.mem_reverse.mp hmem, Option.isSome_of_eq_some hhandler, htext⟩
    · exact ⟨candidate, hmem, hhandler, htext⟩
  obtain ⟨warrant, hwarrant⟩ := hbacked candidate hmem
  refine hwarrant.grounds hmoves.scene fun node hnode => ?_
  rw [hafter]
  refine Pass.observes_applySelected (fun other hother => ?_) hmem ?_
    ((Pass.listNode?_congr hheard).trans hnode)
  · obtain ⟨warrant, hwarrant⟩ := hbacked other hother
    exact hwarrant.meets.congr hheard
  · rwa [show heard.host.handlers = before.host.handlers from congrArg Scene.handlers hheard]

section Sides

variable {occasion : Occasion} (hentitled : Entitled occasion engine.scene ⟨i, none⟩ c key)

include hentitled

theorem Entitled.lt_instances : i < engine.instances.length := by
  have hknows := hentitled.knows
  rw [← graph_inst_eq] at hknows
  exact lt_of_knows hknows

theorem Entitled.connected_controller : (engine.controller c).connected = true := by
  have hconnected := hentitled.connected
  rwa [scene_controller] at hconnected

theorem Vigil.resolveOutgoing (h : engine.Vigil) (hcompiled : engine.Compiled) :
    ((Pass.mk i none).resolveOutgoing engine c key).Vigil := by
  obtain ⟨heard, hheard, heq⟩ : ∃ heard : Engine, heard.scene = engine.scene ∧
      (Pass.mk i none).resolveOutgoing engine c key =
        (Pass.mk i none).applySelected heard ((Pass.mk i none).outgoingOf engine c key) := by
    rw [Pass.outgoingOf]
    cases hnode : (Pass.mk i none).node? engine key with
    | none =>
      rw [Pass.resolveOutgoing, hnode]
      exact ⟨engine, rfl, rfl⟩
    | some node =>
      obtain ⟨hquiet, heq⟩ := Pass.resolveOutgoing_eq (c := c) hnode
      exact ⟨_, hquiet.scene, heq⟩
  exact h.wires hheard heq (Pass.moves_resolveOutgoing ⟨i, none⟩ hentitled.lt_instances
    hentitled.connected_controller key) (Pass.resolveOutgoing_spec ..) fun candidate hmem =>
      Pass.exists_backed_of_mem_outgoingOf h hcompiled hentitled hmem

theorem Vigil.resolveIncoming (h : engine.Vigil) (hcompiled : engine.Compiled) :
    ((Pass.mk i none).resolveIncoming engine c key).Vigil := by
  obtain ⟨heard, hquiet, -, heq⟩ := (Pass.mk i none).exists_heard_incoming engine c key
  exact h.wires hquiet.scene heq (Pass.moves_resolveIncoming ⟨i, none⟩ hentitled.lt_instances
    hentitled.connected_controller key) (Pass.resolveIncoming_spec ..) fun candidate hmem =>
      Pass.exists_backed_of_mem_incomingOf h hcompiled hentitled hmem

/-- The sequences of a key are kept under ids of sequences. -/
theorem Vigil.resolveSequences (h : engine.Vigil) :
    ((Pass.mk i none).resolveIncomingSequences
      ((Pass.mk i none).resolveOutgoingSequences engine c key) c key).Vigil := by
  have hi := hentitled.lt_instances
  have hout := Pass.moves_resolveOutgoingSequences ⟨i, none⟩ hi hentitled.connected_controller key
  have hmoves := hout.trans
    (Pass.moves_resolveIncomingSequences ⟨i, none⟩ (hout.lt_instances hi) c key)
  have hwires : WiresSequences i ((Pass.mk i none).IsSequenceId engine key) engine
      ((Pass.mk i none).resolveIncomingSequences
        ((Pass.mk i none).resolveOutgoingSequences engine c key) c key) := by
    rw [Pass.resolveIncomingSequences_eq, Pass.resolveOutgoingSequences_eq, scene_foldl_applyCue,
      ← List.foldl_append]
    refine wiresSequences_foldl_applyCue (fun cue hmem => ?_) engine
    exact Pass.isSequenceId_of_stems (stems_of_mem_cues hmem)
  obtain ⟨_, _, hextends, -, hmarked⟩ := hwires
  refine hmoves.vigil h fun j _ text htext => ?_
  refine ((hextends.memo j text).mp htext).imp_right fun ⟨hj, _, hmark⟩ => ?_
  obtain rfl : j = i := hj
  obtain ⟨sourceKey, node, interaction, sequence, -, hnode, hinteraction, hsequence, rfl⟩ :=
    hmarked text hmark
  rw [Pass.node?, Pass.graph, ← graph_eq_of_instances (congrArg Scene.instances hmoves.scene)]
    at hnode
  exact .sequence ⟨sourceKey, node, interaction, sequence, hnode, hinteraction, hsequence, rfl⟩

/-- Resolving a key in an instance keeps the vigil. -/
theorem Vigil.resolveIn (h : engine.Vigil) (hcompiled : engine.Compiled) :
    (resolveIn c key engine i).Vigil := by
  have hquiet := engine.quiet_setController i key c
  have hfiled : (engine.setController i key c).Vigil :=
    h.of_quiet hquiet rfl rfl
  have hcompiled' := compiled_congr hquiet.scene hcompiled
  rw [← hquiet.scene] at hentitled
  rw [Engine.resolveIn]
  generalize engine.setController i key c = filed at hfiled hcompiled' hentitled ⊢
  have hout := ((Pass.mk i none).resolveOutgoing_spec filed c key).scene
  have hresolved := hfiled.resolveOutgoing hentitled hcompiled'
  rw [← hout] at hentitled
  generalize (Pass.mk i none).resolveOutgoing filed c key = resolved at hout hresolved hentitled ⊢
  have hin := ((Pass.mk i none).resolveIncoming_spec resolved c key).scene
  have hboth := hresolved.resolveIncoming hentitled (compiled_congr hout hcompiled')
  rw [← hin] at hentitled
  exact hboth.resolveSequences hentitled

end Sides

/-- A controller may be registered under the key that it has. -/
theorem Vigil.register (h : engine.Vigil) (hkeyed : (engine.controller c).key = some key) :
    (engine.register key c).1.Vigil := by
  refine h.of_controllers rfl rfl rfl rfl (fun name d hget => ?_) (keptFrom_of_instances rfl rfl)
  change (engine.registry.insert key c).get? name = some d at hget
  rw [KeyMap.get?_insert] at hget
  split at hget
  next heq =>
    obtain rfl := Option.some.inj hget
    exact heq ▸ hkeyed
  next => exact h.registered name d hget

/-- Resolving a key keeps the vigil. -/
theorem Vigil.resolve (h : engine.Vigil) (htidy : engine.Tidy) (hcompiled : engine.Compiled)
    (hconnected : (engine.controller c).connected = true)
    (hkeyed : (engine.controller c).key = some key) : (engine.resolve c key).1.Vigil := by
  have hregistered := h.register hkeyed
  rw [resolve_eq]
  refine (List.foldlRecOn (motive := fun state : Engine => state.Vigil ∧
    state.scene = (engine.register key c).1.scene) _ _ ⟨hregistered, rfl⟩
      fun state ⟨hstate, hscene⟩ i hmem => ⟨?_, (scene_resolveIn ..).trans hscene⟩).1
  have hentitled : Entitled .none state.scene ⟨i, none⟩ c key :=
    hscene ▸ entitled_of_mem_instancesFor htidy hconnected hkeyed hmem fun _ hnone => by cases hnone
  refine hstate.resolveIn hentitled fun j => ?_
  obtain ⟨config, hgraph⟩ := hcompiled j
  refine ⟨config, Eq.trans ?_ hgraph⟩
  rw [graph_inst_eq, hscene]
  exact (graph_inst_eq ..).symm

/-! ### Disconnecting -/

/-- A disconnection gives up the observations of a controller, and what is kept as applied for its
lists with them. -/
theorem Vigil.disconnect (h : engine.Vigil) (c : ControllerId) (evict : Bool) :
    (engine.disconnect c evict).Vigil where
  running := (running_disconnect ..).trans h.running
  posted := h.posted.disconnect h.running c evict
  keyed d hd := by
    rw [key_disconnect]
    rw [controller_disconnect] at hd
    split at hd
    next => cases hd
    next => exact h.keyed d hd
  registered name d hget := by
    rw [key_disconnect]
    exact h.registered name d (get?_registry_disconnect_iff.mp hget).1
  grounds i hi text htext := by
    obtain ⟨hdom, hlive, hinstances⟩ := (releases_disconnect engine c evict).frame
    have hgraph := graph_eq_of_instances hinstances i
    obtain ⟨htext, hkept⟩ := mem_memo_disconnect_iff.mp htext
    cases h.grounds i (hlive ▸ hi) text htext with
    | sequence hdeclares => exact .sequence (hgraph.symm ▸ hdeclares)
    | effect warrant hdeclared htext hkeyed hattended =>
      refine .effect warrant (hgraph.symm ▸ hdeclared) htext (hgraph.symm ▸ hkeyed.congr
        fun d own hown => (key_disconnect ..).trans hown) fun key hkey hmem => ?_
      rw [key_disconnect] at hkey
      rw [Instance.interactionIdsFor, hgraph] at hmem
      obtain ⟨hconnected, hobserves⟩ := hattended key hkey hmem
      -- an id of the key of the controller itself would have been freed
      have hother : ¬(c = warrant.listOwner ∧ warrant.listOwner < engine.controllers.length) := by
        rintro ⟨rfl, -⟩
        refine hkept ⟨h.running, key, hkey, List.mem_filter.mpr ⟨hlive ▸ hi, ?_⟩, hmem⟩
        exact knows_of_mem_interactionIdsFor hmem
      have hsame : (engine.disconnect c evict).controller warrant.listOwner =
          engine.controller warrant.listOwner := by
        rw [controller_disconnect, if_neg hother]
      refine ⟨(congrArg Controller.connected hsame).trans hconnected, fun node hnode => ?_⟩
      rw [Observes, hsame]
      refine hobserves node (Eq.trans (Eq.symm ?_) hnode)
      exact listNode?_congr (anchor_disconnect ..) (anchor_disconnect ..) fun selector _ =>
        congrFun (container?_disconnect ..) selector

end InteractionBinding.Engine
