import InteractionBinding.Proofs.Graph.CrossReferences
import InteractionBinding.Proofs.Keys.ConcreteKeys
import InteractionBinding.Proofs.Lifecycle.Owning
/-!
# On whose behalf nodes are handed

Every node that a pass hands to a handler is handed on behalf of a controller that stands under the
key of its side (`Engine.attributes_resolve`, `Engine.attributes_addListItems`). The partner of a key
that is resolved is looked up under the key of the other side, with the indices of the resolved key
filled in. It stands under the other side if the registry is faithful, and if the keys of the
configuration have no indices, so that the looked up key has theirs as its template.
-/

namespace InteractionBinding

/-- No key of a configuration has an index. -/
def Config.IsUnindexed (config : Config) : Prop :=
  ∀ key node, (Graph.ofConfig config).nodes.get? key = some node → KeyTemplate.indices key = []

/-- The key of a graph stands for itself when the indices of another key are filled in. -/
theorem Graph.resolveKey_interpolate {config : Config} (h : config.IsUnindexed) {key : String}
    {node : GraphNode} (hnode : (ofConfig config).nodes.get? key = some node) (other : String) :
    (ofConfig config).resolveKey (KeyTemplate.interpolate key (KeyTemplate.indices other)) =
      some key := by
  have htemplate := KeyTemplate.template_interpolate (h key node hnode) other
  have hcontains : (ofConfig config).nodes.contains key = true := by
    rw [KeyMap.contains, hnode]
    rfl
  rw [resolveKey_of_template_eq hcontains htemplate]
  split
  next hknown =>
    -- a concrete key that the graph knows has no indices, and is its own template
    obtain ⟨_, hconcrete⟩ := Option.isSome_iff_exists.mp hknown
    rw [← KeyTemplate.template_of_indices (h _ _ hconcrete), htemplate]
  next => rfl

namespace Scene

/-- Instances are compiled from configurations whose keys have no indices, and the registry has
every controller under its own key. -/
structure Faithful (scene : Scene) : Prop where
  graphs (i : InstanceId) : ∃ config : Config,
    config.IsUnindexed ∧ (scene.inst i).graph = Graph.ofConfig config
  registered (key : String) (c : ControllerId) : scene.registry.get? key = some c →
    (scene.controller c).key = some key

variable {scene : Scene} {i : InstanceId} {c : ControllerId} {key graphKey : String}

theorem Faithful.compiled (h : scene.Faithful) : scene.Compiled := fun i =>
  (h.graphs i).imp fun _ hconfig => hconfig.2

/-- Who is connected under a key of the graph, with indices filled in, stands under the key. -/
theorem Faithful.standsUnder (h : scene.Faithful) {node : GraphNode}
    (hnode : (scene.inst i).graph.nodes.get? graphKey = some node)
    (hconnected : scene.connectedController?
      (KeyTemplate.interpolate graphKey (KeyTemplate.indices key)) = some c) :
    scene.StandsUnder i c graphKey := by
  obtain ⟨config, hunindexed, hgraph⟩ := h.graphs i
  rw [hgraph] at hnode
  refine ⟨_, h.registered _ c (Option.filter_eq_some_iff.mp hconnected).1, ?_⟩
  rw [hgraph]
  exact Graph.resolveKey_interpolate hunindexed hnode key

end Scene

/-- The nodes that a handler is handed with an event. -/
def Event.handed : Event → List NodeId
  | .add _ _ source target _ _ _ _ => [source, target]
  | .addSequence _ _ source plan _ _ _ => source :: plan.members.flatMap SequenceMember.targets
  | _ => []

namespace Engine

variable {engine after : Engine} {occasion : Occasion} {pass : Pass} {c : ControllerId}
  {key : String} {scene : Scene} {i : InstanceId}

/-! ### The sides of candidates -/

namespace Pass

/-- The two sides of a candidate of a source stand under their keys. -/
theorem sided_of_mem_outgoingOf (hfaithful : engine.scene.Faithful)
    (hentitled : Entitled occasion engine.scene pass c key) {candidate : Candidate}
    (h : candidate ∈ pass.outgoingOf engine c key) :
    Sided engine.scene pass.instanceId candidate.rule candidate.effect candidate.source
      candidate.target := by
  obtain ⟨config, hunindexed, hgraph⟩ := hfaithful.graphs pass.instanceId
  obtain ⟨node, interaction, effect, hnode, htrigger, heffect, h⟩ := mem_outgoingOf h
  obtain ⟨target, -, -, htarget, -, rfl⟩ := outgoing?_eq_some.mp h
  obtain ⟨graphKey, hresolve, hget⟩ := node?_eq_some.mp hnode
  rw [Pass.graph, graph_inst_eq] at hresolve hget
  have hget' := hget
  rw [hgraph] at hget'
  obtain ⟨hci, rfl⟩ := (Graph.mem_triggers_iff hget').mp htrigger
  obtain ⟨targetNode, htargetNode⟩ :=
    Graph.exists_target hci (List.mem_append_left _ heffect)
  have hsource : engine.scene.StandsUnder pass.instanceId c interaction.rule.key :=
    ⟨key, hentitled.keyed, hresolve⟩
  rw [targetController?] at htarget
  split at htarget
  next hself =>
    obtain rfl := Option.some.inj htarget
    exact ⟨hsource, hself ▸ hsource, fun _ => rfl⟩
  next hother =>
    rw [connectedController?_eq] at htarget
    exact ⟨hsource, hfaithful.standsUnder (hgraph ▸ htargetNode) htarget,
      fun hself => absurd hself hother⟩

/-- The two sides of a candidate of a target stand under their keys. -/
theorem sided_of_mem_incomingOf (hfaithful : engine.scene.Faithful)
    (hentitled : Entitled occasion engine.scene pass c key) {candidate : Candidate}
    (h : candidate ∈ pass.incomingOf engine c key) :
    Sided engine.scene pass.instanceId candidate.rule candidate.effect candidate.source
      candidate.target := by
  obtain ⟨config, hunindexed, hgraph⟩ := hfaithful.graphs pass.instanceId
  obtain ⟨node, entry, hentry, hnode, h⟩ := mem_incomingOf h
  obtain ⟨variant, source, -, hfind, hsource, -, rfl⟩ := incoming?_eq_some.mp h
  obtain ⟨graphKey, hresolve, hget⟩ := node?_eq_some.mp hnode
  rw [Pass.graph, graph_inst_eq] at hresolve hget
  have hget' := hget
  rw [hgraph] at hget'
  obtain ⟨ci, hci, effect, -, rfl, -, hlands, hother⟩ :=
    Graph.exists_effect_of_mem_variants hget' hentry (List.mem_of_find?_eq_some hfind)
  obtain ⟨sourceNode, hsourceNode, -⟩ := Graph.exists_node_of_mem_accepted hci
  rw [connectedController?_eq] at hsource
  exact ⟨hfaithful.standsUnder (hgraph ▸ hsourceNode) hsource,
    ⟨key, hentitled.keyed, hlands ▸ hresolve⟩, fun hself => absurd (hself.symm.trans hlands) hother⟩

end Pass

/-! ### Reported items -/

/-- The nodes that are reported below a controller are items of every list of its key that is bound
to their container. -/
def ReportsItems (scene : Scene) (scope : ListScope) : Prop :=
  ∀ i ∈ scene.live, ∀ graphKey node, (scene.inst i).graph.nodes.get? graphKey = some node →
    ∀ interaction ∈ node.triggers,
      (scene.StandsUnder i scope.owner interaction.rule.key →
        interaction.rule.listContainer = some scope.container → ∀ item ∈ scope.nodes,
          IsItem .none scene scope.owner scope.container interaction.rule.listItemSelector item) ∧
      ∀ effect ∈ interaction.effects, scene.StandsUnder i scope.owner effect.target →
        effect.effect.listContainer = some scope.container → ∀ item ∈ scope.nodes,
          IsItem .none scene scope.owner scope.container effect.effect.listItemSelector item

/-- An item is found by its selector if everything that is reported is an item. -/
theorem IsItem.none_of_reports {owner : ControllerId} {container : String}
    {itemSelector : Option String} {item : NodeId}
    (h : IsItem occasion scene owner container itemSelector item)
    (hreports : ∀ other scope, occasion.reports other scope → scope.owner = owner →
      scope.container = container → item ∈ scope.nodes →
        IsItem .none scene owner container itemSelector item) :
    IsItem .none scene owner container itemSelector item := by
  cases h with
  | found anchor hanchor hitem => exact .found anchor hanchor hitem
  | reported scope hscope howner hcontainer hitem =>
    exact hreports _ scope hscope howner hcontainer hitem
  | borrowed other _ scope hscope howner hcontainer hitem =>
    exact hreports other scope hscope howner hcontainer hitem

/-- What is justified by reported nodes that are items is justified without reports. -/
theorem Justifies.none_of_reports {warrant : Warrant} {handler : HandlerId}
    {source target : NodeId} {plan : EffectPlan} {params : KeyMap Json} {context : HandlerContext}
    (h : Justifies occasion scene warrant i handler source target plan params context)
    (hsides : Sided scene i warrant.interaction.rule warrant.effect warrant.source warrant.target)
    (hreports : ∀ itemSelector scope, occasion.reports itemSelector scope →
      ReportsItems scene scope) :
    Justifies .none scene warrant i handler source target plan params context := by
  obtain ⟨node, hnode, htrigger⟩ := h.declared
  refine ⟨h.live, h.standing, h.declared, h.effect, h.handler, h.plan, h.params, h.sides,
    h.sourceConnected, h.targetConnected, h.isOpen, h.predicate, ?_⟩
  cases h.reaches with
  | plain sourceAnchor targetAnchor hlist hlist' hsource htarget hreach hreach' =>
    exact .plain sourceAnchor targetAnchor hlist hlist' hsource htarget hreach hreach'
  | ofSourceItem container item targetAnchor hlist hitem htarget hreach hreach' =>
    refine .ofSourceItem container item targetAnchor hlist (hitem.none_of_reports ?_) htarget hreach
      hreach'
    rintro other scope hscope howner hcontainer hmem
    rw [← howner] at hsides ⊢
    rw [← hcontainer] at hlist ⊢
    exact (hreports other scope hscope i h.live _ node hnode _ htrigger).1 hsides.source hlist
      item hmem
  | ofTargetItem container item sourceAnchor hlist hlist' hitem hsource hreach hreach' =>
    refine .ofTargetItem container item sourceAnchor hlist hlist' (hitem.none_of_reports ?_) hsource
      hreach hreach'
    rintro other scope hscope howner hcontainer hmem
    rw [← howner] at hsides ⊢
    rw [← hcontainer] at hlist' ⊢
    exact (hreports other scope hscope i h.live _ node hnode _ htrigger).2 _ h.effect hsides.target
      hlist' item hmem

/-! ### What passes hand to handlers -/

/-- An event is told in a scene, and every node that is handed with it is handed on behalf of some
controller. -/
def Attributes (scene : Scene) : Entry → Prop
  | .told event told => told = scene ∧ ∀ node ∈ event.handed, ∃ c, Hands scene c node event
  | .forgot _ _ => True

theorem Pass.attributes_wires {selected : List Candidate}
    (hwires : pass.Wires selected engine after)
    (hwarranted : ∀ candidate ∈ selected, ∃ warrant,
      Pass.Warranted occasion engine.scene pass candidate warrant)
    (hsided : ∀ candidate ∈ selected, Sided engine.scene pass.instanceId candidate.rule
      candidate.effect candidate.source candidate.target)
    (hreports : ∀ itemSelector scope, occasion.reports itemSelector scope →
      ReportsItems engine.scene scope) :
    Tells (Attributes engine.scene) engine after := by
  obtain ⟨offers, hoffers, hextends⟩ := hwires
  refine .of_extends hextends fun event hevent => ⟨rfl, fun node hnode => ?_⟩
  obtain ⟨offer, hoffer, rfl⟩ := List.mem_map.mp hevent
  obtain ⟨hselected, hproposal⟩ := hoffers.candidate_mem hoffer
  obtain ⟨warrant, hwarrant⟩ := hwarranted _ (List.mem_reverse.mp hselected)
  have hsides := hsided _ (List.mem_reverse.mp hselected)
  have hcandidate := hwarrant.candidate
  have hjustifies := hwarrant.justifies hproposal
  rw [congrArg Candidate.rule hcandidate, congrArg Candidate.effect hcandidate,
    congrArg Candidate.source hcandidate, congrArg Candidate.target hcandidate] at hsides
  have hfound := hjustifies.none_of_reports hsides hreports
  rcases List.mem_cons.mp hnode with rfl | hnode
  · exact ⟨warrant.source, warrant, hfound, hsides, .inl ⟨rfl, rfl⟩⟩
  · obtain rfl := List.mem_singleton.mp hnode
    exact ⟨warrant.target, warrant, hfound, hsides, .inr ⟨rfl, rfl⟩⟩

/-- Resolving the source side of a key hands nodes on behalf of controllers. -/
theorem Pass.attributes_outgoing (hfaithful : engine.scene.Faithful)
    (hentitled : Entitled occasion engine.scene pass c key)
    (hreports : ∀ itemSelector scope, occasion.reports itemSelector scope →
      ReportsItems engine.scene scope)
    (hwires : pass.Wires (pass.outgoingOf engine c key) engine after) :
    Tells (Attributes engine.scene) engine after := by
  have hcompiled : engine.Compiled := fun i => graph_inst_eq engine i ▸ hfaithful.compiled i
  exact attributes_wires hwires
    (fun _ => exists_warranted_of_mem_outgoingOf hcompiled hentitled)
    (fun _ => sided_of_mem_outgoingOf hfaithful hentitled) hreports

/-- Resolving the target side of a key hands nodes on behalf of controllers. -/
theorem Pass.attributes_incoming (hfaithful : engine.scene.Faithful)
    (hentitled : Entitled occasion engine.scene pass c key)
    (hreports : ∀ itemSelector scope, occasion.reports itemSelector scope →
      ReportsItems engine.scene scope)
    (hwires : pass.Wires (pass.incomingOf engine c key) engine after) :
    Tells (Attributes engine.scene) engine after := by
  have hcompiled : engine.Compiled := fun i => graph_inst_eq engine i ▸ hfaithful.compiled i
  exact attributes_wires hwires
    (fun _ => exists_warranted_of_mem_incomingOf hcompiled hentitled)
    (fun _ => sided_of_mem_incomingOf hfaithful hentitled) hreports

/-! ### What cues hand to handlers -/

/-- The source of a cue stands under the key of its rule. -/
theorem Cue.Stems.standsUnder {cue : Cue} (hstems : cue.Stems scene i c key)
    (hfaithful : scene.Faithful) (hkeyed : (scene.controller c).key = some key) :
    scene.StandsUnder i cue.source cue.rule.key := by
  obtain ⟨config, -, hgraph⟩ := hfaithful.graphs i
  obtain ⟨node, interaction, hget, htrigger, hrule, -⟩ := hstems.declared
  obtain ⟨graphKey, hresolve, hnode⟩ := Option.bind_eq_some_iff.mp hget
  rw [hgraph] at hnode
  obtain ⟨-, rfl⟩ := (Graph.mem_triggers_iff hnode).mp htrigger
  refine ⟨cue.key, ?_, hrule ▸ hresolve⟩
  obtain ⟨hkey, hsource⟩ | hsource := hstems.source
  · rw [hkey, hsource, hkeyed]
  · exact hfaithful.registered _ _ (Option.filter_eq_some_iff.mp hsource).1

/-- The target of a member of a cue stands under the key that the member lands on. -/
theorem Cue.standsUnder_of_target? {cue : Cue} (hentitled : cue.Entitled scene i)
    (hfaithful : scene.Faithful) (hsource : scene.StandsUnder i cue.source cue.rule.key)
    {effect : CompiledEffect} (heffect : effect ∈ cue.sequence.effects)
    (htarget : cue.target? scene effect = some c) : scene.StandsUnder i c effect.target := by
  obtain ⟨config, -, hgraph⟩ := hfaithful.graphs i
  obtain ⟨node, interaction, hget, htrigger, -, hsequence⟩ := hentitled.declared
  obtain ⟨graphKey, -, hnode⟩ := Option.bind_eq_some_iff.mp hget
  rw [hgraph] at hnode
  obtain ⟨hci, -⟩ := (Graph.mem_triggers_iff hnode).mp htrigger
  rw [target?] at htarget
  split at htarget
  next hself =>
    obtain rfl := Option.some.inj htarget
    exact hself ▸ hsource
  next =>
    obtain ⟨targetNode, htargetNode⟩ := Graph.exists_target hci
      (List.mem_append_right _ (List.mem_flatMap.mpr ⟨cue.sequence, hsequence, heffect⟩))
    exact hfaithful.standsUnder (hgraph ▸ htargetNode) htarget

/-- Every node that a cue hands to a handler is handed on behalf of some controller. -/
theorem Cue.exists_hands {cue : Cue} {handler : HandlerId} {source node : NodeId}
    {plan : SequencePlan} {params : KeyMap Json} {context : HandlerContext}
    {refusal : Option Refusal} (h : cue.Accounts scene i handler source plan params context)
    (hfaithful : scene.Faithful) (hsource : scene.StandsUnder i cue.source cue.rule.key)
    (hnode : node ∈ (Event.addSequence i handler source plan params context refusal).handed) :
    ∃ c, Hands scene c node (.addSequence i handler source plan params context refusal) := by
  rcases List.mem_cons.mp hnode with rfl | hnode
  · exact ⟨cue.source, cue, h, .inl ⟨hsource, rfl, rfl⟩⟩
  · obtain ⟨member, hmember, hlands⟩ := List.mem_flatMap.mp hnode
    rw [h.plan] at hmember
    obtain ⟨effect, heffect, rfl⟩ := List.mem_map.mp hmember
    obtain ⟨heffect, hadmits⟩ := List.mem_filter.mp heffect
    have hlanding : node ∈ cue.landing scene effect := hlands
    cases htarget : cue.target? scene effect with
    | none =>
      rw [landing, htarget] at hlanding
      cases hlanding
    | some target =>
      exact ⟨target, cue, h, .inr ⟨effect, heffect, (Bool.and_eq_true_iff.mp hadmits).1, htarget,
        standsUnder_of_target? h.entitled hfaithful hsource heffect htarget, hlanding⟩⟩

theorem attributes_cue {cue : Cue} (hfaithful : engine.scene.Faithful)
    (hentitled : cue.Entitled engine.scene i)
    (hsource : engine.scene.StandsUnder i cue.source cue.rule.key) :
    Tells (Attributes engine.scene) engine (applyCue i engine cue) := by
  by_cases hfresh : cue.text ∈ (engine.inst i).memo
  · exact .silent (by rw [applyCue_of_applied hfresh])
  obtain ⟨-, hquiet⟩ | ⟨handler, replies, hgoes, hoffered⟩ := cue.apply_cases i engine hfresh
  · exact .silent hquiet.log
  refine .of_extends hoffered.told fun event hevent => ⟨rfl, fun node hnode => ?_⟩
  obtain ⟨reply, hreply, rfl⟩ := List.mem_map.mp hevent
  exact Cue.exists_hands (Cue.accounts hentitled hgoes
    (hoffered.nodes ▸ List.mem_map_of_mem hreply)) hfaithful hsource hnode

/-! ### What resolving a key hands to handlers -/

/-- A fold of changes that keep the scene tells what each of them does. -/
theorem tells_foldl {α : Type} {P : Entry → Prop} (f : Engine → α → Engine) (l : List α)
    (h : ∀ state, ∀ a ∈ l, state.scene = engine.scene →
      Tells P state (f state a) ∧ (f state a).scene = state.scene) :
    Tells P engine (l.foldl f engine) := by
  refine (List.foldlRecOn (motive := fun state => Tells P engine state ∧
    state.scene = engine.scene) l f ⟨.silent rfl, rfl⟩ fun state hstate a hmem => ?_).1
  obtain ⟨htells, hscene⟩ := h state a hmem hstate.2
  exact ⟨hstate.1.trans htells, hscene.trans hstate.2⟩

/-- Resolving a key in an instance hands nodes on behalf of controllers. -/
theorem attributes_resolveIn (hfaithful : engine.scene.Faithful)
    (hentitled : Entitled .none engine.scene ⟨i, none⟩ c key) :
    Tells (Attributes engine.scene) engine (resolveIn c key engine i) := by
  obtain ⟨middle, later, hout, hin, hcues⟩ := resolveIn_cues c key engine i
  have hmiddle : middle.scene = engine.scene := hout.scene
  have hlater : later.scene = engine.scene := hin.scene.trans hmiddle
  have hsource := Pass.attributes_outgoing hfaithful hentitled (fun _ _ h => h.elim) hout
  have htarget : Tells (Attributes engine.scene) middle later := by
    rw [← hmiddle] at hfaithful hentitled ⊢
    exact Pass.attributes_incoming hfaithful hentitled (fun _ _ h => h.elim) hin
  rw [hcues]
  refine (hsource.trans htarget).trans (tells_foldl _ _ fun state cue hmem hscene => ?_)
  rw [hlater] at hscene
  have hstems := stems_of_mem_cues hmem
  refine ⟨?_, scene_applyCue i state cue⟩
  rw [← hscene] at hfaithful hentitled hstems ⊢
  exact attributes_cue hfaithful (hentitled.cue hstems)
    (hstems.standsUnder hfaithful hentitled.keyed)

/-- Resolving a key hands nodes on behalf of controllers, if its controller is connected. -/
theorem attributes_resolve {registered : Engine}
    (hregistered : registered = (engine.register key c).1)
    (hfaithful : registered.scene.Faithful) (htidy : registered.Tidy)
    (hconnected : (registered.controller c).connected = true)
    (hkeyed : (registered.controller c).key = some key) :
    Tells (Attributes registered.scene) engine (engine.resolve c key).1 := by
  have hlog : registered.log = engine.log := hregistered ▸ rfl
  rw [resolve_eq, ← hregistered]
  refine (Tells.silent hlog).trans
    (tells_foldl _ _ fun state i hmem hscene => ⟨?_, scene_resolveIn ..⟩)
  have hentitled : Entitled .none registered.scene ⟨i, none⟩ c key :=
    entitled_of_mem_instancesFor htidy hconnected hkeyed hmem fun _ h => nomatch h
  rw [← hscene] at hfaithful hentitled ⊢
  exact attributes_resolveIn hfaithful hentitled

/-- Adding items to a list hands nodes on behalf of controllers, if what is added are items. -/
theorem attributes_addListItems {container : String} {added : List NodeId}
    (hfaithful : engine.scene.Faithful) (htidy : engine.Tidy)
    (hconnected : (engine.controller c).connected = true)
    (hkeyed : (engine.controller c).key = some key)
    (hreports : ReportsItems engine.scene ⟨c, container, added⟩) :
    Tells (Attributes engine.scene) engine (engine.addListItems c key container added) := by
  let scope : ListScope := ⟨c, container, added⟩
  let occasion : Occasion :=
    ⟨fun _ reported => reported = scope, fun _ => False, fun _ _ => False⟩
  refine tells_foldl _ _ fun state i hmem hscene => ?_
  have hentitled : Entitled occasion engine.scene ⟨i, some scope⟩ c key :=
    entitled_of_mem_instancesFor htidy hconnected hkeyed hmem fun _ h =>
      Option.some.inj h ▸ ⟨⟨none, rfl⟩, rfl⟩
  have hitems : ∀ itemSelector reported, occasion.reports itemSelector reported →
      ReportsItems engine.scene reported := fun _ _ h => h ▸ hreports
  have hout := (Pass.mk i (some scope)).resolveOutgoing_spec state c key
  have hin := (Pass.mk i (some scope)).resolveIncoming_spec
    ((Pass.mk i (some scope)).resolveOutgoing state c key) c key
  refine ⟨?_, hin.scene.trans hout.scene⟩
  rw [← hscene] at hfaithful hentitled hitems ⊢
  have hsource := Pass.attributes_outgoing hfaithful hentitled hitems hout
  rw [← hout.scene] at hfaithful hentitled hitems hsource ⊢
  exact hsource.trans (Pass.attributes_incoming hfaithful hentitled hitems hin)

end Engine

end InteractionBinding
