import InteractionBinding.Proofs.Wiring.Joining
import InteractionBinding.Proofs.Wiring.Settling
/-!
# Keys on a site

A scene hosts a site if it is seated and its one instance stands on the site (`Site.Hosts`). A key
that joins the connected ones in such a scene settles texts with what it offers beside them
(`Site.Hosts.settles`), whatever placeholders the keys have.
-/

namespace InteractionBinding

namespace Engine

namespace Site

/-- The ground of a site. -/
def ground (site : Site) : Ground := ⟨site.dom, site.handlers, site.nodeOf⟩

/-- A seated scene with one instance, which stands on a site. -/
structure Hosts (site : Site) (mounted : List String) (scene : Scene) : Prop
    extends Scene.Seated site.ground mounted scene where
  live : scene.live = [0]
  count : scene.instances.length = 1
  graph : (scene.inst 0).graph = site.graph
  queryState : scene.queryState = site.queryState

/-- One engine comes from another by resolving a key: the key settles the texts that have not been
applied with what it offers beside the other keys. -/
structure Settles (site : Site) (key : String) (others : List String) (before after : Engine) :
    Prop where
  applied (text : String) : text ∈ (before.inst 0).memo ∨ (site.offer key others text).isSome →
    text ∈ (after.inst 0).memo
  settled (text : String) : text ∈ (after.inst 0).memo →
    text ∈ (before.inst 0).memo ∨ (site.offer key others text).isSome ∨
      ∃ other ∈ key :: others, text ∈ site.sequenceTexts other
  wires (wire : Wire) : wire ∈ after.wires ↔ wire ∈ before.wires ∨
    wire.id.encode ∉ (before.inst 0).memo ∧
      ∃ wires, site.offer key others wire.id.encode = some wires ∧ wire ∈ wires

namespace Hosts

variable {site : Site} {mounted mounted' others : List String} {engine after : Engine}
  {c : ControllerId} {key : String}

theorem onSite {scene : Scene} (h : site.Hosts mounted scene) : OnSite site 0 scene where
  graph := h.graph
  dom := h.dom
  handlers := h.handlers
  queryState := h.queryState
  anchored _ _ := h.anchored
  accepts := h.accepts

theorem length_instances (h : site.Hosts mounted engine.scene) : engine.instances.length = 1 := by
  have hcount := h.count
  rwa [Engine.scene, List.length_map] at hcount

theorem joins (h : site.Hosts mounted engine.scene)
    (hjoins : Joins site.ground mounted mounted' c key engine after) :
    site.Hosts mounted' after.scene :=
  have hinstances : after.scene.instances = engine.scene.instances :=
    congrArg (List.map Instance.face) hjoins.instances
  { hjoins.seated with
    live := hjoins.live.trans h.live
    count := hinstances ▸ h.count
    graph := by
      rw [Scene.inst, hinstances]
      exact h.graph
    queryState := hjoins.queryState.trans h.queryState }

theorem setConnected {scene : Scene} (h : site.Hosts mounted scene)
    (hregistered : scene.registry.get? key = some c) (connected : Bool) :
    site.Hosts mounted (scene.setConnected c connected) :=
  { h.toSeated.setConnected hregistered connected with
    live := h.live
    count := h.count
    graph := h.graph
    queryState := h.queryState }

/-- The one instance knows a key if its graph has a node for the key. -/
theorem instancesFor_eq (h : site.Hosts mounted engine.scene) (key : String) :
    engine.instancesFor key = if (site.graph.get? key).isSome then [0] else [] := by
  rw [Engine.instancesFor_eq, h.live, List.filter_singleton, h.graph, Graph.isSome_get?]
  cases site.graph.knows key <;> rfl

theorem mem_sequenceTexts_of_isSequenceId (h : site.Hosts mounted engine.scene)
    (hconnected : ∀ other, (engine.connectedController? other).isSome ↔ other ∈ key :: others)
    {text : String} (hsequence : (Pass.mk 0 none).IsSequenceId engine key text) :
    ∃ other ∈ key :: others, text ∈ site.sequenceTexts other := by
  obtain ⟨other, node, interaction, sequence, hother, hnode, htrigger, hmem, rfl⟩ := hsequence
  rw [Pass.node?_eq, h.graph] at hnode
  refine ⟨other, ?_, ?_⟩
  · rcases hother with rfl | hother
    · exact .head _
    · exact (hconnected other).mp hother
  · rw [sequenceTexts, hnode]
    exact List.mem_flatMap.mpr ⟨interaction, htrigger, List.mem_map_of_mem hmem⟩

/-- Resolving a connected key in the instance. -/
theorem settles_resolveIn (h : site.Hosts mounted engine.scene)
    (hself : engine.connectedController? key = some c)
    (hconnected : ∀ other, (engine.connectedController? other).isSome ↔ other ∈ key :: others) :
    site.Settles key others engine (resolveIn c key engine 0) := by
  have hlength : 0 < engine.instances.length := h.length_instances ▸ Nat.one_pos
  obtain ⟨middle, later, hout, hin, events, marked, hextends, hevents, hmarked⟩ :=
    resolveIn_spec c key engine 0
  have hlater (text : String) : text ∈ (later.inst 0).memo ↔ _ :=
    mem_memo_of_sides h.onSite hlength hself hconnected hout hin
  refine ⟨fun text happlied => ?_, fun text hmem => ?_, fun wire => ?_⟩
  · rw [hextends.memo, hlater]
    exact .inl happlied
  · rw [hextends.memo, hlater, or_assoc] at hmem
    refine hmem.imp_right (Or.imp_right ?_)
    rintro ⟨-, -, hmem⟩
    exact h.mem_sequenceTexts_of_isSequenceId hconnected (hmarked text hmem)
  · rw [WiresSequences.wires_eq ⟨events, marked, hextends, hevents, hmarked⟩,
      mem_wires_of_sides h.onSite hlength hself hconnected hout hin]

/-- A key that joins the connected ones, once it is resolved. -/
theorem settles (h : site.Hosts mounted engine.scene)
    (hjoins : Joins site.ground mounted mounted' c key engine after)
    (hothers : ∀ other, engine.scene.IsConnected other ↔ other ∈ others) :
    site.Settles key others engine ((after.instancesFor key).foldl (resolveIn c key) after) := by
  have hhosts := h.joins hjoins
  have hconnected (other : String) :
      (after.connectedController? other).isSome ↔ other ∈ key :: others := by
    rw [Engine.connectedController?_eq, List.mem_cons, ← hothers]
    exact hjoins.isConnected_iff other
  rw [hhosts.instancesFor_eq]
  cases hnode : site.graph.get? key with
  | some node =>
    have hsettles := hhosts.settles_resolveIn hjoins.connectedController?_self hconnected
    rw [Option.isSome_some, if_pos rfl, List.foldl_cons, List.foldl_nil]
    refine ⟨fun text => ?_, fun text => ?_, fun wire => ?_⟩
    · rw [← hjoins.inst_eq]
      exact hsettles.applied text
    · rw [← hjoins.inst_eq]
      exact hsettles.settled text
    · rw [← hjoins.inst_eq, ← hjoins.wires_eq]
      exact hsettles.wires wire
  | none =>
    rw [Option.isSome_none, if_neg Bool.false_ne_true, List.foldl_nil]
    refine ⟨fun text => ?_, fun text hmem => ?_, fun wire => ?_⟩
    · rw [offer_eq_none_of_get? hnode, hjoins.inst_eq]
      simp
    · exact .inl (hjoins.inst_eq 0 ▸ hmem)
    · rw [offer_eq_none_of_get? hnode, hjoins.wires_eq]
      simp

/-- The scene once a key that joins the connected ones is resolved. -/
theorem resolved (h : site.Hosts mounted engine.scene)
    (hjoins : Joins site.ground mounted mounted' c key engine after) :
    site.Hosts mounted' ((after.instancesFor key).foldl (resolveIn c key) after).scene ∧
      ∀ other, ((after.instancesFor key).foldl (resolveIn c key) after).scene.IsConnected other ↔
        other = key ∨ engine.scene.IsConnected other := by
  rw [scene_foldl_resolveIn]
  exact ⟨h.joins hjoins, hjoins.isConnected_iff⟩

end Hosts

end Site

/-! ### Fresh engines -/

/-- What keys are resolved by in an instance of a configuration at a host, each key standing for its
node. -/
def siteOf (host : Host) (config : Config) (nodeOf : String → NodeId) : Site :=
  ⟨.ofConfig config, host.dom, host.handlers, host.queryState, nodeOf⟩

/-- A fresh engine with one instance hosts its site. Nothing is connected, applied or wired. -/
theorem hosts_create {host : Host} (config : Config) (nodeOf : String → NodeId)
    (options : EngineOptions) (haccepts : ∀ id, (host.handler id).Accepts) :
    let engine := ((start host options).create config).1
    (siteOf host config nodeOf).Hosts [] engine.scene ∧ (∀ key, ¬engine.scene.IsConnected key) ∧
      (engine.inst 0).memo = [] ∧ engine.wires = [] := by
  intro engine
  have hregistry (key : String) : engine.scene.registry.get? key = none := rfl
  refine ⟨⟨⟨rfl, rfl, rfl, haccepts, rfl, fun c key hc => ?_, fun key c hc => ?_,
    fun c key hc => ?_⟩, rfl, rfl, rfl, rfl⟩, fun key hconnected => ?_, rfl, rfl⟩
  · cases hc
  · cases (hregistry key).symm.trans hc
  · cases hc
  · rw [Scene.IsConnected, Scene.connectedController?, hregistry] at hconnected
    cases hconnected

end Engine

end InteractionBinding
