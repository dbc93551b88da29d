import InteractionBinding.Proofs.Engine.Cues
import InteractionBinding.Proofs.Graph.Selectors
import InteractionBinding.Proofs.Sequences.Performances
import InteractionBinding.Proofs.Wiring.Justified
import InteractionBinding.Proofs.Wiring.Releasing
/-!
# The nodes that a controller owns

A controller owns its anchor, and what the selectors recorded for its key reach below it
(`Engine.mem_ownedNodes_iff_owns`). Handlers are handed nodes on behalf of controllers: the source
node of a wiring on behalf of the controller of the source, a target node on behalf of that of the
target, and the nodes that a member of a sequence lands on on behalf of that of the member
(`Engine.Hands`). If selectors see through the document, a controller owns every node that is handed
on its behalf (`Engine.Hands.owns`).
-/

namespace InteractionBinding

/-- What a selector finds below a node it finds below everything that the node is found below. -/
def Dom.Nested (dom : Dom) : Prop :=
  ∀ root below selector selector', below ∈ dom.queryAll root selector →
    dom.queryAll below selector' ⊆ dom.queryAll root selector'

/-! ### What the selectors of a key cover -/

/-- The element of a key, and what the selectors recorded for the key reach below it. -/
def GraphNode.Covers (graphNode : GraphNode) (dom : Dom) (anchor node : NodeId) : Prop :=
  node = anchor ∨ ∃ selector ∈ graphNode.selectors.keys, node ∈ dom.queryAll anchor selector

namespace GraphNode.Records

variable {graphNode : GraphNode} {selector container item : Option String} {dom : Dom}
  {anchor node : NodeId}

theorem covers_select (h : graphNode.Records selector container item)
    (hnode : node ∈ dom.select anchor selector) : graphNode.Covers dom anchor node := by
  cases selector with
  | none => exact .inl (List.mem_singleton.mp hnode)
  | some text => exact .inr ⟨text, h.selector text rfl, hnode⟩

/-- What is reached through an item of a list is covered if the list is recorded. -/
theorem covers_item (h : graphNode.Records selector container item) (hnested : dom.Nested)
    {list : String} {listItem : NodeId} (hlist : list ∈ graphNode.selectors.keys)
    (hitem : listItem ∈ dom.queryAll anchor list) (hnode : node ∈ dom.select listItem selector) :
    graphNode.Covers dom anchor node := by
  cases selector with
  | none => exact .inr ⟨list, hlist, List.mem_singleton.mp hnode ▸ hitem⟩
  | some text =>
    exact .inr ⟨text, h.selector text rfl, hnested anchor listItem list text hitem hnode⟩

/-- What an effect lands on below its anchor is covered. -/
theorem covers_effectNodes {effect : Effect}
    (h : graphNode.Records effect.selector effect.listContainer effect.listItemSelector)
    (hnested : dom.Nested) (hnode : node ∈ dom.effectNodes anchor effect) :
    graphNode.Covers dom anchor node := by
  rw [Dom.effectNodes] at hnode
  split at hnode
  next list hlist =>
    obtain ⟨listItem, hitem, hnode⟩ := List.mem_flatMap.mp hnode
    exact h.covers_item hnested (h.items list hlist) hitem hnode
  next => exact h.covers_select hnode

end GraphNode.Records

/-! ### Owned nodes -/

namespace Scene

variable {scene : Scene} {i : InstanceId} {c : ControllerId} {graphKey : String}

/-- Every instance of a scene has the graph of a configuration. -/
def Compiled (scene : Scene) : Prop :=
  ∀ i, ∃ config, (scene.inst i).graph = Graph.ofConfig config

/-- The key of a controller stands for a key of the graph of an instance. -/
def StandsUnder (scene : Scene) (i : InstanceId) (c : ControllerId) (graphKey : String) : Prop :=
  ∃ key, (scene.controller c).key = some key ∧ (scene.inst i).graph.resolveKey key = some graphKey

/-- A controller owns its anchor, and what is covered below it for its key in a live instance. -/
def Owns (scene : Scene) (c : ControllerId) (node : NodeId) : Prop :=
  ∃ anchor, scene.anchor c = some anchor ∧ (node = anchor ∨ ∃ i ∈ scene.live, ∃ graphKey graphNode,
    scene.StandsUnder i c graphKey ∧ (scene.inst i).graph.nodes.get? graphKey = some graphNode ∧
      graphNode.Covers scene.dom anchor node)

theorem StandsUnder.exists_node (h : scene.StandsUnder i c graphKey) :
    ∃ graphNode, (scene.inst i).graph.nodes.get? graphKey = some graphNode := by
  obtain ⟨key, -, hresolve⟩ := h
  have hcontains : (scene.inst i).graph.nodes.contains graphKey = true := by
    rw [Graph.resolveKey] at hresolve
    split at hresolve
    next hkey => exact Option.some.inj hresolve ▸ hkey
    next =>
      dsimp only at hresolve
      split at hresolve
      next htemplate => exact Option.some.inj hresolve ▸ htemplate
      next => cases hresolve
  exact Option.isSome_iff_exists.mp hcontains

end Scene

namespace Engine

variable {engine : Engine} {c : ControllerId} {node : NodeId}

/-- A controller is torn down on the nodes that it owns. -/
theorem mem_ownedNodes_iff_owns : node ∈ engine.ownedNodes c ↔ engine.scene.Owns c node := by
  have hkey : (engine.scene.controller c).key = (engine.controller c).key :=
    congrArg Controller.Face.key (engine.scene_controller c)
  simp only [ownedNodes, Scene.Owns, Scene.StandsUnder, hkey, anchor_eq]
  cases engine.scene.anchor c with
  | none => simp
  | some anchor =>
    simp only [Option.some.injEq, exists_eq_left']
    cases (engine.controller c).key with
    | none => simp
    | some key =>
      simp only [Option.some.injEq, exists_eq_left']
      rw [mem_foldl_insert, List.mem_singleton]
      constructor
      · rintro (rfl | hnode)
        · exact .inl rfl
        · obtain ⟨selector, hselector, hnode⟩ := List.mem_flatMap.mp hnode
          obtain ⟨i, hi, hselector⟩ := List.mem_flatMap.mp hselector
          rw [graph_inst_eq, Graph.get?] at hselector
          cases hresolve : (engine.scene.inst i).graph.resolveKey key with
          | none => simp [hresolve] at hselector
          | some graphKey =>
            cases hget : (engine.scene.inst i).graph.nodes.get? graphKey with
            | none => simp [hresolve, hget] at hselector
            | some graphNode =>
              rw [hresolve, Option.bind_some, hget] at hselector
              exact .inr ⟨i, (List.mem_filter.mp hi).1, graphKey, graphNode, hresolve, hget,
                .inr ⟨selector, hselector, hnode⟩⟩
      · rintro (rfl | ⟨i, hi, graphKey, graphNode, hresolve, hget, rfl | hcovers⟩)
        · exact .inl rfl
        · exact .inl rfl
        · obtain ⟨selector, hselector, hnode⟩ := hcovers
          refine .inr (List.mem_flatMap.mpr ⟨selector, List.mem_flatMap.mpr ⟨i, ?_, ?_⟩, hnode⟩)
          · rw [instancesFor_eq, List.mem_filter, Graph.knows, hresolve]
            exact ⟨hi, rfl⟩
          · rw [graph_inst_eq, Graph.get?, hresolve, Option.bind_some, hget]
            exact hselector

/-! ### Handed nodes -/

/-- What an operation brings in that reports no nodes and reads no document. -/
def Occasion.none : Occasion := ⟨fun _ _ => False, fun _ => False, fun _ _ => False⟩

/-- The controllers of the two sides of an effect stand under the keys of the sides. If these are
one key, there is one controller. -/
structure Sided (scene : Scene) (i : InstanceId) (rule : Rule) (effect : CompiledEffect)
    (sourceSide targetSide : ControllerId) : Prop where
  source : scene.StandsUnder i sourceSide rule.key
  target : scene.StandsUnder i targetSide effect.target
  own : effect.target = rule.key → targetSide = sourceSide

/-- A handler is handed a node on behalf of a controller: one of the two nodes of a wiring, the
source node of a sequence, or a node that a member of the sequence lands on. -/
def Hands (scene : Scene) (c : ControllerId) (node : NodeId) : Event → Prop
  | .add i handler source target plan params context _ =>
    ∃ warrant, Justifies .none scene warrant i handler source target plan params context ∧
      Sided scene i warrant.interaction.rule warrant.effect warrant.source warrant.target ∧
      (c = warrant.source ∧ node = source ∨ c = warrant.target ∧ node = target)
  | .addSequence i handler source plan params context _ =>
    ∃ cue : Cue, cue.Accounts scene i handler source plan params context ∧
      (scene.StandsUnder i cue.source cue.rule.key ∧ c = cue.source ∧ node = source ∨
        ∃ effect ∈ cue.sequence.effects, scene.admits i effect = true ∧
          cue.target? scene effect = some c ∧ scene.StandsUnder i c effect.target ∧
          node ∈ cue.landing scene effect)
  | _ => False

variable {scene : Scene} {i : InstanceId}

/-- An item of a list that nobody has reported is found below the anchor of its owner. -/
theorem IsItem.found_of_none {container : String} {itemSelector : Option String} {item : NodeId}
    (h : IsItem .none scene c container itemSelector item) :
    ∃ anchor, scene.anchor c = some anchor ∧
      item ∈ scene.dom.queryAll anchor (itemsSelector container itemSelector) := by
  cases h with
  | found anchor hanchor hitem => exact ⟨anchor, hanchor, hitem⟩
  | reported scope hscope => exact hscope.elim
  | borrowed other _ scope hscope => exact hscope.elim

theorem owns_of_covers (hlive : i ∈ scene.live) {graphKey : String} {graphNode : GraphNode}
    (hstands : scene.StandsUnder i c graphKey)
    (hget : (scene.inst i).graph.nodes.get? graphKey = some graphNode) {anchor : NodeId}
    (hanchor : scene.anchor c = some anchor) (h : graphNode.Covers scene.dom anchor node) :
    scene.Owns c node :=
  ⟨anchor, hanchor, .inr ⟨i, hlive, graphKey, graphNode, hstands, hget, h⟩⟩

/-- Both nodes of a justified wiring are owned by the controllers of the two sides. -/
theorem owns_of_justifies (hcompiled : scene.Compiled) (hnested : scene.dom.Nested)
    {warrant : Warrant} {handler : HandlerId} {source target : NodeId} {plan : EffectPlan}
    {params : KeyMap Json} {context : HandlerContext}
    (h : Justifies .none scene warrant i handler source target plan params context)
    (hsides : Sided scene i warrant.interaction.rule warrant.effect warrant.source
      warrant.target) :
    scene.Owns warrant.source source ∧ scene.Owns warrant.target target := by
  obtain ⟨config, hgraph⟩ := hcompiled i
  obtain ⟨sourceNode, hsource⟩ := hsides.source.exists_node
  obtain ⟨targetNode, htarget⟩ := hsides.target.exists_node
  obtain ⟨node, hnode, htrigger⟩ := h.declared
  have hci : warrant.interaction ∈ Compile.accepted config := by
    rw [hgraph] at hnode
    exact ((Graph.mem_triggers_iff hnode).mp htrigger).1
  have hrule := Graph.records_rule hci (hgraph ▸ hsource)
  have heffect := Graph.records_effect hci (List.mem_append_left _ h.effect) (hgraph ▸ htarget)
  have hown {anchor : NodeId} := @owns_of_covers warrant.source source scene i h.live _ _
    hsides.source hsource anchor
  have hown' {anchor : NodeId} := @owns_of_covers warrant.target target scene i h.live _ _
    hsides.target htarget anchor
  cases h.reaches with
  | plain sourceAnchor targetAnchor _ _ hanchor hanchor' hreach hreach' =>
    exact ⟨hown hanchor (hrule.covers_select hreach), hown' hanchor' (heffect.covers_select hreach')⟩
  | ofSourceItem container item targetAnchor hlist hitem hanchor' hreach hreach' =>
    obtain ⟨anchor, hanchor, hitem⟩ := hitem.found_of_none
    have hitems := hrule.items container hlist
    refine ⟨hown hanchor (hrule.covers_item hnested hitems hitem hreach), ?_⟩
    split at hreach'
    next hsame =>
      -- an effect within the list of its rule lands on the source itself
      have hjoins := Compile.joinsLists_of_mem_effects hci h.effect
      rw [Compile.joinsLists, hlist, hsame] at hjoins
      have hself : warrant.effect.target = warrant.interaction.rule.key := by
        simpa using hjoins
      rw [hself] at htarget
      obtain rfl := Option.some.inj (hsource.symm.trans htarget)
      rw [hsides.own hself] at hown' ⊢
      exact hown' hanchor (heffect.covers_item hnested hitems hitem hreach')
    next => exact hown' hanchor' (heffect.covers_select hreach')
  | ofTargetItem container item sourceAnchor _ hlist hitem hanchor hreach hreach' =>
    obtain ⟨anchor, hanchor', hitem⟩ := hitem.found_of_none
    exact ⟨hown hanchor (hrule.covers_select hreach),
      hown' hanchor' (heffect.covers_item hnested (heffect.items container hlist) hitem hreach')⟩

/-- A controller on whose behalf a node is handed is connected, and owns the node. -/
theorem Hands.owns (hcompiled : scene.Compiled) (hnested : scene.dom.Nested) {event : Event}
    (h : Hands scene c node event) :
    (scene.controller c).connected = true ∧ scene.Owns c node := by
  cases event with
  | add i handler source target plan params context refusal =>
    obtain ⟨warrant, hjustifies, hsides, hside⟩ := h
    obtain ⟨hsource, htarget⟩ := owns_of_justifies hcompiled hnested hjustifies hsides
    obtain ⟨rfl, rfl⟩ | ⟨rfl, rfl⟩ := hside
    · exact ⟨hjustifies.sourceConnected, hsource⟩
    · exact ⟨hjustifies.targetConnected, htarget⟩
  | addSequence i handler source plan params context refusal =>
    obtain ⟨cue, haccounts, hside⟩ := h
    obtain ⟨config, hgraph⟩ := hcompiled i
    obtain ⟨declaring, interaction, hget, htrigger, hrule, hsequence⟩ := haccounts.entitled.declared
    obtain ⟨graphKey, -, hnode⟩ := Option.bind_eq_some_iff.mp hget
    have hci : interaction ∈ Compile.accepted config := by
      rw [hgraph] at hnode
      exact ((Graph.mem_triggers_iff hnode).mp htrigger).1
    obtain ⟨hstands, rfl, rfl⟩ | ⟨effect, heffect, -, htarget, hstands, hlanding⟩ := hside
    · obtain ⟨graphNode, hgraphNode⟩ := hstands.exists_node
      have hrecords := Graph.records_rule hci (hgraph ▸ hrule ▸ hgraphNode)
      have hsources := haccounts.node
      rw [Cue.sources] at hsources
      cases hanchor : scene.anchor cue.source with
      | none =>
        rw [hanchor] at hsources
        cases hsources
      | some anchor =>
        rw [hanchor, ← hrule] at hsources
        exact ⟨haccounts.entitled.connected, owns_of_covers haccounts.entitled.live hstands
          hgraphNode hanchor (hrecords.covers_select hsources)⟩
    · obtain ⟨graphNode, hgraphNode⟩ := hstands.exists_node
      have hrecords := Graph.records_effect hci
        (List.mem_append_right _ (List.mem_flatMap.mpr ⟨cue.sequence, hsequence, heffect⟩))
        (hgraph ▸ hgraphNode)
      rw [Cue.landing, htarget] at hlanding
      refine ⟨haccounts.entitled.connected_of_target? htarget, ?_⟩
      rw [Option.map_some, Option.getD_some, Scene.effectNodes] at hlanding
      cases hanchor : scene.anchor c with
      | none =>
        rw [hanchor] at hlanding
        cases hlanding
      | some anchor =>
        rw [hanchor] at hlanding
        exact owns_of_covers haccounts.entitled.live hstands hgraphNode hanchor
          (hrecords.covers_effectNodes hnested hlanding)
  | remove | effectState | insertSheet | removeSheet => exact h.elim

/-- A node is handed to a handler of the table. -/
theorem Hands.exists_handler {event : Event} (h : Hands scene c node event) :
    ∃ handler, handler ∈ scene.handlers.all := by
  cases event with
  | add =>
    obtain ⟨warrant, hjustifies, -⟩ := h
    exact HandlerTable.exists_mem_all (Option.isSome_of_mem hjustifies.handler)
  | addSequence =>
    obtain ⟨cue, haccounts, -⟩ := h
    exact HandlerTable.exists_mem_all (Option.isSome_of_mem haccounts.handler)
  | remove | effectState | insertSheet | removeSheet => exact h.elim

end Engine

end InteractionBinding
