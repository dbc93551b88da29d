import InteractionBinding.Config.Builder
import InteractionBinding.Proofs.Graph.CrossReferences
/-!
# Walks over the edges of a graph

A walk gives out the edges of the nodes one node after the other, each node's edges as they are
stored (`EdgeWalk.toList_start`), whether or not nodes without edges stand between them, and has
nothing more to give out after that (`EdgeWalk.fst_next_after`). The edges of a compiled graph are
thereby the same in every order of its nodes but for that order: they are the effects of its
triggers, and the members of their sequences, each of them once (`Graph.edgeListing_ofConfig`).

## Main definitions

* `Graph.edgesFrom` — the edges of a node, as they are stored.
* `Graph.EdgeWalk.remaining` — what a walk is still to give out.
* `Graph.EdgeListing` — a list of all edges of a compiled graph.
-/

namespace InteractionBinding

open Compile

namespace Graph

/-- The edges that leave a node, in stored order. -/
def edgesFrom (key : String) (node : GraphNode) : List Edge :=
  (node.triggers.flatMap effectsOf).map (.ofEffect key)

theorem source_of_mem_edgesFrom {key : String} {node : GraphNode} {edge : Edge}
    (h : edge ∈ edgesFrom key node) : edge.source = key := by
  obtain ⟨effect, -, rfl⟩ := List.mem_map.mp h
  rfl

/-- The edges of a node, trigger by trigger: those of effects, and then those of sequences. -/
theorem edgesFrom_eq_flatMap (key : String) (node : GraphNode) :
    edgesFrom key node = node.triggers.flatMap fun interaction =>
      interaction.effects.map (.ofEffect key) ++ interaction.sequences.flatMap fun sequence =>
        sequence.effects.map (.ofEffect key) := by
  simp only [edgesFrom, effectsOf, List.map_flatMap, List.map_append]

/-! ### What a walk gives out -/

namespace EdgeWalk

/-- What a walk is still to give out: what is pending, and then the edges of the nodes ahead. -/
def remaining (walk : EdgeWalk) : List Edge :=
  walk.pending ++ walk.ahead.flatMap fun (key, node) => edgesFrom key node

/-- The walk after a number of calls. -/
def after (walk : EdgeWalk) : Nat → EdgeWalk
  | 0 => walk
  | calls + 1 => (walk.after calls).next.2

theorem push_eq (key : String) (node : GraphNode) (pending : List Edge) :
    push key node pending = (edgesFrom key node).reverse ++ pending := by
  rw [push, ← List.foldl_flatMap, List.foldl_flip_cons_eq_append]
  rfl

/-- The stack of a node has its edges in stored order, the first one on top. -/
theorem reverse_push_nil (key : String) (node : GraphNode) :
    (push key node []).reverse = edgesFrom key node := by
  rw [push_eq, List.append_nil, List.reverse_reverse]

/-- A call takes the first of the edges that remain. Without any, it ends the walk for good. -/
theorem next_spec (walk : EdgeWalk) :
    walk.next.1 = walk.remaining.head? ∧ walk.next.2.remaining = walk.remaining.tail := by
  obtain ⟨ahead, pending⟩ := walk
  rw [next]
  induction ahead, pending using advance.induct with
  | case1 ahead edge pending =>
    rw [advance]
    exact ⟨rfl, rfl⟩
  | case2 => exact ⟨rfl, rfl⟩
  | case3 key node ahead ih =>
    -- the stack is empty here, so that the edges of the node are all that it holds afterwards
    have hvisit : remaining ⟨(key, node) :: ahead, []⟩ =
        remaining ⟨ahead, (push key node []).reverse⟩ := by
      rw [remaining, remaining, reverse_push_nil, List.flatMap_cons, List.nil_append]
    rw [advance, hvisit]
    exact ih

theorem remaining_after (walk : EdgeWalk) (calls : Nat) :
    (walk.after calls).remaining = walk.remaining.drop calls := by
  induction calls with
  | zero => rfl
  | succ calls ih => rw [after, (next_spec _).2, ih, List.tail_drop]

/-- The answers to calls are the edges that remain at the start, and then none. -/
theorem fst_next_after (walk : EdgeWalk) (calls : Nat) :
    (walk.after calls).next.1 = walk.remaining[calls]? := by
  rw [(next_spec _).1, remaining_after, List.head?_drop]

/-- A walk comes to an end, when all that remains has been given out. -/
theorem toList_eq_remaining (walk : EdgeWalk) : walk.toList = walk.remaining := by
  fun_induction toList walk with
  | case1 walk rest hend =>
    obtain ⟨hhead, -⟩ := next_spec walk
    rw [hend] at hhead
    exact (List.head?_eq_none_iff.mp hhead.symm).symm
  | case2 walk edge rest hnext ih =>
    obtain ⟨hhead, htail⟩ := next_spec walk
    rw [hnext] at hhead htail
    rw [ih, htail]
    exact List.cons_head?_tail hhead.symm

theorem toList_start (visits : List (String × GraphNode)) :
    (start visits).toList = visits.flatMap fun (key, node) => edgesFrom key node := by
  rw [toList_eq_remaining]
  rfl

end EdgeWalk

/-! ### Grouping by keys -/

/-- The elements of a list, grouped by their keys, are the elements in another order. -/
theorem flatMap_filter_perm {α κ : Type} [DecidableEq κ] (keyOf : α → κ) {keys : List κ}
    (hnodup : keys.Nodup) (l : List α) (h : ∀ a ∈ l, keyOf a ∈ keys) :
    (keys.flatMap fun key => l.filter fun a => keyOf a = key).Perm l := by
  induction keys generalizing l with
  | nil =>
    rw [List.eq_nil_iff_forall_not_mem.mpr fun a ha => List.not_mem_nil (h a ha)]
    rfl
  | cons key rest ih =>
    obtain ⟨hkey, hrest⟩ := List.nodup_cons.mp hnodup
    have hothers (other : κ) (hother : other ∈ rest) :
        (l.filter fun a => keyOf a = other) =
          (l.filter fun a => !decide (keyOf a = key)).filter fun a => keyOf a = other := by
      rw [List.filter_filter]
      refine List.filter_congr fun a _ => ?_
      by_cases ha : keyOf a = other
      · have hne : other ≠ key := fun heq => hkey (heq ▸ hother)
        simp [ha, hne]
      · simp [ha]
    have hleft (a : α) (ha : a ∈ l.filter fun a => !decide (keyOf a = key)) : keyOf a ∈ rest := by
      obtain ⟨hmem, hne⟩ := List.mem_filter.mp ha
      exact (List.mem_cons.mp (h a hmem)).resolve_left (by simpa using hne)
    rw [List.flatMap_cons, List.flatMap_congr hothers]
    exact ((ih hrest _ hleft).append_left _).trans (List.filter_append_perm _ l)

/-! ### The edges of a compiled graph -/

variable {config : Config} {visits : List (String × GraphNode)}

/-- The edges of the nodes are those of the accepted interactions. -/
theorem flatMap_edgesFrom_perm (config : Config) :
    ((ofConfig config).nodes.toList.flatMap fun (key, node) => edgesFrom key node).Perm
      ((accepted config).flatMap fun ci => (effectsOf ci).map (.ofEffect ci.rule.key)) := by
  have hnode (entry : String × GraphNode) (hentry : entry ∈ (ofConfig config).nodes.toList) :
      edgesFrom entry.1 entry.2 = ((accepted config).filter fun ci => ci.rule.key = entry.1).flatMap
        fun ci => (effectsOf ci).map (.ofEffect ci.rule.key) := by
    rw [edgesFrom, triggers_eq (KeyMap.mem_entries_iff.mp hentry), List.map_flatMap]
    refine List.flatMap_congr fun ci hci => ?_
    rw [of_decide_eq_true (List.mem_filter.mp hci).2]
  have hkeys (ci : CompiledInteraction) (hci : ci ∈ accepted config) :
      ci.rule.key ∈ (ofConfig config).nodes.keys := by
    obtain ⟨node, hnode, -⟩ := exists_node_of_mem_accepted hci
    exact KeyMap.mem_keys_iff.mpr ⟨node, hnode⟩
  have hgroups := flatMap_filter_perm (fun ci : CompiledInteraction => ci.rule.key)
    (ofConfig config).nodes.nodup_keys (accepted config) hkeys
  rw [List.flatMap_congr hnode]
  refine List.Perm.trans (.of_eq ?_) (hgroups.flatMap_right _)
  rw [KeyMap.keys, List.flatMap_map, List.flatMap_assoc]
  rfl

/-- The nodes of a graph have edges to nodes of the graph. -/
theorem mem_keys_of_mem_edgesFrom {key : String} {node : GraphNode}
    (h : (ofConfig config).nodes.get? key = some node) {edge : Edge}
    (hedge : edge ∈ edgesFrom key node) :
    edge.source ∈ (ofConfig config).nodes.keys ∧ edge.target ∈ (ofConfig config).nodes.keys := by
  obtain ⟨effect, heffect, rfl⟩ := List.mem_map.mp hedge
  obtain ⟨ci, hci, heffect⟩ := List.mem_flatMap.mp heffect
  exact ⟨KeyMap.mem_keys_iff.mpr ⟨node, h⟩,
    KeyMap.mem_keys_iff.mpr (exists_target ((mem_triggers_iff h).mp hci).1 heffect)⟩

/-- A list has one edge for every effect of a trigger of a graph and every member of a sequence, the
edges of a node together. -/
structure EdgeListing (config : Config) (graph : Graph) (edges : List Edge) : Prop where
  /-- Every effect of a trigger of a node, and every member of its sequences, has its edge. -/
  stored : edges.Perm (graph.nodes.toList.flatMap fun (key, node) =>
    node.triggers.flatMap fun interaction =>
      interaction.effects.map (.ofEffect key) ++ interaction.sequences.flatMap fun sequence =>
        sequence.effects.map (.ofEffect key))
  /-- These are the effects and members that the accepted interactions declare. -/
  declared : edges.Perm ((accepted config).flatMap fun ci =>
    (effectsOf ci).map (.ofEffect ci.rule.key))
  /-- The edges of a node stand together, in stored order. -/
  together (key : String) (node : GraphNode) : graph.nodes.get? key = some node →
    ∃ before after, edges = before ++ edgesFrom key node ++ after ∧
      ∀ edge ∈ before ++ after, edge.source ≠ key
  source : ∀ edge ∈ edges, edge.source ∈ graph.nodes.keys
  target : ∀ edge ∈ edges, edge.target ∈ graph.nodes.keys

/-- In a visit of all nodes, the edges of one of them stand together. -/
theorem exists_edgesFrom_together {graph : Graph} (h : visits.Perm graph.nodes.toList)
    {key : String} {node : GraphNode} (hnode : graph.nodes.get? key = some node) :
    ∃ before after, (visits.flatMap fun (key, node) => edgesFrom key node) =
        before ++ edgesFrom key node ++ after ∧
      ∀ edge ∈ before ++ after, edge.source ≠ key := by
  have hmem : (key, node) ∈ visits := h.mem_iff.mpr (KeyMap.mem_entries_iff.mpr hnode)
  have hnodup : (visits.map Prod.fst).Nodup :=
    (h.map Prod.fst).nodup_iff.mpr graph.nodes.nodup_keys
  obtain ⟨earlier, later, rfl⟩ := List.append_of_mem hmem
  refine ⟨earlier.flatMap fun (key, node) => edgesFrom key node,
    later.flatMap fun (key, node) => edgesFrom key node, ?_, fun edge hedge heq => ?_⟩
  · rw [List.flatMap_append, List.flatMap_cons, List.append_assoc]
  · rw [← List.flatMap_append] at hedge
    obtain ⟨entry, hentry, hedge⟩ := List.mem_flatMap.mp hedge
    have hkey : key ∈ (earlier ++ later).map Prod.fst := by
      rw [← heq, source_of_mem_edgesFrom hedge]
      exact List.mem_map_of_mem hentry
    rw [List.map_append, List.map_cons, List.nodup_middle, ← List.map_append] at hnodup
    exact (List.nodup_cons.mp hnodup).1 hkey

/-- In whatever order the nodes of a compiled graph are visited, the calls of a walk over its edges
give out the edges of its list one after the other, and nothing from then on. The list has one edge
for every effect and every member of a sequence, from a key of the graph to a key of the graph, and
the edges of a node stand together. -/
theorem edgeListing_ofConfig (config : Config) {visits : List (String × GraphNode)}
    (h : visits.Perm (ofConfig config).nodes.toList) :
    let walk := EdgeWalk.start visits
    (∀ calls, (walk.after calls).next.1 = walk.toList[calls]?) ∧
      EdgeListing config (ofConfig config) walk.toList := by
  intro walk
  have hlist : walk.toList = visits.flatMap fun (key, node) => edgesFrom key node :=
    EdgeWalk.toList_start visits
  have hperm : walk.toList.Perm
      ((ofConfig config).nodes.toList.flatMap fun (key, node) => edgesFrom key node) :=
    hlist ▸ h.flatMap_right _
  have hkeys (edge : Edge) (hedge : edge ∈ walk.toList) :
      edge.source ∈ (ofConfig config).nodes.keys ∧ edge.target ∈ (ofConfig config).nodes.keys := by
    obtain ⟨entry, hentry, hedge⟩ := List.mem_flatMap.mp (hperm.mem_iff.mp hedge)
    exact mem_keys_of_mem_edgesFrom (KeyMap.mem_entries_iff.mp hentry) hedge
  refine ⟨fun calls => ?_, ?_⟩
  · rw [EdgeWalk.fst_next_after, EdgeWalk.toList_eq_remaining]
  · exact {
      stored := hperm.trans (.of_eq (List.flatMap_congr fun _ _ => edgesFrom_eq_flatMap _ _))
      declared := hperm.trans (flatMap_edgesFrom_perm config)
      together := fun key node hnode => hlist ▸ exists_edgesFrom_together h hnode
      source := fun edge hedge => (hkeys edge hedge).1
      target := fun edge hedge => (hkeys edge hedge).2 }

/-- Backwards through the keys, the lamp and the door, which are targets only, are passed over
between the two keys that have edges. -/
theorem edgeListing_ofConfig_switch :
    let switch := ((Interaction.ofTrigger "switch" .click).withEffect
      ((Effect.byId "glow").on "lamp")).withSequence
        (.inline (.ofEffects [(Effect.byId "swing").on "door", Effect.byId "press"]))
    let bell := (Interaction.ofTrigger "bell" .hover).withEffect ((Effect.byId "dim").on "lamp")
    let config := Config.ofInteractions [bell, switch, bell]
    let visits := (ofConfig config).nodes.toList.reverse
    let walk := EdgeWalk.start visits
    visits.Perm (ofConfig config).nodes.toList ∧
      visits.map Prod.fst = ["switch", "lamp", "door", "bell"] ∧
      walk.toList = [⟨"switch", "lamp", ⟨"lamp", "glow", 1⟩⟩,
        ⟨"switch", "door", ⟨"door", "swing", 1⟩⟩, ⟨"switch", "switch", ⟨"switch", "press", 1⟩⟩,
        ⟨"bell", "lamp", ⟨"lamp", "dim", 0⟩⟩, ⟨"bell", "lamp", ⟨"lamp", "dim", 2⟩⟩] ∧
      (walk.after 5).next.1 = none ∧ EdgeListing config (ofConfig config) walk.toList := by
  intro switch bell config visits walk
  have hperm : visits.Perm (ofConfig config).nodes.toList := List.reverse_perm _
  obtain ⟨hcalls, hlisting⟩ := edgeListing_ofConfig config hperm
  have hlist : walk.toList = [⟨"switch", "lamp", ⟨"lamp", "glow", 1⟩⟩,
      ⟨"switch", "door", ⟨"door", "swing", 1⟩⟩, ⟨"switch", "switch", ⟨"switch", "press", 1⟩⟩,
      ⟨"bell", "lamp", ⟨"lamp", "dim", 0⟩⟩, ⟨"bell", "lamp", ⟨"lamp", "dim", 2⟩⟩] := by
    rw [EdgeWalk.toList_start]
    decide +kernel
  refine ⟨hperm, by decide +kernel, hlist, ?_, hlisting⟩
  rw [hcalls 5, show (EdgeWalk.start visits).toList = _ from hlist]
  rfl

end Graph

end InteractionBinding
