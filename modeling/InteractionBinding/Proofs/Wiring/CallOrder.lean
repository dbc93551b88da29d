import InteractionBinding.Config.Builder
import InteractionBinding.Proofs.Graph.CrossReferences
import InteractionBinding.Proofs.Wiring.Calls
/-!
# The order of the calls of a source

The effects of an interaction are kept in reverse of their declared order and wired from the last
selected to the first, so they are called for in declared order. The two reversals nest differently,
though: the first is made for each interaction, and the second for all interactions of the key
together. A source calls for its interactions from the last to the first
(`Engine.run_connect_calls`).
-/

namespace InteractionBinding

open Compile
open Engine (Candidate Pass)

theorem flatMap_filterMap {α β γ : Type} (l : List α) (f : α → Option β) (g : β → List γ) :
    (l.filterMap f).flatMap g = l.flatMap fun a => ((f a).map g).getD [] := by
  induction l with
  | nil => rfl
  | cons a rest ih =>
    rw [List.filterMap_cons, List.flatMap_cons, ← ih]
    cases f a <;> rfl

/-- The effects of an interaction, in declared order. -/
def CompiledInteraction.declared (ci : CompiledInteraction) : List CompiledEffect :=
  ci.effects.reverse

theorem Compile.declared_compileInteraction (config : Config) (interaction : Interaction)
    (rule : Rule) : (compileInteraction config interaction rule).declared =
      compileEffects config.effects rule interaction.effects.zipIdx := by
  rw [CompiledInteraction.declared, compileInteraction, compileEffects, compileEffects,
    List.filterMap_reverse, List.reverse_reverse]

/-- The effect that an event asks for. -/
def Event.effectId? : Event → Option String
  | .add _ _ _ _ plan _ _ _ => some plan.effectId
  | _ => none

namespace Config

/-- The accepted interactions of a source, in the order of the configuration. -/
def interactionsOf (config : Config) (source : String) : List CompiledInteraction :=
  (accepted config).filter fun ci => ci.rule.key = source

/-- Whether a rule is that of an interaction of a source. -/
def isRuleOf (config : Config) (source : String) (index : Nat) : Bool :=
  (config.interactionsOf source).any fun ci => ci.rule.index = index

theorem mem_interactionsOf {config : Config} {source : String} {ci : CompiledInteraction} :
    ci ∈ config.interactionsOf source ↔ ci ∈ accepted config ∧ ci.rule.key = source := by
  simp [interactionsOf]

theorem isRuleOf_iff {config : Config} {source : String} {ci : CompiledInteraction}
    (hci : ci ∈ accepted config) :
    config.isRuleOf source ci.rule.index = true ↔ ci.rule.key = source := by
  simp only [isRuleOf, List.any_eq_true, decide_eq_true_eq, mem_interactionsOf]
  constructor
  · rintro ⟨other, ⟨hother, hkey⟩, hindex⟩
    rw [← accepted_eq_of_index_eq hother hci hindex, hkey]
  · exact fun hkey => ⟨ci, ⟨hci, hkey⟩, rfl⟩

end Config

theorem Graph.exists_node_of_resolveKey {graph : Graph} {key name : String}
    (h : graph.resolveKey key = some name) : ∃ node, graph.nodes.get? name = some node := by
  refine Option.isSome_iff_exists.mp ?_
  simp only [resolveKey, KeyMap.contains] at h
  grind

/-- The candidates that effects of interactions make for a source, whatever has been applied:
interactions from the last to the first, and the effects of each of them in declared order. -/
def Scene.callCandidates (scene : Scene) (i : InstanceId) (c : ControllerId) (key : String)
    (interactions : List CompiledInteraction) : List Candidate :=
  interactions.reverse.flatMap fun ci =>
    ci.declared.filterMap (scene.sourceCandidate? i c key ci.rule)

namespace Engine

variable {engine : Engine} {config : Config} {i : InstanceId} {c : ControllerId} {key name : String}

namespace Pass

/-- Of the candidates with one text the first one stays, at its place. -/
def firstOfEach (candidates : List Candidate) : List Candidate :=
  (lastOfEach candidates.reverse).reverse

theorem firstOfEach_of_nodup {candidates : List Candidate}
    (h : (candidates.map Candidate.memoKey).Nodup) : firstOfEach candidates = candidates := by
  have hreverse : (candidates.reverse.map Candidate.memoKey).Nodup := by
    rw [List.map_reverse]
    exact List.nodup_reverse.mpr h
  rw [firstOfEach, lastOfEach_of_nodup hreverse, List.reverse_reverse]

/-- The candidates of a source are offered in reverse of the order in which they are called for. -/
theorem reverse_sourceCandidates {node : GraphNode}
    (hnode : (Graph.ofConfig config).nodes.get? name = some node) (scene : Scene) (i : InstanceId)
    (c : ControllerId) (key : String) : (scene.sourceCandidates i c key node).reverse =
      scene.callCandidates i c key (config.interactionsOf name) := by
  rw [Scene.sourceCandidates, Graph.triggers_eq hnode, Scene.callCandidates,
    Config.interactionsOf, List.reverse_flatMap]
  refine List.flatMap_congr fun ci _ => ?_
  rw [Function.comp_apply, CompiledInteraction.declared, List.filterMap_reverse]

/-- A source calls for the candidates that have not been applied, for the first one with each text.
-/
theorem reverse_outgoingOf (hgraph : (engine.inst i).graph = .ofConfig config)
    (hname : (Graph.ofConfig config).resolveKey key = some name) :
    ((Pass.mk i none).outgoingOf engine c key).reverse =
      firstOfEach ((engine.scene.callCandidates i c key (config.interactionsOf name)).filter
        fun candidate => candidate.memoKey ∉ (engine.inst i).memo) := by
  obtain ⟨node, hnode⟩ := Graph.exists_node_of_resolveKey hname
  rw [outgoingOf_eq, ← graph_inst_eq, hgraph, Graph.get?, hname, Option.bind_some, hnode]
  dsimp only
  rw [foldl_selectCandidate, firstOfEach, ← reverse_sourceCandidates hnode, List.filter_reverse,
    List.reverse_reverse]

/-- A key selects effects of its own interactions as a source. -/
theorem isRuleOf_of_mem_outgoingOf (hgraph : (engine.inst i).graph = .ofConfig config)
    (hname : (Graph.ofConfig config).resolveKey key = some name) {candidate : Candidate}
    (h : candidate ∈ (Pass.mk i none).outgoingOf engine c key) :
    config.isRuleOf name candidate.id.index = true := by
  obtain ⟨node, ci, effect, hnode, htrigger, heffect, h⟩ := mem_outgoingOf h
  obtain ⟨-, -, -, -, -, rfl⟩ := outgoing?_eq_some.mp h
  rw [node?, graph, hgraph, Graph.get?, hname] at hnode
  obtain ⟨haccepted, hkey⟩ := (Graph.mem_triggers_iff hnode).mp htrigger
  have hindex : (effect.id.interpolate (KeyTemplate.indices key)).index = ci.rule.index := by
    rw [id_eq_of_mem_effects haccepted heffect]
    rfl
  rw [hindex]
  exact (Config.isRuleOf_iff haccepted).mpr hkey

/-- A key selects effects of other interactions as a target. -/
theorem isRuleOf_of_mem_incomingOf (hgraph : (engine.inst i).graph = .ofConfig config)
    (hname : (Graph.ofConfig config).resolveKey key = some name) {candidate : Candidate}
    (h : candidate ∈ (Pass.mk i none).incomingOf engine c key) :
    config.isRuleOf name candidate.id.index = false := by
  obtain ⟨node, entry, hentry, hnode, h⟩ := mem_incomingOf h
  obtain ⟨-, -, -, -, -, -, rfl⟩ := incoming?_eq_some.mp h
  rw [node?, graph, hgraph, Graph.get?, hname] at hnode
  obtain ⟨ci, haccepted, hindex, hne, -⟩ := Graph.variants_eq hnode hentry
  have hindex' : (entry.id.interpolate (KeyTemplate.indices key)).index = ci.rule.index :=
    hindex.symm
  rw [hindex', ← Bool.not_eq_true, Config.isRuleOf_iff haccepted]
  exact hne

end Pass

/-! ### Connecting a source -/

/-- Of what a key selects, the effects of its own interactions are what it selects as a source. -/
theorem filter_selection (hgraph : (engine.inst i).graph = .ofConfig config)
    (hname : (Graph.ofConfig config).resolveKey key = some name) :
    (engine.selection i c key).filter (fun candidate => config.isRuleOf name candidate.id.index) =
      ((Pass.mk i none).outgoingOf engine c key).reverse := by
  rw [selection, List.filter_append, List.filter_eq_self.mpr, List.filter_eq_nil_iff.mpr,
    List.append_nil]
  · intro candidate hcandidate
    rw [Pass.isRuleOf_of_mem_incomingOf hgraph hname (List.mem_reverse.mp hcandidate)]
    exact Bool.false_ne_true
  · intro candidate hcandidate
    exact Pass.isRuleOf_of_mem_outgoingOf hgraph hname (List.mem_reverse.mp hcandidate)

/-- After any run, with handlers that accept everything, a source that connects calls for its
interactions from the last one in the configuration to the first, and for the effects of each of
them in declared order: for those that make a candidate with a text that has not been applied, and
for the first one with each text. If the texts are pairwise different and none of them has been
applied, it calls for every effect whose gate is open and whose target is connected. -/
theorem run_connect_calls {host : Host} {options : EngineOptions} {operations : List Operation}
    {config : Config} {i : InstanceId} {c : ControllerId} {requested : Option String}
    {key name : String} (haccepts : ((start host options).run operations).scene.Accepts)
    (henters : ((start host options).run operations).Enters c requested key)
    (hi : i ∈ ((start host options).run operations).live)
    (hgraph : (((start host options).run operations).inst i).graph = .ofConfig config)
    (hname : (Graph.ofConfig config).resolveKey key = some name) :
    let engine := (start host options).run operations
    let after := (engine.connect c requested).1
    let interactions := config.interactionsOf name
    let candidates := after.scene.callCandidates i c key interactions
    let calls (candidate : Candidate) := after.scene.callsOf i candidate
    after.calls i (config.isRuleOf name) = engine.calls i (config.isRuleOf name) ++
        (Pass.firstOfEach (candidates.filter fun candidate =>
          candidate.memoKey ∉ (engine.inst i).memo)).flatMap calls ∧
      ((candidates.map Candidate.memoKey).Nodup →
        (∀ candidate ∈ candidates, candidate.memoKey ∉ (engine.inst i).memo) →
          after.calls i (config.isRuleOf name) = engine.calls i (config.isRuleOf name) ++
            interactions.reverse.flatMap fun ci => ci.declared.flatMap fun effect =>
              ((after.scene.sourceCandidate? i c key ci.rule effect).map calls).getD []) := by
  intro engine after interactions candidates calls
  have hscene : after.scene = (engine.entered c key).scene := henters.scene_connect
  have hcalls := calls_connect (listed_run host options operations)
    (compiled_run (tidy_start host options) (compiled_start host options) operations) haccepts
    henters hi (config.isRuleOf name)
  have hgraph' : ((engine.entered c key).inst i).graph = .ofConfig config := hgraph
  rw [filter_selection hgraph' hname, Pass.reverse_outgoingOf hgraph' hname, ← hscene] at hcalls
  refine ⟨hcalls, fun hnodup hfresh => ?_⟩
  have hall : candidates.filter (fun candidate => candidate.memoKey ∉ (engine.inst i).memo) =
      candidates :=
    List.filter_eq_self.mpr fun candidate hcandidate => decide_eq_true (hfresh candidate hcandidate)
  have heq : after.calls i (config.isRuleOf name) =
      engine.calls i (config.isRuleOf name) ++ candidates.flatMap calls := by
    rw [← Pass.firstOfEach_of_nodup hnodup, ← hall]
    exact hcalls
  rw [heq]
  refine congrArg (engine.calls i (config.isRuleOf name) ++ ·) ?_
  simp only [candidates, Scene.callCandidates, List.flatMap_assoc]
  exact List.flatMap_congr fun ci _ => flatMap_filterMap ..

/-- Two interactions of one button: the one that is declared last is called for first. -/
theorem run_connect_calls_button :
    let config := Config.ofInteractions
      [(Interaction.ofTrigger "button" .click).withEffect ((Effect.byId "open").on "panel"),
        ((Interaction.ofTrigger "button" .click).withEffect
          ((Effect.byId "glow").on "panel")).withEffect ((Effect.byId "grow").on "panel")]
    let engine := (start .bare .standard).run [.create config, .addNode 2 "panel",
      .newController 1 false, .answerWith fun _ => .accepting]
    let after := (engine.connect 1 (some "button")).1
    engine.Enters 1 (some "button") "button" ∧
      (after.calls 0 (config.isRuleOf "button")).map Event.effectId? =
        [some "glow", some "grow", some "open"] := by
  intro config engine after
  have haccepts : engine.scene.Accepts := fun _ => Handler.accepts_accepting
  have henters : engine.Enters 1 (some "button") "button" :=
    ⟨by decide +kernel, by decide +kernel, by decide +kernel, by decide +kernel⟩
  have hlive : 0 ∈ engine.live := by decide +kernel
  have hname : (Graph.ofConfig config).resolveKey "button" = some "button" := by decide +kernel
  obtain ⟨-, hcalls⟩ := run_connect_calls haccepts henters hlive (graph_run_create ..) hname
  refine ⟨henters, ?_⟩
  rw [hcalls (by decide +kernel) (by decide +kernel)]
  decide +kernel

end Engine

end InteractionBinding
