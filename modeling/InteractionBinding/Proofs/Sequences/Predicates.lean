import InteractionBinding.Config.Builder
import InteractionBinding.Proofs.Sequences.Performances
import InteractionBinding.Proofs.Wiring.Justified
/-!
# Selector predicates that handlers are told

A handler is told one selector predicate for everything that it is asked to wire. For an effect this
is the conjunction of the selector conditions of its interaction and of its own. For a sequence it
is that of the selector conditions of the interaction and of the sequence; those of the members do
not count, and their plans do not carry them either (`Engine.run_predicates`). So the predicate is
what it would be for an effect exactly for members without selector conditions.

## Main definitions

* `Scene.selectors` — the predicates of the selector conditions among some names.
* `Engine.Predicated` — which predicate an entry of the log comes with.
-/

namespace InteractionBinding

/-! ### Conjunctions of selector predicates -/

theorem combineSelectors_of_ne_nil {predicates : List String} (h : nonBlank predicates ≠ []) :
    combineSelectors predicates =
      some (":is(" ++ "):is(".intercalate (nonBlank predicates) ++ ")") := by
  rw [combineSelectors]
  split
  next heq => exact absurd heq h
  next => rfl

/-- More predicates leave a conjunction as it is exactly if all of them are blank. -/
theorem combineSelectors_append_eq_iff {predicates predicates' : List String} :
    combineSelectors (predicates ++ predicates') = combineSelectors predicates ↔
      nonBlank predicates' = [] := by
  refine ⟨fun h => ?_, fun h => ?_⟩
  · by_contra hmore
    have hboth : nonBlank (predicates ++ predicates') ≠ [] := fun hnil =>
      hmore (List.append_eq_nil_iff.mp (nonBlank_append _ _ ▸ hnil)).2
    rw [combineSelectors_of_ne_nil hboth, nonBlank_append] at h
    obtain hnone | hsome := eq_or_ne (nonBlank predicates) []
    · rw [combineSelectors, hnone] at h
      exact Option.some_ne_none _ h
    · -- The longer conjunction has a separator more.
      rw [combineSelectors_of_ne_nil hsome,
        String.intercalate_append_of_ne_nil hsome hmore] at h
      have hlength := congrArg String.length (Option.some.inj h)
      simp only [String.length_append] at hlength
      have hseparator : "):is(".length = 5 := rfl
      omega
  · rw [combineSelectors, combineSelectors, nonBlank_append, h, List.append_nil]

/-- The predicates of the selector conditions of an instance that some names stand for. -/
def Scene.selectors (scene : Scene) (i : InstanceId) (names : List String) : List String :=
  Gate.predicatesOf .selector (names.filterMap (scene.inst i).graph.conditions.get?)

theorem Scene.selectors_append (scene : Scene) (i : InstanceId) (names names' : List String) :
    scene.selectors i (names ++ names') = scene.selectors i names ++ scene.selectors i names' := by
  rw [selectors, List.filterMap_append, Gate.predicatesOf, List.filter_append, List.map_append]
  rfl

/-- The selector predicate of a gate is the conjunction of those of its lists. -/
theorem Scene.selectorPredicate_gate (scene : Scene) (i : InstanceId) (names names' : List String) :
    (scene.gate i [names, names']).selectorPredicate =
      combineSelectors (scene.selectors i names ++ scene.selectors i names') := by
  rw [← selectors_append]
  simp only [gate, Gate.resolveAll, Gate.resolve, List.flatten_cons, List.flatten_nil,
    List.append_nil]
  rfl

namespace Engine

/-- The selector predicate of an entry of the log. For an effect it is that of the interaction and the
effect. For a sequence it is that of the interaction and the sequence: what the plan says of a
member are its nodes and its declaration, and the predicate accounts for the selector conditions of
the member only if there are none. -/
def Predicated : Entry → Prop
  | .told (.add i _ _ _ plan _ context _) scene =>
    ∃ node interaction effect,
      (scene.inst i).graph.nodes.get? interaction.rule.key = some node ∧
      interaction ∈ node.triggers ∧ effect ∈ interaction.effects ∧ plan.effect = effect.effect ∧
      context.selectorPredicate = combineSelectors (scene.selectors i interaction.rule.conditions ++
        scene.selectors i effect.effect.conditions)
  | .told (.addSequence i _ _ plan _ context _) scene =>
    ∃ cue : Cue, cue.Entitled scene i ∧ plan = cue.plan scene i ∧
      let selectors := scene.selectors i cue.rule.conditions ++
        scene.selectors i cue.sequence.conditions
      context.selectorPredicate = combineSelectors selectors ∧
        ∀ member ∈ plan.members, ∃ effect ∈ cue.sequence.effects, member = cue.member scene effect ∧
          let own := scene.selectors i effect.effect.conditions
          (context.selectorPredicate = combineSelectors (selectors ++ own) ↔ nonBlank own = [])
  | _ => True

variable {occasion : Occasion} {scene : Scene} {i : InstanceId} {handler : HandlerId}
  {params : KeyMap Json} {context : HandlerContext} {refusal : Option Refusal}

theorem Justifies.predicated {warrant : Warrant} {source target : NodeId} {plan : EffectPlan}
    (h : Justifies occasion scene warrant i handler source target plan params context) :
    Predicated (.told (.add i handler source target plan params context refusal) scene) := by
  obtain ⟨node, hnode, hmem⟩ := h.declared
  refine ⟨node, warrant.interaction, warrant.effect, hnode, hmem, h.effect, ?_, ?_⟩
  · rw [h.plan]
    rfl
  · rw [h.predicate, Warrant.conditions, scene.selectorPredicate_gate]

theorem Cue.Accounts.predicated {cue : Cue} {node : NodeId} {plan : SequencePlan}
    (h : cue.Accounts scene i handler node plan params context) :
    Predicated (.told (.addSequence i handler node plan params context refusal) scene) := by
  have hpredicate : context.selectorPredicate = combineSelectors
      (scene.selectors i cue.rule.conditions ++ scene.selectors i cue.sequence.conditions) := by
    rw [h.context, Cue.context, Cue.gate, scene.selectorPredicate_gate]
  refine ⟨cue, h.entitled, h.plan, hpredicate, fun member hmember => ?_⟩
  rw [h.plan] at hmember
  obtain ⟨effect, hadmitted, rfl⟩ := List.mem_map.mp hmember
  refine ⟨effect, List.mem_of_mem_filter hadmitted, rfl, ?_⟩
  rw [hpredicate]
  exact eq_comm.trans combineSelectors_append_eq_iff

/-- Every operation, after any run, tells handlers predicates that account for interactions, effects
and sequences, and not for members of sequences. -/
theorem run_predicates (host : Host) (options : EngineOptions) (operations : List Operation)
    (operation : Operation) :
    let engine := (start host options).run operations
    ∃ entries, (engine.perform operation).1.log = engine.log ++ entries ∧
      ∀ entry ∈ entries, Predicated entry := by
  intro engine
  obtain ⟨entries, hlog, hjustified⟩ := run_justified host options operations operation
  obtain ⟨entries', hlog', hperformed⟩ := run_performed host options operations operation
  obtain rfl : entries = entries' := List.append_cancel_left (hlog.symm.trans hlog')
  refine ⟨entries, hlog, fun entry hentry => ?_⟩
  have hjustified := hjustified entry hentry
  have hperformed := hperformed entry hentry
  cases entry with
  | forgot => trivial
  | told event scene =>
    cases event with
    | add i handler source target plan params context refusal =>
      obtain ⟨warrant, h⟩ := hjustified
      exact h.predicated
    | addSequence i handler node plan params context refusal =>
      obtain ⟨cue, _, _, -, -, -, h, -⟩ := hperformed
      exact h.predicated
    | _ => trivial

-- A member wants an active panel, but its handler is not told.
example :
    let config := ((Config.ofInteractions [(Interaction.ofTrigger "menu" .click).withSequence
      (.byId "open")]).withSequence "open" (.ofEffects
        [((Effect.byId "fade").on "panel").withConditions ["active"]])).withCondition "active"
          ⟨.selector, ".active"⟩
    let engine := (start .bare .standard).run
      [.create config, .addNode 2 "panel", .addNode 1 "menu"]
    (engine.log.filterMap fun
      | .told (.addSequence _ _ _ plan _ context _) _ =>
        some (plan.members.map (·.effect.conditions), context.selectorPredicate)
      | _ => none) = [([["active"]], none)] := by
  decide +kernel

end Engine

end InteractionBinding
