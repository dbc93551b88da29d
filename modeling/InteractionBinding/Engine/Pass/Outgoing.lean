import InteractionBinding.Engine.Pass.Basic
/-!
# Outgoing effects

When the source of interactions is resolved, each of its effects whose gate is open and whose target
is connected is selected. Effects are walked from the last declared to the first, and of several
with one id the one declared first replaces the others.
-/

namespace InteractionBinding.Engine.Pass

/-- Selects a candidate in place of one with the same id. -/
def selectCandidate (selected : List Candidate) (candidate : Candidate) : List Candidate :=
  (selected.eraseP fun other => other.memoKey = candidate.memoKey) ++ [candidate]

/-- Watches the list of an interaction whose own conditions hold. -/
def watchRule (pass : Pass) (engine : Engine) (c : ControllerId) (rule : Rule) : Engine :=
  match pass.scope, rule.listContainer with
  | none, some container =>
    if (pass.currentGate engine [rule.conditions]).isOpen then
      (engine.watchChildList c container rule.listItemSelector).1
    else engine
  | _, _ => engine

/-- The controller of a target key of a rule, if it is connected. The source is its own target when
the target key is the rule's own. -/
def targetController? (engine : Engine) (source : ControllerId) (rule : Rule)
    (effect : CompiledEffect) (targetKey : String) : Option ControllerId :=
  if effect.target = rule.key then some source else engine.connectedController? targetKey

/-- Selects an effect of a rule whose source is resolved. -/
def selectOutgoing (pass : Pass) (c : ControllerId) (key : String) (rule : Rule)
    (state : Engine × List Candidate) (effect : CompiledEffect) : Engine × List Candidate :=
  let (engine, selected) := state
  let indices := KeyTemplate.indices key
  let id := effect.id.interpolate indices
  let targetKey := KeyTemplate.interpolate effect.target indices
  let (engine, gate) :=
    pass.gateFor engine id.encode key targetKey [rule.conditions, effect.effect.conditions]
  if !gate.isOpen || pass.alreadyApplied engine id.encode then (engine, selected)
  else
    match targetController? engine c rule effect targetKey with
    | none => (engine, selected)
    | some target =>
      if pass.inScope rule effect c target then
        (engine, selectCandidate selected ⟨id, rule, effect, c, target, gate⟩)
      else (engine, selected)

/-- Selects the effects of an interaction whose source is resolved. -/
def selectInteraction (pass : Pass) (c : ControllerId) (key : String)
    (state : Engine × List Candidate) (interaction : CompiledInteraction) :
    Engine × List Candidate :=
  interaction.effects.foldl (pass.selectOutgoing c key interaction.rule)
    (pass.watchRule state.1 c interaction.rule, state.2)

/-- Resolves a key as the source of its interactions. -/
def resolveOutgoing (pass : Pass) (engine : Engine) (c : ControllerId) (key : String) : Engine :=
  match pass.node? engine key with
  | none => engine
  | some node =>
    let (engine, selected) := node.triggers.foldl (pass.selectInteraction c key) (engine, [])
    pass.applySelected engine selected

end InteractionBinding.Engine.Pass
