import InteractionBinding.Engine.Pass.Basic
/-!
# Incoming effects

When the target of effects is resolved, the alternatives of each id are tried in the order of their
priority, and the first one whose gate is open is selected if its source is connected.
-/

namespace InteractionBinding.Engine.Pass

/-- The first alternative whose gate is open, with its source key. The gates of the alternatives
before it are listened to, those behind it are not. -/
def firstOpen (pass : Pass) (key memoKey : String) (engine : Engine) :
    List Variant → Engine × Option (Variant × String × Gate)
  | [] => (engine, none)
  | variant :: rest =>
    let sourceKey := KeyTemplate.interpolate variant.rule.key (KeyTemplate.indices key)
    let (engine, gate) := pass.gateFor engine memoKey sourceKey key
      [variant.rule.conditions, variant.effect.effect.conditions]
    if gate.isOpen then (engine, some (variant, sourceKey, gate))
    else pass.firstOpen key memoKey engine rest

/-- Selects the effect of an id of a target that is resolved. -/
def selectIncoming (pass : Pass) (c : ControllerId) (key : String)
    (state : Engine × List Candidate) (entry : TargetEffects) : Engine × List Candidate :=
  let (engine, selected) := state
  let id := entry.id.interpolate (KeyTemplate.indices key)
  if pass.alreadyApplied engine id.encode then (engine, selected)
  else
    match pass.firstOpen key id.encode engine entry.variants with
    | (engine, none) => (engine, selected)
    | (engine, some (variant, sourceKey, gate)) =>
      match engine.connectedController? sourceKey with
      | none => (engine, selected)
      | some source =>
        if pass.inScope variant.rule variant.effect source c then
          (engine, selected ++ [⟨id, variant.rule, variant.effect, source, c, gate⟩])
        else (engine, selected)

/-- Resolves a key as the target of other keys' interactions. -/
def resolveIncoming (pass : Pass) (engine : Engine) (c : ControllerId) (key : String) : Engine :=
  match pass.node? engine key with
  | none => engine
  | some node =>
    let (engine, selected) := node.effects.foldl (pass.selectIncoming c key) (engine, [])
    pass.applySelected engine selected

end InteractionBinding.Engine.Pass
