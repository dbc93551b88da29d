import InteractionBinding.Engine.State
/-!
# Effect states and stylesheets

A controller keeps the active effects of nodes in the order of their activation, each of them once,
and writes the list of a node to the document whenever it changes. It adopts at most one stylesheet.
-/

namespace InteractionBinding

/-- A change of the active effects of a node. -/
inductive EffectStateAction where
  | add
  | remove
  | toggle
  | clear
deriving DecidableEq, Repr

/-- The list of active effects after an action, or none when the action changes nothing. -/
def EffectStateAction.apply? (action : EffectStateAction) (effectId : String)
    (active : List String) : Option (List String) :=
  let without := active.filter fun other => other ≠ effectId
  match action, decide (effectId ∈ active) with
  | .add, false => some (active ++ [effectId])
  | .add, true => none
  | .remove, true => some without
  | .remove, false => none
  | .toggle, true => some without
  | .toggle, false => some (active ++ [effectId])
  | .clear, _ => if active.isEmpty then none else some []

namespace Engine

/-- Changes the active effects of a node, or of the anchor, and writes them to the document if they
have changed. Answers whether they have. -/
def toggleEffect (engine : Engine) (c : ControllerId) (effectId : String)
    (action : EffectStateAction) (item : Option NodeId) : Engine × Bool :=
  if !engine.running then (engine, false)
  else
    match item.or (engine.anchor c) with
    | none => (engine, false)
    | some node =>
      match action.apply? effectId ((engine.controller c).activeOn node) with
      | none => (engine, false)
      | some active =>
        ((engine.tell (.effectState node active)).modifyController c
          (Controller.setActive · node active), true)

/-- The active effects of a node, or of the anchor, in the order of their activation. -/
def activeEffects (engine : Engine) (c : ControllerId) (item : Option NodeId) : List String :=
  match item.or (if engine.running then engine.anchor c else none) with
  | none => []
  | some node => (engine.controller c).activeOn node

/-- Adopts rules as the stylesheet of a controller in place of the one it has. -/
def renderStyle (engine : Engine) (c : ControllerId) (rules : List String) :
    Engine × Option SheetId :=
  if !engine.running then (engine, none)
  else
    let (inserted, sheet) := engine.insertSheet rules
    let engine := (engine.controller c).stylesheet.toList.foldl removeSheet inserted
    (engine.modifyController c fun controller => { controller with stylesheet := some sheet },
      some sheet)

/-- The new sheet is inserted before the previous one of the controller is removed, and the
controller wears it then. -/
theorem renderStyle_ind {P : Engine → Prop} {engine : Engine} {c : ControllerId}
    {rules : List String} (hstopped : P engine) (hinserted : P (engine.insertSheet rules).1)
    (hremoved : ∀ state sheet, P state → P (removeSheet state sheet))
    (hworn : ∀ state sheet, P state → P (state.modifyController c fun controller =>
      { controller with stylesheet := some sheet })) : P (engine.renderStyle c rules).1 := by
  rw [renderStyle]
  split
  · exact hstopped
  · exact hworn _ _ (List.foldlRecOn (motive := P) _ _ hinserted fun state hstate sheet _ =>
      hremoved state sheet hstate)

end Engine

end InteractionBinding
