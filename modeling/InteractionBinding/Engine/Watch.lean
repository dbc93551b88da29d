import InteractionBinding.Engine.State
/-!
# Watched containers

A controller observes the containers of the lists below its node, each container once. The
observation keeps the selectors of the rule that asked for it first.
-/

namespace InteractionBinding.Engine

/-- Observes the first node that matches a container selector under the anchor of a controller,
unless the controller observes it already. Answers the node. -/
def watchChildList (engine : Engine) (c : ControllerId) (container : String)
    (item : Option String) : Engine × Option NodeId :=
  match (engine.anchor c).bind (engine.host.dom.query? · container) with
  | none => (engine, none)
  | some node =>
    if (engine.controller c).observers.any fun observer => observer.1 = node then
      (engine, some node)
    else
      let (host, token) := engine.host.observe ⟨node, c, container, item⟩
      (({ engine with host := host } : Engine).modifyController c fun controller =>
        { controller with observers := controller.observers ++ [(node, token)] }, some node)

theorem watchChildList_ind {P : Engine → Prop} {engine : Engine} {c : ControllerId}
    {container : String} {item : Option String} (hkept : P engine)
    (hobserved : ∀ node, node ∉ (engine.controller c).observers.map Prod.fst →
      P (({ engine with host := (engine.host.observe ⟨node, c, container, item⟩).1 } :
        Engine).modifyController c fun controller => { controller with
          observers := controller.observers ++
            [(node, (engine.host.observe ⟨node, c, container, item⟩).2)] })) :
    P (engine.watchChildList c container item).1 := by
  rw [watchChildList]
  split
  · exact hkept
  next node _ =>
    split
    · exact hkept
    next hnew =>
      refine hobserved node fun hmem => hnew ?_
      obtain ⟨observer, hobserver, rfl⟩ := List.mem_map.mp hmem
      exact List.any_eq_true.mpr ⟨observer, hobserver, decide_eq_true rfl⟩

/-- The selector of the items of a container. -/
def itemsSelector (container : String) (item : Option String) : String :=
  container ++ " > " ++ item.getD "*"

end InteractionBinding.Engine
