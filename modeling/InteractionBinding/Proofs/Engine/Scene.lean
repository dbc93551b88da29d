import InteractionBinding.Engine.Resolve
/-!
# Scenes

What wiring goes by can be read off the scene of an engine (`Engine.anchor_eq`,
`Engine.connectedController?_eq`, `Pass.currentGate_eq`). Subscribing, watching, marking items and
telling the host leave the scene as it is, so the anchors, partners and gates that a pass finds do
not depend on how far the pass has come.
-/

namespace InteractionBinding

namespace Scene

/-- What can be told of a controller. -/
def controller (scene : Scene) (c : ControllerId) : Controller.Face :=
  scene.controllers.getD c (Controller.face default)

/-- What can be told of an instance. -/
def inst (scene : Scene) (i : InstanceId) : Instance.Face :=
  scene.instances.getD i (Instance.face default)

/-- The node that the selectors of a controller start from. -/
def anchor (scene : Scene) (c : ControllerId) : Option NodeId :=
  let controller := scene.controller c
  if controller.useFirstChild then scene.dom.firstChild? controller.node else some controller.node

/-- The controller registered under a key, if it is connected. -/
def connectedController? (scene : Scene) (key : String) : Option ControllerId :=
  (scene.registry.get? key).filter fun c => (scene.controller c).connected

/-- The gate of lists of condition names in an instance. -/
def gate (scene : Scene) (i : InstanceId) (lists : List (List String)) : Gate :=
  .resolveAll (scene.inst i).graph.conditions scene.queryState lists

end Scene

namespace Engine

variable (engine : Engine)

theorem scene_controller (c : ControllerId) :
    engine.scene.controller c = (engine.controller c).face := by
  simp [Scene.controller, scene, controller, List.getD_eq_getElem?_getD, Option.getD_map]

theorem scene_inst (i : InstanceId) : engine.scene.inst i = (engine.inst i).face := by
  simp [Scene.inst, scene, inst, List.getD_eq_getElem?_getD, Option.getD_map]

theorem anchor_eq (c : ControllerId) : engine.anchor c = engine.scene.anchor c := by
  rw [Scene.anchor, scene_controller]
  rfl

theorem connectedController?_eq (key : String) :
    engine.connectedController? key = engine.scene.connectedController? key := by
  simp only [Scene.connectedController?, scene_controller]
  rfl

theorem graph_inst_eq (i : InstanceId) : (engine.inst i).graph = (engine.scene.inst i).graph := by
  rw [scene_inst]
  rfl

theorem instancesFor_eq (key : String) :
    engine.instancesFor key =
      engine.scene.live.filter fun i => (engine.scene.inst i).graph.knows key := by
  simp only [instancesFor, graph_inst_eq]
  rfl

theorem Pass.currentGate_eq (pass : Pass) (lists : List (List String)) :
    pass.currentGate engine lists = engine.scene.gate pass.instanceId lists := by
  rw [Pass.currentGate, Pass.graph, graph_inst_eq]
  rfl

theorem Pass.node?_eq (pass : Pass) (key : String) :
    pass.node? engine key = (engine.scene.inst pass.instanceId).graph.get? key := by
  rw [Pass.node?, Pass.graph, graph_inst_eq]

/-! ### Changes of controllers and instances -/

variable {engine}

theorem controller_modifyController_eq (c other : ControllerId) (f : Controller → Controller) :
    (engine.modifyController c f).controller other =
      if c = other ∧ other < engine.controllers.length then f (engine.controller other)
      else engine.controller other := by
  by_cases h : c < engine.controllers.length
  · rw [controller_modifyController engine c other f h]
    by_cases heq : c = other
    · simp [heq, heq ▸ h]
    · simp [heq]
  · have hmodify : engine.controllers.modify c f = engine.controllers :=
      List.modify_eq_self (Nat.not_lt.mp h)
    have hneg : ¬(c = other ∧ other < engine.controllers.length) := fun hand =>
      h (hand.1 ▸ hand.2)
    simp only [controller, modifyController, hmodify, if_neg hneg]

theorem inst_modifyInstance_eq (i other : InstanceId) (f : Instance → Instance) :
    (engine.modifyInstance i f).inst other =
      if i = other ∧ other < engine.instances.length then f (engine.inst other)
      else engine.inst other := by
  by_cases h : i < engine.instances.length
  · rw [inst_modifyInstance engine i other f h]
    by_cases heq : i = other
    · simp [heq, heq ▸ h]
    · simp [heq]
  · have hmodify : engine.instances.modify i f = engine.instances :=
      List.modify_eq_self (Nat.not_lt.mp h)
    have hneg : ¬(i = other ∧ other < engine.instances.length) := fun hand =>
      h (hand.1 ▸ hand.2)
    simp only [inst, modifyInstance, hmodify, if_neg hneg]

theorem map_modify_of_comp_eq {α β : Type} (g : α → β) (f : α → α)
    (hf : ∀ a, g (f a) = g a) (l : List α) (n : Nat) : (l.modify n f).map g = l.map g := by
  refine List.ext_getElem? fun j => ?_
  rw [List.getElem?_map, List.getElem?_map, List.getElem?_modify]
  cases l[j]? with
  | none => simp
  | some a => split <;> simp [hf]

theorem scene_modifyController {c : ControllerId} {f : Controller → Controller}
    (hf : ∀ controller, (f controller).face = controller.face) :
    (engine.modifyController c f).scene = engine.scene := by
  simp only [scene, modifyController, map_modify_of_comp_eq Controller.face f hf]

theorem scene_modifyInstance {i : InstanceId} {f : Instance → Instance}
    (hf : ∀ inst, (f inst).face = inst.face) :
    (engine.modifyInstance i f).scene = engine.scene := by
  simp only [scene, modifyInstance, map_modify_of_comp_eq Instance.face f hf]

@[simp]
theorem scene_tell (event : Event) : (engine.tell event).scene = engine.scene := rfl

@[simp]
theorem scene_offer (i : InstanceId) (handler : HandlerId) (source target : NodeId)
    (plan : EffectPlan) (params : KeyMap Json) (context : HandlerContext) :
    (engine.offer i handler source target plan params context).1.scene = engine.scene := rfl

@[simp]
theorem scene_listen (i : InstanceId) (id source target : String) (query : Query)
    (listener : QueryListener) :
    (engine.listen i id source target query listener).1.scene = engine.scene :=
  listen_ind (P := fun after : Engine => after.scene = _) rfl (scene_modifyInstance fun _ => rfl)

@[simp]
theorem scene_watchChildList (c : ControllerId) (container : String) (item : Option String) :
    (engine.watchChildList c container item).1.scene = engine.scene :=
  watchChildList_ind (P := fun after : Engine => after.scene = _) rfl fun _ _ =>
    scene_modifyController fun _ => rfl

@[simp]
theorem scene_markItem (c : ControllerId) (id : String) (item : NodeId) :
    (engine.markItem c id item).1.scene = engine.scene :=
  markItem_ind (P := fun after : Engine => after.scene = _) (fun _ => rfl)
    (scene_modifyController fun _ => rfl)

@[simp]
theorem scene_markApplied (i : InstanceId) (id : String) :
    (engine.modifyInstance i (·.markApplied id)).scene = engine.scene := by
  refine scene_modifyInstance fun inst => ?_
  simp only [Instance.markApplied]
  split <;> rfl

end Engine

end InteractionBinding
