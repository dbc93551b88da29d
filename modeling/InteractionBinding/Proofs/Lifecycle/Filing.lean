import InteractionBinding.Proofs.Engine.Connecting
import InteractionBinding.Proofs.Engine.Moves
import InteractionBinding.Proofs.Lifecycle.Disconnecting
/-!
# Where connected controllers are filed

A connected controller is registered under its key, and every live instance that knows the key lists
the controller under it (`Engine.Filed`). This file has what connecting and disconnecting do to these
records.
-/

namespace InteractionBinding

namespace Scene

/-- Everyone connected is registered under their key, and everyone registered has the key. -/
structure Enrolled (scene : Scene) : Prop where
  connected (c : ControllerId) : (scene.controller c).connected = true →
    ∃ key, (scene.controller c).key = some key ∧ scene.registry.get? key = some c
  registered (key : String) (c : ControllerId) : scene.registry.get? key = some c →
    (scene.controller c).key = some key

/-- No two controllers are connected under one key. -/
def Exclusive (scene : Scene) : Prop :=
  ∀ c c' key, (scene.controller c).connected = true → (scene.controller c').connected = true →
    (scene.controller c).key = some key → (scene.controller c').key = some key → c = c'

theorem Enrolled.get?_registry {scene : Scene} (h : scene.Enrolled) {c : ControllerId} {key : String}
    (hconnected : (scene.controller c).connected = true)
    (hkey : (scene.controller c).key = some key) : scene.registry.get? key = some c := by
  obtain ⟨key', hkey', hregistered⟩ := h.connected c hconnected
  obtain rfl := Option.some.inj (hkey.symm.trans hkey')
  exact hregistered

theorem Enrolled.exclusive {scene : Scene} (h : scene.Enrolled) : scene.Exclusive :=
  fun _ _ _ hconnected hconnected' hkey hkey' => Option.some.inj
    ((h.get?_registry hconnected hkey).symm.trans (h.get?_registry hconnected' hkey'))

end Scene

namespace Engine

variable {engine before after : Engine} {c : ControllerId} {i : InstanceId} {key : String}

/-- If an instance takes part and knows the key of a connected controller, it lists the controller
under the key. -/
def Lists (engine : Engine) (c : ControllerId) (i : InstanceId) : Prop :=
  ∀ key, (engine.controller c).connected = true → (engine.controller c).key = some key →
    i ∈ engine.instancesFor key → (engine.inst i).controllers.get? key = some c

/-- Every connected controller is registered, and listed by the instances that know its key. -/
structure Filed (engine : Engine) : Prop where
  enrolled : engine.scene.Enrolled
  lists (c : ControllerId) (i : InstanceId) : engine.Lists c i

/-- An instance lists a controller as before if what they are filed by has not changed. -/
theorem Lists.congr (h : before.Lists c i)
    (hface : after.scene.controller c = before.scene.controller c)
    (hlive : i ∈ after.live → i ∈ before.live)
    (hgraph : (after.inst i).graph = (before.inst i).graph)
    (htable : ∀ key, (before.inst i).controllers.get? key = some c →
      (after.inst i).controllers.get? key = some c) : after.Lists c i := by
  rw [scene_controller, scene_controller] at hface
  intro key hconnected hkey hi
  have hconnected' := (congrArg Controller.Face.connected hface).symm.trans hconnected
  have hkey' := (congrArg Controller.Face.key hface).symm.trans hkey
  obtain ⟨hmem, hknows⟩ := List.mem_filter.mp hi
  exact htable key (h key hconnected' hkey'
    (List.mem_filter.mpr ⟨hlive hmem, hgraph ▸ hknows⟩))

theorem Lists.congr_scene (h : before.Lists c i) (hscene : after.scene = before.scene)
    (htable : (after.inst i).controllers = (before.inst i).controllers) : after.Lists c i := by
  have hlive : after.live = before.live := congrArg Scene.live hscene
  exact h.congr (congrArg (Scene.controller · c) hscene) (fun hi => hlive ▸ hi)
    (graph_eq_of_instances (congrArg Scene.instances hscene) i) fun _ => htable ▸ id

theorem Filed.congr (h : before.Filed) (hscene : after.scene = before.scene)
    (htable : ∀ i, (after.inst i).controllers = (before.inst i).controllers) : after.Filed :=
  ⟨hscene ▸ h.enrolled, fun c i => (h.lists c i).congr_scene hscene (htable i)⟩

/-! ### Resolving -/

theorem get?_table_setController (hi : i < engine.instances.length) {j : InstanceId}
    {name : String} : ((engine.setController i key c).inst j).controllers.get? name =
      if name = key ∧ j = i then some c else (engine.inst j).controllers.get? name := by
  rw [setController, inst_modifyInstance_eq]
  by_cases hj : i = j
  · subst hj
    rw [if_pos ⟨rfl, hi⟩, KeyMap.get?_insert]
    simp
  · rw [if_neg fun hand => hj hand.1, if_neg fun hand => hj hand.2.symm]

/-- Resolving a key files its controller in the instances in which the key is resolved. -/
theorem get?_table_foldl_resolveIn {instances : List InstanceId}
    (hinstances : ∀ i ∈ instances, i < engine.instances.length)
    (hc : (engine.controller c).connected = true) {j : InstanceId} {name : String} :
    ((instances.foldl (resolveIn c key) engine).inst j).controllers.get? name =
      if name = key ∧ j ∈ instances then some c
      else (engine.inst j).controllers.get? name := by
  induction instances generalizing engine with
  | nil => simp
  | cons i rest ih =>
    have hmoves := moves_resolveIn (hinstances i List.mem_cons_self) hc key
    have hscene : (resolveIn c key engine i).scene = engine.scene := scene_resolveIn ..
    have hinstances' : ∀ k ∈ rest, k < (resolveIn c key engine i).instances.length := by
      intro k hk
      rw [length_instances_eq (congrArg Scene.instances hscene)]
      exact hinstances k (List.mem_cons_of_mem _ hk)
    rw [List.foldl_cons, ih hinstances' (hmoves.connected hc), hmoves.table j,
      get?_table_setController (hinstances i List.mem_cons_self)]
    simp only [List.mem_cons]
    grind

theorem exists_of_mem_instancesFor (h : i ∈ engine.instancesFor key) : i < engine.instances.length :=
  lt_of_knows (List.mem_filter.mp h).2

/-- Resolving a key files its controller in the instances that know the key. -/
theorem get?_table_resolve (hc : (engine.controller c).connected = true) {name : String} :
    ((engine.resolve c key).1.inst i).controllers.get? name =
      if name = key ∧ i ∈ engine.instancesFor key then some c
      else (engine.inst i).controllers.get? name := by
  rw [resolve_eq]
  exact @get?_table_foldl_resolveIn (engine.register key c).1 c key _
    (fun i hi => exists_of_mem_instancesFor hi) hc i name

/-! ### Disconnecting -/

/-- A disconnection changes nothing of the scene but controllers and the registry. -/
theorem scene_disconnect (engine : Engine) (c : ControllerId) (evict : Bool) :
    (engine.disconnect c evict).scene = { engine.scene with
      registry := (engine.disconnect c evict).scene.registry
      controllers := (engine.disconnect c evict).scene.controllers } := by
  have hhost : (engine.releasedAtHost c evict).scene =
      (engine.modifyController c (Controller.released · evict)).scene :=
    (drops_releaseHost ..).scene
  refine disconnect_ind (P := fun after : Engine => after.scene = { engine.scene with
    registry := after.scene.registry, controllers := after.scene.controllers }) (fun _ => rfl)
    (fun _ _ => by rw [hhost]; rfl) fun key _ _ => ?_
  have hcleared := (clears_foldl c key evict (engine.instancesFor key)
    (engine.releasedAtHost c evict)).scene.trans hhost
  have hframe : ((engine.instancesFor key).foldl (releaseKey c key evict)
      (engine.releasedAtHost c evict)).scene = { engine.scene with
        registry := engine.registry
        controllers := (engine.modifyController c (Controller.released · evict)).scene.controllers } :=
    hcleared
  dsimp only
  generalize (engine.instancesFor key).foldl (releaseKey c key evict)
    (engine.releasedAtHost c evict) = cleared at hframe ⊢
  have hregistry (registry : KeyMap ControllerId) :
      ({ cleared with registry := registry } : Engine).scene =
        { cleared.scene with registry := registry } := rfl
  split
  · rw [unregister]
    split
    · rw [hregistry, hframe]
    · rw [hframe]
  · rw [hframe]

theorem running_disconnect (engine : Engine) (c : ControllerId) (evict : Bool) :
    (engine.disconnect c evict).running = engine.running :=
  congrArg Scene.running (scene_disconnect engine c evict)

theorem handlers_disconnect (engine : Engine) (c : ControllerId) (evict : Bool) :
    (engine.disconnect c evict).host.handlers = engine.host.handlers :=
  congrArg Scene.handlers (scene_disconnect engine c evict)

/-- Soft disconnections leave the tables of instances as they are. -/
theorem table_disconnect_soft (engine : Engine) (c : ControllerId) (i : InstanceId) :
    ((engine.disconnect c false).inst i).controllers = (engine.inst i).controllers :=
  KeyMap.ext_get? fun _ => Option.ext fun _ => get?_table_disconnect_iff.trans
    (and_iff_left fun h => not_evicts_soft h.1)

/-- Soft disconnections leave the registry as it is. -/
theorem registry_disconnect_soft (engine : Engine) (c : ControllerId) :
    (engine.disconnect c false).registry = engine.registry :=
  KeyMap.ext_get? fun _ => Option.ext fun _ => get?_registry_disconnect_iff.trans
    (and_iff_left fun h => not_evicts_soft h.1)

/-- What a disconnection keeps of a controller. -/
theorem face_disconnect (engine : Engine) (c other : ControllerId) (evict : Bool) :
    (engine.disconnect c evict).scene.controller other =
      if c = other then { engine.scene.controller other with connected := false }
      else engine.scene.controller other := by
  rw [scene_controller, scene_controller, controller_disconnect]
  by_cases hother : c = other
  · by_cases hlt : other < engine.controllers.length
    · rw [if_pos ⟨hother, hlt⟩, if_pos hother]
      rfl
    · have hoff : (engine.controller other).connected = false :=
        Bool.not_eq_true _ ▸ fun h => hlt (lt_of_connected h)
      rw [if_neg fun h => hlt h.2, if_pos hother]
      simp only [Controller.face, hoff]
  · rw [if_neg fun h => hother h.1, if_neg hother]

/-- One engine comes from another by disconnecting controllers softly. -/
structure Softens (gone : List ControllerId) (before after : Engine) : Prop where
  running : after.running = before.running
  dom : after.host.dom = before.host.dom
  live : after.live = before.live
  instances : after.scene.instances = before.scene.instances
  registry : after.registry = before.registry
  table (i : InstanceId) : (after.inst i).controllers = (before.inst i).controllers
  controller (c : ControllerId) : after.scene.controller c =
    if c ∈ gone then { before.scene.controller c with connected := false }
    else before.scene.controller c

theorem softens_foldl_disconnect (gone : List ControllerId) (engine : Engine) :
    Softens gone engine (gone.foldl (fun engine c => engine.disconnect c false) engine) := by
  induction gone generalizing engine with
  | nil => exact ⟨rfl, rfl, rfl, rfl, rfl, fun _ => rfl, fun c => by simp⟩
  | cons c rest ih =>
    obtain ⟨hdom, hlive, hinstances⟩ := (releases_disconnect engine c false).frame
    have hrest := ih (engine.disconnect c false)
    refine ⟨hrest.running.trans (running_disconnect ..), hrest.dom.trans hdom,
      hrest.live.trans hlive, hrest.instances.trans hinstances,
      hrest.registry.trans (registry_disconnect_soft ..),
      fun i => (hrest.table i).trans (table_disconnect_soft ..), fun other => ?_⟩
    rw [List.foldl_cons, hrest.controller, face_disconnect]
    simp only [List.mem_cons]
    by_cases hother : c = other
    · simp [hother]
    · simp [hother, Ne.symm hother]

namespace Softens

variable {gone : List ControllerId}

theorem connected_iff (h : Softens gone before after) :
    (after.scene.controller c).connected = true ↔
      (before.scene.controller c).connected = true ∧ c ∉ gone := by
  rw [h.controller]
  split
  next hmem => simp [hmem]
  next hmem => simp [hmem]

theorem key_eq (h : Softens gone before after) :
    (after.scene.controller c).key = (before.scene.controller c).key := by
  rw [h.controller]
  split <;> rfl

/-- Whoever is still connected has not been disconnected. -/
theorem controller_eq (h : Softens gone before after)
    (hconnected : (after.scene.controller c).connected = true) :
    after.scene.controller c = before.scene.controller c := by
  rw [h.controller, if_neg (h.connected_iff.mp hconnected).2]

end Softens

end Engine

end InteractionBinding
