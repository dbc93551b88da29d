import InteractionBinding.Proofs.Engine.Connecting
import InteractionBinding.Proofs.Wiring.Choices
/-!
# Orderly scenes

In a seated scene every key is mounted on its own node, and the registry holds every connected
controller (`Scene.Seated`). In an orderly scene the live instances are, beside, those of plain
configurations, which have been created one after the other (`Scene.Orderly`). Such a scene says
which variants are to be wired: those that are chosen and whose keys are both connected
(`Scene.Expects`).
-/

namespace InteractionBinding

/-- What stays as it is throughout a history: the document, the handlers, and the node of each key.
-/
structure Ground where
  dom : Dom
  handlers : HandlerTable
  nodeOf : String → NodeId

namespace Ground

/-- The site of a configuration on a ground, for a state of the queries. -/
def site (ground : Ground) (config : Config) (queryState : Query → Bool) : Engine.Site :=
  ⟨.ofConfig config, ground.dom, ground.handlers, queryState, ground.nodeOf⟩

/-- The wires of a variant on a ground. -/
def wiresOf (ground : Ground) (variant : Variant) : List Wire :=
  if (ground.handlers.get? variant.rule.trigger).isSome then
    (Engine.pairsBetween ground.dom variant.rule variant.effect.effect
      (ground.nodeOf variant.rule.key) (ground.nodeOf variant.effect.target)).map
        fun pair => ⟨pair.source, pair.target, variant.effect.id⟩
  else []

theorem wiresOf_site (ground : Ground) (config : Config) (queryState : Query → Bool)
    (variant : Variant) : (ground.site config queryState).wiresOf variant =
      ground.wiresOf variant :=
  rfl

theorem isSome_of_mem_wiresOf (ground : Ground) {variant : Variant} {wire : Wire}
    (h : wire ∈ ground.wiresOf variant) : (ground.handlers.get? variant.rule.trigger).isSome := by
  rw [wiresOf] at h
  split at h
  next hsome => exact hsome
  next => cases h

theorem text_eq_of_mem_wiresOf {ground : Ground} {variant : Variant} {wire : Wire}
    (h : wire ∈ ground.wiresOf variant) : wire.id.encode = variant.text := by
  rw [wiresOf] at h
  split at h
  · obtain ⟨pair, -, rfl⟩ := List.mem_map.mp h
    rfl
  · cases h

end Ground

/-- Whether the gate of a variant is open in a state of the queries. -/
def Config.isOpen (config : Config) (queryState : Query → Bool) (variant : Variant) : Bool :=
  (Gate.resolveAll config.conditions queryState
    [variant.rule.conditions, variant.effect.effect.conditions]).isOpen

theorem Ground.isOpen_site (ground : Ground) (config : Config) (queryState : Query → Bool) :
    (ground.site config queryState).isOpen = config.isOpen queryState := by
  funext variant
  have hconditions := Graph.conditions_ofConfig config
  simp only [Engine.Site.isOpen, Engine.Site.gate, Ground.site, hconditions, Config.isOpen]

namespace Scene

/-- Whether a key is connected. -/
def IsConnected (scene : Scene) (key : String) : Prop := (scene.connectedController? key).isSome

/-- A registered key is connected if its controller is. -/
theorem isConnected_iff_of_registered {scene : Scene} {key : String} {c : ControllerId}
    (hregistered : scene.registry.get? key = some c) :
    scene.IsConnected key ↔ (scene.controller c).connected = true := by
  rw [IsConnected, connectedController?, hregistered, Option.filter_some]
  exact Option.isSome_ite

/-- A scene with controllers for keys, each key on its own node. A controller that is connected is
registered under its key. -/
structure Seated (ground : Ground) (keys : List String) (scene : Scene) : Prop where
  running : scene.running = true
  dom : scene.dom = ground.dom
  handlers : scene.handlers = ground.handlers
  accepts : scene.Accepts
  controllers : scene.controllers.length = keys.length
  controller (c : ControllerId) (key : String) : keys[c]? = some key →
    ∃ connected, scene.controller c = ⟨ground.nodeOf key, false, some key, connected⟩
  registered (key : String) (c : ControllerId) : scene.registry.get? key = some c →
    keys[c]? = some key
  connected (c : ControllerId) (key : String) : keys[c]? = some key →
    (scene.controller c).connected = true → scene.registry.get? key = some c

/-- A seated scene with live instances of plain configurations and with keys without indices. -/
structure Orderly (ground : Ground) (configs : List Config) (keys : List String) (scene : Scene) :
    Prop extends Seated ground keys scene where
  live : scene.live = List.range configs.length
  instances : scene.instances = configs.map fun config => ⟨.ofConfig config, false⟩
  plain : ∀ config ∈ configs, config.IsPlain
  indices : ∀ key ∈ keys, KeyTemplate.indices key = []

/-- The variant is to be wired in an instance: it is chosen, and both of its keys are connected. -/
structure Expects (configs : List Config) (scene : Scene) (i : InstanceId) (variant : Variant) :
    Prop where
  chosen : ∃ config, configs[i]? = some config ∧
    config.Chooses (config.isOpen scene.queryState) variant
  source : scene.IsConnected variant.rule.key
  target : scene.IsConnected variant.effect.target

namespace Seated

variable {ground : Ground} {keys : List String} {scene : Scene} {c : ControllerId} {key : String}

/-- A connected key has a registered controller, which is connected. -/
theorem connectedController?_eq_some_iff (h : Seated ground keys scene) :
    scene.connectedController? key = some c ↔
      keys[c]? = some key ∧ (scene.controller c).connected = true := by
  rw [connectedController?, Option.filter_eq_some_iff]
  exact and_congr_left fun hconnected =>
    ⟨h.registered key c, fun hkey => h.connected c key hkey hconnected⟩

theorem mem_keys_of_connected (h : Seated ground keys scene) (hkey : scene.IsConnected key) :
    key ∈ keys := by
  obtain ⟨c, hc⟩ := Option.isSome_iff_exists.mp hkey
  exact List.mem_of_getElem? (h.connectedController?_eq_some_iff.mp hc).1

/-- The connected ones among keys. -/
theorem mem_filter_connected (h : Seated ground keys scene) (key : String) :
    key ∈ keys.filter (fun key => (scene.connectedController? key).isSome) ↔
      scene.IsConnected key := by
  rw [List.mem_filter]
  exact and_iff_right_of_imp h.mem_keys_of_connected

/-- A connected key is anchored at its node. -/
theorem anchored (h : Seated ground keys scene) (hc : scene.connectedController? key = some c) :
    scene.anchor c = some (ground.nodeOf key) := by
  obtain ⟨connected, hcontroller⟩ :=
    h.controller c key (h.connectedController?_eq_some_iff.mp hc).1
  rw [anchor, hcontroller]
  rfl

/-- A connected controller is registered. -/
theorem exists_registered (h : Seated ground keys scene)
    (hconnected : (scene.controller c).connected = true) :
    ∃ key, scene.registry.get? key = some c := by
  cases hkey : keys[c]? with
  | some key => exact ⟨key, h.connected c key hkey hconnected⟩
  | none =>
    have hlength : scene.controllers.length ≤ c := h.controllers ▸ List.getElem?_eq_none_iff.mp hkey
    rw [Scene.controller, List.getD_eq_getElem?_getD, List.getElem?_eq_none hlength] at hconnected
    cases hconnected

theorem lt_of_registered (h : Seated ground keys scene)
    (hregistered : scene.registry.get? key = some c) : c < scene.controllers.length := by
  obtain ⟨hlength, -⟩ := List.getElem?_eq_some_iff.mp (h.registered key c hregistered)
  exact h.controllers ▸ hlength

end Seated

namespace Orderly

variable {ground : Ground} {configs : List Config} {keys : List String} {scene : Scene}
  {i : InstanceId} {c : ControllerId} {key : String} {config : Config}

theorem inst_eq (h : Orderly ground configs keys scene) (hi : configs[i]? = some config) :
    scene.inst i = ⟨.ofConfig config, false⟩ := by
  rw [inst, h.instances, List.getD_eq_getElem?_getD, List.getElem?_map, hi]
  rfl

/-- An instance knows the keys of the variants that it declares. -/
theorem knows_of_touches (h : Orderly ground configs keys scene) (hi : configs[i]? = some config)
    (hindices : KeyTemplate.indices key = []) {variant : Variant}
    (hdeclares : config.Declares variant) (htouches : variant.Touches key) :
    (scene.inst i).graph.knows key = true := by
  obtain ⟨node, hnode⟩ := hdeclares.exists_node htouches
  rw [h.inst_eq hi, Graph.knows_of_indices hindices, hnode]
  rfl

theorem lt_of_getElem? (h : Orderly ground configs keys scene) (hi : configs[i]? = some config) :
    i < scene.instances.length := by
  obtain ⟨hlength, -⟩ := List.getElem?_eq_some_iff.mp hi
  rw [h.instances, List.length_map]
  exact hlength

theorem onSite (h : Orderly ground configs keys scene) (hi : configs[i]? = some config) :
    Engine.OnSite (ground.site config scene.queryState) i scene where
  graph := by
    rw [h.inst_eq hi]
    rfl
  dom := h.dom
  handlers := h.handlers
  queryState := rfl
  anchored _ _ := h.anchored
  accepts := h.accepts

end Orderly

/-! ### Changes of scenes -/

/-- A scene with one of its controllers connected or disconnected. -/
def setConnected (scene : Scene) (c : ControllerId) (connected : Bool) : Scene :=
  { scene with
    controllers := scene.controllers.modify c fun face => { face with connected := connected } }

/-- A scene with a disconnected controller that is no longer registered under its key. -/
def withdraw (scene : Scene) (c : ControllerId) (key : String) : Scene :=
  { scene.setConnected c false with registry := scene.registry.erase key }

/-- A scene with a new controller, connected and registered under a key. -/
def mount (scene : Scene) (node : NodeId) (key : String) : Scene :=
  { scene with
    registry := scene.registry.insert key scene.controllers.length
    controllers := scene.controllers ++ [⟨node, false, some key, true⟩] }

/-- A scene with a new live instance of a configuration. -/
def found (scene : Scene) (config : Config) : Scene :=
  { scene with
    live := scene.live ++ [scene.instances.length]
    instances := scene.instances ++ [⟨.ofConfig config, false⟩] }

/-- A scene with other states of the queries. -/
def withQueries (scene : Scene) (queryState : Query → Bool) : Scene :=
  { scene with queryState := queryState }

theorem controller_setConnected (scene : Scene) (c other : ControllerId) (connected : Bool) :
    (scene.setConnected c connected).controller other =
      if c = other ∧ other < scene.controllers.length then
        { scene.controller other with connected := connected }
      else scene.controller other := by
  simp only [controller, setConnected, List.getD_eq_getElem?_getD, List.getElem?_modify]
  by_cases heq : c = other
  · by_cases hlt : other < scene.controllers.length
    · simp [heq, hlt]
    · simp [heq, hlt]
  · simp [heq]

theorem controller_mount (scene : Scene) (node : NodeId) (key : String) (c : ControllerId) :
    (scene.mount node key).controller c =
      if c = scene.controllers.length then ⟨node, false, some key, true⟩
      else scene.controller c := by
  rw [controller, mount, Engine.getD_append_singleton]
  rfl

theorem getElem?_of_append {α : Type} {l : List α} {a b : α} {n : Nat} (hne : n ≠ l.length)
    (h : (l ++ [a])[n]? = some b) : l[n]? = some b := by
  obtain ⟨hlength, -⟩ := List.getElem?_eq_some_iff.mp h
  rw [List.length_append, List.length_singleton] at hlength
  rwa [List.getElem?_append_left (by omega)] at h

namespace Seated

variable {ground : Ground} {keys : List String} {scene : Scene} {c : ControllerId} {key : String}

theorem setConnected (h : Seated ground keys scene)
    (hregistered : scene.registry.get? key = some c) (connected : Bool) :
    Seated ground keys (scene.setConnected c connected) where
  running := h.running
  dom := h.dom
  handlers := h.handlers
  accepts := h.accepts
  controllers := (List.length_modify ..).trans h.controllers
  controller other otherKey hother := by
    obtain ⟨was, hcontroller⟩ := h.controller other otherKey hother
    rw [controller_setConnected]
    split
    · exact ⟨connected, by rw [hcontroller]⟩
    · exact ⟨was, hcontroller⟩
  registered := h.registered
  connected other otherKey hother hconnected := by
    rw [controller_setConnected] at hconnected
    split at hconnected
    next heq =>
      obtain ⟨rfl, -⟩ := heq
      have hkey := h.registered key c hregistered
      rw [hother] at hkey
      exact Option.some.inj hkey ▸ hregistered
    next => exact h.connected other otherKey hother hconnected

theorem withdraw (h : Seated ground keys scene)
    (hregistered : scene.registry.get? key = some c) :
    Seated ground keys (scene.withdraw c key) :=
  let off := h.setConnected hregistered false
  { off with
    registered := fun other d hget => by
      rw [Scene.withdraw, KeyMap.get?_erase] at hget
      split at hget
      · cases hget
      · exact h.registered other d hget
    connected := fun d other hother hconnected => by
      have hget : scene.registry.get? other = some d := off.connected d other hother hconnected
      have hne : other ≠ key := by
        rintro rfl
        obtain rfl := Option.some.inj (hget.symm.trans hregistered)
        have hoff : (scene.setConnected d false).controller d =
            { scene.controller d with connected := false } := by
          rw [controller_setConnected, if_pos ⟨rfl, h.lt_of_registered hregistered⟩]
        have hconnected' : ((scene.setConnected d false).controller d).connected = true :=
          hconnected
        rw [hoff] at hconnected'
        cases hconnected'
      rw [Scene.withdraw, KeyMap.get?_erase, if_neg hne]
      exact hget }

theorem mount (h : Seated ground keys scene) (hnew : scene.registry.get? key = none) :
    Seated ground (keys ++ [key]) (scene.mount (ground.nodeOf key) key) where
  running := h.running
  dom := h.dom
  handlers := h.handlers
  accepts := h.accepts
  controllers := by
    rw [Scene.mount, List.length_append, List.length_append, h.controllers]
    rfl
  controller d other hother := by
    rw [controller_mount]
    split
    next heq =>
      rw [heq, h.controllers, List.getElem?_concat_length] at hother
      exact ⟨true, by rw [Option.some.inj hother]⟩
    next hne =>
      rw [h.controllers] at hne
      exact h.controller d other (getElem?_of_append hne hother)
  registered other d hget := by
    rw [Scene.mount, KeyMap.get?_insert] at hget
    split at hget
    next heq =>
      obtain rfl := Option.some.inj hget
      rw [heq, h.controllers, List.getElem?_concat_length]
    next =>
      have hother := h.registered other d hget
      obtain ⟨hlength, -⟩ := List.getElem?_eq_some_iff.mp hother
      rw [List.getElem?_append_left hlength, hother]
  connected d other hother hconnected := by
    rw [controller_mount] at hconnected
    rw [Scene.mount, KeyMap.get?_insert]
    split at hconnected
    next heq =>
      rw [heq, h.controllers, List.getElem?_concat_length] at hother
      rw [if_pos (Option.some.inj hother).symm, heq]
    next hne =>
      rw [h.controllers] at hne
      have hget := h.connected d other (getElem?_of_append hne hother) hconnected
      have hother_ne : other ≠ key := by
        rintro rfl
        rw [hnew] at hget
        cases hget
      rw [if_neg hother_ne, hget]

/-! ### Who is connected after a change -/

theorem connectedController?_setConnected (h : Seated ground keys scene)
    (hregistered : scene.registry.get? key = some c) (connected : Bool) (other : String) :
    (scene.setConnected c connected).connectedController? other =
      if other = key then if connected then some c else none
      else scene.connectedController? other := by
  have hregistry : (scene.setConnected c connected).registry = scene.registry := rfl
  rw [connectedController?, hregistry]
  split
  next heq =>
    rw [heq, hregistered, Option.filter_some, controller_setConnected]
    simp [h.lt_of_registered hregistered]
  next hne =>
    rw [connectedController?]
    cases hget : scene.registry.get? other with
    | none => rfl
    | some d =>
      have hd : ¬(c = d ∧ d < scene.controllers.length) := by
        rintro ⟨rfl, -⟩
        have hother := h.registered other c hget
        rw [h.registered key c hregistered] at hother
        exact hne (Option.some.inj hother).symm
      rw [Option.filter_some, Option.filter_some, controller_setConnected, if_neg hd]

theorem connectedController?_withdraw (h : Seated ground keys scene)
    (hregistered : scene.registry.get? key = some c) (other : String) :
    (scene.withdraw c key).connectedController? other =
      if other = key then none else scene.connectedController? other := by
  have hoff := h.connectedController?_setConnected hregistered false other
  rw [connectedController?] at hoff ⊢
  rw [Scene.withdraw, KeyMap.get?_erase]
  split
  · rfl
  next hne =>
    rw [if_neg hne] at hoff
    exact hoff

theorem connectedController?_mount (h : Seated ground keys scene) (node : NodeId)
    (other : String) :
    (scene.mount node key).connectedController? other =
      if other = key then some scene.controllers.length else scene.connectedController? other := by
  have hregistry : (scene.mount node key).registry =
      scene.registry.insert key scene.controllers.length := rfl
  rw [connectedController?, hregistry, KeyMap.get?_insert]
  split
  · rw [Option.filter_some, controller_mount, if_pos rfl]
    rfl
  · rw [connectedController?]
    cases hget : scene.registry.get? other with
    | none => rfl
    | some d =>
      rw [Option.filter_some, Option.filter_some, controller_mount,
        if_neg (Nat.ne_of_lt (h.lt_of_registered hget))]

end Seated

namespace Orderly

variable {ground : Ground} {configs : List Config} {keys : List String} {scene : Scene}
  {c : ControllerId} {key : String} {config : Config}

theorem setConnected (h : Orderly ground configs keys scene)
    (hregistered : scene.registry.get? key = some c) (connected : Bool) :
    Orderly ground configs keys (scene.setConnected c connected) :=
  { h.toSeated.setConnected hregistered connected with
    live := h.live
    instances := h.instances
    plain := h.plain
    indices := h.indices }

theorem withdraw (h : Orderly ground configs keys scene)
    (hregistered : scene.registry.get? key = some c) :
    Orderly ground configs keys (scene.withdraw c key) :=
  { h.toSeated.withdraw hregistered with
    live := h.live
    instances := h.instances
    plain := h.plain
    indices := h.indices }

theorem found (h : Orderly ground configs keys scene) (hplain : config.IsPlain) :
    Orderly ground (configs ++ [config]) keys (scene.found config) :=
  { h with
    live := by
      rw [Scene.found, h.live, h.instances, List.length_map, List.length_append,
        List.length_singleton, List.range_succ]
    instances := by
      rw [Scene.found, h.instances, List.map_append]
      rfl
    plain := fun other hother => by
      rcases List.mem_append.mp hother with hmem | hmem
      · exact h.plain other hmem
      · exact List.mem_singleton.mp hmem ▸ hplain }

theorem withQueries (h : Orderly ground configs keys scene) (queryState : Query → Bool) :
    Orderly ground configs keys (scene.withQueries queryState) :=
  { h with }

end Orderly

end Scene

namespace Engine

variable {engine : Engine} {c : ControllerId}

theorem scene_modifyController_setConnected {f : Controller → Controller} {connected : Bool}
    (hf : ∀ controller, (f controller).face = { controller.face with connected := connected }) :
    (engine.modifyController c f).scene = engine.scene.setConnected c connected := by
  have hmap : (engine.controllers.modify c f).map Controller.face =
      (engine.controllers.map Controller.face).modify c
        fun face => { face with connected := connected } := by
    refine List.ext_getElem? fun d => ?_
    rw [List.getElem?_map, List.getElem?_modify, List.getElem?_modify, List.getElem?_map]
    cases engine.controllers[d]? with
    | none => rfl
    | some controller => by_cases heq : c = d <;> simp [heq, hf]
  simp only [scene, modifyController, Scene.setConnected, hmap]

theorem scene_reconnected (engine : Engine) (c : ControllerId) :
    (engine.reconnected c).scene = engine.scene.setConnected c true :=
  scene_modifyController_setConnected fun _ => rfl

theorem scene_mounted (engine : Engine) (node : NodeId) (key : String) :
    (engine.mounted node key).scene = engine.scene.mount node key := by
  simp only [scene, mounted, Scene.mount, List.map_append, List.map_singleton, List.length_map]
  rfl

end Engine

end InteractionBinding
