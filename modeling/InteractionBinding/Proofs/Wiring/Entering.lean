import InteractionBinding.Proofs.Graph.Naming
import InteractionBinding.Proofs.Wiring.CallOrder
/-!
# Entering the scene

A connection puts a controller under a key (`Scene.entered`) and changes nothing else of the scene.
Controllers with different keys can be connected in any order (`Scene.entered_comm`), so a second
connection finds the scene of both, whichever is first (`Engine.Enters.calls_connect_connect`). What
a key selects belongs to interactions whose other end is connected
(`Engine.exists_faces_of_mem_selection`).
-/

namespace InteractionBinding

open Compile
open Engine (Candidate Pass)

/-! ### Scenes of connections -/

/-- The scene in which a controller has been connected and registered under a key. -/
def Scene.entered (scene : Scene) (c : ControllerId) (key : String) : Scene :=
  { scene with
    registry := scene.registry.insert key c
    controllers := scene.controllers.modify c fun face =>
      { face with key := some key, connected := true } }

namespace Scene

variable {scene : Scene} {c d : ControllerId} {key other : String}

theorem controller_entered (scene : Scene) (c d : ControllerId) (key : String) :
    (scene.entered c key).controller d =
      if c = d ∧ d < scene.controllers.length
        then { scene.controller d with key := some key, connected := true }
        else scene.controller d := by
  simp only [controller, entered, List.getD_eq_getElem?_getD, List.getElem?_modify]
  by_cases hd : d < scene.controllers.length
  · by_cases heq : c = d <;> simp [heq, hd]
  · simp [hd]

@[simp]
theorem length_entered : (scene.entered c key).controllers.length = scene.controllers.length :=
  List.length_modify ..

/-- Controllers that are connected under different keys can be connected in any order. -/
theorem entered_comm (hne : c ≠ d) (hkey : key ≠ other) :
    (scene.entered c key).entered d other = (scene.entered d other).entered c key := by
  have hregistry : (scene.registry.insert key c).insert other d =
      (scene.registry.insert other d).insert key c := by
    refine KeyMap.ext_get? fun text => ?_
    simp only [KeyMap.get?_insert]
    grind
  have hcontrollers (f g : Controller.Face → Controller.Face) :
      (scene.controllers.modify c f).modify d g = (scene.controllers.modify d g).modify c f := by
    refine List.ext_getElem? fun e => ?_
    simp only [List.getElem?_modify]
    cases scene.controllers[e]? with
    | none => simp
    | some face => grind
  simp only [entered, hregistry, hcontrollers]

theorem connectedController?_entered_self (hc : c < scene.controllers.length) :
    (scene.entered c key).connectedController? key = some c := by
  have hregistered : (scene.entered c key).registry.get? key = some c := KeyMap.get?_insert_self ..
  have hconnected : ((scene.entered c key).controller c).connected = true := by
    rw [controller_entered, if_pos ⟨rfl, hc⟩]
  rw [connectedController?, hregistered, Option.filter_some, if_pos hconnected]

/-- A connection changes nothing for keys that other controllers are registered under. -/
theorem connectedController?_entered_of_ne (hne : other ≠ key)
    (hregistered : ∀ e, scene.registry.get? other = some e → e ≠ c) :
    (scene.entered c key).connectedController? other = scene.connectedController? other := by
  have hregistry : (scene.entered c key).registry.get? other = scene.registry.get? other := by
    rw [entered, KeyMap.get?_insert, if_neg hne]
  rw [connectedController?, connectedController?, hregistry]
  cases hget : scene.registry.get? other with
  | none => rfl
  | some e =>
    have hcontroller : (scene.entered c key).controller e = scene.controller e := by
      rw [controller_entered, if_neg fun hand => hregistered e hget hand.1.symm]
    rw [Option.filter_some, Option.filter_some, hcontroller]

/-- The other end of an interaction is connected, for a concrete key that stands for a name: one of
its targets if it is an interaction of this name, and otherwise its source. -/
def Faces (scene : Scene) (ci : CompiledInteraction) (key name : String) : Prop :=
  ci.rule.key = name ∧ (∃ effect ∈ ci.effects, effect.target = ci.rule.key ∨
      (scene.connectedController?
        (KeyTemplate.interpolate effect.target (KeyTemplate.indices key))).isSome) ∨
    ci.rule.key ≠ name ∧ (scene.connectedController?
      (KeyTemplate.interpolate ci.rule.key (KeyTemplate.indices key))).isSome

end Scene

namespace Engine

variable {engine : Engine} {config : Config} {i : InstanceId}
  {c d : ControllerId} {key name source target : String} {candidate : Candidate} {cue : Cue}

theorem scene_entered (engine : Engine) (c : ControllerId) (key : String) :
    (engine.entered c key).scene = engine.scene.entered c key := by
  have hcontrollers : (engine.controllers.modify c fun controller =>
      { controller with key := some key, connected := true }).map Controller.face =
        (engine.controllers.map Controller.face).modify c fun face =>
          { face with key := some key, connected := true } := by
    refine List.ext_getElem? fun e => ?_
    simp only [List.getElem?_map, List.getElem?_modify]
    cases engine.controllers[e]? with
    | none => simp
    | some controller => by_cases heq : c = e <;> simp [heq, Controller.face]
  exact congrArg (fun controllers => { engine.scene with
    registry := engine.registry.insert key c, controllers := controllers }) hcontrollers

/-- If no other controller is connected under a key, a connection under another key leaves it so. -/
theorem connectedController?_entered_of_free {other : String} (hne : other ≠ key)
    (hfree : ∀ e, engine.registry.get? other = some e →
      e ≠ c ∧ (engine.controller e).connected = false) :
    (engine.entered c key).scene.connectedController? other = none := by
  rw [scene_entered, Scene.connectedController?_entered_of_ne hne fun e he => (hfree e he).1,
    ← connectedController?_eq, Engine.connectedController?]
  refine Option.filter_eq_none_iff.mpr fun e he => ?_
  rw [(hfree e he).2]
  exact Bool.false_ne_true

/-- Whether a controller enters under a key can be read off the scene. -/
theorem Enters.congr {after : Engine} {requested : Option String}
    (h : engine.Enters c requested key) (hrunning : after.scene.running = engine.scene.running)
    (hlength : after.scene.controllers.length = engine.scene.controllers.length)
    (hcontroller : after.scene.controller c = engine.scene.controller c)
    (hdom : after.scene.dom = engine.scene.dom)
    (hoptions : after.scene.options = engine.scene.options) : after.Enters c requested key := by
  rw [scene_controller, scene_controller] at hcontroller
  have hkey := congrArg Controller.Face.key hcontroller
  have hnode := congrArg Controller.Face.node hcontroller
  have hconnected := congrArg Controller.Face.connected hcontroller
  simp only [Controller.face] at hkey hnode hconnected
  refine ⟨hrunning.trans h.running, ?_, hconnected.trans h.off, ?_⟩
  · have hlength' : after.controllers.length = engine.controllers.length := by
      simpa only [scene, List.length_map] using hlength
    exact hlength' ▸ h.exists_controller
  · rw [← h.key, connectionKey?, connectionKey?, hkey, hnode,
      show after.host.dom = engine.host.dom from hdom, show after.options = engine.options from
        hoptions]

/-! ### What a key selects -/

/-- A key selects effects of interactions that it faces. -/
theorem exists_faces_of_mem_selection (hgraph : (engine.inst i).graph = .ofConfig config)
    (hname : (Graph.ofConfig config).resolveKey key = some name)
    (h : candidate ∈ engine.selection i c key) :
    ∃ ci ∈ accepted config, candidate.id.index = ci.rule.index ∧
      engine.scene.Faces ci key name := by
  rcases List.mem_append.mp h with h | h
  · obtain ⟨node, ci, effect, hnode, htrigger, heffect, h⟩ :=
      Pass.mem_outgoingOf (List.mem_reverse.mp h)
    obtain ⟨found, -, -, htarget, -, rfl⟩ := Pass.outgoing?_eq_some.mp h
    rw [Pass.node?, Pass.graph, hgraph, Graph.get?, hname] at hnode
    obtain ⟨haccepted, hkey⟩ := (Graph.mem_triggers_iff hnode).mp htrigger
    refine ⟨ci, haccepted, ?_, .inl ⟨hkey, effect, heffect, ?_⟩⟩
    · have hindex := congrArg InteractionId.index (id_eq_of_mem_effects haccepted heffect)
      exact hindex
    · rw [Pass.targetController?] at htarget
      split at htarget
      next heq => exact .inl heq
      next => exact .inr (by rw [← connectedController?_eq, htarget]; rfl)
  · obtain ⟨node, entry, hentry, hnode, h⟩ := Pass.mem_incomingOf (List.mem_reverse.mp h)
    obtain ⟨variant, found, -, hfind, hsource, -, rfl⟩ := Pass.incoming?_eq_some.mp h
    rw [Pass.node?, Pass.graph, hgraph, Graph.get?, hname] at hnode
    obtain ⟨ci, haccepted, effect, heffect, rfl, hid, -, hne⟩ :=
      Graph.exists_effect_of_mem_variants hnode hentry (List.mem_of_find?_eq_some hfind)
    have hindex : entry.id.index = ci.rule.index := by
      rw [← hid, id_eq_of_mem_effects haccepted heffect]
    refine ⟨ci, haccepted, hindex, .inr ⟨hne, ?_⟩⟩
    rw [← connectedController?_eq, hsource]
    rfl

/-- The cues of a key belong to its own interactions, or to others that it faces. -/
theorem exists_faces_of_mem_cues (hgraph : (engine.inst i).graph = .ofConfig config)
    (hname : (Graph.ofConfig config).resolveKey key = some name)
    (h : cue ∈ engine.scene.cues i c key) :
    ∃ ci ∈ accepted config, cue.sequence ∈ ci.sequences ∧
      (ci.rule.key = name ∧ cue.key = key ∨ engine.scene.Faces ci key name) := by
  obtain ⟨ci, hbelongs⟩ := exists_belongsTo_of_mem_cues hgraph h
  obtain ⟨hdeclared, hsequence, hrule, -, hsource, hown⟩ := hbelongs
  rw [← graph_inst_eq, hgraph, hrule, hname] at hown
  rw [← graph_inst_eq, hgraph, Graph.declares_ofConfig_iff] at hdeclared
  refine ⟨ci, hdeclared, hsequence, ?_⟩
  by_cases hkey : ci.rule.key = name
  · exact .inl ⟨hkey, hown (congrArg some hkey.symm)⟩
  · rw [Scene.source?, ← graph_inst_eq, hgraph, hrule, hname,
      if_neg fun heq => hkey (Option.some.inj heq).symm] at hsource
    exact .inr (.inr ⟨hkey, Option.isSome_of_eq_some hsource⟩)

/-! ### A second connection -/

namespace Enters

variable {other : String} {requested requestedOther : Option String}

theorem lt_length (h : engine.Enters c requested key) : c < engine.scene.controllers.length := by
  simpa only [scene, List.length_map] using h.exists_controller

theorem scene_connect_eq (h : engine.Enters c requested key) :
    (engine.connect c requested).1.scene = engine.scene.entered c key :=
  h.scene_connect.trans (scene_entered engine c key)

theorem instances_connect (h : engine.Enters c requested key) :
    (engine.connect c requested).1.scene.instances = engine.scene.instances := by
  rw [h.scene_connect_eq]
  rfl

theorem live_connect (h : engine.Enters c requested key) :
    (engine.connect c requested).1.live = engine.live :=
  congrArg Scene.live h.scene_connect_eq

theorem listed_connect (h : engine.Enters c requested key) (hlisted : engine.Listed) :
    (engine.connect c requested).1.Listed := by
  refine ⟨h.live_connect ▸ hlisted.nodup, fun i hi => ?_⟩
  rw [length_instances_eq h.instances_connect]
  exact hlisted.exists_of_mem i (h.live_connect ▸ hi)

/-- The connection of one controller does not keep another one from being connected. -/
theorem after_connect (h : engine.Enters c requested key)
    (hother : engine.Enters d requestedOther other) (hne : c ≠ d) :
    (engine.connect c requested).1.Enters d requestedOther other := by
  refine hother.congr ?_ ?_ ?_ ?_ ?_ <;> rw [h.scene_connect_eq]
  · rfl
  · rw [Scene.length_entered]
  · rw [Scene.controller_entered, if_neg fun hand => hne hand.1]
  · rfl
  · rfl

/-- A second connection calls for what its key selects after the first one. -/
theorem calls_connect_connect (h : engine.Enters c requested key)
    (hother : engine.Enters d requestedOther other) (hne : c ≠ d) (hlisted : engine.Listed)
    (hcompiled : engine.Compiled) (haccepts : engine.scene.Accepts) {i : InstanceId}
    (hi : i ∈ engine.live) (own : Nat → Bool) :
    let middle := (engine.connect c requested).1
    (middle.connect d requestedOther).1.calls i own = middle.calls i own ++
      (((middle.entered d other).selection i d other).filter fun candidate =>
        own candidate.id.index).flatMap
          (((engine.scene.entered c key).entered d other).callsOf i) := by
  intro middle
  have hcompiled' : middle.Compiled := fun j => by
    rw [graph_eq_of_instances h.instances_connect j]
    exact hcompiled j
  have haccepts' : middle.scene.Accepts := by
    rw [h.scene_connect_eq]
    exact haccepts
  rw [calls_connect (h.listed_connect hlisted) hcompiled' haccepts' (h.after_connect hother hne)
    (h.live_connect ▸ hi), scene_entered, h.scene_connect_eq]

end Enters

end Engine

end InteractionBinding
