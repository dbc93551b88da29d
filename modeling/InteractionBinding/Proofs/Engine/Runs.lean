import InteractionBinding.Proofs.Engine.Steps
import InteractionBinding.Proofs.Graph.Nodes
/-!
# What holds along every run

An engine that starts without instances stays tidy (`tidy_run`), and the graphs of its instances are
compiled from configurations (`compiled_run`). Both follow from what single steps keep.
-/

namespace InteractionBinding.Engine

variable {engine before after : Engine} {occasion : Occasion}

/-- Every instance has the graph of a configuration. -/
def Compiled (engine : Engine) : Prop :=
  ∀ i, ∃ config, (engine.inst i).graph = Graph.ofConfig config

theorem graph_eq_of_instances (h : after.scene.instances = before.scene.instances)
    (i : InstanceId) : (after.inst i).graph = (before.inst i).graph := by
  rw [graph_inst_eq, graph_inst_eq, Scene.inst, Scene.inst, h]

theorem Releases.instancesFor_eq (h : Releases before after) (key : String) :
    after.instancesFor key = before.instancesFor key := by
  obtain ⟨-, hlive, hinstances⟩ := h.frame
  rw [instancesFor, instancesFor, hlive]
  simp only [graph_eq_of_instances hinstances]

theorem graph_modifyInstance (i j : InstanceId) (f : Instance → Instance)
    (hf : ∀ inst, (f inst).graph = inst.graph) :
    ((engine.modifyInstance i f).inst j).graph = (engine.inst j).graph := by
  rw [inst_modifyInstance_eq]
  split
  · exact hf _
  · rfl

theorem inst_eq_default {i : InstanceId} (h : engine.instances.length ≤ i) :
    engine.inst i = default := by
  rw [inst, List.getD_eq_getElem?_getD, List.getElem?_eq_none h]
  rfl

theorem inst_eq_getElem {i : InstanceId} (h : i < engine.instances.length) :
    engine.inst i = engine.instances[i] := by
  rw [inst, List.getD_eq_getElem?_getD, List.getElem?_eq_getElem h, Option.getD_some]

theorem controller_eq_default {c : ControllerId} (h : engine.controllers.length ≤ c) :
    engine.controller c = default := by
  rw [controller, List.getD_eq_getElem?_getD, List.getElem?_eq_none h]
  rfl

theorem controller_eq_getElem {c : ControllerId} (h : c < engine.controllers.length) :
    engine.controller c = engine.controllers[c] := by
  rw [controller, List.getD_eq_getElem?_getD, List.getElem?_eq_getElem h, Option.getD_some]

/-- A step founds an instance, or the instances keep their graphs. -/
theorem Step.graphs (h : Step occasion before after) :
    (∃ config, after.instances = before.instances ++ [Instance.ofConfig config]) ∨
      after.instances.length = before.instances.length ∧
        ∀ i, (after.inst i).graph = (before.inst i).graph := by
  have hinstances (heq : after.scene.instances = before.scene.instances) :
      after.instances.length = before.instances.length ∧
        ∀ i, (after.inst i).graph = (before.inst i).graph :=
    ⟨length_instances_eq heq, graph_eq_of_instances heq⟩
  have hscene (heq : after.scene = before.scene) := hinstances (congrArg Scene.instances heq)
  cases h with
  | release h => exact .inr (hinstances (Releases.frame (.single h)).2.2)
  | read dom => exact .inr ⟨rfl, fun _ => rfl⟩
  | mark i id => exact .inr (hscene (scene_markApplied i id))
  | found config => exact .inl ⟨config, rfl⟩
  | condemn i =>
    exact .inr ⟨List.length_modify .., fun j => graph_modifyInstance i j _ fun _ => rfl⟩
  | retire i =>
    refine .inr ⟨List.length_modify .., fun j => ?_⟩
    exact graph_modifyInstance i j (fun inst => { inst with memo := [] }) fun _ => rfl
  | source pass c key h hwires => exact .inr (hscene hwires.scene)
  | target pass c key h hwires => exact .inr (hscene hwires.scene)
  | cue i cue h => exact .inr (hscene (scene_applyCue ..))

theorem Step.compiled (h : Step occasion before after) (hcompiled : before.Compiled) :
    after.Compiled := by
  rcases h.graphs with ⟨config, hinstances⟩ | ⟨-, hgraphs⟩
  · intro i
    rw [inst, hinstances, getD_append_singleton]
    split
    · exact ⟨config, rfl⟩
    · exact hcompiled i
  · intro i
    rw [hgraphs]
    exact hcompiled i

theorem Steps.compiled (h : Steps occasion before after) (hcompiled : before.Compiled) :
    after.Compiled := by
  induction h with
  | refl => exact hcompiled
  | tail _ hstep ih => exact hstep.compiled ih

theorem tidy_start (host : Host) (options : EngineOptions) : (start host options).Tidy :=
  fun _ hmem => absurd hmem List.not_mem_nil

theorem compiled_start (host : Host) (options : EngineOptions) : (start host options).Compiled :=
  fun _ => ⟨.empty, rfl⟩

/-- What holds at the start, and is kept by every operation, holds after every run. -/
theorem run_induction {P : Engine → Prop} (hstart : P engine)
    (hstep : ∀ state, P state → ∀ operation, P (state.perform operation).1)
    (operations : List Operation) : P (engine.run operations) :=
  List.foldlRecOn operations _ hstart fun state hstate operation _ => hstep state hstate operation

/-- A controller is registered under some key. -/
def Registers (engine : Engine) (c : ControllerId) : Prop :=
  ∃ key, engine.registry.get? key = some c

/-- Every operation of a run is admitted by the engine that performs it. -/
def Follows (admits : Engine → Operation → Prop) : Engine → List Operation → Prop
  | _, [] => True
  | engine, operation :: rest =>
    admits engine operation ∧ Follows admits (engine.perform operation).1 rest

theorem Follows.mono {admits admits' : Engine → Operation → Prop} {operations : List Operation}
    (hadmits : ∀ engine operation, admits engine operation → admits' engine operation)
    (h : Follows admits engine operations) : Follows admits' engine operations := by
  induction operations generalizing engine with
  | nil => exact h
  | cons operation rest ih => exact ⟨hadmits _ _ h.1, ih h.2⟩

theorem tidy_run (htidy : engine.Tidy) (operations : List Operation) :
    (engine.run operations).Tidy :=
  run_induction htidy (fun _ hstate operation => (perform_steps hstate operation).2) operations

theorem compiled_run (htidy : engine.Tidy) (hcompiled : engine.Compiled)
    (operations : List Operation) : (engine.run operations).Compiled := by
  have hboth := run_induction (P := fun state => state.Tidy ∧ state.Compiled) ⟨htidy, hcompiled⟩
    (fun _ hstate operation => ⟨(perform_steps hstate.1 operation).2,
      (perform_steps hstate.1 operation).1.compiled hstate.2⟩) operations
  exact hboth.2

end InteractionBinding.Engine
