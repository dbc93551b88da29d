import InteractionBinding.Proofs.Engine.Connecting
import Mathlib.Logic.Relation
/-!
# Operations as steps

Every operation is a sequence of a few kinds of steps (`perform_steps`): a step wires candidates,
applies a cue, tells another event, lets ids of a key be applied again, founds or ends an instance,
or is calm. What holds along every run of an engine is derived from what these steps keep.

What an observer makes of a report is said once (`onChildList_ind`), and every relation between
engines that a report keeps is derived from it.

Candidates are wired only for a connected controller, under its key, in a live instance that knows
the key (`Entitled`). The nodes that a pass with a scope sees are those reported to an observation.
-/

namespace InteractionBinding.Engine

/-- What an operation brings in from outside: nodes added to containers, documents, and ids that
instances keep as applied. -/
structure Occasion where
  /-- The added nodes that pass the item selector of an observation, for its owner. -/
  reports : Option String → ListScope → Prop
  reads : Dom → Prop
  marks : InstanceId → String → Prop

/-- What an operation brings in from outside of an engine. -/
def occasion (engine : Engine) : Operation → Occasion
  | .childListChanged container added _ =>
    ⟨fun itemSelector scope => ∃ token observation,
        (token, observation) ∈ engine.host.observations.entries ∧
        observation.container = container ∧ observation.itemSelector = itemSelector ∧
        scope.owner = observation.owner ∧ scope.container = observation.containerSelector ∧
        scope.nodes = added.filter fun node =>
          itemSelector.all fun selector => engine.host.dom.matchesSelector node selector,
      fun _ => False, fun _ _ => False⟩
  | .readDocument dom => ⟨fun _ _ => False, (· = dom), fun _ _ => False⟩
  | .markApplied i id => ⟨fun _ _ => False, fun _ => False, fun j other => j = i ∧ other = id⟩
  | _ => ⟨fun _ _ => False, fun _ => False, fun _ _ => False⟩

/-- A change that tells nothing, reads no other document, and keeps the instances that take part,
their graphs and what has been applied. -/
structure Calm (before after : Engine) : Prop where
  log : after.log = before.log
  dom : after.host.dom = before.host.dom
  memo (i : InstanceId) : (after.inst i).memo = (before.inst i).memo
  live : after.live = before.live
  instances : after.scene.instances = before.scene.instances

/-- A pass wires on behalf of a controller that is connected under a key, in a live instance that
knows the key. -/
structure Entitled (occasion : Occasion) (scene : Scene) (pass : Pass) (c : ControllerId)
    (key : String) : Prop where
  connected : (scene.controller c).connected = true
  keyed : (scene.controller c).key = some key
  live : pass.instanceId ∈ scene.live
  standing : (scene.inst pass.instanceId).destroyed = false
  knows : (scene.inst pass.instanceId).graph.knows key = true
  scope (scope : ListScope) : pass.scope = some scope →
    (∃ itemSelector, occasion.reports itemSelector scope) ∧ scope.owner = c

/-- A cue is applied in a live instance that declares its sequence, when its source is connected. -/
structure Cue.Entitled (scene : Scene) (i : InstanceId) (cue : Cue) : Prop where
  live : i ∈ scene.live
  standing : (scene.inst i).destroyed = false
  declared : ∃ node interaction, (scene.inst i).graph.get? cue.key = some node ∧
    interaction ∈ node.triggers ∧ interaction.rule = cue.rule ∧
    cue.sequence ∈ interaction.sequences
  connected : (scene.controller cue.source).connected = true

/-- A step that wires nothing, and neither founds nor ends an instance. -/
inductive Release : Engine → Engine → Prop
  | calm {before after : Engine} (h : Calm before after) : Release before after
  | remove (engine : Engine) (handler : HandlerId) (node : NodeId) :
    Release engine (engine.tell (.remove handler node))
  | effectState (engine : Engine) (node : NodeId) (effects : List String) :
    Release engine (engine.tell (.effectState node effects))
  | insertSheet (engine : Engine) (sheet : SheetId) (rules : List String) :
    Release engine (engine.tell (.insertSheet sheet rules))
  | removeSheet (engine : Engine) (sheet : SheetId) :
    Release engine (engine.tell (.removeSheet sheet))
  | forget (engine : Engine) (i : InstanceId) (key : String) :
    Release engine (engine.forgetKey i key)

/-- A step of an engine. -/
inductive Step (occasion : Occasion) : Engine → Engine → Prop
  | release {before after : Engine} (h : Release before after) : Step occasion before after
  | read (engine : Engine) (dom : Dom) (h : occasion.reads dom) :
    Step occasion engine (engine.readDocument dom)
  | mark (engine : Engine) (i : InstanceId) (id : String) (h : occasion.marks i id) :
    Step occasion engine (engine.modifyInstance i (·.markApplied id))
  | found (engine : Engine) (config : Config) :
    Step occasion engine { engine with
      instances := engine.instances ++ [Instance.ofConfig config]
      live := engine.live ++ [engine.instances.length] }
  | condemn (engine : Engine) (i : InstanceId) :
    Step occasion engine (engine.modifyInstance i Instance.condemned)
  | retire (engine : Engine) (i : InstanceId) :
    Step occasion engine
      { engine.modifyInstance i fun inst => { inst with memo := [] } with
        live := engine.live.filter fun other => other ≠ i }
  | source {before after : Engine} (pass : Pass) (c : ControllerId) (key : String)
      (h : Entitled occasion before.scene pass c key)
      (hwires : pass.Wires (pass.outgoingOf before c key) before after) :
    Step occasion before after
  | target {before after : Engine} (pass : Pass) (c : ControllerId) (key : String)
      (h : Entitled occasion before.scene pass c key)
      (hwires : pass.Wires (pass.incomingOf before c key) before after) :
    Step occasion before after
  | cue (engine : Engine) (i : InstanceId) (cue : Cue) (h : cue.Entitled engine.scene i) :
    Step occasion engine (applyCue i engine cue)

/-- Any number of steps that wire nothing. -/
abbrev Releases : Engine → Engine → Prop := Relation.ReflTransGen Release

/-- Any number of steps. -/
abbrev Steps (occasion : Occasion) : Engine → Engine → Prop := Relation.ReflTransGen (Step occasion)

/-! ### What is told -/

/-- One engine comes from another by appending entries that fulfil a condition to the log. -/
def Tells (P : Entry → Prop) (before after : Engine) : Prop :=
  ∃ entries, after.log = before.log ++ entries ∧ ∀ entry ∈ entries, P entry

namespace Tells

variable {P Q : Entry → Prop} {before middle after : Engine}

theorem silent (h : after.log = before.log) : Tells P before after :=
  ⟨[], by rw [h, List.append_nil], fun _ hmem => absurd hmem List.not_mem_nil⟩

theorem single {entry : Entry} (h : after.log = before.log ++ [entry]) (hentry : P entry) :
    Tells P before after :=
  ⟨[entry], h, fun _ hmem => List.mem_singleton.mp hmem ▸ hentry⟩

theorem of_extends {i : InstanceId} {events : List Event} {marked : List String}
    (h : Extends i events marked before after)
    (hevents : ∀ event ∈ events, P (.told event before.scene)) : Tells P before after :=
  ⟨_, h.log, List.forall_mem_map.mpr hevents⟩

theorem trans (first : Tells P before middle) (second : Tells P middle after) :
    Tells P before after := by
  obtain ⟨entries, hlog, hentries⟩ := first
  obtain ⟨entries', hlog', hentries'⟩ := second
  exact ⟨entries ++ entries', by rw [hlog', hlog, List.append_assoc],
    List.forall_mem_append.mpr ⟨hentries, hentries'⟩⟩

theorem mono (h : Tells P before after) (himp : ∀ entry, P entry → Q entry) :
    Tells Q before after := by
  obtain ⟨entries, hlog, hentries⟩ := h
  exact ⟨entries, hlog, fun entry hmem => himp entry (hentries entry hmem)⟩

end Tells

/-! ### Calm changes -/

namespace Calm

variable {before middle after : Engine}

theorem refl (engine : Engine) : Calm engine engine := ⟨rfl, rfl, fun _ => rfl, rfl, rfl⟩

theorem of_quiet (h : Quiet before after) : Calm before after :=
  ⟨h.log, congrArg Scene.dom h.scene, h.memo, congrArg Scene.live h.scene,
    congrArg Scene.instances h.scene⟩

theorem steps (h : Calm before after) : Releases before after := .single (.calm h)

end Calm

variable {engine : Engine}

theorem calm_modifyController (engine : Engine) (c : ControllerId) (f : Controller → Controller) :
    Calm engine (engine.modifyController c f) := ⟨rfl, rfl, fun _ => rfl, rfl, rfl⟩

theorem quiet_unsubscribeAll (engine : Engine) (listeners : List ConditionListener) :
    Quiet engine (engine.unsubscribeAll listeners) := by
  refine ⟨?_, rfl, fun _ => rfl⟩
  exact List.foldlRecOn (motive := fun (host : Host) =>
    ({ engine with host := host } : Engine).scene = engine.scene) listeners _ rfl fun _ h _ _ => h

theorem quiet_unlistenKey (engine : Engine) (i : InstanceId) (key : String) :
    Quiet engine (engine.unlistenKey i key) :=
  (quiet_unsubscribeAll ..).trans (quiet_modifyInstance _ (fun _ => rfl) fun _ => rfl)

theorem quiet_deleteController (engine : Engine) (i : InstanceId) (key : String) :
    Quiet engine (engine.deleteController i key).1 :=
  engine.quiet_modifyInstance (fun _ => rfl) fun _ => rfl

theorem quiet_releaseController (engine : Engine) (i : InstanceId) (key : String)
    (c : ControllerId) : Quiet engine (engine.releaseController i key c).1 :=
  releaseController_ind (.refl _) fun _ => quiet_deleteController ..

theorem calm_unobserve (engine : Engine) (observers : List (NodeId × Token)) :
    Calm engine { engine with
      host := observers.foldl (fun host observer => host.unobserve observer.2) engine.host } := by
  refine ⟨rfl, ?_, fun _ => rfl, rfl, rfl⟩
  exact List.foldlRecOn (motive := fun (host : Host) => host.dom = engine.host.dom) observers _ rfl
    fun host h _ _ => h

theorem calm_unregister (engine : Engine) (key : String) (c : ControllerId) :
    Calm engine (engine.unregister key c).1 :=
  unregister_ind (.refl _) fun _ => ⟨rfl, rfl, fun _ => rfl, rfl, rfl⟩

/-! ### Disconnecting -/

theorem releases_teardown (engine : Engine) (nodes : List NodeId) :
    Releases engine (engine.teardown nodes) := by
  refine List.foldlRecOn _ _ .refl fun state hstate event hevent => hstate.trans (.single ?_)
  obtain ⟨handler, -, hevent⟩ := List.mem_flatMap.mp hevent
  obtain ⟨node, -, rfl⟩ := List.mem_map.mp hevent
  exact .remove state handler node

theorem releases_releaseHost (engine : Engine) (c : ControllerId) (held : Controller) :
    Releases engine (engine.releaseHost c held) := by
  simp only [releaseHost]
  have hnodes : Releases engine
      (if held.connected then engine.teardown (engine.ownedNodes c) else engine) := by
    split
    · exact releases_teardown ..
    · exact .refl
  have hsheets (start : Engine) : Releases start (held.stylesheet.toList.foldl removeSheet start) :=
    List.foldlRecOn _ _ .refl fun state hstate sheet _ => hstate.trans (.single (.removeSheet ..))
  refine (hnodes.trans (hsheets _)).trans (calm_unobserve _ held.observers).steps

theorem releases_releaseKey (c : ControllerId) (key : String) (evict : Bool) (engine : Engine)
    (i : InstanceId) : Releases engine (releaseKey c key evict engine i) := by
  simp only [releaseKey]
  have hforget : Releases engine (engine.forgetKey i key) := .single (.forget ..)
  split
  · exact (hforget.trans (Calm.of_quiet (quiet_releaseController ..)).steps).trans
      (Calm.of_quiet (quiet_unlistenKey ..)).steps
  · exact hforget

theorem releases_disconnect (engine : Engine) (c : ControllerId) (evict : Bool) :
    Releases engine (engine.disconnect c evict) := by
  simp only [disconnect]
  have hreleased := (calm_modifyController engine c (Controller.released · evict)).steps
  split
  · exact hreleased
  · have hhost := hreleased.trans (releases_releaseHost _ c (engine.controller c))
    split
    · exact hhost
    next key hkey =>
      have hkeys (start : Engine) (instances : List InstanceId) :
          Releases start (instances.foldl (releaseKey c key evict) start) :=
        List.foldlRecOn _ _ .refl fun state hstate i _ => hstate.trans (releases_releaseKey ..)
      split
      · exact (hhost.trans (hkeys ..)).trans (calm_unregister ..).steps
      · exact hhost.trans (hkeys ..)

/-! ### Evolving -/

/-- No live instance has been destroyed. -/
def Tidy (engine : Engine) : Prop := ∀ i ∈ engine.live, (engine.inst i).destroyed = false

/-- A tidy engine becomes another one by steps that read no document. -/
structure Evolution (occasion : Occasion) (before after : Engine) : Prop where
  steps : Steps occasion before after
  tidy : after.Tidy
  dom : after.host.dom = before.host.dom

/-- One engine becomes another by steps that read no document, if it is tidy. -/
structure Evolves (occasion : Occasion) (before after : Engine) : Prop where
  evolution : before.Tidy → Evolution occasion before after

variable {occasion : Occasion} {before middle after : Engine}

theorem Evolves.refl (engine : Engine) : Evolves occasion engine engine :=
  ⟨fun htidy => ⟨.refl, htidy, rfl⟩⟩

theorem Evolves.trans (first : Evolves occasion before middle)
    (second : Evolves occasion middle after) : Evolves occasion before after := by
  refine ⟨fun htidy => ?_⟩
  obtain ⟨hsteps, hmiddle, hdom⟩ := first.evolution htidy
  obtain ⟨hsteps', hafter, hdom'⟩ := second.evolution hmiddle
  exact ⟨hsteps.trans hsteps', hafter, hdom'.trans hdom⟩

theorem Evolves.foldl {α : Type} (f : Engine → α → Engine) (l : List α)
    (h : ∀ state, ∀ a ∈ l, Evolves occasion state (f state a)) (engine : Engine) :
    Evolves occasion engine (l.foldl f engine) :=
  List.foldlRecOn l f (.refl engine) fun state hstate a hmem => hstate.trans (h state a hmem)

theorem destroyed_eq (h : after.scene.instances = before.scene.instances) (i : InstanceId) :
    (after.inst i).destroyed = (before.inst i).destroyed := by
  have hface : (after.inst i).face = (before.inst i).face := by
    rw [← scene_inst, ← scene_inst, Scene.inst, Scene.inst, h]
  exact congrArg Instance.Face.destroyed hface

theorem tidy_congr (hlive : after.live = before.live)
    (hinstances : after.scene.instances = before.scene.instances) :
    after.Tidy ↔ before.Tidy := by
  simp only [Tidy, hlive, destroyed_eq hinstances]

theorem scene_forgetKey (engine : Engine) (i : InstanceId) (key : String) :
    (engine.forgetKey i key).scene = engine.scene := by
  have hclear : (engine.modifyInstance i (·.clearKey key)).scene = engine.scene :=
    scene_modifyInstance fun _ => rfl
  exact hclear

/-- Releasing keeps the document, the instances that take part and their graphs. -/
theorem Releases.frame (h : Releases before after) : after.host.dom = before.host.dom ∧
    after.live = before.live ∧ after.scene.instances = before.scene.instances := by
  induction h with
  | refl => exact ⟨rfl, rfl, rfl⟩
  | tail _ hstep ih =>
    obtain ⟨hdom, hlive, hinstances⟩ := ih
    cases hstep with
    | calm hcalm =>
      exact ⟨hcalm.dom.trans hdom, hcalm.live.trans hlive, hcalm.instances.trans hinstances⟩
    | forget i key =>
      rename_i middle _
      have hscene := scene_forgetKey middle i key
      exact ⟨(congrArg Scene.dom hscene).trans hdom, (congrArg Scene.live hscene).trans hlive,
        (congrArg Scene.instances hscene).trans hinstances⟩
    | remove | effectState | insertSheet | removeSheet => exact ⟨hdom, hlive, hinstances⟩

theorem Releases.steps (h : Releases before after) : Steps occasion before after :=
  Relation.ReflTransGen.mono (fun _ _ hstep => Step.release hstep) _ _ h

theorem Releases.evolves (h : Releases before after) : Evolves occasion before after := by
  obtain ⟨hdom, hlive, hinstances⟩ := h.frame
  exact ⟨fun htidy => ⟨h.steps, (tidy_congr hlive hinstances).mpr htidy, hdom⟩⟩

theorem Calm.evolves (h : Calm before after) : Evolves occasion before after := h.steps.evolves

theorem evolves_of_scene_eq (hscene : after.scene = before.scene)
    (hsteps : Steps occasion before after) : Evolves occasion before after :=
  ⟨fun htidy => ⟨hsteps, (tidy_congr (congrArg Scene.live hscene)
    (congrArg Scene.instances hscene)).mpr htidy, congrArg Scene.dom hscene⟩⟩

/-! ### Resolving -/

/-- A fold of steps that keep the scene is a sequence of steps that keeps the scene. -/
theorem steps_foldl {α : Type} (f : Engine → α → Engine) (l : List α)
    (h : ∀ state, ∀ a ∈ l, state.scene = engine.scene →
      Steps occasion state (f state a) ∧ (f state a).scene = state.scene) :
    Steps occasion engine (l.foldl f engine) ∧ (l.foldl f engine).scene = engine.scene := by
  refine List.foldlRecOn
    (motive := fun state => Steps occasion engine state ∧ state.scene = engine.scene)
    l _ ⟨.refl, rfl⟩ fun state hstate a hmem => ?_
  obtain ⟨hsteps, hscene⟩ := h state a hmem hstate.2
  exact ⟨hstate.1.trans hsteps, hscene.trans hstate.2⟩

theorem Entitled.cue {c : ControllerId} {key : String} {i : InstanceId} {cue : Cue}
    (h : Entitled occasion engine.scene ⟨i, none⟩ c key) (hstems : cue.Stems engine.scene i c key) :
    cue.Entitled engine.scene i where
  live := h.live
  standing := h.standing
  declared := hstems.declared
  connected := by
    rcases hstems.source with ⟨-, heq⟩ | hsource
    · exact heq ▸ h.connected
    · exact (Option.filter_eq_some_iff.mp hsource).2

theorem steps_resolveIn {c : ControllerId} {key : String} {i : InstanceId}
    (h : Entitled occasion engine.scene ⟨i, none⟩ c key) :
    Steps occasion engine (resolveIn c key engine i) ∧
      (resolveIn c key engine i).scene = engine.scene := by
  obtain ⟨middle, later, hout, hin, hcues⟩ := resolveIn_cues c key engine i
  have hlater : later.scene = engine.scene := hin.scene.trans hout.scene
  have hsteps : Steps occasion later ((engine.scene.cues i c key).foldl (applyCue i) later) := by
    refine (steps_foldl (applyCue i) _ fun state cue hmem hscene => ?_).1
    have hentitled := h.cue (stems_of_mem_cues hmem)
    rw [← hlater, ← hscene] at hentitled
    exact ⟨.single (.cue state i cue hentitled), scene_applyCue i state cue⟩
  rw [← hcues] at hsteps
  refine ⟨.head (.source _ c key h hout) (.head (.target _ c key ?_ hin) hsteps),
    scene_resolveIn c key engine i⟩
  rw [hout.scene]
  exact h

theorem lt_of_knows {i : InstanceId} {key : String}
    (h : (engine.inst i).graph.knows key = true) : i < engine.instances.length := by
  by_contra hlength
  have hdefault : engine.inst i = default := by
    rw [inst, List.getD_eq_getElem?_getD, List.getElem?_eq_none (Nat.not_lt.mp hlength)]
    rfl
  rw [hdefault] at h
  revert h
  rw [Graph.knows, Graph.resolveKey]
  simp [default, Instance.ofConfig, Graph.ofConfig, Config.empty, KeyMap.contains]

theorem entitled_of_mem_instancesFor {c : ControllerId} {key : String} {pass : Pass}
    (htidy : engine.Tidy) (hconnected : (engine.controller c).connected = true)
    (hkeyed : (engine.controller c).key = some key)
    (hmem : pass.instanceId ∈ engine.instancesFor key)
    (hscope : ∀ scope, pass.scope = some scope →
      (∃ itemSelector, occasion.reports itemSelector scope) ∧ scope.owner = c) :
    Entitled occasion engine.scene pass c key := by
  obtain ⟨hlive, hknows⟩ := List.mem_filter.mp hmem
  refine ⟨?_, ?_, hlive, ?_, ?_, hscope⟩
  · rw [scene_controller]
    exact hconnected
  · rw [scene_controller]
    exact hkeyed
  · rw [scene_inst]
    exact htidy _ hlive
  · rw [scene_inst]
    exact hknows

theorem evolves_resolve {c : ControllerId} {key : String}
    (hconnected : (engine.controller c).connected = true)
    (hkeyed : (engine.controller c).key = some key) :
    Evolves occasion engine (engine.resolve c key).1 := by
  have hregister : Calm engine { engine with registry := engine.registry.insert key c } :=
    ⟨rfl, rfl, fun _ => rfl, rfl, rfl⟩
  refine hregister.evolves.trans ⟨fun htidy => ?_⟩
  obtain ⟨hsteps, hscene⟩ := steps_foldl (resolveIn c key) _ fun state i hmem hscene => by
    have hentitled : Entitled occasion state.scene ⟨i, none⟩ c key :=
      hscene ▸ entitled_of_mem_instancesFor htidy hconnected hkeyed hmem
        fun scope hscope => nomatch hscope
    exact steps_resolveIn hentitled
  exact (evolves_of_scene_eq hscene hsteps).evolution htidy

/-! ### Connecting -/

theorem evolves_connect (engine : Engine) (c : ControllerId) (requested : Option String) :
    Evolves occasion engine (engine.connect c requested).1 := by
  refine connect_ind (.refl engine) fun key _ hc _ _ => ?_
  have hconnecting : Evolves occasion engine (engine.connecting c key) :=
    (calm_modifyController engine c _).evolves
  have hself := controller_connecting_self hc key
  exact hconnecting.trans (evolves_resolve (by rw [hself]) (by rw [hself]))

theorem evolves_update (engine : Engine) (c : ControllerId) :
    Evolves occasion engine (engine.update c).1 :=
  (releases_disconnect engine c false).evolves.trans (evolves_connect _ c none)

theorem evolves_resolveForInstance (i : InstanceId) (engine : Engine) (c : ControllerId) :
    Evolves occasion engine (resolveForInstance i engine c) :=
  resolveForInstance_ind (.refl _) fun _ hconnected hkeyed _ => evolves_resolve hconnected hkeyed

theorem getD_append_singleton {α : Type} (l : List α) (a default : α) (n : Nat) :
    (l ++ [a]).getD n default = if n = l.length then a else l.getD n default := by
  rw [List.getD_eq_getElem?_getD, List.getD_eq_getElem?_getD, List.getElem?_append]
  split
  · rw [if_neg (by omega)]
  · split
    next heq => simp [heq]
    next hne =>
      rw [List.getElem?_eq_none (by simp; omega), List.getElem?_eq_none (by omega)]

theorem evolves_create (engine : Engine) (config : Config) :
    Evolves occasion engine (engine.create config).1 := by
  refine Evolves.trans ⟨fun htidy => ⟨.single (.found engine config), ?_, rfl⟩⟩
    (Evolves.foldl _ _ (fun state c _ => evolves_resolveForInstance _ state c) _)
  intro i hlive
  rw [inst, getD_append_singleton]
  split
  · rfl
  next hne =>
    rcases List.mem_append.mp hlive with hlive | hlive
    · exact htidy i hlive
    · exact absurd (List.mem_singleton.mp hlive) hne

theorem evolves_newController (engine : Engine) (node : NodeId) (useFirstChild : Bool) :
    Evolves occasion engine (engine.newController node useFirstChild).1 :=
  Calm.evolves ⟨rfl, rfl, fun _ => rfl, rfl, rfl⟩

theorem evolves_addNode (engine : Engine) (node : NodeId) (key : String) :
    Evolves occasion engine (engine.addNode node key).1 :=
  addNode_ind (P := fun after => Evolves occasion engine after.1)
    (fun _ _ _ => evolves_connect ..)
    ((evolves_newController engine node false).trans (evolves_connect ..))

theorem evolves_removeKey (engine : Engine) (key : String) :
    Evolves occasion engine (engine.removeKey key).1 :=
  removeKey_ind (.refl _) fun c _ => (releases_disconnect engine c true).evolves

/-! ### Destroying -/

theorem evolves_destroyInstance (engine : Engine) (i : InstanceId) :
    Evolves occasion engine (engine.destroyInstance i) := by
  simp only [destroyInstance]
  split
  · exact .refl _
  next hstanding =>
    refine ⟨fun htidy => ?_⟩
    have hcondemn : Step occasion engine _ := .condemn engine i
    have hothers (j : InstanceId) (hne : j ≠ i) :
        (engine.modifyInstance i Instance.condemned).inst j = engine.inst j := by
      rw [inst_modifyInstance_eq, if_neg fun hand => hne hand.1.symm]
    have hkept : (engine.modifyInstance i Instance.condemned).live = engine.live ∧
        (engine.modifyInstance i Instance.condemned).host = engine.host := ⟨rfl, rfl⟩
    generalize engine.modifyInstance i Instance.condemned = condemned at *
    have hreleases : Releases condemned ((engine.inst i).controllers.values.foldl
        (fun engine c => engine.disconnect c false)
        (condemned.unsubscribeAll (engine.inst i).listeners)) :=
      List.foldlRecOn _ _ (Calm.of_quiet (quiet_unsubscribeAll ..)).steps fun state hstate c _ =>
        hstate.trans (releases_disconnect ..)
    obtain ⟨hdom, hlive, hinstances⟩ := hreleases.frame
    generalize ((engine.inst i).controllers.values.foldl
      (fun engine c => engine.disconnect c false)
      (condemned.unsubscribeAll (engine.inst i).listeners)) = released at *
    refine ⟨(Relation.ReflTransGen.head hcondemn hreleases.steps).tail (.retire released i), ?_, ?_⟩
    · intro j hmem
      obtain ⟨hmem, hne⟩ := List.mem_filter.mp hmem
      have hne : j ≠ i := of_decide_eq_true hne
      change ((released.modifyInstance i fun inst => { inst with memo := [] }).inst j).destroyed = _
      rw [inst_modifyInstance_eq, if_neg fun hand => hne hand.1.symm, destroyed_eq hinstances,
        hothers j hne]
      exact htidy j (hkept.1 ▸ hlive ▸ hmem)
    · exact hdom.trans (congrArg Host.dom hkept.2)

theorem evolves_destroy (engine : Engine) : Evolves occasion engine engine.destroy := by
  simp only [destroy]
  have hended : Evolves occasion engine (engine.live.foldl destroyInstance engine) :=
    Evolves.foldl _ _ (fun state i _ => evolves_destroyInstance state i) engine
  refine hended.trans ?_
  generalize engine.live.foldl destroyInstance engine = ended
  have hforget : Calm ended { ended with registry := .empty } :=
    ⟨rfl, rfl, fun _ => rfl, rfl, rfl⟩
  exact hforget.evolves.trans
    (Evolves.foldl _ _ (fun state c _ => (releases_disconnect state c false).evolves) _)

/-! ### Changes of the host -/

theorem evolves_setQuery (engine : Engine) (query : Query) (isMatch : Bool) :
    Evolves occasion engine (engine.setQuery query isMatch).1 :=
  setQuery_ind (.refl engine) (Calm.evolves ⟨rfl, rfl, fun _ => rfl, rfl, rfl⟩)
    fun state _ c _ hstate => hstate.trans (evolves_update state c)

theorem evolves_addListItems {c : ControllerId} {key container : String} {added : List NodeId}
    (hconnected : (engine.controller c).connected = true)
    (hkeyed : (engine.controller c).key = some key)
    (hreports : ∃ itemSelector, occasion.reports itemSelector ⟨c, container, added⟩) :
    Evolves occasion engine (engine.addListItems c key container added) := by
  refine ⟨fun htidy => ?_⟩
  have hfold := steps_foldl (fun engine i =>
      (Pass.mk i (some ⟨c, container, added⟩)).resolveIncoming
        ((Pass.mk i (some ⟨c, container, added⟩)).resolveOutgoing engine c key) c key)
    (engine.instancesFor key) fun state i hmem hscene => by
      have hentitled : Entitled occasion state.scene ⟨i, some ⟨c, container, added⟩⟩ c key :=
        hscene ▸ entitled_of_mem_instancesFor htidy hconnected hkeyed hmem fun scope hscope =>
          Option.some.inj hscope ▸ ⟨hreports, rfl⟩
      have hout := (Pass.mk i (some ⟨c, container, added⟩)).resolveOutgoing_spec state c key
      have hin := (Pass.mk i (some ⟨c, container, added⟩)).resolveIncoming_spec
        ((Pass.mk i (some ⟨c, container, added⟩)).resolveOutgoing state c key) c key
      exact ⟨.head (.source _ c key hentitled hout) (.single (.target _ c key
        (hout.scene ▸ hentitled) hin)), hin.scene.trans hout.scene⟩
  exact (evolves_of_scene_eq hfold.2 hfold.1).evolution htidy

theorem scene_teardown (engine : Engine) (nodes : List NodeId) :
    (engine.teardown nodes).scene = engine.scene := by
  rw [teardown]
  exact List.foldlRecOn (motive := fun (state : Engine) => state.scene = engine.scene) _ _ rfl
    fun state h event _ => h

theorem face_controller_eq (h : after.scene = before.scene) (c : ControllerId) :
    (after.controller c).face = (before.controller c).face := by
  rw [← scene_controller, ← scene_controller, h]

/-- An observer that is connected tears the removed nodes down, and then wires those of the added
nodes that are its items. Everyone else ignores what is reported. -/
theorem onChildList_ind {P : Engine → Prop} {observation : Observation}
    {added removed : List NodeId}
    (hignored : ¬(engine.running = true ∧ (engine.controller observation.owner).connected = true ∧
      (engine.controller observation.owner).key.isSome = true) → P engine)
    (hforgot : (engine.controller observation.owner).connected = true →
      P ((engine.teardown removed).modifyController observation.owner (·.forgetItems removed)))
    (hadded : ∀ released key, released.scene = engine.scene →
      (released.controller observation.owner).connected = true →
      (released.controller observation.owner).key = some key → P released →
      P (released.addListItems observation.owner key observation.containerSelector
        (added.filter fun node => observation.itemSelector.all fun selector =>
          engine.host.dom.matchesSelector node selector))) :
    P (onChildList observation added removed engine) := by
  simp only [onChildList]
  split
  next key hattends hkeyed =>
    obtain ⟨-, hconnected⟩ := Bool.and_eq_true_iff.mp hattends
    have hscene : ((engine.teardown removed).modifyController observation.owner
        (·.forgetItems removed)).scene = engine.scene := by
      refine (scene_modifyController fun controller => ?_).trans (scene_teardown engine removed)
      rfl
    have hreleased := hforgot hconnected
    generalize (engine.teardown removed).modifyController observation.owner
      (·.forgetItems removed) = released at hscene hreleased ⊢
    have hface := face_controller_eq hscene observation.owner
    have hdom : released.host.dom = engine.host.dom := congrArg Scene.dom hscene
    split
    · exact hreleased
    · rw [hdom]
      exact hadded released key hscene
        ((congrArg Controller.Face.connected hface).trans hconnected)
        ((congrArg Controller.Face.key hface).trans hkeyed) hreleased
  next hoff =>
    refine hignored fun ⟨hrunning, hconnected, hkeyed⟩ => ?_
    obtain ⟨key, hkey⟩ := Option.isSome_iff_exists.mp hkeyed
    exact hoff key (by rw [hrunning, hconnected]; rfl) hkey

theorem evolves_onChildList {observation : Observation} (added removed : List NodeId)
    (engine : Engine) (hreports : occasion.reports observation.itemSelector ⟨observation.owner,
      observation.containerSelector, added.filter fun node =>
        observation.itemSelector.all fun selector =>
          engine.host.dom.matchesSelector node selector⟩) :
    Evolves occasion engine (onChildList observation added removed engine) := by
  refine onChildList_ind (fun _ => .refl engine) (fun _ => ?_)
    fun released key _ hconnected hkeyed hreleased =>
      hreleased.trans (evolves_addListItems hconnected hkeyed ⟨_, hreports⟩)
  have hreleases : Releases engine ((engine.teardown removed).modifyController observation.owner
      (·.forgetItems removed)) :=
    (releases_teardown engine removed).trans (calm_modifyController ..).steps
  exact hreleases.evolves

theorem evolves_childListChanged (engine : Engine) (container : NodeId)
    (added removed : List NodeId) :
    Evolves (engine.occasion (.childListChanged container added removed)) engine
      (engine.childListChanged container added removed).1 := by
  refine ⟨fun htidy => ?_⟩
  refine List.foldlRecOn (motive := Evolution (engine.occasion _) engine) _ _ ⟨.refl, htidy, rfl⟩
    fun state hstate entry hentry => ?_
  obtain ⟨hmem, hcontainer⟩ := List.mem_filter.mp hentry
  have hreports : (engine.occasion (.childListChanged container added removed)).reports
      entry.2.itemSelector ⟨entry.2.owner, entry.2.containerSelector, added.filter fun node =>
        entry.2.itemSelector.all fun selector => state.host.dom.matchesSelector node selector⟩ :=
    ⟨entry.1, entry.2, hmem, of_decide_eq_true hcontainer, rfl, rfl, rfl, by rw [hstate.dom]⟩
  obtain ⟨hsteps, htidy', hdom⟩ :=
    (evolves_onChildList added removed state hreports).evolution hstate.tidy
  exact ⟨hstate.steps.trans hsteps, htidy', hdom.trans hstate.dom⟩

/-! ### Operations -/

/-- Tells the host of a list, which a controller holds for a node from now on. -/
def writeActive (engine : Engine) (c : ControllerId) (node : NodeId) (active : List String) :
    Engine :=
  (engine.tell (.effectState node active)).modifyController c (Controller.setActive · node active)

/-- A toggle does nothing, or it changes the list of its node. -/
theorem toggleEffect_cases (engine : Engine) (c : ControllerId) (effectId : String)
    (action : EffectStateAction) (item : Option NodeId) :
    engine.toggleEffect c effectId action item = (engine, false) ∨
      ∃ node active, engine.running = true ∧ item.or (engine.anchor c) = some node ∧
        action.apply? effectId ((engine.controller c).activeOn node) = some active ∧
        engine.toggleEffect c effectId action item =
          (engine.writeActive c node active, true) := by
  rw [toggleEffect]
  split
  · exact .inl rfl
  next hrunning =>
    split
    · exact .inl rfl
    next node hnode =>
      split
      · exact .inl rfl
      next active hactive =>
        exact .inr ⟨node, active, by simpa using hrunning, hnode, hactive, rfl⟩

theorem evolves_toggleEffect (engine : Engine) (c : ControllerId) (effectId : String)
    (action : EffectStateAction) (item : Option NodeId) :
    Evolves occasion engine (engine.toggleEffect c effectId action item).1 := by
  rcases engine.toggleEffect_cases c effectId action item with
    heq | ⟨node, active, -, -, -, heq⟩ <;> rw [heq]
  · exact .refl _
  · exact (Releases.evolves (.single (.effectState ..))).trans (calm_modifyController ..).evolves

theorem evolves_renderStyle (engine : Engine) (c : ControllerId) (rules : List String) :
    Evolves occasion engine (engine.renderStyle c rules).1 := by
  refine renderStyle_ind (.refl engine) ?_
    (fun state sheet hstate => hstate.trans (Releases.evolves (.single (.removeSheet state sheet))))
    fun _ _ hstate => hstate.trans (calm_modifyController ..).evolves
  exact (Releases.evolves (.single (.insertSheet engine engine.host.nextSheet rules))).trans
    (Calm.evolves ⟨rfl, rfl, fun _ => rfl, rfl, rfl⟩)

/-- Every operation of a tidy engine is a sequence of steps. -/
theorem perform_steps {engine : Engine} (htidy : engine.Tidy) (operation : Operation) :
    Steps (engine.occasion operation) engine (engine.perform operation).1 ∧
      (engine.perform operation).1.Tidy := by
  have hevolved {after : Engine} (h : Evolves (engine.occasion operation) engine after) :
      Steps (engine.occasion operation) engine after ∧ after.Tidy :=
    ⟨(h.evolution htidy).steps, (h.evolution htidy).tidy⟩
  have hrunning {result : Engine × Answer}
      (h : Evolves (engine.occasion operation) engine result.1) :
      Steps (engine.occasion operation) engine (engine.whenRunning result).1 ∧
        (engine.whenRunning result).1.Tidy :=
    hevolved (whenRunning_ind (.refl _) fun _ => h)
  cases operation with
  | readDocument dom => exact ⟨.single (.read engine dom rfl), htidy⟩
  | answerWith handler => exact hevolved (Calm.evolves ⟨rfl, rfl, fun _ => rfl, rfl, rfl⟩)
  | setQuery query isMatch => exact hevolved (evolves_setQuery ..)
  | childListChanged container added removed => exact hevolved (evolves_childListChanged ..)
  | stop => exact hevolved (Calm.evolves ⟨rfl, rfl, fun _ => rfl, rfl, rfl⟩)
  | connect c key => exact hevolved (evolves_connect ..)
  | disconnect c evict => exact hevolved (releases_disconnect ..).evolves
  | update c => exact hevolved (evolves_update ..)
  | toggle c effectId action item => exact hevolved (evolves_toggleEffect ..)
  | watch c container item =>
    rw [perform]
    split
    · exact hevolved (Calm.of_quiet (quiet_watchChildList ..)).evolves
    · exact hevolved (.refl _)
  | style c rules => exact hevolved (evolves_renderStyle ..)
  | destroyInstance i => exact hevolved (evolves_destroyInstance ..)
  | markApplied i id =>
    exact hevolved (evolves_of_scene_eq (scene_markApplied i id)
      (.single (.mark engine i id ⟨rfl, rfl⟩)))
  | clearKey i key => exact hevolved (Releases.evolves (.single (.forget ..)))
  | unlistenKey i key => exact hevolved (Calm.of_quiet (quiet_unlistenKey ..)).evolves
  | listen i id source target query =>
    exact hevolved (Calm.of_quiet (quiet_listen ..)).evolves
  | setController i key c => exact hevolved (Calm.of_quiet (quiet_setController ..)).evolves
  | deleteController i key => exact hevolved (Calm.of_quiet (quiet_deleteController ..)).evolves
  | releaseController i key c => exact hevolved (Calm.of_quiet (quiet_releaseController ..)).evolves
  | create config => exact hrunning (evolves_create ..)
  | addNode node key => exact hrunning (evolves_addNode ..)
  | newController node useFirstChild => exact hrunning (evolves_newController ..)
  | removeKey key => exact hrunning (evolves_removeKey ..)
  | destroy => exact hrunning (evolves_destroy ..)
  | register key c => exact hrunning (Calm.evolves ⟨rfl, rfl, fun _ => rfl, rfl, rfl⟩)
  | unregister key c => exact hrunning (calm_unregister ..).evolves
  | active | ownedNodes | anchor | usesFirstChild | isApplied | interactionIds | controllerCount =>
    exact hevolved (.refl _)
  | instances | instancesFor | instanceFor | controllerFor | reducedMotion | mediaMatches
  | connectedFor | isRegistered => exact hrunning (.refl _)

end InteractionBinding.Engine
