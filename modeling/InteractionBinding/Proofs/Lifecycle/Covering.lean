import InteractionBinding.Proofs.Lifecycle.Proceeding
/-!
# Runs that tear down what they wired

An engine that is in order stays so under every operation that reads no other document, does not
stop the engine, and leaves everyone filed (`Engine.Steady`). So in a run of such operations every
node that is handed on behalf of a controller is torn down by its next disconnection
(`Engine.run_covered`). An operation that takes a connected controller from the table of an instance
by hand does not leave it filed: the nodes of the controller outlive the end of the instance.
-/

namespace InteractionBinding.Engine

variable {engine before after : Engine} {c : ControllerId} {i : InstanceId} {key : String}

/-! ### Ending instances -/

/-- The engine in which an instance is ending, before its controllers are disconnected. -/
def condemning (engine : Engine) (i : InstanceId) : Engine :=
  (engine.modifyInstance i Instance.condemned).unsubscribeAll (engine.inst i).listeners

/-- The engine in which an instance has ended, after its controllers have been disconnected. -/
def retiring (engine : Engine) (i : InstanceId) : Engine :=
  { engine.modifyInstance i fun inst => { inst with memo := [] } with
    live := engine.live.filter fun other => other ≠ i }

theorem destroyInstance_of_standing (h : (engine.inst i).destroyed = false) :
    engine.destroyInstance i = ((engine.inst i).controllers.values.foldl
      (fun engine c => engine.disconnect c false) (engine.condemning i)).retiring i := by
  simp only [destroyInstance, h, Bool.false_eq_true, if_false]
  rfl

theorem dom_condemning : (engine.condemning i).host.dom = engine.host.dom :=
  (Calm.of_quiet (quiet_unsubscribeAll ..)).dom

theorem handlers_condemning : (engine.condemning i).host.handlers = engine.host.handlers :=
  congrArg Scene.handlers (quiet_unsubscribeAll ..).scene

theorem graph_condemning (j : InstanceId) :
    ((engine.condemning i).inst j).graph = (engine.inst j).graph :=
  graph_modifyInstance i j Instance.condemned fun _ => rfl

theorem graph_retiring (j : InstanceId) :
    ((engine.retiring i).inst j).graph = (engine.inst j).graph :=
  graph_modifyInstance i j (fun inst => { inst with memo := [] }) fun _ => rfl

/-- An instance comes to its end: it is live no more, and whoever is still connected was not filed in
it. -/
structure Retires (i : InstanceId) (before after : Engine) : Prop where
  registry : after.registry = before.registry
  live : after.live = before.live.filter fun j => j ≠ i
  graph (j : InstanceId) : (after.inst j).graph = (before.inst j).graph
  table (j : InstanceId) : j ≠ i → (after.inst j).controllers = (before.inst j).controllers
  key (c : ControllerId) : (after.scene.controller c).key = (before.scene.controller c).key
  left (c : ControllerId) : (after.scene.controller c).connected = true →
    after.scene.controller c = before.scene.controller c ∧
      ∀ name, (before.scene.controller c).key = some name → i ∉ before.instancesFor name

/-- The end of an instance disconnects everyone who is filed in it. -/
theorem retires_retiring (h : engine.Filed) (hsoftens : Softens (engine.inst i).controllers.values
    (engine.condemning i) after) : Retires i engine (after.retiring i) where
  registry := hsoftens.registry
  live := congrArg (List.filter fun j => decide (j ≠ i)) hsoftens.live
  graph j := (graph_retiring j).trans
    ((graph_eq_of_instances hsoftens.instances j).trans (graph_condemning j))
  table j hne := by
    have hothers (state : Engine) (f : Instance → Instance) :
        (state.modifyInstance i f).inst j = state.inst j := by
      rw [inst_modifyInstance_eq, if_neg fun hand => hne hand.1.symm]
    exact (congrArg Instance.controllers (hothers after _)).trans
      ((hsoftens.table j).trans (congrArg Instance.controllers (hothers engine _)))
  key c := hsoftens.key_eq
  left c hc := by
    have hsame : after.scene.controller c = engine.scene.controller c := hsoftens.controller_eq hc
    refine ⟨hsame, fun name hname hi => (hsoftens.connected_iff.mp hc).2
      (KeyMap.mem_values_iff.mpr ⟨name, h.lists c i name ?_ ?_ hi⟩)⟩
    · have hconnected := (congrArg Controller.Face.connected hsame).symm.trans hc
      rwa [scene_controller] at hconnected
    · rwa [scene_controller] at hname

/-- Everyone who is still connected when an instance has ended is filed as before. -/
theorem Filed.retires (h : before.Filed) (hretires : Retires i before after) : after.Filed := by
  refine ⟨⟨fun c hc => ?_, fun name c hregistered => ?_⟩, fun c j name hc hname hj => ?_⟩
  · obtain ⟨hsame, -⟩ := hretires.left c hc
    rw [hsame] at hc ⊢
    obtain ⟨name, hname, hregistered⟩ := h.enrolled.connected c hc
    exact ⟨name, hname, (congrArg (KeyMap.get? · name) hretires.registry).trans hregistered⟩
  · refine (hretires.key c).trans (h.enrolled.registered name c ?_)
    exact (congrArg (KeyMap.get? · name) hretires.registry).symm.trans hregistered
  · obtain ⟨hmem, hknows⟩ := List.mem_filter.mp hj
    rw [hretires.live] at hmem
    obtain ⟨hmem, hne⟩ := List.mem_filter.mp hmem
    obtain ⟨hsame, -⟩ := hretires.left c (by rw [scene_controller]; exact hc)
    rw [scene_controller, scene_controller] at hsame
    rw [hretires.table j (of_decide_eq_true hne)]
    refine h.lists c j name ((congrArg Controller.Face.connected hsame).symm.trans hc)
      ((congrArg Controller.Face.key hsame).symm.trans hname) (List.mem_filter.mpr ⟨hmem, ?_⟩)
    rwa [hretires.graph] at hknows

/-- The end of an instance disconnects everyone whose nodes it records, so nobody loses a node. -/
theorem proceeds_destroyInstance (engine : Engine) (i : InstanceId) :
    Proceeds engine (engine.destroyInstance i) := by
  cases hdestroyed : (engine.inst i).destroyed with
  | true =>
    rw [destroyInstance, hdestroyed]
    exact .refl engine
  | false =>
    refine ⟨fun h => ?_⟩
    have hevolves : Evolves .none engine (engine.destroyInstance i) := evolves_destroyInstance ..
    have htidy := (hevolves.evolution (tidy_of_fit h.fit)).tidy
    rw [destroyInstance_of_standing hdestroyed] at htidy ⊢
    have hsoftens := softens_foldl_disconnect (engine.inst i).controllers.values
      (engine.condemning i)
    have hleaves := turns_foldl_disconnect (engine.condemning i) h.fit.running
      (engine.inst i).controllers.values
    generalize (engine.inst i).controllers.values.foldl
      (fun engine c => engine.disconnect c false) (engine.condemning i) = released at *
    have hretires := retires_retiring h.filed hsoftens
    have hdom : released.host.dom = engine.host.dom := hsoftens.dom.trans dom_condemning
    have hfit : (released.retiring i).scene.Fit :=
      fit_of_frame h.fit hsoftens.running hdom htidy hretires.graph
    have hcondemns : Turns engine (engine.condemning i) := by
      refine turn_of_frame (fun j => ?_) h.fit.nested dom_condemning handlers_condemning
        (fun d _ => ⟨rfl, fun j hj _ _ => ⟨hj, graph_condemning j⟩⟩) (.silent rfl)
      rw [← graph_inst_eq, graph_condemning, graph_inst_eq]
      exact h.fit.compiled j
    have hretire : Turns released (released.retiring i) := by
      refine turn_of_frame hfit.compiled hfit.nested rfl rfl
        (fun d hd => ⟨rfl, fun j hj graphKey hstands => ⟨?_, graph_retiring j⟩⟩) (.silent rfl)
      refine List.mem_filter.mpr ⟨hj, decide_eq_true fun hji => ?_⟩
      -- who stands under a key of the instance would have been filed in it
      obtain ⟨hsame, hunfiled⟩ := hretires.left d hd
      obtain ⟨name, hname, hresolve⟩ := hstands
      have hlive : released.live = engine.live := hsoftens.live
      refine hunfiled name ((congrArg Controller.Face.key hsame).symm.trans hname)
        (List.mem_filter.mpr ⟨hji ▸ hlive ▸ hj, ?_⟩)
      rw [← hretires.graph, graph_retiring, Graph.knows, graph_inst_eq, ← hji, hresolve]
      rfl
    exact ⟨hcondemns.trans (hleaves.trans hretire), hfit, h.filed.retires hretires⟩

/-- The engine in which every registered controller is disconnected and forgotten. -/
def forgetting (engine : Engine) : Engine :=
  engine.registry.values.foldl (fun engine c => engine.disconnect c false)
    { engine with registry := .empty }

theorem destroy_eq (engine : Engine) :
    engine.destroy = (engine.live.foldl destroyInstance engine).forgetting := rfl

theorem proceeds_forgetting (engine : Engine) : Proceeds engine engine.forgetting := by
  refine ⟨fun h => ?_⟩
  have hsoftens := softens_foldl_disconnect engine.registry.values
    { engine with registry := .empty }
  have hleaves := turns_foldl_disconnect { engine with registry := .empty } h.fit.running
    engine.registry.values
  change Softens _ _ engine.forgetting at hsoftens
  have hforgot : Turns engine { engine with registry := .empty } :=
    turn_of_frame h.fit.compiled h.fit.nested rfl rfl (fun d _ => ⟨rfl, fun j hj _ _ => ⟨hj, rfl⟩⟩)
      (.silent rfl)
  have hnobody (d : ControllerId) :
      (engine.forgetting.scene.controller d).connected ≠ true := fun hd => by
    obtain ⟨hconnected, hunregistered⟩ := hsoftens.connected_iff.mp hd
    obtain ⟨name, -, hregistered⟩ := h.filed.enrolled.connected d hconnected
    exact hunregistered (KeyMap.mem_values_iff.mpr ⟨name, hregistered⟩)
  refine ⟨hforgot.trans hleaves,
    fit_of_instances h.fit hsoftens.running hsoftens.dom hsoftens.live hsoftens.instances,
    ⟨fun d hd => absurd hd (hnobody d), fun name d hregistered => ?_⟩, fun d j name hd => ?_⟩
  · rw [show engine.forgetting.scene.registry = KeyMap.empty from hsoftens.registry] at hregistered
    cases hregistered
  · refine absurd ?_ (hnobody d)
    rw [scene_controller]
    exact hd

theorem proceeds_destroy (engine : Engine) : Proceeds engine engine.destroy :=
  (Proceeds.foldl _ _ (fun state i _ => proceeds_destroyInstance state i) engine).trans
    (proceeds_forgetting _)

/-! ### Changes of the host -/

/-- A calm change of an engine that leaves everyone filed. -/
theorem proceeds_of_calm (hcalm : Calm before after) (hrunning : after.running = before.running)
    (hhandlers : after.host.handlers = before.host.handlers)
    (hcontrollers : after.scene.controllers = before.scene.controllers)
    (hfiled : before.Ready → after.Filed) : Proceeds before after := by
  refine ⟨fun h => ?_⟩
  have hfit := fit_of_instances h.fit hrunning hcalm.dom hcalm.live hcalm.instances
  refine ⟨turn_of_frame hfit.compiled h.fit.nested hcalm.dom hhandlers (fun c _ => ⟨?_,
    fun i hi _ _ => ⟨hcalm.live ▸ hi, graph_eq_of_instances hcalm.instances i⟩⟩)
    (.silent hcalm.log), hfit, hfiled h⟩
  rw [Scene.controller, Scene.controller, hcontrollers]

theorem proceeds_of_quiet (hquiet : Quiet before after) (hfiled : after.Filed) :
    Proceeds before after :=
  proceeds_of_calm (.of_quiet hquiet) (congrArg Scene.running hquiet.scene)
    (congrArg Scene.handlers hquiet.scene) (congrArg Scene.controllers hquiet.scene) fun _ => hfiled

/-- What others go by is not changed by what the host answers. -/
theorem Filed.of_host (h : engine.Filed) (host : Host) :
    ({ engine with host := host } : Engine).Filed :=
  ⟨⟨h.enrolled.connected, h.enrolled.registered⟩, h.lists⟩

theorem proceeds_setQuery (engine : Engine) (query : Query) (isMatch : Bool) :
    Proceeds engine (engine.setQuery query isMatch).1 := by
  refine setQuery_ind (.refl engine) ?_ fun state key c hconnected hstate =>
    hstate.trans ⟨fun h => ?_⟩
  · exact proceeds_of_calm ⟨rfl, rfl, fun _ => rfl, rfl, rfl⟩ rfl rfl rfl fun h =>
      h.filed.of_host _
  · exact (proceeds_update state c (exclusive_update h.filed.enrolled
      (Option.filter_eq_some_iff.mp hconnected).2)).proceed h

theorem ReportsItems.mono {scene : Scene} {container : String} {nodes more : List NodeId}
    (h : ReportsItems scene ⟨c, container, more⟩) (hsubset : nodes ⊆ more) :
    ReportsItems scene ⟨c, container, nodes⟩ := by
  intro i hi graphKey node hnode interaction hinteraction
  obtain ⟨hsource, htarget⟩ := h i hi graphKey node hnode interaction hinteraction
  exact ⟨fun hstands hlist item hitem => hsource hstands hlist item (hsubset hitem),
    fun effect heffect hstands hlist item hitem =>
      htarget effect heffect hstands hlist item (hsubset hitem)⟩

theorem attributes_teardown (engine : Engine) (nodes : List NodeId) :
    Tells (Attributes engine.scene) engine (engine.teardown nodes) := by
  refine ⟨_, log_teardown engine nodes, fun entry hentry => ?_⟩
  obtain ⟨event, hevent, rfl⟩ := List.mem_map.mp hentry
  obtain ⟨handler, -, hevent⟩ := List.mem_flatMap.mp hevent
  obtain ⟨node, -, rfl⟩ := List.mem_map.mp hevent
  exact ⟨rfl, fun _ h => absurd h List.not_mem_nil⟩

theorem proceeds_onChildList {observation : Observation} {added : List NodeId}
    (removed : List NodeId) (engine : Engine) (hreports : ReportsItems engine.scene
      ⟨observation.owner, observation.containerSelector, added⟩) :
    Proceeds engine (onChildList observation added removed engine) ∧
      (onChildList observation added removed engine).scene = engine.scene := by
  refine onChildList_ind (P := fun after => Proceeds engine after ∧ after.scene = engine.scene)
    (fun _ => ⟨.refl engine, rfl⟩) (fun _ => ?_) ?_
  · have hscene : ((engine.teardown removed).modifyController observation.owner
        (·.forgetItems removed)).scene = engine.scene :=
      Eq.trans (scene_modifyController fun _ => by rfl) (scene_teardown engine removed)
    have htable (i : InstanceId) : (((engine.teardown removed).modifyController observation.owner
        (·.forgetItems removed)).inst i).controllers = (engine.inst i).controllers := by
      rw [teardown, foldl_tell]
      rfl
    exact ⟨proceeds_of_scene_eq hscene htable fun _ =>
      (attributes_teardown engine removed).trans (.silent rfl), hscene⟩
  · rintro released key hscene hconnected hkeyed ⟨hproceeds, -⟩
    have hmoves := moves_addListItems hconnected key observation.containerSelector
      (added.filter fun node => observation.itemSelector.all fun selector =>
        engine.host.dom.matchesSelector node selector)
    refine ⟨hproceeds.trans (proceeds_of_scene_eq hmoves.scene hmoves.table fun h => ?_),
      hmoves.scene.trans hscene⟩
    refine attributes_addListItems (faithful_of_enrolled h.fit h.filed.enrolled)
      (tidy_of_fit h.fit) hconnected hkeyed ?_
    rw [hscene]
    exact hreports.mono (List.filter_subset_self _)

theorem proceeds_childListChanged {container : NodeId} {added : List NodeId}
    (hreports : ∀ entry ∈ engine.host.observations.entries, entry.2.container = container →
      ReportsItems engine.scene ⟨entry.2.owner, entry.2.containerSelector, added⟩)
    (removed : List NodeId) :
    Proceeds engine (engine.childListChanged container added removed).1 := by
  refine (List.foldlRecOn (motive := fun state => Proceeds engine state ∧
    state.scene = engine.scene) _ _ ⟨.refl engine, rfl⟩ fun state hstate entry hentry => ?_).1
  obtain ⟨hmem, hcontainer⟩ := List.mem_filter.mp hentry
  obtain ⟨hproceeds, hscene⟩ := proceeds_onChildList removed state
    (hstate.2 ▸ hreports entry hmem (of_decide_eq_true hcontainer))
  exact ⟨hstate.1.trans hproceeds, hscene.trans hstate.2⟩

/-! ### Effect states and stylesheets -/

theorem proceeds_toggleEffect (engine : Engine) (c : ControllerId) (effectId : String)
    (action : EffectStateAction) (item : Option NodeId) :
    Proceeds engine (engine.toggleEffect c effectId action item).1 := by
  rcases engine.toggleEffect_cases c effectId action item with
    heq | ⟨node, active, -, -, -, heq⟩ <;> rw [heq]
  · exact .refl engine
  · exact proceeds_of_scene_eq (scene_modifyController fun _ => rfl) (fun _ => rfl) fun _ =>
      .single rfl ⟨rfl, fun _ h => absurd h List.not_mem_nil⟩

theorem proceeds_removeSheet (engine : Engine) (sheet : SheetId) :
    Proceeds engine (engine.removeSheet sheet) :=
  proceeds_of_scene_eq rfl (fun _ => rfl) fun _ =>
    .single rfl ⟨rfl, fun _ h => absurd h List.not_mem_nil⟩

theorem proceeds_renderStyle (engine : Engine) (c : ControllerId) (rules : List String) :
    Proceeds engine (engine.renderStyle c rules).1 := by
  refine renderStyle_ind (.refl engine) ?_
    (fun state sheet hstate => hstate.trans (proceeds_removeSheet state sheet))
    fun state _ hstate => hstate.trans (proceeds_of_scene_eq
      (scene_modifyController fun _ => rfl) (fun _ => rfl) fun _ => .silent rfl)
  exact proceeds_of_scene_eq rfl (fun _ => rfl) fun _ =>
    .single rfl ⟨rfl, fun _ h => absurd h List.not_mem_nil⟩

/-! ### Runs -/

/-- An operation reads no other document, brings in no configuration whose keys have indices, and
reports only items of the lists that it is reported for. It leaves no two controllers connected
under one key. -/
def Ordinary (engine : Engine) (operation : Operation) : Prop :=
  (engine.perform operation).1.scene.Exclusive ∧
    match operation with
    | .readDocument dom => dom = engine.host.dom
    | .create config => config.IsUnindexed
    | .childListChanged container added _ =>
      ∀ entry ∈ engine.host.observations.entries, entry.2.container = container →
        ReportsItems engine.scene ⟨entry.2.owner, entry.2.containerSelector, added⟩
    | _ => True

/-- An ordinary operation does not stop the engine and leaves everyone connected filed. Only
operations that write the registry or the table of an instance directly may do otherwise. -/
def Steady (engine : Engine) (operation : Operation) : Prop :=
  engine.Ordinary operation ∧
    match operation with
    | .stop => False
    | .setController _ _ _ | .deleteController _ _ | .releaseController _ _ _ | .register _ _
    | .unregister _ _ => (engine.perform operation).1.Filed
    | _ => True

/-- An engine that is in order stays so under every steady operation. -/
theorem proceeds_perform {operation : Operation} (h : engine.Steady operation) :
    Proceeds engine (engine.perform operation).1 := by
  refine ⟨fun hready => Proceeds.proceed ?_ hready⟩
  obtain ⟨⟨hexclusive, hbrings⟩, hkeeps⟩ := h
  have hwhen := whenRunning_of_running hready.fit.running
  cases operation with
  | readDocument dom =>
    obtain rfl : dom = engine.host.dom := hbrings
    exact .refl engine
  | answerWith handler =>
    exact proceeds_of_calm ⟨rfl, rfl, fun _ => rfl, rfl, rfl⟩ rfl rfl rfl fun h => h.filed.of_host _
  | setQuery query isMatch => exact proceeds_setQuery ..
  | childListChanged container added removed => exact proceeds_childListChanged hbrings removed
  | stop => exact hkeeps.elim
  | connect c key => exact proceeds_connect engine c key hexclusive
  | disconnect c evict => exact proceeds_disconnect ..
  | update c => exact proceeds_update engine c hexclusive
  | toggle c effectId action item => exact proceeds_toggleEffect ..
  | watch c container item =>
    rw [perform]
    split
    · exact proceeds_of_scene_eq (scene_watchChildList ..) (fun _ => table_watchChildList ..)
        fun _ => .silent (quiet_watchChildList ..).log
    · exact .refl engine
  | style c rules => exact proceeds_renderStyle ..
  | destroyInstance i => exact proceeds_destroyInstance ..
  | markApplied i id =>
    exact proceeds_of_scene_eq (scene_markApplied i id) (table_markApplied i id) fun _ =>
      .silent rfl
  | clearKey i key =>
    exact proceeds_of_scene_eq (scene_forgetKey ..) (table_modifyInstance i fun _ => rfl) fun _ =>
      .single rfl trivial
  | unlistenKey i key =>
    exact proceeds_of_scene_eq (quiet_unlistenKey ..).scene (table_modifyInstance i fun _ => rfl)
      fun _ => .silent (quiet_unlistenKey ..).log
  | listen i id source target query =>
    exact proceeds_of_scene_eq (scene_listen ..) (fun _ => table_listen ..) fun _ =>
      .silent (quiet_listen ..).log
  | setController i key c => exact proceeds_of_quiet (quiet_setController ..) hkeeps
  | deleteController i key => exact proceeds_of_quiet (quiet_deleteController ..) hkeeps
  | releaseController i key c => exact proceeds_of_quiet (quiet_releaseController ..) hkeeps
  | create config =>
    rw [perform, hwhen]
    exact proceeds_create engine hbrings
  | addNode node key =>
    rw [perform, hwhen] at hexclusive ⊢
    exact proceeds_addNode engine node key hexclusive
  | newController node useFirstChild =>
    rw [perform, hwhen]
    exact proceeds_newController ..
  | removeKey key =>
    rw [perform, hwhen]
    exact removeKey_ind (.refl engine) fun c _ => proceeds_disconnect engine c true
  | destroy =>
    rw [perform, hwhen]
    exact proceeds_destroy engine
  | register key c =>
    change (engine.whenRunning _).1.Filed at hkeeps
    rw [perform]
    rw [hwhen] at hkeeps ⊢
    exact proceeds_of_calm ⟨rfl, rfl, fun _ => rfl, rfl, rfl⟩ rfl rfl rfl fun _ => hkeeps
  | unregister key c =>
    change (engine.whenRunning _).1.Filed at hkeeps
    rw [perform]
    rw [hwhen] at hkeeps ⊢
    exact unregister_ind (P := fun after : Engine => after.Filed → Proceeds engine after)
      (fun _ => .refl engine)
      (fun _ hfiled => proceeds_of_calm ⟨rfl, rfl, fun _ => rfl, rfl, rfl⟩ rfl rfl rfl fun _ =>
        hfiled) hkeeps
  | active | ownedNodes | anchor | usesFirstChild | isApplied | interactionIds | controllerCount =>
    exact .refl engine
  | instances | instancesFor | instanceFor | controllerFor | reducedMotion | mediaMatches
  | connectedFor | isRegistered =>
    rw [perform, hwhen]
    exact .refl engine

theorem proceeds_run {operations : List Operation} (h : Follows Steady engine operations) :
    Proceeds engine (engine.run operations) := by
  induction operations generalizing engine with
  | nil => exact .refl engine
  | cons operation rest ih => exact (proceeds_perform h.1).trans (ih h.2)

theorem ready_start {host : Host} (hdom : host.dom.Nested) (options : EngineOptions) :
    (start host options).Ready := by
  have hnobody (c : ControllerId) : ((start host options).controller c).connected ≠ true :=
    Bool.noConfusion
  refine ⟨⟨rfl, hdom, fun i hi => absurd hi List.not_mem_nil, fun i => ⟨.empty, ?_, rfl⟩⟩,
    ⟨fun c hc => absurd hc (hnobody c), fun key c hc => by cases hc⟩,
    fun c i key hc => absurd hc (hnobody c)⟩
  intro key node hnode
  cases hnode

theorem covered_of_follows {host : Host} {options : EngineOptions} {operations : List Operation}
    (hdom : host.dom.Nested) (hsteady : Follows Steady (start host options) operations) :
    ((start host options).run operations).Covered ∧
      ((start host options).run operations).Ready := by
  obtain ⟨hturns, hready⟩ := (proceeds_run hsteady).proceed (ready_start hdom options)
  refine ⟨hturns.covered fun front event scene back hlog => ?_, hready⟩
  exact absurd hlog (List.append_ne_nil_of_right_ne_nil _ (List.cons_ne_nil _ _)).symm

/-- In a run of steady operations over a nested document, every node that is handed to a handler on
behalf of a controller stays with the controller, which is connected and owns it, or has been torn
down by its next disconnection. A disconnection that is still to come tears it down, too. -/
theorem run_covered (host : Host) (options : EngineOptions) (operations : List Operation)
    (hdom : host.dom.Nested) (hsteady : Follows Steady (start host options) operations) :
    let engine := (start host options).run operations
    engine.Covered ∧ ∀ c evict, (engine.controller c).connected = true →
      ∃ rest, (engine.disconnect c evict).log =
        engine.log ++ removals (engine.leaving c evict) (engine.ownedNodes c) ++ rest := by
  intro engine
  obtain ⟨hcovered, hready⟩ := covered_of_follows hdom hsteady
  refine ⟨hcovered, fun c evict hconnected => ?_⟩
  obtain ⟨rest, hlog, -⟩ := tells_disconnect (c := c) hready.fit.running evict
  rw [if_pos hconnected] at hlog
  exact ⟨rest, hlog⟩

/-! ### A button with an icon -/

theorem getElem_of_connected {scene : Scene} (h : (scene.controller c).connected = true) :
    ∃ hlength : c < scene.controllers.length, scene.controllers[c] = scene.controller c := by
  rw [Scene.controller, List.getD_eq_getElem?_getD] at h ⊢
  cases hget : scene.controllers[c]? with
  | none =>
    rw [hget] at h
    cases h
  | some face =>
    obtain ⟨hlength, hface⟩ := List.getElem?_eq_some_iff.mp hget
    exact ⟨hlength, hface⟩

theorem exclusive_of_nodup {scene : Scene}
    (h : ((scene.controllers.filter Controller.Face.connected).map Controller.Face.key).Nodup) :
    scene.Exclusive := by
  rw [List.Nodup, List.pairwise_map, List.pairwise_filter, List.pairwise_iff_getElem] at h
  have hne {c c' : ControllerId} (hless : c < c') (hc : (scene.controller c).connected = true)
      (hc' : (scene.controller c').connected = true) :
      (scene.controller c).key ≠ (scene.controller c').key := by
    obtain ⟨hlength, hface⟩ := getElem_of_connected hc
    obtain ⟨hlength', hface'⟩ := getElem_of_connected hc'
    have hkeys := h c c' hlength hlength' hless
    rw [hface, hface'] at hkeys
    exact hkeys hc hc'
  intro c c' key hc hc' hkey hkey'
  rcases Nat.lt_trichotomy c c' with hless | heq | hless
  · exact absurd (hkey.trans hkey'.symm) (hne hless hc hc')
  · exact heq
  · exact absurd (hkey'.trans hkey.symm) (hne hless hc' hc)

theorem isUnindexed_of_keys {config : Config}
    (h : ∀ key ∈ (Graph.ofConfig config).nodes.keys, KeyTemplate.indices key = []) :
    config.IsUnindexed := fun key node hnode =>
  h key (KeyMap.mem_keys_iff.mpr ⟨node, hnode⟩)

/-- A document in which node 3 is an icon below node 1. -/
def iconDom : Dom where
  queryAll root selector := if root = 1 ∧ selector = ".icon" then [3] else []
  children node := if node = 1 then [3] else []
  matchesSelector node selector := node = 3 && selector = ".icon"
  attributeOf _ _ := none

theorem nested_iconDom : iconDom.Nested := by
  intro root below selector selector' hbelow
  simp only [iconDom] at hbelow ⊢
  split at hbelow
  · obtain rfl := List.mem_singleton.mp hbelow
    simp
  · cases hbelow

/-- The icon of the button opens the panel. -/
def iconConfig : Config :=
  .ofInteractions [((Interaction.ofTrigger "button" .click).withSelector ".icon").withEffect
    ((Effect.byId "open").on "panel")]

def iconEngine : Engine := start { Host.bare with dom := iconDom } .standard

def iconOperations : List Operation :=
  [.create iconConfig, .addNode 2 "panel", .addNode 1 "button"]

theorem steady_iconOperations : Follows Steady iconEngine iconOperations := by
  refine ⟨⟨⟨exclusive_of_nodup ?_, isUnindexed_of_keys ?_⟩, trivial⟩,
    ⟨⟨exclusive_of_nodup ?_, trivial⟩, trivial⟩, ⟨⟨exclusive_of_nodup ?_, trivial⟩, trivial⟩,
    trivial⟩ <;> decide +kernel

/-- The icon is wired on behalf of the button, and torn down when the button is disconnected. -/
theorem run_covered_icon :
    let engine := iconEngine.run iconOperations
    iconDom.Nested ∧ Follows Steady iconEngine iconOperations ∧ engine.Covered ∧
      engine.wires = [⟨3, 2, ⟨"panel", "open", 0⟩⟩] ∧ engine.ownedNodes 1 = [1, 3] ∧
      ∃ rest, (engine.disconnect 1 false).log =
        engine.log ++ removals (engine.leaving 1 false) [1, 3] ++ rest := by
  intro engine
  obtain ⟨hcovered, hleaves⟩ := run_covered _ .standard iconOperations nested_iconDom
    steady_iconOperations
  have howned : engine.ownedNodes 1 = [1, 3] := by decide +kernel
  exact ⟨nested_iconDom, steady_iconOperations, hcovered, by decide +kernel, howned,
    howned ▸ hleaves 1 false (by decide +kernel)⟩

/-- If the button is taken from the table of its instance by hand, and the instance ends, then
nothing is recorded for its key any more. The next disconnection of the button does not tear down the
icon. -/
theorem not_covered_of_unlisted :
    let operations := iconOperations ++
      [.deleteController 0 "button", .destroyInstance 0, .disconnect 1 false]
    let engine := iconEngine.run operations
    iconDom.Nested ∧ Follows Ordinary iconEngine operations ∧ (iconEngine.run iconOperations).Covered ∧
      (engine.controller 1).connected = false ∧ (∀ handler, .remove handler 3 ∉ engine.events) ∧
      ¬engine.Covered := by
  intro operations engine
  have hordinary : Follows Ordinary iconEngine operations := by
    refine ⟨⟨exclusive_of_nodup ?_, isUnindexed_of_keys ?_⟩, ⟨exclusive_of_nodup ?_, trivial⟩,
      ⟨exclusive_of_nodup ?_, trivial⟩, ⟨exclusive_of_nodup ?_, trivial⟩,
      ⟨exclusive_of_nodup ?_, trivial⟩, ⟨exclusive_of_nodup ?_, trivial⟩, trivial⟩ <;> decide +kernel
  have hremoved : ∀ handler, .remove handler 3 ∉ engine.events := by
    -- a wire of node 3 would outlive every event
    let probe : Wire := ⟨3, 3, ⟨"", "", 0⟩⟩
    have hall : (engine.events.all fun event => decide (probe ∈ event.wire [probe])) = true := by
      decide +kernel
    intro handler hmem
    have hkept : probe ∈ Event.wire [probe] (.remove handler 3) :=
      of_decide_eq_true (List.all_eq_true.mp hall _ hmem)
    exact List.not_mem_nil hkept
  refine ⟨nested_iconDom, hordinary, (covered_of_follows nested_iconDom steady_iconOperations).1,
    by decide +kernel, hremoved, fun hcovered => ?_⟩
  obtain ⟨event, hevent, hhanded⟩ : ∃ event ∈ engine.events, 3 ∈ event.handed := by
    have hany : (engine.events.any fun event => decide (3 ∈ event.handed)) = true := by
      decide +kernel
    obtain ⟨event, hevent, hhanded⟩ := List.any_eq_true.mp hany
    exact ⟨event, hevent, of_decide_eq_true hhanded⟩
  obtain ⟨entry, hentry, hevent⟩ := List.mem_filterMap.mp hevent
  cases entry with
  | forgot => cases hevent
  | told told scene =>
    obtain rfl := Option.some.inj hevent
    obtain ⟨front, back, hlog⟩ := List.append_of_mem hentry
    obtain ⟨hhands, hcovered⟩ := hcovered front _ scene back hlog
    obtain ⟨c, hhands⟩ := hhands 3 hhanded
    rcases hcovered c 3 hhands with hstays | htorn
    · obtain ⟨hlength, hface⟩ := getElem_of_connected hstays.connected
      have hnobody : (engine.scene.controllers.all fun face => !face.connected) = true := by
        decide +kernel
      have hoff := List.all_eq_true.mp hnobody _ (hface ▸ List.getElem_mem hlength)
      rw [hstays.connected] at hoff
      cases hoff
    · obtain ⟨handler, hhandler⟩ := Hands.exists_handler hhands
      obtain ⟨later, hmem⟩ := htorn.removes hhandler
      refine hremoved handler (List.mem_filterMap.mpr
        ⟨.told (.remove handler 3) later, ?_, rfl⟩)
      rw [hlog]
      exact List.mem_append_right _ (List.mem_cons_of_mem _ hmem)

end InteractionBinding.Engine
