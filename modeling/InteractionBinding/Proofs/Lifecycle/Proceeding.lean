import InteractionBinding.Proofs.Lifecycle.Turning
/-!
# Operations of an engine that is in order

An engine is in order if it runs, its instances are compiled from configurations whose keys have no
indices, and everyone connected is filed (`Engine.Ready`). Connecting, disconnecting, creating and
destroying keep it in order and come down to turns (`Engine.Proceeds`), as long as no key is
connected by two controllers at a time.
-/

namespace InteractionBinding

namespace Scene

/-- A running engine over a nested document, whose live instances have not been destroyed and are
compiled from configurations whose keys have no indices. -/
structure Fit (scene : Scene) : Prop where
  running : scene.running = true
  nested : scene.dom.Nested
  standing : ∀ i ∈ scene.live, (scene.inst i).destroyed = false
  graphs (i : InstanceId) : ∃ config : Config,
    config.IsUnindexed ∧ (scene.inst i).graph = Graph.ofConfig config

theorem Fit.compiled {scene : Scene} (h : scene.Fit) : scene.Compiled := fun i =>
  (h.graphs i).imp fun _ => And.right

end Scene

namespace Engine

variable {engine before middle after : Engine} {c : ControllerId} {i : InstanceId} {key : String}

/-- An engine is in order. -/
structure Ready (engine : Engine) : Prop where
  fit : engine.scene.Fit
  filed : engine.Filed

theorem faithful_of_enrolled (hfit : engine.scene.Fit) (henrolled : engine.scene.Enrolled) :
    engine.scene.Faithful := ⟨hfit.graphs, henrolled.registered⟩

theorem tidy_of_fit (h : engine.scene.Fit) : engine.Tidy := fun i hi => by
  have hstanding := h.standing i hi
  rwa [scene_inst] at hstanding

theorem fit_of_frame (h : before.scene.Fit) (hrunning : after.running = before.running)
    (hdom : after.host.dom = before.host.dom) (htidy : after.Tidy)
    (hgraphs : ∀ i, (after.inst i).graph = (before.inst i).graph) : after.scene.Fit where
  running := hrunning.trans h.running
  nested := by
    have hnested := h.nested
    rwa [← show after.scene.dom = before.scene.dom from hdom] at hnested
  standing i hi := by
    rw [scene_inst]
    exact htidy i hi
  graphs i := by
    rw [← graph_inst_eq, hgraphs, graph_inst_eq]
    exact h.graphs i

/-- What goes by the scene is in order if the scene is, up to what is filed. -/
theorem fit_of_instances (h : before.scene.Fit) (hrunning : after.running = before.running)
    (hdom : after.host.dom = before.host.dom) (hlive : after.live = before.live)
    (hinstances : after.scene.instances = before.scene.instances) : after.scene.Fit :=
  fit_of_frame h hrunning hdom ((tidy_congr hlive hinstances).mpr (tidy_of_fit h))
    (graph_eq_of_instances hinstances)

/-- A turn in which everyone connected stays as they are, and so do the live instances that know
their keys. -/
theorem turn_of_frame (hcompiled : after.scene.Compiled) (hnested : before.scene.dom.Nested)
    (hdom : after.host.dom = before.host.dom)
    (hhandlers : after.host.handlers = before.host.handlers)
    (hkept : ∀ c, (before.scene.controller c).connected = true →
      after.scene.controller c = before.scene.controller c ∧
        ∀ i ∈ before.live, ∀ graphKey, before.scene.StandsUnder i c graphKey →
          i ∈ after.live ∧ (after.inst i).graph = (before.inst i).graph)
    (htells : Tells (Attributes after.scene) before after) : Turns before after := by
  refine .single (.unfold (fun c hconnected => ?_) hhandlers htells hcompiled ?_)
  · obtain ⟨hcontroller, hlive⟩ := hkept c hconnected
    refine Scene.keeps_of_frame hdom hcontroller fun i hi graphKey hstands => ?_
    obtain ⟨hi', hgraph⟩ := hlive i hi graphKey hstands
    rw [graph_inst_eq, graph_inst_eq] at hgraph
    exact ⟨hi', hgraph⟩
  · rwa [← show after.scene.dom = before.scene.dom from hdom] at hnested

/-- An engine that is in order becomes another one in turns, which is in order, too. -/
structure Proceeds (before after : Engine) : Prop where
  proceed : before.Ready → Turns before after ∧ after.Ready

namespace Proceeds

theorem refl (engine : Engine) : Proceeds engine engine := ⟨fun h => ⟨.refl, h⟩⟩

theorem trans (first : Proceeds before middle) (second : Proceeds middle after) :
    Proceeds before after := by
  refine ⟨fun h => ?_⟩
  obtain ⟨hturns, hready⟩ := first.proceed h
  obtain ⟨hturns', hready'⟩ := second.proceed hready
  exact ⟨hturns.trans hturns', hready'⟩

theorem foldl {α : Type} (f : Engine → α → Engine) (l : List α)
    (h : ∀ state, ∀ a ∈ l, Proceeds state (f state a)) (engine : Engine) :
    Proceeds engine (l.foldl f engine) :=
  List.foldlRecOn (motive := Proceeds engine) l f (.refl engine) fun state hstate a hmem =>
    hstate.trans (h state a hmem)

end Proceeds

/-- What is told apart, an engine stays as it is for others. -/
theorem proceeds_of_scene_eq (hscene : after.scene = before.scene)
    (htable : ∀ i, (after.inst i).controllers = (before.inst i).controllers)
    (htells : before.Ready → Tells (Attributes before.scene) before after) :
    Proceeds before after := by
  refine ⟨fun h => ?_⟩
  refine ⟨turn_of_frame ?_ h.fit.nested (congrArg Scene.dom hscene)
    (congrArg Scene.handlers hscene) (fun c _ => ⟨?_, ?_⟩) ?_,
    ⟨?_, h.filed.congr hscene htable⟩⟩
  · exact hscene ▸ h.fit.compiled
  · rw [hscene]
  · intro i hi _ _
    have hlive : after.live = before.live := congrArg Scene.live hscene
    exact ⟨hlive ▸ hi, graph_eq_of_instances (congrArg Scene.instances hscene) i⟩
  · rw [hscene]
    exact htells h
  · exact hscene ▸ h.fit

/-! ### Disconnecting -/

theorem Filed.disconnect (h : engine.Filed) (c : ControllerId) (evict : Bool) :
    (engine.disconnect c evict).Filed where
  enrolled := by
    refine ⟨fun d hconnected => ?_, fun name d hregistered => ?_⟩
    · rw [face_disconnect] at hconnected ⊢
      split at hconnected
      next => cases hconnected
      next hne =>
        obtain ⟨name, hname, hregistered⟩ := h.enrolled.connected d hconnected
        rw [if_neg hne]
        exact ⟨name, hname, get?_registry_disconnect_iff.mpr
          ⟨hregistered, fun hand => hne hand.2.symm⟩⟩
    · have hkey := h.enrolled.registered name d (get?_registry_disconnect_iff.mp hregistered).1
      rw [face_disconnect]
      split <;> exact hkey
  lists d i name hconnected hname hi := by
    have hface := face_disconnect engine c d evict
    split at hface
    next =>
      rw [scene_controller] at hface
      exact absurd ((congrArg Controller.Face.connected hface).symm.trans hconnected)
        Bool.false_ne_true
    next hne =>
      rw [scene_controller, scene_controller] at hface
      refine get?_table_disconnect_iff.mpr ⟨h.lists d i name ?_ ?_ ?_, fun hand => hne hand.2.2.symm⟩
      · exact (congrArg Controller.Face.connected hface).symm.trans hconnected
      · exact (congrArg Controller.Face.key hface).symm.trans hname
      · rwa [(releases_disconnect engine c evict).instancesFor_eq] at hi

theorem proceeds_disconnect (engine : Engine) (c : ControllerId) (evict : Bool) :
    Proceeds engine (engine.disconnect c evict) := by
  refine ⟨fun h => ?_⟩
  obtain ⟨hdom, hlive, hinstances⟩ := (releases_disconnect engine c evict).frame
  exact ⟨.single (.leave engine c evict h.fit.running),
    fit_of_instances h.fit (running_disconnect ..) hdom hlive hinstances, h.filed.disconnect c evict⟩

theorem turns_foldl_disconnect (engine : Engine) (hrunning : engine.running = true)
    (gone : List ControllerId) :
    Turns engine (gone.foldl (fun engine c => engine.disconnect c false) engine) := by
  induction gone generalizing engine with
  | nil => exact .refl
  | cons c rest ih =>
    exact .head (.leave engine c false hrunning) (ih _ ((running_disconnect ..).trans hrunning))

/-! ### Connecting -/

/-- A connection keeps the key that a controller has. -/
theorem key_eq_of_connectionKey? {requested : Option String} {own : String}
    (hown : (engine.controller c).key = some own)
    (hkey : engine.connectionKey? c requested = some key) : own = key := by
  rw [connectionKey?, hown] at hkey
  exact Option.some.inj hkey

/-- The engine in which a controller is connected and registered under a key, before the key is
resolved. -/
def enrolling (engine : Engine) (c : ControllerId) (key : String) : Engine :=
  ((engine.connecting c key).register key c).1

theorem controller_enrolling (hc : c < engine.controllers.length) (d : ControllerId) :
    (engine.enrolling c key).scene.controller d =
      if c = d then { engine.scene.controller d with key := some key, connected := true }
      else engine.scene.controller d := by
  change (engine.connecting c key).scene.controller d = _
  rw [scene_controller, scene_controller, controller_connecting]
  by_cases hd : c = d
  · rw [if_pos ⟨hd, hd ▸ hc⟩, if_pos hd]
    rfl
  · rw [if_neg fun hand => hd hand.1, if_neg hd]

theorem enrolled_enrolling (h : engine.scene.Enrolled) (hc : c < engine.controllers.length)
    (hown : ∀ own, (engine.controller c).key = some own → own = key)
    (hexclusive : (engine.enrolling c key).scene.Exclusive) :
    (engine.enrolling c key).scene.Enrolled := by
  have hself := @controller_enrolling engine c key hc c
  rw [if_pos rfl] at hself
  have hget (name : String) : (engine.enrolling c key).scene.registry.get? name =
      if name = key then some c else engine.scene.registry.get? name := KeyMap.get?_insert ..
  refine ⟨fun d hconnected => ?_, fun name d hregistered => ?_⟩
  · by_cases hd : c = d
    · subst hd
      rw [hself]
      exact ⟨key, rfl, by rw [hget, if_pos rfl]⟩
    · have hsame := @controller_enrolling engine c key hc d
      rw [if_neg hd] at hsame
      obtain ⟨name, hname, hregistered⟩ := h.connected d (hsame ▸ hconnected)
      have hne : name ≠ key := fun heq => hd (hexclusive c d key (by rw [hself]) hconnected
        (by rw [hself]) (by rw [hsame, hname, heq]))
      exact ⟨name, by rw [hsame, hname], by rw [hget, if_neg hne, hregistered]⟩
  · rw [hget] at hregistered
    split at hregistered
    next heq =>
      obtain rfl := Option.some.inj hregistered
      rw [hself, heq]
    next hne =>
      have hkey := h.registered name d hregistered
      rw [controller_enrolling hc]
      split
      next hd =>
        subst hd
        rw [scene_controller] at hkey
        exact absurd (hown name hkey) hne
      next => exact hkey

/-- Resolving a key lists its controller under it. Under other keys everyone is listed as before. -/
theorem lists_resolve {d : ControllerId} {j : InstanceId}
    (hexclusive : (engine.register key c).1.scene.Exclusive)
    (hconnected : (engine.controller c).connected = true)
    (hkey : (engine.controller c).key = some key)
    (hbefore : ∀ name, name ≠ key → (engine.controller d).connected = true →
      (engine.controller d).key = some name → j ∈ engine.instancesFor name →
        (engine.inst j).controllers.get? name = some d) : (engine.resolve c key).1.Lists d j := by
  have hscene := scene_resolve engine c key
  intro name hd hname hj
  have hface := face_controller_eq hscene d
  have hd' : (engine.controller d).connected = true :=
    (congrArg Controller.Face.connected hface).symm.trans hd
  have hname' : (engine.controller d).key = some name :=
    (congrArg Controller.Face.key hface).symm.trans hname
  have hi : j ∈ engine.instancesFor name := by
    rw [instancesFor_eq, hscene] at hj
    rwa [instancesFor_eq]
  rw [get?_table_resolve hconnected]
  by_cases heq : name = key
  · subst heq
    rw [if_pos ⟨rfl, hi⟩]
    refine congrArg some (hexclusive c d name ?_ ?_ ?_ ?_) <;> rw [scene_controller]
    · exact hconnected
    · exact hd'
    · exact hkey
    · exact hname'
  · rw [if_neg fun hand => heq hand.1]
    exact hbefore name heq hd' hname' hi

/-- A connection is one turn, and files the controller, if nobody else is connected under its
key. -/
theorem proceeds_connect (engine : Engine) (c : ControllerId) (requested : Option String)
    (hexclusive : (engine.connect c requested).1.scene.Exclusive) :
    Proceeds engine (engine.connect c requested).1 := by
  revert hexclusive
  refine connect_ind (P := fun after => after.scene.Exclusive → Proceeds engine after)
    (fun _ => .refl engine) fun key hrunning hc hoff hkey hexclusive => ⟨fun h => ?_⟩
  have hscene : ((engine.connecting c key).resolve c key).1.scene =
      (engine.enrolling c key).scene := scene_resolve ..
  rw [hscene] at hexclusive
  have henrolled := enrolled_enrolling h.filed.enrolled hc
    (fun _ hown => key_eq_of_connectionKey? hown hkey) hexclusive
  have hinstances : (engine.enrolling c key).scene.instances = engine.scene.instances := rfl
  have hlive : (engine.enrolling c key).live = engine.live := rfl
  have hfit : (engine.enrolling c key).scene.Fit := fit_of_instances h.fit rfl rfl hlive hinstances
  have hself := @controller_enrolling engine c key hc c
  rw [if_pos rfl] at hself
  have hface := hself
  rw [scene_controller] at hface
  have hconnected := congrArg Controller.Face.connected hface
  have hkeyed := congrArg Controller.Face.key hface
  refine ⟨turn_of_frame ?_ h.fit.nested ?_ ?_ (fun d hd => ⟨?_, fun j hj _ _ => ?_⟩) ?_,
    hscene ▸ hfit, hscene ▸ henrolled, fun d j name hd hname hj => ?_⟩
  · exact hscene ▸ hfit.compiled
  · exact congrArg Scene.dom hscene
  · exact congrArg Scene.handlers hscene
  · rw [hscene, controller_enrolling hc, if_neg]
    rintro rfl
    rw [scene_controller] at hd
    exact Bool.false_ne_true (hoff.symm.trans hd)
  · have hlive : ((engine.connecting c key).resolve c key).1.live = engine.live :=
      congrArg Scene.live hscene
    exact ⟨hlive ▸ hj, graph_eq_of_instances (congrArg Scene.instances hscene) j⟩
  · rw [hscene]
    exact .trans (.silent rfl) (attributes_resolve rfl (faithful_of_enrolled hfit henrolled)
      (tidy_of_fit hfit) hconnected hkeyed)
  · refine lists_resolve hexclusive hconnected hkeyed (fun name hne hd hname hi => ?_) name hd
      hname hj
    rw [controller_connecting] at hd hname
    split at hname
    · exact absurd (Option.some.inj hname).symm hne
    next hother =>
      rw [if_neg hother] at hd
      exact h.filed.lists d j name hd hname hi

theorem proceeds_update (engine : Engine) (c : ControllerId)
    (hexclusive : (engine.update c).1.scene.Exclusive) : Proceeds engine (engine.update c).1 :=
  (proceeds_disconnect engine c false).trans (proceeds_connect _ c none hexclusive)

/-- A controller that is connected and registered may be updated. -/
theorem exclusive_update (h : engine.scene.Enrolled) (hc : (engine.controller c).connected = true) :
    (engine.update c).1.scene.Exclusive := by
  have hexclusive := h.exclusive
  have hconnected : (engine.scene.controller c).connected = true := by
    rw [scene_controller]
    exact hc
  -- whoever is connected after the update was connected before, under the same key
  suffices hsame : ∀ d, ((engine.update c).1.scene.controller d).connected = true →
      (engine.scene.controller d).connected = true ∧
        (engine.scene.controller d).key = ((engine.update c).1.scene.controller d).key by
    intro d d' name hd hd' hname hname'
    obtain ⟨hold, hkey⟩ := hsame d hd
    obtain ⟨hold', hkey'⟩ := hsame d' hd'
    exact hexclusive d d' name hold hold' (hkey.trans hname) (hkey'.trans hname')
  have hoff (d : ControllerId) := face_disconnect engine c d false
  refine connect_ind (P := fun after => ∀ d, (after.scene.controller d).connected = true →
    (engine.scene.controller d).connected = true ∧
      (engine.scene.controller d).key = (after.scene.controller d).key) ?_ ?_
  · intro d hd
    rw [hoff] at hd ⊢
    split at hd
    next => cases hd
    next hne => exact ⟨hd, by rw [if_neg hne]⟩
  · intro key hrunning hlt _ hkey d hd
    rw [show (((engine.disconnect c false).connecting c key).resolve c key).1.scene =
      ((engine.disconnect c false).enrolling c key).scene from scene_resolve ..] at hd ⊢
    rw [controller_enrolling hlt, hoff] at hd ⊢
    split
    next heq =>
      subst heq
      obtain ⟨own, hown, -⟩ := h.connected c hconnected
      have hown' : ((engine.disconnect c false).controller c).key = some own := by
        have hface := congrArg Controller.Face.key (hoff c)
        rw [if_pos rfl, scene_controller] at hface
        exact hface.trans hown
      exact ⟨hconnected, hown.trans (congrArg some (key_eq_of_connectionKey? hown' hkey))⟩
    next hne =>
      rw [if_neg hne, if_neg hne] at hd
      exact ⟨hd, rfl⟩

/-! ### New controllers and instances -/

theorem controller_newController (engine : Engine) (node : NodeId) (useFirstChild : Bool)
    (d : ControllerId) : (engine.newController node useFirstChild).1.controller d =
      if d = engine.controllers.length then Controller.ofNode node useFirstChild
      else engine.controller d := getD_append_singleton ..

theorem proceeds_newController (engine : Engine) (node : NodeId) (useFirstChild : Bool) :
    Proceeds engine (engine.newController node useFirstChild).1 := by
  refine ⟨fun h => ?_⟩
  have hkept {d : ControllerId}
      (hd : ((engine.newController node useFirstChild).1.scene.controller d).connected = true ∨
        (engine.scene.controller d).connected = true ∨ (engine.scene.controller d).key ≠ none) :
      (engine.newController node useFirstChild).1.scene.controller d =
        engine.scene.controller d := by
    rw [scene_controller, scene_controller, controller_newController] at hd ⊢
    split at hd
    next heq =>
      rw [controller_eq_default (Nat.le_of_eq heq.symm)] at hd
      rcases hd with hd | hd | hd
      · cases hd
      · cases hd
      · exact absurd rfl hd
    next hne => rw [if_neg hne]
  refine ⟨turn_of_frame h.fit.compiled h.fit.nested rfl rfl (fun d hd => ⟨hkept (.inr (.inl hd)),
    fun i hi _ _ => ⟨hi, rfl⟩⟩) (.silent rfl), fit_of_instances h.fit rfl rfl rfl rfl,
    ⟨fun d hd => ?_, fun name d hregistered => ?_⟩, fun d i name hd hname hi => ?_⟩
  · have hface := hkept (.inl hd)
    rw [hface] at hd ⊢
    exact h.filed.enrolled.connected d hd
  · have hkey := h.filed.enrolled.registered name d hregistered
    rw [hkept (.inr (.inr (by rw [hkey]; simp))), hkey]
  · have hface := hkept (d := d) (.inl (by rw [scene_controller]; exact hd))
    rw [scene_controller, scene_controller] at hface
    exact h.filed.lists d i name ((congrArg Controller.Face.connected hface).symm.trans hd)
      ((congrArg Controller.Face.key hface).symm.trans hname) hi

theorem proceeds_addNode (engine : Engine) (node : NodeId) (key : String)
    (hexclusive : (engine.addNode node key).1.scene.Exclusive) :
    Proceeds engine (engine.addNode node key).1 := by
  revert hexclusive
  refine addNode_ind (P := fun after => after.1.scene.Exclusive → Proceeds engine after.1) ?_ ?_
  · exact fun c _ _ hexclusive => proceeds_connect engine c (some key) hexclusive
  · exact fun hexclusive => (proceeds_newController engine node false).trans
      (proceeds_connect _ _ _ hexclusive)

/-- Resolving a controller for a new instance files the controller in the instance. -/
structure TakesIn (c : ControllerId) (i : InstanceId) (before after : Engine) : Prop where
  turns : Turns before after
  scene : after.scene = before.scene
  kept (d : ControllerId) (j : InstanceId) : before.Lists d j → after.Lists d j
  filed : after.Lists c i

theorem takesIn_resolveForInstance (hfit : engine.scene.Fit) (henrolled : engine.scene.Enrolled)
    (i : InstanceId) (c : ControllerId) : TakesIn c i engine (resolveForInstance i engine c) := by
  by_cases hjoins : ∃ key, (engine.controller c).connected = true ∧
      (engine.controller c).key = some key ∧ (engine.inst i).graph.knows key = true
  · obtain ⟨key, hconnected, hkey, hknows⟩ := hjoins
    have hregistered : engine.registry.get? key = some c := by
      refine henrolled.get?_registry ?_ ?_ <;> rw [scene_controller]
      · exact hconnected
      · exact hkey
    have hself : (engine.register key c).1 = engine := by
      simp only [register, KeyMap.insert_eq_self hregistered]
    have hscene : (engine.resolve c key).1.scene = engine.scene := by rw [scene_resolve, hself]
    have hexclusive : (engine.register key c).1.scene.Exclusive := hself ▸ henrolled.exclusive
    have heq : resolveForInstance i engine c = (engine.resolve c key).1 := by
      simp only [resolveForInstance, hconnected, hkey, hknows, if_true]
    rw [heq]
    refine ⟨turn_of_frame (hscene ▸ hfit.compiled) hfit.nested (congrArg Scene.dom hscene)
      (congrArg Scene.handlers hscene) (fun d hd => ⟨by rw [hscene], fun j hj _ _ => ?_⟩) ?_,
      hscene, fun d j h => ?_, ?_⟩
    · have hlive : (engine.resolve c key).1.live = engine.live := congrArg Scene.live hscene
      exact ⟨hlive ▸ hj, graph_eq_of_instances (congrArg Scene.instances hscene) j⟩
    · rw [hscene]
      exact attributes_resolve hself.symm (faithful_of_enrolled hfit henrolled)
        (tidy_of_fit hfit) hconnected hkey
    · exact lists_resolve hexclusive hconnected hkey fun name _ => h name
    · exact lists_resolve hexclusive hconnected hkey fun name hne _ hname _ =>
        absurd (Option.some.inj (hname.symm.trans hkey)) hne
  · have heq : resolveForInstance i engine c = engine := by
      simp only [resolveForInstance]
      split
      next key hconnected hkey =>
        exact if_neg fun hknows => hjoins ⟨key, hconnected, hkey, hknows⟩
      next => rfl
    rw [heq]
    refine ⟨.refl, rfl, fun _ _ => id, fun key hconnected hkey hi => ?_⟩
    exact absurd ⟨key, hconnected, hkey, (List.mem_filter.mp hi).2⟩ hjoins

theorem takesIn_foldl_resolveForInstance (hfit : engine.scene.Fit)
    (henrolled : engine.scene.Enrolled) (i : InstanceId) (controllers : List ControllerId) :
    let after := controllers.foldl (resolveForInstance i) engine
    Turns engine after ∧ after.scene = engine.scene ∧
      (∀ d j, engine.Lists d j → after.Lists d j) ∧ ∀ d ∈ controllers, after.Lists d i := by
  induction controllers generalizing engine with
  | nil => exact ⟨.refl, rfl, fun _ _ => id, fun _ h => absurd h List.not_mem_nil⟩
  | cons c rest ih =>
    have hfirst := takesIn_resolveForInstance hfit henrolled i c
    obtain ⟨hturns, hscene, hkept, hfiled⟩ :=
      ih (hfirst.scene ▸ hfit) (hfirst.scene ▸ henrolled)
    refine ⟨hfirst.turns.trans hturns, hscene.trans hfirst.scene,
      fun d j h => hkept d j (hfirst.kept d j h), fun d hd => ?_⟩
    rcases List.mem_cons.mp hd with rfl | hd
    · exact hkept d i hfirst.filed
    · exact hfiled d hd

/-- The engine with a new instance, before any controller is resolved for it. -/
def founding (engine : Engine) (config : Config) : Engine :=
  { engine with
    instances := engine.instances ++ [Instance.ofConfig config]
    live := engine.live ++ [engine.instances.length] }

theorem inst_founding (engine : Engine) (config : Config) (i : InstanceId) :
    (engine.founding config).inst i =
      if i = engine.instances.length then Instance.ofConfig config else engine.inst i :=
  getD_append_singleton ..

theorem proceeds_create (engine : Engine) {config : Config} (hunindexed : config.IsUnindexed) :
    Proceeds engine (engine.create config).1 := by
  refine ⟨fun h => ?_⟩
  have hold {i : InstanceId} (hi : i ≠ engine.instances.length) :
      (engine.founding config).inst i = engine.inst i := by rw [inst_founding, if_neg hi]
  have hfit : (engine.founding config).scene.Fit := by
    refine ⟨h.fit.running, h.fit.nested, fun i hi => ?_, fun i => ?_⟩
    · rw [scene_inst, inst_founding]
      split
      next => rfl
      next hne =>
        have hlive := (List.mem_append.mp hi).resolve_right fun hmem =>
          hne (List.mem_singleton.mp hmem)
        exact tidy_of_fit h.fit i hlive
    · rw [← graph_inst_eq, inst_founding]
      split
      next => exact ⟨config, hunindexed, rfl⟩
      next =>
        rw [graph_inst_eq]
        exact h.fit.graphs i
  have henrolled : (engine.founding config).scene.Enrolled :=
    ⟨h.filed.enrolled.connected, h.filed.enrolled.registered⟩
  have hfounded : Turns engine (engine.founding config) := by
    refine turn_of_frame hfit.compiled h.fit.nested rfl rfl (fun c _ =>
      ⟨rfl, fun i hi graphKey hstands => ⟨List.mem_append_left _ hi, ?_⟩⟩) (.silent rfl)
    obtain ⟨key, -, hresolve⟩ := hstands
    have hknows : (engine.inst i).graph.knows key = true := by
      rw [Graph.knows, graph_inst_eq, hresolve]
      rfl
    rw [hold (Nat.ne_of_lt (lt_of_knows hknows))]
  obtain ⟨hturns, hscene, hkept, hfiled⟩ := takesIn_foldl_resolveForInstance hfit henrolled
    engine.instances.length engine.registry.values
  refine ⟨hfounded.trans hturns, hscene ▸ hfit, hscene ▸ henrolled, fun d j => ?_⟩
  by_cases hj : j = engine.instances.length
  · subst hj
    intro key hconnected hkey hi
    have hface := face_controller_eq hscene d
    have hregistered : engine.registry.get? key = some d := by
      refine h.filed.enrolled.get?_registry ?_ ?_ <;> rw [scene_controller]
      · exact (congrArg Controller.Face.connected hface).symm.trans hconnected
      · exact (congrArg Controller.Face.key hface).symm.trans hkey
    exact hfiled d (KeyMap.mem_values_iff.mpr ⟨key, hregistered⟩) key hconnected hkey hi
  · refine hkept d j ((h.filed.lists d j).congr rfl (fun hi => ?_) (by rw [hold hj])
      fun name hget => by rw [hold hj, hget])
    exact (List.mem_append.mp hi).resolve_right fun hmem => hj (List.mem_singleton.mp hmem)

end Engine

end InteractionBinding
