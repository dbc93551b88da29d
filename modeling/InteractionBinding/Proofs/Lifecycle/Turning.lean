import InteractionBinding.Proofs.Lifecycle.Filing
import InteractionBinding.Proofs.Lifecycle.Handing
/-!
# What the log says of handed nodes

Every node that is handed on behalf of a controller is torn down by its next disconnection
(`Engine.Covered`): the controller stays connected and goes on owning the node, or the log has a
teardown of all the nodes it owns, the handed node among them, before which it has been connected
throughout.

An engine changes in turns (`Engine.Turn`). A controller is disconnected, or else whoever is
connected stays so and keeps the nodes that they own. Either way the log stays covered
(`Engine.Turn.covered`).
-/

namespace InteractionBinding

namespace Scene

/-- A controller that is connected stays so, and keeps the nodes that it owns. -/
structure Keeps (before after : Scene) (c : ControllerId) : Prop where
  connected : (before.controller c).connected = true → (after.controller c).connected = true
  owns (node : NodeId) : before.Owns c node → after.Owns c node

variable {before after : Scene} {c : ControllerId}

/-- A controller keeps what it owns if it is as before, and so are the live instances that know its
key. -/
theorem keeps_of_frame (hdom : after.dom = before.dom)
    (hcontroller : after.controller c = before.controller c)
    (hlive : ∀ i ∈ before.live, ∀ graphKey, before.StandsUnder i c graphKey →
      i ∈ after.live ∧ (after.inst i).graph = (before.inst i).graph) :
    before.Keeps after c where
  connected h := hcontroller ▸ h
  owns node h := by
    obtain ⟨anchor, hanchor, howned⟩ := h
    refine ⟨anchor, ?_, howned.imp_right ?_⟩
    · simp only [Scene.anchor, hcontroller, hdom] at hanchor ⊢
      exact hanchor
    · rintro ⟨i, hi, graphKey, graphNode, hstands, hget, hcovers⟩
      obtain ⟨hi', hgraph⟩ := hlive i hi graphKey hstands
      refine ⟨i, hi', graphKey, graphNode, ?_, hgraph ▸ hget, hdom ▸ hcovers⟩
      rw [StandsUnder, hcontroller, hgraph]
      exact hstands

end Scene

namespace Engine

variable {engine before after : Engine} {handlers : HandlerTable} {c : ControllerId} {node : NodeId}

/-! ### Teardowns in the log -/

/-- The entries of a teardown of nodes: every handler is told to drop what it holds for each. -/
def removals (scene : Scene) (nodes : List NodeId) : List Entry :=
  (scene.handlers.all.flatMap fun handler => nodes.map (Event.remove handler ·)).map
    (Entry.told · scene)

theorem mem_removals_iff {scene : Scene} {nodes : List NodeId} {entry : Entry} :
    entry ∈ removals scene nodes ↔ ∃ handler ∈ scene.handlers.all, ∃ node ∈ nodes,
      entry = .told (.remove handler node) scene := by
  constructor
  · intro h
    obtain ⟨event, hevent, rfl⟩ := List.mem_map.mp h
    obtain ⟨handler, hhandler, hevent⟩ := List.mem_flatMap.mp hevent
    obtain ⟨node, hnode, rfl⟩ := List.mem_map.mp hevent
    exact ⟨handler, hhandler, node, hnode, rfl⟩
  · rintro ⟨handler, hhandler, node, hnode, rfl⟩
    exact List.mem_map_of_mem (List.mem_flatMap.mpr
      ⟨handler, hhandler, List.mem_map_of_mem hnode⟩)

theorem log_teardown (engine : Engine) (nodes : List NodeId) :
    (engine.teardown nodes).log = engine.log ++ removals engine.scene nodes := by
  rw [teardown, foldl_tell]
  rfl

/-- A controller is connected in the scene of every entry. -/
def ConnectedIn (c : ControllerId) (entries : List Entry) : Prop :=
  ∀ event scene, .told event scene ∈ entries → (scene.controller c).connected = true

/-- A controller is connected from an entry of the log on, and still owns a node. -/
structure Stays (engine : Engine) (handlers : HandlerTable) (back : List Entry) (c : ControllerId)
    (node : NodeId) : Prop where
  kept : ConnectedIn c back
  connected : (engine.scene.controller c).connected = true
  owned : node ∈ engine.ownedNodes c
  handlers : engine.host.handlers = handlers

/-- The next disconnection of a controller after an entry of the log tears down, for all handlers,
the nodes that it owns, and among them a given one. -/
def TornDown (handlers : HandlerTable) (back : List Entry) (c : ControllerId) (node : NodeId) :
    Prop :=
  ∃ kept scene nodes rest, back = kept ++ removals scene nodes ++ rest ∧ ConnectedIn c kept ∧
    scene.handlers = handlers ∧ (scene.controller c).connected = false ∧
    (∀ other, other ∈ nodes ↔ scene.Owns c other) ∧ node ∈ nodes

/-- Every node that a handler has been handed was handed on behalf of a controller, and is torn down
by the next disconnection of any controller on whose behalf it was. -/
def Covered (engine : Engine) : Prop :=
  ∀ front event scene back, engine.log = front ++ .told event scene :: back →
    (∀ node ∈ event.handed, ∃ c, Hands scene c node event) ∧
      ∀ c node, Hands scene c node event →
        engine.Stays scene.handlers back c node ∨ TornDown scene.handlers back c node

theorem ConnectedIn.append {entries entries' : List Entry} (h : ConnectedIn c entries)
    (h' : ConnectedIn c entries') : ConnectedIn c (entries ++ entries') := fun event scene hmem =>
  (List.mem_append.mp hmem).elim (h event scene) (h' event scene)

theorem TornDown.append {back : List Entry} (h : TornDown handlers back c node)
    (entries : List Entry) : TornDown handlers (back ++ entries) c node := by
  obtain ⟨kept, scene, nodes, rest, rfl, hrest⟩ := h
  exact ⟨kept, scene, nodes, rest ++ entries, by simp only [List.append_assoc], hrest⟩

/-- Every teardown tells all handlers to drop the nodes that it tears down. -/
theorem TornDown.removes {back : List Entry} (h : TornDown handlers back c node)
    {handler : HandlerId} (hhandler : handler ∈ handlers.all) :
    ∃ later, .told (.remove handler node) later ∈ back := by
  obtain ⟨kept, scene, nodes, rest, rfl, -, rfl, -, -, hnode⟩ := h
  refine ⟨scene, List.mem_append_left _ (List.mem_append_right _ ?_)⟩
  exact List.mem_map_of_mem (List.mem_flatMap.mpr ⟨handler, hhandler, List.mem_map_of_mem hnode⟩)

/-- The log is covered if it was before some entries, and these are. -/
theorem Covered.append {entries : List Entry} (h : before.Covered)
    (hlog : after.log = before.log ++ entries)
    (hbefore : ∀ handlers back c node, before.Stays handlers back c node →
      after.Stays handlers (back ++ entries) c node ∨ TornDown handlers (back ++ entries) c node)
    (hentries : ∀ front event scene back, entries = front ++ .told event scene :: back →
      (∀ node ∈ event.handed, ∃ c, Hands scene c node event) ∧
        ∀ c node, Hands scene c node event → after.Stays scene.handlers back c node) :
    after.Covered := by
  intro front event scene back hsplit
  rw [hlog, List.append_eq_append_iff] at hsplit
  obtain ⟨middle, rfl, hmiddle⟩ | ⟨middle, hmiddle, hback⟩ := hsplit
  · obtain ⟨hhanded, hstays⟩ := hentries middle event scene back hmiddle
    exact ⟨hhanded, fun c node hhands => .inl (hstays c node hhands)⟩
  · cases middle with
    | nil =>
      rw [List.nil_append] at hback
      obtain ⟨hhanded, hstays⟩ := hentries [] event scene back hback.symm
      exact ⟨hhanded, fun c node hhands => .inl (hstays c node hhands)⟩
    | cons first middle =>
      obtain ⟨rfl, rfl⟩ := List.cons.inj hback
      obtain ⟨hhanded, hcovered⟩ := h front event scene middle hmiddle
      refine ⟨hhanded, fun c node hhands => ?_⟩
      rcases hcovered c node hhands with hstays | htorn
      · exact hbefore scene.handlers middle c node hstays
      · exact .inr (htorn.append entries)

/-! ### Disconnections in the log -/

/-- An event is told in a scene, and hands nothing to a handler. -/
def Aside (scene : Scene) : Entry → Prop
  | .told event told => told = scene ∧ event.handed = [] ∧ ∀ c node, ¬Hands told c node event
  | .forgot _ _ => True

theorem aside_of_mem_removals {scene : Scene} {nodes : List NodeId} {entry : Entry}
    (h : entry ∈ removals scene nodes) : Aside scene entry := by
  obtain ⟨handler, -, node, -, rfl⟩ := mem_removals_iff.mp h
  exact ⟨rfl, rfl, fun _ _ h => h⟩

/-- What follows on the teardown of a disconnection: the stylesheet is taken away, and ids may be
applied again. -/
def Trails (scene : Scene) : Entry → Prop
  | .told (.removeSheet _) told => told = scene
  | .told _ _ => False
  | .forgot _ _ => True

theorem Trails.aside {scene : Scene} {entry : Entry} (h : Trails scene entry) :
    Aside scene entry := by
  cases entry with
  | told event told =>
    cases event with
    | removeSheet => exact ⟨h, rfl, fun _ _ => id⟩
    | _ => exact h.elim
  | forgot => trivial

theorem tells_releaseKey (evict : Bool) (key : String) (i : InstanceId) {scene : Scene} :
    Tells (Trails scene) engine (releaseKey c key evict engine i) := by
  have hforget : Tells (Trails scene) engine (engine.forgetKey i key) := .single rfl trivial
  simp only [releaseKey]
  split
  · exact hforget.trans (.silent ((quiet_releaseController ..).trans (quiet_unlistenKey ..)).log)
  · exact hforget

/-- The scene in which a controller is disconnected. -/
def leaving (engine : Engine) (c : ControllerId) (evict : Bool) : Scene :=
  (engine.modifyController c (Controller.released · evict)).scene

theorem controller_leaving (engine : Engine) (c other : ControllerId) (evict : Bool)
    (hc : c < engine.controllers.length) :
    (engine.leaving c evict).controller other =
      if c = other then { engine.scene.controller other with connected := false }
      else engine.scene.controller other := by
  rw [leaving, scene_controller, scene_controller, controller_modifyController _ _ _ _ hc]
  split <;> rfl

/-- A disconnection tears down the nodes that the controller owns, if it is connected. It tears down
nothing else, and hands nothing to a handler. -/
theorem tells_disconnect (hrunning : engine.running = true) (evict : Bool) :
    let off := engine.leaving c evict
    ∃ rest, (engine.disconnect c evict).log = engine.log ++
        (if (engine.controller c).connected then removals off (engine.ownedNodes c) else []) ++
          rest ∧
      ∀ entry ∈ rest, Trails off entry := by
  intro off
  let released := engine.modifyController c (Controller.released · evict)
  let torn := if (engine.controller c).connected then released.teardown (released.ownedNodes c)
    else released
  have htorn : torn.log = engine.log ++
      (if (engine.controller c).connected then removals off (engine.ownedNodes c) else []) ∧
        torn.scene = off := by
    simp only [torn]
    split
    · rw [log_teardown, ownedNodes_released, scene_teardown]
      exact ⟨rfl, rfl⟩
    · exact ⟨(List.append_nil _).symm, rfl⟩
  have hsheets : Tells (Trails off) torn
      ((engine.controller c).stylesheet.toList.foldl removeSheet torn) :=
    tells_foldl _ _ fun state sheet _ hscene =>
      ⟨.single rfl (hscene.trans htorn.2), rfl⟩
  have hhost : Tells (Trails off) torn (engine.releasedAtHost c evict) := hsheets
  have hdisconnect : Tells (Trails off) torn (engine.disconnect c evict) := by
    refine disconnect_ind (P := Tells (Trails off) torn)
      (fun hstopped => absurd (hrunning.symm.trans hstopped) Bool.noConfusion)
      (fun _ _ => hhost) fun key _ _ => ?_
    have hcleared := hhost.trans (List.foldlRecOn (motive := Tells (Trails off) _)
      (engine.instancesFor key) (releaseKey c key evict) (.silent rfl)
        fun state hstate i _ => hstate.trans (tells_releaseKey evict key i))
    dsimp only
    split
    · exact hcleared.trans (.silent (calm_unregister ..).log)
    · exact hcleared
  obtain ⟨rest, hlog, hrest⟩ := hdisconnect
  exact ⟨rest, hlog.trans (by rw [htorn.1]), hrest⟩

/-! ### Turns -/

/-- A turn of an engine. -/
inductive Turn : Engine → Engine → Prop
  /-- Nobody loses anything, and what is told is told in the scene that comes of the turn. -/
  | unfold {before after : Engine}
      (hkeeps : ∀ c, (before.scene.controller c).connected = true →
        before.scene.Keeps after.scene c)
      (hhandlers : after.host.handlers = before.host.handlers)
      (htells : Tells (Attributes after.scene) before after)
      (hcompiled : after.scene.Compiled) (hnested : after.scene.dom.Nested) : Turn before after
  | leave (engine : Engine) (c : ControllerId) (evict : Bool) (hrunning : engine.running = true) :
    Turn engine (engine.disconnect c evict)

/-- Any number of turns. -/
abbrev Turns : Engine → Engine → Prop := Relation.ReflTransGen Turn

theorem covered_unfold (h : before.Covered)
    (hkeeps : ∀ c, (before.scene.controller c).connected = true →
      before.scene.Keeps after.scene c)
    (hhandlers : after.host.handlers = before.host.handlers)
    (htells : Tells (Attributes after.scene) before after)
    (hcompiled : after.scene.Compiled) (hnested : after.scene.dom.Nested) : after.Covered := by
  obtain ⟨entries, hlog, hentries⟩ := htells
  have hconnectedIn {c : ControllerId} (hconnected : (after.scene.controller c).connected = true)
      {part : List Entry} (hpart : part ⊆ entries) : ConnectedIn c part :=
    fun event scene hmem => (hentries _ (hpart hmem)).1 ▸ hconnected
  refine h.append hlog (fun handlers back c node hstays => .inl ?_)
    fun front event scene back hsplit => ?_
  · have hkept := hkeeps c hstays.connected
    have hconnected := hkept.connected hstays.connected
    exact ⟨hstays.kept.append (hconnectedIn hconnected fun _ => id), hconnected,
      mem_ownedNodes_iff_owns.mpr (hkept.owns node (mem_ownedNodes_iff_owns.mp hstays.owned)),
      hhandlers.trans hstays.handlers⟩
  · obtain ⟨rfl, hhanded⟩ := hentries (.told event scene) (by rw [hsplit]; simp)
    refine ⟨hhanded, fun c node hhands => ?_⟩
    obtain ⟨hconnected, howns⟩ := hhands.owns hcompiled hnested
    refine ⟨hconnectedIn hconnected fun entry hmem => ?_, hconnected,
      mem_ownedNodes_iff_owns.mpr howns, rfl⟩
    rw [hsplit]
    exact List.mem_append_right _ (List.mem_cons_of_mem _ hmem)

/-- Whoever else is connected is connected after a disconnection, and owns what it owned. -/
theorem keeps_disconnect {d : ControllerId} (hd : c ≠ d) (evict : Bool) :
    engine.scene.Keeps (engine.disconnect c evict).scene d := by
  obtain ⟨hdom, hlive, hinstances⟩ := (releases_disconnect engine c evict).frame
  refine Scene.keeps_of_frame hdom ?_ fun i hi _ _ => ⟨?_, ?_⟩
  · rw [face_disconnect, if_neg hd]
  · change i ∈ (engine.disconnect c evict).live
    rwa [hlive]
  · rw [Scene.inst, Scene.inst, hinstances]

theorem covered_disconnect (h : engine.Covered) (hrunning : engine.running = true)
    (c : ControllerId) (evict : Bool) : (engine.disconnect c evict).Covered := by
  obtain ⟨rest, hlog, hrest⟩ := @tells_disconnect engine c hrunning evict
  have haside : ∀ entry ∈ (if (engine.controller c).connected
      then removals (engine.leaving c evict) (engine.ownedNodes c) else []) ++ rest,
      Aside (engine.leaving c evict) entry := by
    intro entry hmem
    rcases List.mem_append.mp hmem with hmem | hmem
    · split at hmem
      · exact aside_of_mem_removals hmem
      · cases hmem
    · exact (hrest entry hmem).aside
  refine h.append (by rw [hlog, List.append_assoc]) (fun handlers back d node hstays => ?_)
    fun front event scene back hsplit => ?_
  · by_cases hd : c = d
    · subst hd
      have hconnected : (engine.controller c).connected = true := by
        have hconnected := hstays.connected
        rwa [scene_controller] at hconnected
      refine .inr ⟨back, engine.leaving c evict, engine.ownedNodes c, rest, ?_, hstays.kept,
        hstays.handlers, ?_, fun other => ?_, hstays.owned⟩
      · rw [if_pos hconnected, List.append_assoc]
      · rw [controller_leaving _ _ _ _ (lt_of_connected hconnected), if_pos rfl]
      · rw [leaving, ← mem_ownedNodes_iff_owns, ownedNodes_released]
    · have hkeeps : engine.scene.Keeps (engine.disconnect c evict).scene d :=
        keeps_disconnect hd evict
      have hoff : (engine.leaving c evict).controller d = engine.scene.controller d := by
        rw [leaving, scene_controller, scene_controller, controller_modifyController_eq,
          if_neg fun hand => hd hand.1]
      refine .inl ⟨hstays.kept.append fun event scene hmem => ?_,
        hkeeps.connected hstays.connected, ?_, (handlers_disconnect ..).trans hstays.handlers⟩
      · rw [(haside _ hmem).1, hoff]
        exact hstays.connected
      · exact mem_ownedNodes_iff_owns.mpr
          (hkeeps.owns node (mem_ownedNodes_iff_owns.mp hstays.owned))
  · obtain ⟨-, hhanded, hnone⟩ := haside (.told event scene) (by rw [hsplit]; simp)
    refine ⟨fun node hnode => ?_, fun d node hhands => absurd hhands (hnone d node)⟩
    rw [hhanded] at hnode
    cases hnode

/-- The log stays covered in every turn. -/
theorem Turn.covered (h : Turn before after) (hcovered : before.Covered) : after.Covered := by
  cases h with
  | unfold hkeeps hhandlers htells hcompiled hnested =>
    exact covered_unfold hcovered hkeeps hhandlers htells hcompiled hnested
  | leave c evict hrunning => exact covered_disconnect hcovered hrunning c evict

theorem Turns.covered (h : Turns before after) (hcovered : before.Covered) : after.Covered := by
  induction h with
  | refl => exact hcovered
  | tail _ hstep ih => exact hstep.covered ih

end Engine

end InteractionBinding
