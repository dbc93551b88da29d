import InteractionBinding.Proofs.Engine.Listening
import InteractionBinding.Proofs.Engine.Runs
import InteractionBinding.Proofs.Graph.Selectors
import InteractionBinding.Proofs.Wiring.Orderly
/-!
# Disconnecting a key

What a disconnection does to the scene, to the wires and to what has been applied. The nodes that a
controller is torn down on are those that its key owns (`Engine.mem_ownedNodes_iff`), and every wire
of a variant runs between nodes that the keys of the variant own (`Ground.owns_of_mem_wiresOf`).
-/

namespace InteractionBinding

namespace HandlerTable

theorem mem_firstOccurrences {handler : HandlerId} {l : List HandlerId} :
    handler ∈ firstOccurrences l ↔ handler ∈ l := by
  induction l with
  | nil => rfl
  | cons first rest ih =>
    by_cases heq : handler = first <;> simp [firstOccurrences, heq, ih]

theorem exists_mem_all {table : HandlerTable} {kind : TriggerKind}
    (h : (table.get? kind).isSome) : ∃ handler, handler ∈ table.all := by
  obtain ⟨handler, hget⟩ := Option.isSome_iff_exists.mp h
  obtain ⟨entry, hfind, rfl⟩ := Option.map_eq_some_iff.mp hget
  exact ⟨entry.2, mem_firstOccurrences.mpr (List.mem_map_of_mem (List.mem_of_find?_eq_some hfind))⟩

end HandlerTable

/-- Unsubscribing tokens one after the other leaves the entries of all other tokens. -/
theorem ListenerSet.foldl_unsubscribe {α : Type} (set : ListenerSet α) (tokens : List Token) :
    tokens.foldl unsubscribe set =
      { set with entries := set.entries.filter fun entry => entry.1 ∉ tokens } := by
  induction tokens generalizing set with
  | nil => simp
  | cons token rest ih =>
    rw [List.foldl_cons, ih]
    simp only [unsubscribe, List.filter_filter, List.mem_cons, not_or, Bool.decide_and,
      Bool.and_comm, ne_eq]

/-! ### Owned nodes -/

/-- A key owns its node, and what the selectors recorded for the key reach below it. -/
def Ground.Owns (ground : Ground) (configs : List Config) (key : String) (node : NodeId) : Prop :=
  node = ground.nodeOf key ∨ ∃ config ∈ configs, ∃ graphNode,
    (Graph.ofConfig config).nodes.get? key = some graphNode ∧
      ∃ selector ∈ graphNode.selectors.keys, node ∈ ground.dom.queryAll (ground.nodeOf key) selector

/-- Different keys own different nodes. -/
def Ground.Apart (ground : Ground) (configs : List Config) (keys : List String) : Prop :=
  ∀ key ∈ keys, ∀ key' ∈ keys, key ≠ key' →
    ∀ node, ground.Owns configs key node → ¬ground.Owns configs key' node

theorem Ground.Owns.mono {ground : Ground} {configs configs' : List Config} {key : String}
    {node : NodeId} (h : ground.Owns configs key node) (hsubset : configs ⊆ configs') :
    ground.Owns configs' key node :=
  h.imp_right fun ⟨config, hconfig, hnode⟩ => ⟨config, hsubset hconfig, hnode⟩

theorem Ground.Apart.mono {ground : Ground} {configs configs' : List Config}
    {keys keys' : List String}
    (h : ground.Apart configs' keys') (hconfigs : configs ⊆ configs') (hkeys : keys ⊆ keys') :
    ground.Apart configs keys :=
  fun key hkey key' hkey' hne node howns howns' =>
    h key (hkeys hkey) key' (hkeys hkey') hne node (howns.mono hconfigs) (howns'.mono hconfigs)

/-- A wire of a variant runs from a node that its source owns to one that its target owns. -/
theorem Ground.owns_of_mem_wiresOf {ground : Ground} {configs : List Config} {config : Config}
    (hconfig : config ∈ configs) (hplain : config.IsPlain) {variant : Variant}
    (hdeclares : config.Declares variant) {wire : Wire} (h : wire ∈ ground.wiresOf variant) :
    ground.Owns configs variant.rule.key wire.source ∧
      ground.Owns configs variant.effect.target wire.target := by
  obtain ⟨sourceNode, hsource⟩ := hdeclares.exists_node (.inl rfl)
  obtain ⟨targetNode, htarget⟩ := hdeclares.exists_node (.inr rfl)
  obtain ⟨ci, hci, hrule, heffect⟩ := hdeclares
  obtain ⟨hlist, hlists⟩ := hplain.lists ci hci
  have hbound : variant.rule.listContainer = none := by rw [hrule, hlist]
  rw [wiresOf] at h
  split at h
  · rw [Engine.pairsBetween, hbound, hlists _ heffect] at h
    simp only [List.mem_map, List.mem_flatMap] at h
    obtain ⟨pair, ⟨a, ha, b, hb, rfl⟩, rfl⟩ := h
    constructor
    · cases hselector : variant.rule.selector with
      | none =>
        rw [hselector] at ha
        exact .inl (List.mem_singleton.mp ha)
      | some selector =>
        rw [hselector] at ha
        refine .inr ⟨config, hconfig, sourceNode, hsource, selector, ?_, ha⟩
        rw [hrule] at hselector hsource
        exact (Graph.records_rule hci hsource).selector selector hselector
    · cases hselector : variant.effect.effect.selector with
      | none =>
        rw [hselector] at hb
        exact .inl (List.mem_singleton.mp hb)
      | some selector =>
        rw [hselector] at hb
        have hrecords := Graph.records_effect hci (List.mem_append_left _ heffect) htarget
        exact .inr ⟨config, hconfig, targetNode, htarget, selector,
          hrecords.selector selector hselector, hb⟩
  · cases h

namespace Engine

variable {ground : Ground} {configs : List Config} {keys : List String} {engine : Engine}
  {i : InstanceId} {c : ControllerId} {key : String} {config : Config}

theorem mem_foldl_insert {α : Type} [DecidableEq α] {l first : List α} {a : α} :
    a ∈ l.foldl (fun nodes node => if node ∈ nodes then nodes else nodes ++ [node]) first ↔
      a ∈ first ∨ a ∈ l := by
  induction l generalizing first with
  | nil => simp
  | cons b rest ih =>
    rw [List.foldl_cons, ih, List.mem_cons]
    split
    next hmem =>
      refine ⟨fun h => h.imp_right .inr, fun h => ?_⟩
      rcases h with h | rfl | h
      · exact .inl h
      · exact .inl hmem
      · exact .inr h
    next => rw [List.mem_append, List.mem_singleton, or_assoc]

/-- The instances that know a key without indices. -/
theorem mem_instancesFor_iff (horderly : engine.scene.Orderly ground configs keys)
    (hkey : KeyTemplate.indices key = []) :
    i ∈ engine.instancesFor key ↔ ∃ config, configs[i]? = some config ∧
      ((Graph.ofConfig config).nodes.get? key).isSome := by
  rw [instancesFor_eq, List.mem_filter, horderly.live, List.mem_range]
  constructor
  · rintro ⟨hlt, hknows⟩
    have hi := List.getElem?_eq_getElem hlt
    rw [horderly.inst_eq hi, Graph.knows_of_indices hkey] at hknows
    exact ⟨configs[i], hi, hknows⟩
  · rintro ⟨config, hi, hnode⟩
    rw [horderly.inst_eq hi, Graph.knows_of_indices hkey]
    exact ⟨(List.getElem?_eq_some_iff.mp hi).1, hnode⟩

/-- A controller is torn down on the nodes that its key owns. -/
theorem mem_ownedNodes_iff (horderly : engine.scene.Orderly ground configs keys)
    (hc : keys[c]? = some key) {node : NodeId} :
    node ∈ engine.ownedNodes c ↔ ground.Owns configs key node := by
  have hindices := horderly.indices key (List.mem_of_getElem? hc)
  obtain ⟨connected, hcontroller⟩ := horderly.controller c key hc
  have hkey : (engine.controller c).key = some key := by
    rw [scene_controller] at hcontroller
    exact congrArg Controller.Face.key hcontroller
  have hanchor : engine.anchor c = some (ground.nodeOf key) := by
    rw [anchor_eq, Scene.anchor, hcontroller]
    rfl
  have hdom : engine.host.dom = ground.dom := horderly.dom
  simp only [ownedNodes, hanchor, hkey, hdom]
  rw [mem_foldl_insert, List.mem_singleton]
  refine or_congr_right ?_
  simp only [List.mem_flatMap]
  constructor
  · rintro ⟨selector, ⟨i, hi, hselector⟩, hnode⟩
    obtain ⟨config, hconfig, hsome⟩ := (mem_instancesFor_iff horderly hindices).mp hi
    obtain ⟨graphNode, hgraphNode⟩ := Option.isSome_iff_exists.mp hsome
    rw [graph_inst_eq, horderly.inst_eq hconfig, Graph.get?_of_indices hindices, hgraphNode]
      at hselector
    exact ⟨config, List.mem_of_getElem? hconfig, graphNode, hgraphNode, selector, hselector, hnode⟩
  · rintro ⟨config, hconfig, graphNode, hgraphNode, selector, hselector, hnode⟩
    obtain ⟨i, hi⟩ := List.getElem?_of_mem hconfig
    refine ⟨selector, ⟨i, ?_, ?_⟩, hnode⟩
    · exact (mem_instancesFor_iff horderly hindices).mpr ⟨config, hi, by rw [hgraphNode]; rfl⟩
    · rw [graph_inst_eq, horderly.inst_eq hi, Graph.get?_of_indices hindices, hgraphNode]
      exact hselector

/-! ### What is told -/

/-- An engine that has told its host of events. -/
def tellAll (engine : Engine) (events : List Event) : Engine :=
  { engine with log := engine.log ++ events.map (Entry.told · engine.scene) }

theorem foldl_tell (events : List Event) (engine : Engine) :
    events.foldl tell engine = engine.tellAll events := by
  induction events generalizing engine with
  | nil => simp [tellAll]
  | cons event rest ih =>
    rw [List.foldl_cons, ih]
    simp [tellAll, tell, scene]

theorem wires_tellAll (engine : Engine) (events : List Event) :
    (engine.tellAll events).wires = events.foldl Event.wire engine.wires := by
  have hlog : (engine.tellAll events).log =
      engine.log ++ events.map (Entry.told · engine.scene) := rfl
  have hevents : (events.map (Entry.told · engine.scene)).filterMap Entry.event? = events := by
    rw [List.filterMap_map]
    exact List.filterMap_some
  rw [wires_eq_foldl hlog, hevents]

theorem mem_foldl_remove {removals : List (HandlerId × NodeId)} {wires : List Wire} {wire : Wire} :
    wire ∈ (removals.map fun removal => Event.remove removal.1 removal.2).foldl Event.wire wires ↔
      wire ∈ wires ∧ ∀ removal ∈ removals, wire.touches removal.2 = false := by
  induction removals generalizing wires with
  | nil => simp
  | cons removal rest ih =>
    rw [List.map_cons, List.foldl_cons, ih, Event.wire, List.mem_filter, List.forall_mem_cons,
      and_assoc, Bool.not_eq_true']

/-- A teardown ends the wires of its nodes, if there is a handler. -/
theorem mem_wires_teardown {nodes : List NodeId} {wire : Wire} :
    wire ∈ (engine.teardown nodes).wires ↔ wire ∈ engine.wires ∧
      ∀ handler ∈ engine.host.handlers.all, ∀ node ∈ nodes, wire.touches node = false := by
  have hevents : (engine.host.handlers.all.flatMap fun handler =>
      nodes.map (Event.remove handler ·)) =
      (engine.host.handlers.all.flatMap fun handler => nodes.map (Prod.mk handler)).map
        fun removal => Event.remove removal.1 removal.2 := by
    rw [List.map_flatMap]
    refine List.flatMap_congr fun handler _ => ?_
    rw [List.map_map]
    rfl
  rw [teardown, foldl_tell, wires_tellAll, hevents, mem_foldl_remove]
  simp only [List.mem_flatMap, List.mem_map]
  refine and_congr_right fun _ => ⟨fun h handler hhandler node hnode => ?_, ?_⟩
  · exact h (handler, node) ⟨handler, hhandler, node, hnode, rfl⟩
  · rintro h removal ⟨handler, hhandler, node, hnode, rfl⟩
    exact h handler hhandler node hnode

/-! ### Releasing -/

/-- One engine comes from another by giving up wires. Instances and subscriptions stay. -/
structure Drops (kept : Wire → Prop) (before after : Engine) : Prop where
  scene : after.scene = before.scene
  wires (wire : Wire) : wire ∈ after.wires ↔ wire ∈ before.wires ∧ kept wire
  instances : after.instances = before.instances
  subscriptions : after.host.subscriptions = before.host.subscriptions

namespace Drops

variable {kept : Wire → Prop} {before middle after : Engine}

theorem refl (engine : Engine) : Drops (fun _ => True) engine engine :=
  ⟨rfl, fun _ => (and_iff_left trivial).symm, rfl, rfl⟩

theorem trans_kept (first : Drops kept before middle)
    (second : Drops (fun _ => True) middle after) :
    Drops kept before after :=
  ⟨second.scene.trans first.scene,
    fun wire => (second.wires wire).trans ((and_iff_left trivial).trans (first.wires wire)),
    second.instances.trans first.instances, second.subscriptions.trans first.subscriptions⟩

end Drops

theorem drops_teardown (engine : Engine) (nodes : List NodeId) :
    Drops (fun wire => ∀ handler ∈ engine.host.handlers.all, ∀ node ∈ nodes,
      wire.touches node = false) engine (engine.teardown nodes) where
  scene := scene_teardown engine nodes
  wires _ := mem_wires_teardown
  instances := by
    rw [teardown, foldl_tell]
    rfl
  subscriptions := by
    rw [teardown, foldl_tell]
    rfl

theorem drops_removeSheet (engine : Engine) (sheet : SheetId) :
    Drops (fun _ => True) engine (engine.removeSheet sheet) where
  scene := rfl
  wires wire := by
    have hlog : (engine.removeSheet sheet).log =
      engine.log ++ [.told (.removeSheet sheet) engine.scene] := rfl
    rw [wires_eq_foldl hlog, and_true]
    rfl
  instances := rfl
  subscriptions := rfl

/-- What was connected gives up the wires of the nodes that it owns. -/
theorem drops_releaseHost (engine : Engine) (c : ControllerId) (held : Controller) :
    Drops (fun wire => held.connected = true → ∀ handler ∈ engine.host.handlers.all,
      ∀ node ∈ engine.ownedNodes c, wire.touches node = false) engine
      (engine.releaseHost c held) := by
  simp only [releaseHost]
  have hnodes : Drops (fun wire => held.connected = true → ∀ handler ∈ engine.host.handlers.all,
      ∀ node ∈ engine.ownedNodes c, wire.touches node = false) engine
      (if held.connected then engine.teardown (engine.ownedNodes c) else engine) := by
    split
    next hconnected =>
      have hdrops := drops_teardown engine (engine.ownedNodes c)
      exact ⟨hdrops.scene, fun wire => (hdrops.wires wire).trans
        (and_congr_right fun _ => ⟨fun h _ => h, fun h => h hconnected⟩), hdrops.instances,
        hdrops.subscriptions⟩
    next hconnected =>
      exact ⟨rfl, fun wire => (and_iff_left fun h => absurd h hconnected).symm, rfl, rfl⟩
  generalize (if held.connected then engine.teardown (engine.ownedNodes c) else engine) = torn
    at hnodes ⊢
  have hsheets : Drops (fun _ => True) torn (held.stylesheet.toList.foldl removeSheet torn) :=
    List.foldlRecOn _ _ (.refl torn) fun state hstate sheet _ =>
      hstate.trans_kept (drops_removeSheet state sheet)
  have hobservers (state : Engine) : Drops (fun _ => True) state { state with
      host := held.observers.foldl (fun host observer => host.unobserve observer.2)
          state.host } := by
    obtain ⟨hscene, hsubscriptions⟩ := List.foldlRecOn (motive := fun (host : Host) =>
      ({ state with host := host } : Engine).scene = state.scene ∧
        host.subscriptions = state.host.subscriptions) held.observers
      (fun host observer => host.unobserve observer.2) ⟨rfl, rfl⟩ fun host h observer _ => h
    exact ⟨hscene, fun _ => (and_iff_left trivial).symm, rfl, hsubscriptions⟩
  exact (hnodes.trans_kept hsheets).trans_kept (hobservers _)

/-! ### Forgetting -/

/-- Forgetting a key in an instance forgets the ids that the key takes part in. -/
theorem mem_memo_forgetKey {j : InstanceId} {text : String} :
    text ∈ ((engine.forgetKey i key).inst j).memo ↔ text ∈ (engine.inst j).memo ∧
      ¬(i = j ∧ text ∈ (engine.inst j).interactionIdsFor key) := by
  have hinst : (engine.forgetKey i key).inst j =
      (engine.modifyInstance i (·.clearKey key)).inst j := rfl
  rw [hinst, inst_modifyInstance_eq]
  by_cases hi : i = j
  · by_cases hlength : j < engine.instances.length
    · rw [if_pos ⟨hi, hlength⟩, Instance.clearKey, List.mem_filter, decide_eq_true_eq,
        and_iff_right hi]
    · have hdefault := inst_eq_default (Nat.not_lt.mp hlength)
      rw [if_neg fun h => hlength h.2, hdefault]
      exact ⟨fun h => absurd h List.not_mem_nil, And.left⟩
  · rw [if_neg fun h => hi h.1]
    exact (and_iff_left fun h => hi h.1).symm

/-- One engine comes from another by forgetting in instances that ids of a key have been applied. -/
structure Clears (instances : List InstanceId) (key : String) (before after : Engine) : Prop where
  scene : after.scene = before.scene
  wires : after.wires = before.wires
  memo (j : InstanceId) (text : String) : text ∈ (after.inst j).memo ↔
    text ∈ (before.inst j).memo ∧
      ¬(j ∈ instances ∧ text ∈ (before.inst j).interactionIdsFor key)

theorem interactionIdsFor_eq {before after : Engine} (h : after.scene = before.scene)
    (i : InstanceId) (key : String) :
    (after.inst i).interactionIdsFor key = (before.inst i).interactionIdsFor key := by
  rw [Instance.interactionIdsFor, Instance.interactionIdsFor, graph_inst_eq, graph_inst_eq, h]

theorem clears_releaseKey (c : ControllerId) (key : String) (evict : Bool) (engine : Engine)
    (i : InstanceId) : Clears [i] key engine (releaseKey c key evict engine i) := by
  have hforget : Clears [i] key engine (engine.forgetKey i key) := by
    refine ⟨scene_forgetKey engine i key, ?_, fun j text => ?_⟩
    · have hlog : (engine.forgetKey i key).log = engine.log ++ [.forgot i key] := rfl
      rw [wires_eq_foldl hlog]
      rfl
    · rw [mem_memo_forgetKey, List.mem_singleton, eq_comm]
  simp only [releaseKey]
  split
  · have hquiet := (quiet_releaseController (engine.forgetKey i key) i key c).trans
      (quiet_unlistenKey _ i key)
    exact ⟨hquiet.scene.trans hforget.scene, hquiet.wires_eq.trans hforget.wires,
      fun j text => by rw [hquiet.memo, hforget.memo]⟩
  · exact hforget

theorem clears_foldl (c : ControllerId) (key : String) (evict : Bool) (instances : List InstanceId)
    (engine : Engine) :
    Clears instances key engine (instances.foldl (releaseKey c key evict) engine) := by
  induction instances generalizing engine with
  | nil => exact ⟨rfl, rfl, fun j text => by simp⟩
  | cons i rest ih =>
    have hfirst := clears_releaseKey c key evict engine i
    have hrest := ih (releaseKey c key evict engine i)
    refine ⟨hrest.scene.trans hfirst.scene, hrest.wires.trans hfirst.wires, fun j text => ?_⟩
    rw [List.foldl_cons, hrest.memo, hfirst.memo, interactionIdsFor_eq hfirst.scene, and_assoc,
      List.mem_singleton, List.mem_cons, or_and_right, not_or]

/-! ### Disconnecting -/

/-- One engine comes from another by disconnecting a controller from its key. -/
structure Parts (c : ControllerId) (key : String) (evict : Bool) (before after : Engine) :
    Prop where
  scene : after.scene = if evict then before.scene.withdraw c key else
    before.scene.setConnected c false
  wires (wire : Wire) : wire ∈ after.wires ↔ wire ∈ before.wires ∧
    ((before.scene.controller c).connected = true → ∀ handler ∈ before.host.handlers.all,
      ∀ node ∈ before.ownedNodes c, wire.touches node = false)
  memo (i : InstanceId) (text : String) : text ∈ (after.inst i).memo ↔
    text ∈ (before.inst i).memo ∧
      ¬(i ∈ before.instancesFor key ∧ text ∈ (before.inst i).interactionIdsFor key)

/-- The engine in which a controller has been released at the host, and nowhere else. -/
def releasedAtHost (engine : Engine) (c : ControllerId) (evict : Bool) : Engine :=
  (engine.modifyController c (Controller.released · evict)).releaseHost c (engine.controller c)

/-- What a seated scene says of a registered controller. -/
theorem registered_spec (hseated : engine.scene.Seated ground keys)
    (hregistered : engine.scene.registry.get? key = some c) :
    c < engine.controllers.length ∧ (engine.controller c).key = some key ∧
      (engine.controller c).node = ground.nodeOf key := by
  have hlength := hseated.lt_of_registered hregistered
  rw [scene, List.length_map] at hlength
  obtain ⟨connected, hcontroller⟩ := hseated.controller c key (hseated.registered key c hregistered)
  rw [scene_controller] at hcontroller
  exact ⟨hlength, congrArg Controller.Face.key hcontroller,
    congrArg Controller.Face.node hcontroller⟩

theorem disconnect_eq (hrunning : engine.running = true)
    (hkey : (engine.controller c).key = some key) (evict : Bool) :
    engine.disconnect c evict =
      let released := engine.releasedAtHost c evict
      let cleared := (released.instancesFor key).foldl (releaseKey c key evict) released
      if evict then (cleared.unregister key c).1 else cleared := by
  have hrunning' : (engine.modifyController c (Controller.released · evict)).running = true :=
    hrunning
  simp only [disconnect, hrunning', hkey, Bool.not_true, Bool.false_eq_true, if_false,
    releasedAtHost]

theorem disconnect_eq_of_keyless (hrunning : engine.running = true)
    (hkey : (engine.controller c).key = none) (evict : Bool) :
    engine.disconnect c evict = engine.releasedAtHost c evict := by
  have hrunning' : (engine.modifyController c (Controller.released · evict)).running = true :=
    hrunning
  simp only [disconnect, hrunning', hkey, Bool.not_true, Bool.false_eq_true, if_false,
    releasedAtHost]

theorem disconnect_eq_of_stopped (hstopped : engine.running = false) (evict : Bool) :
    engine.disconnect c evict = engine.modifyController c (Controller.released · evict) := by
  have hstopped' : (engine.modifyController c (Controller.released · evict)).running = false :=
    hstopped
  simp only [disconnect, hstopped', Bool.not_false, if_true]

/-- A disconnection does nothing to instances in an engine that has stopped, and for a controller
without a key. Otherwise it releases the key of the controller. -/
theorem disconnect_ind {P : Engine → Prop} {evict : Bool}
    (hstopped : engine.running = false →
      P (engine.modifyController c (Controller.released · evict)))
    (hkeyless : engine.running = true → (engine.controller c).key = none →
      P (engine.releasedAtHost c evict))
    (hkeyed : ∀ key, engine.running = true → (engine.controller c).key = some key →
      let released := engine.releasedAtHost c evict
      let cleared := (engine.instancesFor key).foldl (releaseKey c key evict) released
      P (if evict then (cleared.unregister key c).1 else cleared)) :
    P (engine.disconnect c evict) := by
  cases hrunning : engine.running with
  | false =>
    rw [disconnect_eq_of_stopped hrunning]
    exact hstopped hrunning
  | true =>
    cases hkey : (engine.controller c).key with
    | none =>
      rw [disconnect_eq_of_keyless hrunning hkey]
      exact hkeyless hrunning hkey
    | some key =>
      have hreleased : Releases engine (engine.releasedAtHost c evict) :=
        (calm_modifyController engine c _).steps.trans (releases_releaseHost ..)
      rw [disconnect_eq hrunning hkey]
      dsimp only
      rw [hreleased.instancesFor_eq]
      exact hkeyed key hrunning hkey

/-- The nodes that a controller owns do not depend on who is connected. -/
theorem ownedNodes_released (engine : Engine) (c : ControllerId) (evict : Bool) :
    (engine.modifyController c (Controller.released · evict)).ownedNodes c =
      engine.ownedNodes c := by
  have hreleased : ((engine.modifyController c (Controller.released · evict)).controller c).node =
        (engine.controller c).node ∧
      ((engine.modifyController c (Controller.released · evict)).controller c).useFirstChild =
        (engine.controller c).useFirstChild ∧
      ((engine.modifyController c (Controller.released · evict)).controller c).key =
        (engine.controller c).key := by
    rw [controller_modifyController_eq]
    split <;> exact ⟨rfl, rfl, rfl⟩
  simp only [ownedNodes, anchor, hreleased]
  rfl

/-- What a controller is released of at the host are the wires of the nodes that it owns. -/
theorem mem_wires_releasedAtHost (evict : Bool) {wire : Wire} :
    wire ∈ (engine.releasedAtHost c evict).wires ↔ wire ∈ engine.wires ∧
      ((engine.controller c).connected = true → ∀ handler ∈ engine.host.handlers.all,
        ∀ node ∈ engine.ownedNodes c, wire.touches node = false) := by
  rw [releasedAtHost, (drops_releaseHost ..).wires, ownedNodes_released]
  rfl

theorem inst_releasedAtHost (evict : Bool) (i : InstanceId) :
    (engine.releasedAtHost c evict).inst i = engine.inst i := by
  rw [inst, releasedAtHost, (drops_releaseHost ..).instances]
  rfl

/-- Releasing a controller at the host and its key in the instances. -/
theorem parts_cleared (engine : Engine) (c : ControllerId) (key : String) (evict : Bool) :
    let released := engine.releasedAtHost c evict
    Parts c key false engine
      ((released.instancesFor key).foldl (releaseKey c key evict) released) := by
  intro released
  have hhost : Drops _ (engine.modifyController c (Controller.released · evict)) released :=
    drops_releaseHost ..
  have hreleased : released.scene = engine.scene.setConnected c false :=
    hhost.scene.trans (scene_modifyController_setConnected fun _ => rfl)
  have hinstances : released.instancesFor key = engine.instancesFor key := by
    rw [instancesFor_eq, instancesFor_eq, hreleased]
    rfl
  have hclears := clears_foldl c key evict (engine.instancesFor key) released
  rw [hinstances]
  refine ⟨hclears.scene.trans hreleased, fun wire => ?_, fun i text => ?_⟩
  · rw [hclears.wires, mem_wires_releasedAtHost, scene_controller]
    rfl
  · rw [hclears.memo, inst_releasedAtHost]

/-- Disconnecting a controller that has a key softly. -/
theorem parts_disconnect_soft (hrunning : engine.running = true)
    (hkey : (engine.controller c).key = some key) :
    Parts c key false engine (engine.disconnect c false) := by
  rw [disconnect_eq hrunning hkey]
  exact parts_cleared engine c key false

/-- Disconnecting a registered controller. -/
theorem parts_disconnect (hseated : engine.scene.Seated ground keys)
    (hregistered : engine.scene.registry.get? key = some c) (evict : Bool) :
    Parts c key evict engine (engine.disconnect c evict) := by
  obtain ⟨-, hkey, -⟩ := registered_spec hseated hregistered
  cases evict with
  | false => exact parts_disconnect_soft hseated.running hkey
  | true =>
    have hcleared := parts_cleared engine c key true
    rw [disconnect_eq hseated.running hkey]
    dsimp only at hcleared ⊢
    generalize ((engine.releasedAtHost c true).instancesFor key).foldl (releaseKey c key true)
      (engine.releasedAtHost c true) = cleared at hcleared
    have hregistry : cleared.registry = engine.registry := congrArg Scene.registry hcleared.scene
    have hget : cleared.registry.get? key = some c := hregistry ▸ hregistered
    rw [if_pos rfl, unregister, if_pos hget]
    refine ⟨?_, hcleared.wires, hcleared.memo⟩
    have hscene := hcleared.scene
    rw [if_neg Bool.false_ne_true] at hscene
    rw [if_pos rfl, Scene.withdraw, ← hscene]
    have herase : cleared.registry.erase key = engine.scene.registry.erase key := by
      rw [hregistry]
      rfl
    rw [herase]
    rfl

/-- A soft disconnection keeps the controller registered. -/
theorem registered_disconnect (hseated : engine.scene.Seated ground keys)
    (hregistered : engine.scene.registry.get? key = some c) :
    (engine.disconnect c false).scene.registry.get? key = some c := by
  rw [(parts_disconnect hseated hregistered false).scene]
  exact hregistered

section Parts

variable {evict : Bool} {after : Engine}

theorem Parts.queryState (h : Parts c key evict engine after) :
    after.scene.queryState = engine.scene.queryState := by
  rw [h.scene]
  cases evict <;> rfl

/-- After a disconnection the key is not connected, and every other key is as it was. -/
theorem Parts.connectedController? (h : Parts c key evict engine after)
    (hseated : engine.scene.Seated ground keys)
    (hregistered : engine.scene.registry.get? key = some c) (other : String) :
    after.scene.connectedController? other =
      if other = key then none else engine.scene.connectedController? other := by
  rw [h.scene]
  cases evict with
  | false => exact hseated.connectedController?_setConnected hregistered false other
  | true => exact hseated.connectedController?_withdraw hregistered other

theorem Parts.isConnected_iff (h : Parts c key evict engine after)
    (hseated : engine.scene.Seated ground keys)
    (hregistered : engine.scene.registry.get? key = some c) (other : String) :
    after.scene.IsConnected other ↔ engine.scene.IsConnected other ∧ other ≠ key := by
  rw [Scene.IsConnected, Scene.IsConnected, h.connectedController? hseated hregistered]
  split
  next heq => simp [heq]
  next hne => simp [hne]

theorem Parts.orderly (h : Parts c key evict engine after)
    (horderly : engine.scene.Orderly ground configs keys)
    (hregistered : engine.scene.registry.get? key = some c) :
    after.scene.Orderly ground configs keys := by
  rw [h.scene]
  cases evict with
  | false => exact horderly.setConnected hregistered false
  | true => exact horderly.withdraw hregistered

end Parts

/-- A variant touches a key exactly if its text is among the ids of the key. -/
theorem touches_iff_mem_interactionIdsFor (horderly : engine.scene.Orderly ground configs keys)
    (hindices : KeyTemplate.indices key = []) (hi : configs[i]? = some config) {variant : Variant}
    (hdeclares : config.Declares variant) :
    variant.Touches key ↔
      i ∈ engine.instancesFor key ∧ variant.text ∈ (engine.inst i).interactionIdsFor key := by
  have hids (graphNode : GraphNode)
      (hnode : (Graph.ofConfig config).nodes.get? key = some graphNode) :
      (engine.inst i).interactionIdsFor key =
        graphNode.allInteractionIds.map InteractionId.encode := by
    rw [Instance.interactionIdsFor, graph_inst_eq, horderly.inst_eq hi,
      Graph.get?_of_indices hindices, hnode]
    refine List.map_congr_left fun id _ => ?_
    rw [hindices, InteractionId.interpolate_nil]
  constructor
  · intro htouches
    obtain ⟨graphNode, hnode⟩ := hdeclares.exists_node htouches
    refine ⟨(mem_instancesFor_iff horderly hindices).mpr ⟨config, hi, by rw [hnode]; rfl⟩, ?_⟩
    obtain ⟨ci, hci, hrule, heffect⟩ := hdeclares
    rw [hids graphNode hnode]
    refine List.mem_map_of_mem ((Graph.mem_allInteractionIds_iff hnode).mpr ⟨ci, hci, .inl ?_⟩)
    exact ⟨variant.effect, heffect, rfl, hrule ▸ htouches⟩
  · rintro ⟨hmem, htext⟩
    obtain ⟨config', hi', hsome⟩ := (mem_instancesFor_iff horderly hindices).mp hmem
    obtain rfl := Option.some.inj (hi.symm.trans hi')
    obtain ⟨graphNode, hnode⟩ := Option.isSome_iff_exists.mp hsome
    have hplain := horderly.plain config (List.mem_of_getElem? hi)
    rw [hids graphNode hnode] at htext
    obtain ⟨id, hid, htext⟩ := List.mem_map.mp htext
    obtain ⟨ci, hci, ⟨effect, heffect, rfl, hkey⟩ | ⟨sequence, hsequence, -⟩⟩ :=
      (Graph.mem_allInteractionIds_iff hnode).mp hid
    · have hother : config.Declares ⟨ci.rule, effect⟩ := ⟨ci, hci, rfl, heffect⟩
      exact (hother.touches_iff hdeclares (hplain.ids _ _ hother hdeclares htext) key).mp hkey
    · rw [hplain.sequences ci hci] at hsequence
      cases hsequence

/-! ### What is still listened to -/

/-- One engine comes from another by ending at most the subscriptions on behalf of a key. -/
structure Quells (interest : Interest) (key : String) (before after : Engine) : Prop where
  attuned : before.Attuned interest → after.Attuned interest
  listeners (i : InstanceId) (listener : ConditionListener) :
    listener ∈ (before.inst i).listeners → listener.source ≠ key → listener.target ≠ key →
      listener ∈ (after.inst i).listeners

namespace Quells

variable {interest : Interest} {before middle after : Engine}

theorem of_deaf (h : Deaf before after) : Quells interest key before after :=
  ⟨h.attuned, fun i _ hmem _ _ => (h.listeners i).symm ▸ hmem⟩

theorem trans (first : Quells interest key before middle)
    (second : Quells interest key middle after) :
    Quells interest key before after :=
  ⟨fun h => second.attuned (first.attuned h), fun i listener hmem hsource htarget =>
    second.listeners i listener (first.listeners i listener hmem hsource htarget) hsource htarget⟩

end Quells

theorem deaf_forgetKey (engine : Engine) (i : InstanceId) (key : String) :
    Deaf engine (engine.forgetKey i key) := by
  have hclear := deaf_modifyInstance engine i (·.clearKey key) fun _ => rfl
  exact ⟨rfl, hclear.listeners⟩

theorem deaf_releaseController (engine : Engine) (i : InstanceId) (key : String)
    (c : ControllerId) :
    Deaf engine (engine.releaseController i key c).1 :=
  releaseController_ind (.refl _) fun _ => deaf_modifyInstance engine i _ fun _ => rfl

theorem entries_unsubscribeAll (engine : Engine) (listeners : List ConditionListener) :
    (engine.unsubscribeAll listeners).host.subscriptions =
      { engine.host.subscriptions with
        entries := engine.host.subscriptions.entries.filter fun entry =>
          entry.1 ∉ listeners.map ConditionListener.token } := by
  rw [← ListenerSet.foldl_unsubscribe, List.foldl_map]
  exact (List.foldl_hom Host.subscriptions fun _ _ => rfl).symm

theorem mem_listeners_unlistenKey {j : InstanceId} {listener : ConditionListener} :
    listener ∈ ((engine.unlistenKey i key).inst j).listeners ↔
      listener ∈ (engine.inst j).listeners ∧
        ¬(i = j ∧ (listener.source = key ∨ listener.target = key)) := by
  have hinst (gone : List ConditionListener) :
      (engine.unsubscribeAll gone).inst j = engine.inst j := rfl
  have hlength (gone : List ConditionListener) :
      (engine.unsubscribeAll gone).instances.length = engine.instances.length := rfl
  rw [unlistenKey, inst_modifyInstance_eq, hinst, hlength]
  by_cases hi : i = j
  · by_cases hlt : j < engine.instances.length
    · rw [if_pos ⟨hi, hlt⟩, List.mem_filter]
      simp [hi]
    · rw [if_neg fun h => hlt h.2, inst_eq_default (Nat.not_lt.mp hlt)]
      exact ⟨fun h => absurd h List.not_mem_nil, And.left⟩
  · rw [if_neg fun h => hi h.1]
    exact (and_iff_left fun h => hi h.1).symm

/-- Ending the subscriptions on behalf of a key ends no other subscription. -/
theorem quells_unlistenKey (interest : Interest) (engine : Engine) (i : InstanceId) (key : String) :
    Quells interest key engine (engine.unlistenKey i key) := by
  have hsubscriptions : (engine.unlistenKey i key).host.subscriptions =
      { engine.host.subscriptions with
        entries := engine.host.subscriptions.entries.filter fun entry =>
          entry.1 ∉ ((engine.inst i).listeners.filter fun listener =>
            decide (listener.source = key) || decide (listener.target = key)).map
              ConditionListener.token } := entries_unsubscribeAll engine _
  refine ⟨fun h => ⟨?_, ?_, ?_, ?_⟩, fun j listener hmem hsource htarget => ?_⟩
  · exact fun j listener hmem => h.covered j listener (mem_listeners_unlistenKey.mp hmem).1
  · intro j listener hmem
    obtain ⟨hmem, hkept⟩ := mem_listeners_unlistenKey.mp hmem
    rw [hsubscriptions]
    refine List.mem_filter.mpr ⟨h.subscribed j listener hmem, decide_eq_true fun hgone => ?_⟩
    obtain ⟨other, hother, htoken⟩ := List.mem_map.mp hgone
    obtain ⟨hother, hconcerns⟩ := List.mem_filter.mp hother
    obtain ⟨rfl, rfl⟩ := h.distinct i j other listener hother hmem htoken
    rw [Bool.or_eq_true, decide_eq_true_eq, decide_eq_true_eq] at hconcerns
    exact hkept ⟨rfl, hconcerns⟩
  · intro j listener hmem
    rw [hsubscriptions]
    exact h.fresh j listener (mem_listeners_unlistenKey.mp hmem).1
  · exact fun j j' listener listener' hmem hmem' => h.distinct j j' listener listener'
      (mem_listeners_unlistenKey.mp hmem).1 (mem_listeners_unlistenKey.mp hmem').1
  · exact mem_listeners_unlistenKey.mpr ⟨hmem, fun hand => hand.2.elim hsource htarget⟩

theorem deaf_unregister (engine : Engine) (key : String) (c : ControllerId) :
    Deaf engine (engine.unregister key c).1 :=
  unregister_ind (.refl _) fun _ => ⟨rfl, fun _ => rfl⟩

theorem deaf_releasedAtHost (engine : Engine) (c : ControllerId) (evict : Bool) :
    Deaf engine (engine.releasedAtHost c evict) := by
  have hhost := drops_releaseHost (engine.modifyController c (Controller.released · evict)) c
    (engine.controller c)
  exact ⟨hhost.subscriptions, fun i => by rw [inst_releasedAtHost]⟩

/-- A soft disconnection ends no subscription. -/
theorem deaf_disconnect (hseated : engine.scene.Seated ground keys)
    (hregistered : engine.scene.registry.get? key = some c) :
    Deaf engine (engine.disconnect c false) := by
  rw [disconnect_eq hseated.running (registered_spec hseated hregistered).2.1]
  exact List.foldlRecOn _ _ (deaf_releasedAtHost engine c false) fun state hstate i _ =>
    hstate.trans (deaf_forgetKey state i key)

theorem quells_disconnect (interest : Interest) (hseated : engine.scene.Seated ground keys)
    (hregistered : engine.scene.registry.get? key = some c) (evict : Bool) :
    Quells interest key engine (engine.disconnect c evict) := by
  cases evict with
  | false => exact .of_deaf (deaf_disconnect hseated hregistered)
  | true =>
    have hcleared (instances : List InstanceId) : Quells interest key engine
        (instances.foldl (releaseKey c key true) (engine.releasedAtHost c true)) :=
      List.foldlRecOn _ _ (.of_deaf (deaf_releasedAtHost engine c true)) fun state hstate i _ =>
        (hstate.trans (.of_deaf ((deaf_forgetKey state i key).trans
          (deaf_releaseController _ i key c)))).trans (quells_unlistenKey interest _ i key)
    rw [disconnect_eq hseated.running (registered_spec hseated hregistered).2.1]
    exact (hcleared _).trans (.of_deaf (deaf_unregister _ key c))

end Engine

end InteractionBinding
