import InteractionBinding.Proofs.Lifecycle.Destroying
import InteractionBinding.Proofs.Wiring.AtMostOnce
/-!
# Instances beside one that ends

An instance that ends disconnects the controllers that it lists, also where other instances list
them, and so takes their wires from the others as well. All else of the others stays
(`Engine.run_destroyInstance`): what they list and listen for, every controller that the instance
does not list, and every wire that no node of a controller listed by the instance takes part in.
An id of another instance may be applied again only if a controller that has been disconnected takes
part in it.
-/

namespace InteractionBinding.Engine

variable {engine before middle after : Engine} {c d : ControllerId} {i j : InstanceId}
  {text : String} {wire : Wire}

/-! ### Wires on behalf of an instance -/

/-- The wires that are live on behalf of an instance. -/
def wiresOf (engine : Engine) (i : InstanceId) : List Wire := Event.liveWiresOf i engine.events

/-- A wire is live exactly if it is live on behalf of some instance. -/
theorem mem_wires_iff : wire ∈ engine.wires ↔ ∃ i, wire ∈ engine.wiresOf i := by
  simp only [wires, wiresOf, Event.liveWiresOf]
  induction engine.events using List.reverseRecOn with
  | nil => simp [Event.liveWires]
  | append_singleton events event ih =>
    have hunheard (hwires : ∀ wires, Event.wire wires event = wires) :
        wire ∈ Event.liveWires (events ++ [event]) ↔
          ∃ i, wire ∈ Event.liveWires ((events ++ [event]).filter (Event.concerns i)) := by
      simp only [Event.liveWires, List.foldl_append, List.filter_append, List.foldl_cons,
        List.foldl_nil, List.filter_cons, List.filter_nil, hwires] at ih ⊢
      refine ih.trans (exists_congr fun i => ?_)
      split <;> simp only [List.foldl_cons, List.foldl_nil, hwires]
    cases event with
    | remove handler node =>
      simp only [Event.liveWires, List.foldl_append, List.filter_append, List.foldl_cons,
        List.foldl_nil, List.filter_cons, List.filter_nil, Event.concerns, if_true, Event.wire,
        List.mem_filter] at ih ⊢
      rw [ih, exists_and_right]
    | add j handler source target plan params context refusal =>
      cases refusal with
      | some => exact hunheard fun _ => rfl
      | none =>
        let added : Event := .add j handler source target plan params context none
        have hadded (wires : List Wire) : wire ∈ Event.wire wires added ↔
            wire ∈ wires ∨ wire = ⟨source, target, plan.id⟩ := Event.mem_wire_add
        have hof (i : InstanceId) :
            wire ∈ Event.liveWires ((events ++ [added]).filter (Event.concerns i)) ↔
              wire ∈ Event.liveWires (events.filter (Event.concerns i)) ∨
                i = j ∧ wire = ⟨source, target, plan.id⟩ := by
          rw [List.filter_append, List.filter_singleton, Event.liveWires, List.foldl_append]
          by_cases hi : i = j
          · simp only [added, Event.concerns, hi, decide_true, cond_true, true_and]
            exact hadded _
          · simp [added, Event.concerns, hi, Event.liveWires]
        refine Iff.trans ?_ (exists_congr hof).symm
        rw [exists_or, exists_eq_left, ← ih, Event.liveWires, List.foldl_append]
        exact hadded _
    | addSequence | effectState | insertSheet | removeSheet => exact hunheard fun _ => rfl

theorem wiresOf_eq_of_log (h : after.log = before.log) : after.wiresOf i = before.wiresOf i := by
  rw [wiresOf, wiresOf, events, events, h]

theorem wiresOf_eq_foldl {entries : List Entry} (h : after.log = before.log ++ entries) :
    after.wiresOf i = ((entries.filterMap Entry.event?).filter (Event.concerns i)).foldl Event.wire
      (before.wiresOf i) := by
  rw [wiresOf, events_eq_append h, Event.liveWiresOf, Event.liveWires, List.filter_append,
    List.foldl_append]
  rfl

/-- Entries that add nothing take from the wires of an instance those that they tear down. -/
theorem mem_wiresOf_of_log {entries : List Entry} (hlog : after.log = before.log ++ entries)
    (hadds : ∀ entry ∈ entries, entry.isAccepted = false) :
    wire ∈ after.wiresOf i ↔
      wire ∈ before.wiresOf i ∧ ∀ entry ∈ entries, entry.tears wire = false := by
  rw [wiresOf_eq_foldl hlog]
  generalize before.wiresOf i = wires
  clear hlog
  induction entries generalizing wires with
  | nil => simp
  | cons entry rest ih =>
    obtain ⟨hentry, hrest⟩ := List.forall_mem_cons.mp hadds
    have hstep : wire ∈ (([entry].filterMap Entry.event?).filter (Event.concerns i)).foldl
        Event.wire wires ↔ wire ∈ wires ∧ entry.tears wire = false := by
      cases entry with
      | forgot => exact (and_iff_left rfl).symm
      | told event scene =>
        cases event with
        | remove handler node =>
          change wire ∈ wires.filter _ ↔ _
          rw [List.mem_filter, Bool.not_eq_true']
          rfl
        | add k handler source target plan params context refusal =>
          cases refusal with
          | none => cases hentry
          | some refusal =>
            refine Iff.trans ?_ (and_iff_left rfl).symm
            simp only [List.filterMap_cons, List.filterMap_nil, Entry.event?, List.filter_cons]
            split <;> rfl
        | addSequence k =>
          refine Iff.trans ?_ (and_iff_left rfl).symm
          simp only [List.filterMap_cons, List.filterMap_nil, Entry.event?, List.filter_cons]
          split <;> rfl
        | effectState | insertSheet | removeSheet => exact (and_iff_left rfl).symm
    rw [← List.singleton_append, List.filterMap_append, List.filter_append, List.foldl_append,
      ih hrest, hstep, List.singleton_append, List.forall_mem_cons, and_assoc]

/-- A disconnection takes from the wires of every instance those of the nodes that it tears down. -/
theorem mem_wiresOf_disconnect_soft :
    wire ∈ (engine.disconnect c false).wiresOf j ↔
      wire ∈ engine.wiresOf j ∧ engine.Spares c wire := by
  cases hrunning : engine.running with
  | false =>
    have hlog : (engine.disconnect c false).log = engine.log := by
      rw [disconnect_eq_of_stopped hrunning]
      rfl
    rw [wiresOf_eq_of_log hlog, Spares, hrunning]
    exact (and_iff_left fun h => absurd h Bool.false_ne_true).symm
  | true =>
    obtain ⟨rest, hlog, htrails⟩ := tells_disconnect (c := c) hrunning false
    rw [List.append_assoc] at hlog
    have hrest : ∀ entry ∈ rest, entry.isAccepted = false ∧ entry.tears wire = false := by
      intro entry hmem
      have htrail := htrails entry hmem
      cases entry with
      | forgot => exact ⟨rfl, rfl⟩
      | told event scene =>
        cases event with
        | removeSheet => exact ⟨rfl, rfl⟩
        | _ => exact htrail.elim
    rw [mem_wiresOf_of_log hlog, Spares, forall_prop_of_true hrunning]
    · refine and_congr_right fun _ => ?_
      rw [List.forall_mem_append, and_iff_left fun entry hmem => (hrest entry hmem).2]
      split
      next hconnected =>
        rw [forall_prop_of_true hconnected]
        refine ⟨fun h handler hhandler node hnode => ?_, fun h entry hmem => ?_⟩
        · exact h _ (mem_removals_iff.mpr ⟨handler, hhandler, node, hnode, rfl⟩)
        · obtain ⟨handler, hhandler, node, hnode, rfl⟩ := mem_removals_iff.mp hmem
          exact h handler hhandler node hnode
      next hconnected =>
        exact ⟨fun _ h => absurd h hconnected, fun _ _ hmem => absurd hmem List.not_mem_nil⟩
    · rw [List.forall_mem_append]
      refine ⟨fun entry hmem => ?_, fun entry hmem => (hrest entry hmem).1⟩
      split at hmem
      · obtain ⟨handler, -, node, -, rfl⟩ := mem_removals_iff.mp hmem
        rfl
      · cases hmem

/-! ### What disconnections do not change -/

/-- What a controller owns depends on the document, the live instances and what it is known by. -/
theorem ownedNodes_congr (hdom : after.host.dom = before.host.dom)
    (hlive : after.live = before.live) (hgraph : ∀ i, (after.inst i).graph = (before.inst i).graph)
    (hnode : (after.controller c).node = (before.controller c).node)
    (hfirst : (after.controller c).useFirstChild = (before.controller c).useFirstChild)
    (hkey : (after.controller c).key = (before.controller c).key) :
    after.ownedNodes c = before.ownedNodes c := by
  simp only [ownedNodes, anchor, instancesFor, hdom, hlive, hgraph, hnode, hfirst, hkey]

/-- Two engines are akin in what owned nodes and the ids of a key depend on: the document, the
handlers, whom controllers are known as, and the live instances and their graphs. -/
structure Akin (before after : Engine) : Prop where
  running : after.running = before.running
  dom : after.host.dom = before.host.dom
  handlers : after.host.handlers = before.host.handlers
  live : after.live = before.live
  graph (i : InstanceId) : (after.inst i).graph = (before.inst i).graph
  node (c : ControllerId) : (after.controller c).node = (before.controller c).node
  useFirstChild (c : ControllerId) :
    (after.controller c).useFirstChild = (before.controller c).useFirstChild
  key (c : ControllerId) : (after.controller c).key = (before.controller c).key

namespace Akin

theorem spares_iff (h : Akin before after)
    (hconnected : (after.controller c).connected = (before.controller c).connected) :
    after.Spares c wire ↔ before.Spares c wire := by
  rw [Spares, Spares, h.running, hconnected, h.handlers,
    ownedNodes_congr h.dom h.live h.graph (h.node c) (h.useFirstChild c) (h.key c)]

theorem frees_iff (h : Akin before after) : after.Frees c j text ↔ before.Frees c j text := by
  simp only [Frees, instancesFor, Instance.interactionIdsFor, h.running, h.key, h.live, h.graph]

end Akin

theorem akin_disconnect (engine : Engine) (c : ControllerId) (evict : Bool) :
    Akin engine (engine.disconnect c evict) := by
  obtain ⟨hdom, hlive, hinstances⟩ := (releases_disconnect engine c evict).frame
  refine ⟨running_disconnect .., hdom, handlers_disconnect .., hlive,
    graph_eq_of_instances hinstances, fun d => ?_, fun d => ?_, fun d => ?_⟩ <;>
  · rw [controller_disconnect]
    split <;> rfl

theorem akin_condemning (engine : Engine) (i : InstanceId) :
    Akin engine (engine.condemning i) where
  running := rfl
  dom := dom_condemning
  handlers := handlers_condemning
  live := rfl
  graph := graph_condemning
  node _ := rfl
  useFirstChild _ := rfl
  key _ := rfl

/-! ### Disconnecting one after the other -/

/-- What disconnections, one after the other, leave of wires and of what has been applied. -/
theorem foldl_disconnect_spec (gone : List ControllerId) (engine : Engine) (j : InstanceId) :
    let after := gone.foldl (fun engine c => engine.disconnect c false) engine
    (∀ wire, wire ∈ after.wiresOf j ↔
        wire ∈ engine.wiresOf j ∧ ∀ c ∈ gone, engine.Spares c wire) ∧
      (∀ text, text ∈ (after.inst j).memo ↔
        text ∈ (engine.inst j).memo ∧ ∀ c ∈ gone, ¬engine.Frees c j text) ∧
      (after.inst j).listeners = (engine.inst j).listeners := by
  induction gone generalizing engine with
  | nil => simp
  | cons c rest ih =>
    intro after
    obtain ⟨hwires, hmemo, hlisteners⟩ := ih (engine.disconnect c false)
    have hakin := akin_disconnect engine c false
    refine ⟨fun wire => ?_, fun text => ?_, hlisteners.trans ?_⟩
    · refine (hwires wire).trans ?_
      rw [mem_wiresOf_disconnect_soft, List.forall_mem_cons, and_assoc]
      refine and_congr_right fun _ => and_congr_right fun hspares => ?_
      refine forall₂_congr fun d _ => ?_
      by_cases hd : d = c
      · -- the second time, the controller is not connected any more
        subst hd
        refine iff_of_true (fun _ hconnected => ?_) hspares
        rw [(discharges_disconnect engine d).released d rfl] at hconnected
        cases hconnected
      · refine hakin.spares_iff ?_
        rw [(discharges_disconnect engine c).kept d hd]
    · refine (hmemo text).trans ?_
      rw [mem_memo_disconnect_iff, List.forall_mem_cons, and_assoc]
      exact and_congr_right fun _ => and_congr_right fun _ =>
        forall₂_congr fun d _ => not_congr hakin.frees_iff
    · exact (deaf_disconnect_of_not_evicts fun _ => not_evicts_soft).listeners j

/-! ### The end of an instance -/

/-- What an instance that ends leaves of another one. -/
structure Outlives (i j : InstanceId) (before after : Engine) : Prop where
  graph : (after.inst j).graph = (before.inst j).graph
  destroyed : (after.inst j).destroyed = (before.inst j).destroyed
  controllers : (after.inst j).controllers = (before.inst j).controllers
  listeners : (after.inst j).listeners = (before.inst j).listeners
  memo (text : String) : text ∈ (after.inst j).memo ↔
    text ∈ (before.inst j).memo ∧ ∀ c, before.Stands i c → ¬before.Frees c j text
  wires (wire : Wire) : wire ∈ after.wiresOf j ↔
    wire ∈ before.wiresOf j ∧ ∀ c, before.Stands i c → before.Spares c wire

theorem inst_modifyInstance_of_ne {f : Instance → Instance} (hne : j ≠ i) :
    (engine.modifyInstance i f).inst j = engine.inst j := by
  rw [inst_modifyInstance_eq, if_neg fun h => hne h.1.symm]

/-- What the end of an instance leaves of the others. -/
theorem outlives_destroyInstance (hne : j ≠ i) :
    Outlives i j engine (engine.destroyInstance i) := by
  cases hdestroyed : (engine.inst i).destroyed with
  | true =>
    have hnone (c : ControllerId) : ¬engine.Stands i c := fun h =>
      Bool.false_ne_true (h.1.symm.trans hdestroyed)
    rw [destroyInstance, if_pos hdestroyed]
    exact ⟨rfl, rfl, rfl, rfl, fun _ => (and_iff_left fun c h => absurd h (hnone c)).symm,
      fun _ => (and_iff_left fun c h => absurd h (hnone c)).symm⟩
  | false =>
    rw [destroyInstance_of_standing hdestroyed]
    obtain ⟨hwires, hmemo, hlisteners⟩ :=
      foldl_disconnect_spec (engine.inst i).controllers.values (engine.condemning i) j
    have hsoftens := softens_foldl_disconnect (engine.inst i).controllers.values
      (engine.condemning i)
    generalize (engine.inst i).controllers.values.foldl
      (fun engine c => engine.disconnect c false) (engine.condemning i) = released
      at hwires hmemo hlisteners hsoftens ⊢
    have hcondemned : (engine.condemning i).inst j = engine.inst j :=
      inst_modifyInstance_of_ne hne
    have hretired : (released.retiring i).inst j = released.inst j := inst_modifyInstance_of_ne hne
    have hstands (c : ControllerId) :
        c ∈ (engine.inst i).controllers.values ↔ engine.Stands i c :=
      KeyMap.mem_values_iff.trans (and_iff_right hdestroyed).symm
    have hakin := akin_condemning engine i
    refine ⟨?_, ?_, ?_, ?_, fun text => ?_, fun wire => ?_⟩
    · rw [hretired, graph_eq_of_instances hsoftens.instances, hcondemned]
    · rw [hretired, destroyed_eq hsoftens.instances, hcondemned]
    · rw [hretired, hsoftens.table, hcondemned]
    · rw [hretired, hlisteners, hcondemned]
    · rw [hretired, hmemo, hcondemned]
      exact and_congr_right fun _ => forall_congr' fun c =>
        imp_congr (hstands c) (not_congr hakin.frees_iff)
    · have hlog : (released.retiring i).wiresOf j = released.wiresOf j := rfl
      rw [hlog, hwires]
      exact and_congr_right fun _ => forall_congr' fun c =>
        imp_congr (hstands c) (hakin.spares_iff rfl)

/-- After any run, an instance that ends is live no more, and the controllers that it lists are
disconnected. All other controllers stay as they are. Another instance keeps its graph, what it
lists and what it listens for, what it keeps as applied and no controller of the instance frees, and
the wires that the nodes of connected controllers of the instance spare. -/
theorem run_destroyInstance (host : Host) (options : EngineOptions) (operations : List Operation)
    (i : InstanceId) :
    let engine := (start host options).run operations
    let after := (engine.perform (.destroyInstance i)).1
    (after.registry = engine.registry ∧ after.live = engine.live.filter (· ≠ i)) ∧
      Discharges (engine.Stands i) engine after ∧
      ∀ j ≠ i, (after.inst j).destroyed = (engine.inst j).destroyed ∧
        (after.inst j).graph = (engine.inst j).graph ∧
        (after.inst j).controllers = (engine.inst j).controllers ∧
        (after.inst j).listeners = (engine.inst j).listeners ∧
        (∀ text ∈ (engine.inst j).memo, (∀ c, engine.Stands i c → ¬engine.Frees c j text) →
          text ∈ (after.inst j).memo) ∧
        ∀ wire ∈ engine.wiresOf j, (∀ c, engine.Stands i c → engine.Spares c wire) →
          wire ∈ after.wiresOf j := by
  intro engine after
  have hends : Ends [i] engine after :=
    ends_destroyInstance (tidy_run (tidy_start host options) operations) i
  refine ⟨⟨hends.registry, hends.live.trans (List.filter_congr fun j _ => ?_)⟩,
    hends.discharges.congr fun c => ?_, fun j hj => ?_⟩
  · simp
  · simp
  · have houtlives : Outlives i j engine after := outlives_destroyInstance hj
    exact ⟨houtlives.destroyed, houtlives.graph, houtlives.controllers, houtlives.listeners,
      fun text hmemo hkept => (houtlives.memo text).mpr ⟨hmemo, hkept⟩,
      fun wire hwire hspared => (houtlives.wires wire).mpr ⟨hwire, hspared⟩⟩

/-- The bell rings at the door. -/
def doorConfig : Config := Config.ofInteractions
  [(Interaction.ofTrigger "bell" .click).withEffect ((Effect.byId "ring").on "door")]

/-- The switch and the bell light the lamp. -/
def lampConfig : Config := Config.ofInteractions
  [(Interaction.ofTrigger "switch" .click).withEffect ((Effect.byId "light").on "lamp"),
    (Interaction.ofTrigger "bell" .click).withEffect ((Effect.byId "light").on "lamp")]

def houseOperations : List Operation :=
  [.create doorConfig, .create lampConfig, .addNode 2 "door", .addNode 4 "lamp",
    .addNode 3 "switch", .addNode 1 "bell"]

/-- The end of the instance of the door disconnects the bell and the door. The switch still lights
the lamp. -/
theorem run_destroyInstance_door :
    let engine := (start .bare .standard).run houseOperations
    let after := (engine.perform (.destroyInstance 0)).1
    let wire : Wire := ⟨3, 4, ⟨"lamp", "light", 0⟩⟩
    (engine.Stands 0 3 ∧ ¬engine.Stands 0 1 ∧ wire ∈ engine.wiresOf 1 ∧
        ∀ c, engine.Stands 0 c → engine.Spares c wire) ∧
      (after.controller 3).connected = false ∧ after.controller 1 = engine.controller 1 ∧
      wire ∈ after.wiresOf 1 := by
  intro engine after wire
  have hstands (c : ControllerId) (h : engine.Stands 0 c) : c = 0 ∨ c = 3 := by
    obtain ⟨-, key, hlisted⟩ := h
    have hvalues : (engine.inst 0).controllers.values = [3, 0] := by decide +kernel
    have hmem := KeyMap.mem_values_iff.mpr ⟨key, hlisted⟩
    rw [hvalues] at hmem
    simpa [or_comm] using hmem
  have hbell : engine.Stands 0 3 := ⟨by decide +kernel, "bell", by decide +kernel⟩
  have hlamp : ¬engine.Stands 0 1 := fun h => by
    rcases hstands 1 h with h | h <;> cases h
  have hspares (c : ControllerId) (h : engine.Stands 0 c) : engine.Spares c wire := by
    rcases hstands c h with rfl | rfl <;> exact fun _ _ => by decide +kernel
  obtain ⟨-, hdischarges, hothers⟩ := run_destroyInstance .bare .standard houseOperations 0
  obtain ⟨-, -, -, -, -, hwires⟩ := hothers 1 (by decide)
  refine ⟨⟨hbell, hlamp, by decide +kernel, hspares⟩, ?_, hdischarges.kept 1 hlamp,
    hwires wire (by decide +kernel) hspares⟩
  rw [hdischarges.released 3 hbell]
  rfl

/-- The bell is listed by the instance of the lamp as well. Once the instance of the door has ended,
the bell is not connected any more, and does not light the lamp. -/
theorem destroyInstance_disconnects_bell :
    let engine := (start .bare .standard).run houseOperations
    let after := (engine.perform (.destroyInstance 0)).1
    let wire : Wire := ⟨1, 4, ⟨"lamp", "light", 1⟩⟩
    (1 ∈ engine.live ∧ (engine.inst 1).controllers.get? "bell" = some 3 ∧
        (engine.controller 3).connected = true ∧ wire ∈ engine.wiresOf 1) ∧
      (1 ∈ after.live ∧ (after.inst 1).controllers.get? "bell" = some 3 ∧
        (after.controller 1).connected = true ∧ (after.controller 3).connected = false ∧
        wire ∉ after.wiresOf 1) := by
  decide +kernel

end InteractionBinding.Engine
