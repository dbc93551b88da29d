import InteractionBinding.Config.Builder
import InteractionBinding.Document
import InteractionBinding.Proofs.Wiring.Justified
import InteractionBinding.Proofs.Wiring.Releasing
/-!
# Updating a controller

An update is a soft disconnection followed by a connection. The disconnection ends every wire that
touches a node of the controller, whoever the wire serves, and lets only the ids of the
controller's own key be applied again. The connection wires on behalf of the controller alone. So a
wire outlives the update if the nodes of the controller spare it, or if the controller wires it
anew (`Engine.run_update`).

The wire of two other controllers that ends at a node of the updated one, such as an item of its
list, is neither: it is lost (`Engine.mem_wires_update_iff`).
-/

namespace InteractionBinding.Engine

variable {engine before middle after : Engine} {occasion : Occasion} {c : ControllerId}
  {i : InstanceId} {wire : Wire}

/-- No node of a connected controller takes part in a wire, as far as there are handlers to tell. -/
def Spares (engine : Engine) (c : ControllerId) (wire : Wire) : Prop :=
  engine.running = true → (engine.controller c).connected = true →
    ∀ handler ∈ engine.host.handlers.all, ∀ node ∈ engine.ownedNodes c, wire.touches node = false

/-- A soft disconnection of a controller lets an id be applied again in an instance. -/
def Frees (engine : Engine) (c : ControllerId) (i : InstanceId) (text : String) : Prop :=
  engine.running = true ∧ ∃ key, (engine.controller c).key = some key ∧
    i ∈ engine.instancesFor key ∧ text ∈ (engine.inst i).interactionIdsFor key

/-- An entry adds a wire: a handler has been asked for it and has accepted. -/
def Adds (wire : Wire) : Entry → Prop
  | .told (.add _ _ source target plan _ _ none) _ => wire = ⟨source, target, plan.id⟩
  | _ => False

/-- An entry offers a sequence, or asks for a wire with a warrant that has a controller on one of
its sides. -/
def Serves (occasion : Occasion) (c : ControllerId) : Entry → Prop
  | .told (.add i handler source target plan params context _) scene =>
    ∃ warrant, Justifies occasion scene warrant i handler source target plan params context ∧
      (warrant.source = c ∨ warrant.target = c)
  | .told (.addSequence ..) _ => True
  | _ => False

/-- An entry asks for a wire on behalf of a live instance only, and under an id that the instance
keeps as applied only if the id has been freed. -/
def Renews (engine : Engine) (freed : InstanceId → String → Prop) : Entry → Prop
  | .told (.add i _ _ _ plan _ _ _) _ =>
    i ∈ engine.live ∧ (plan.id.encode ∈ (engine.inst i).memo → freed i plan.id.encode)
  | _ => True

theorem Renews.mono {freed freed' : InstanceId → String → Prop} {entry : Entry}
    (h : Renews after freed entry) (hlive : after.live = before.live)
    (hfreed : ∀ i text, text ∈ (before.inst i).memo →
      (text ∈ (after.inst i).memo → freed i text) → freed' i text) :
    Renews before freed' entry := by
  cases entry with
  | told event scene =>
    cases event with
    | add => exact ⟨hlive ▸ h.1, fun hmemo => hfreed _ _ hmemo h.2⟩
    | _ => trivial
  | forgot => trivial

/-! ### Wiring on behalf of a controller -/

theorem mem_wires_of_serves {entries : List Entry} (hlog : after.log = before.log ++ entries)
    (hserves : ∀ entry ∈ entries, Serves occasion c entry) :
    wire ∈ after.wires ↔ wire ∈ before.wires ∨ ∃ entry ∈ entries, Adds wire entry := by
  rw [wires_eq_foldl hlog]
  generalize before.wires = wires
  clear hlog
  induction entries generalizing wires with
  | nil => simp
  | cons entry rest ih =>
    obtain ⟨hentry, hrest⟩ := List.forall_mem_cons.mp hserves
    have hstep : wire ∈ ([entry].filterMap Entry.event?).foldl Event.wire wires ↔
        wire ∈ wires ∨ Adds wire entry := by
      cases entry with
      | forgot => exact hentry.elim
      | told event scene =>
        cases event with
        | add j handler source target plan params context refusal =>
          cases refusal with
          | none => exact @Event.mem_wire_add wires j handler source target plan params context wire
          | some => exact (or_iff_left id).symm
        | addSequence => exact (or_iff_left id).symm
        | _ => exact hentry.elim
    rw [← List.singleton_append, List.filterMap_append, List.foldl_append, ih hrest, hstep,
      List.singleton_append, or_assoc]
    simp only [List.mem_cons, exists_eq_or_imp]

/-- One engine comes from another by wiring on behalf of a controller, under ids that have not been
applied. -/
structure WiresFor (occasion : Occasion) (c : ControllerId) (before after : Engine) : Prop where
  log : Tells (fun entry => Serves occasion c entry ∧ Renews before (fun _ _ => False) entry)
    before after
  live : after.live = before.live
  memo (i : InstanceId) (text : String) :
    text ∈ (before.inst i).memo → text ∈ (after.inst i).memo

namespace WiresFor

theorem of_calm (h : Calm before after) : WiresFor occasion c before after :=
  ⟨.silent h.log, h.live, fun i _ hmem => (h.memo i).symm ▸ hmem⟩

theorem refl (engine : Engine) : WiresFor occasion c engine engine := .of_calm (.refl engine)

theorem trans (first : WiresFor occasion c before middle)
    (second : WiresFor occasion c middle after) : WiresFor occasion c before after where
  log := first.log.trans (second.log.mono fun _ ⟨hserves, hrenews⟩ =>
    ⟨hserves, hrenews.mono first.live fun i text hmemo hnew => hnew (first.memo i text hmemo)⟩)
  live := second.live.trans first.live
  memo i text hmem := second.memo i text (first.memo i text hmem)

end WiresFor

/-- A full pass wires on behalf of a controller if it selects new candidates of the controller. -/
theorem Pass.Wires.wiresFor {selected : List Candidate}
    (h : (Pass.mk i none).Wires selected before after)
    (hselected : ∀ candidate ∈ selected,
      (∃ warrant, Pass.Warranted occasion before.scene ⟨i, none⟩ candidate warrant) ∧
        (candidate.source = c ∨ candidate.target = c) ∧
        candidate.memoKey ∉ (before.inst i).memo) :
    WiresFor occasion c before after := by
  obtain ⟨offers, hoffers, hextends⟩ := h
  refine ⟨.of_extends hextends fun event hevent => ?_, congrArg Scene.live hextends.scene,
    fun j text hmem => (hextends.memo j text).mpr (.inl hmem)⟩
  obtain ⟨offer, hoffer, rfl⟩ := List.mem_map.mp hevent
  obtain ⟨hmem, hproposal⟩ := hoffers.candidate_mem hoffer
  obtain ⟨⟨warrant, hwarrant⟩, hside, hnew⟩ := hselected _ (List.mem_reverse.mp hmem)
  refine ⟨⟨warrant, hwarrant.justifies hproposal, ?_⟩, hwarrant.live, hnew⟩
  rwa [hwarrant.candidate] at hside

theorem WiresSequences.wiresFor {P : String → Prop} (h : WiresSequences i P before after) :
    WiresFor occasion c before after := by
  obtain ⟨events, marked, hextends, hevents, -⟩ := h
  refine ⟨.of_extends hextends fun event hevent => ?_, congrArg Scene.live hextends.scene,
    fun j text hmem => (hextends.memo j text).mpr (.inl hmem)⟩
  have hsequence := hevents event hevent
  cases event with
  | addSequence => exact ⟨trivial, trivial⟩
  | _ => exact absurd hsequence id

theorem compiled_congr (h : after.scene = before.scene) (hcompiled : before.Compiled) :
    after.Compiled := by
  intro j
  obtain ⟨config, hgraph⟩ := hcompiled j
  exact ⟨config, (graph_eq_of_instances (congrArg Scene.instances h) j).trans hgraph⟩

/-- Resolving a key in an instance wires on behalf of the controller of the key. -/
theorem wiresFor_resolveIn {key : String} (hcompiled : engine.Compiled)
    (hentitled : Entitled occasion engine.scene ⟨i, none⟩ c key) :
    WiresFor occasion c engine (resolveIn c key engine i) := by
  obtain ⟨middle, later, hout, hin, hsequences⟩ := resolveIn_spec c key engine i
  refine (hout.wiresFor fun candidate hmem => ⟨?_, ?_, ?_⟩).trans
    ((hin.wiresFor fun candidate hmem => ⟨?_, ?_, ?_⟩).trans hsequences.wiresFor)
  · exact Pass.exists_warranted_of_mem_outgoingOf hcompiled hentitled hmem
  · obtain ⟨_, _, _, -, -, -, hmade⟩ := Pass.mem_outgoingOf hmem
    obtain ⟨_, -, -, -, -, rfl⟩ := Pass.outgoing?_eq_some.mp hmade
    exact .inl rfl
  · exact Pass.not_mem_memo_of_mem_outgoingOf rfl hmem
  · exact Pass.exists_warranted_of_mem_incomingOf (compiled_congr hout.scene hcompiled)
      (hout.scene ▸ hentitled) hmem
  · obtain ⟨_, _, -, -, hmade⟩ := Pass.mem_incomingOf hmem
    obtain ⟨_, _, -, -, -, -, rfl⟩ := Pass.incoming?_eq_some.mp hmade
    exact .inr rfl
  · exact Pass.not_mem_memo_of_mem_incomingOf rfl hmem

/-- Resolving a key in instances that know it wires on behalf of the controller of the key. -/
theorem wiresFor_foldl_resolveIn {key : String} (htidy : engine.Tidy) (hcompiled : engine.Compiled)
    (hconnected : (engine.controller c).connected = true)
    (hkeyed : (engine.controller c).key = some key) {instances : List InstanceId}
    (hinstances : instances ⊆ engine.instancesFor key) :
    WiresFor occasion c engine (instances.foldl (resolveIn c key) engine) := by
  refine (List.foldlRecOn (motive := fun state : Engine =>
    WiresFor occasion c engine state ∧ state.scene = engine.scene)
    instances _ ⟨.refl _, rfl⟩ fun state hstate i hmem => ?_).1
  obtain ⟨hwires, hscene⟩ := hstate
  have hentitled : Entitled occasion state.scene ⟨i, none⟩ c key := by
    rw [hscene]
    exact entitled_of_mem_instancesFor htidy hconnected hkeyed (hinstances hmem)
      fun _ hscope => nomatch hscope
  have hcompiled' : state.Compiled := compiled_congr hscene hcompiled
  exact ⟨hwires.trans (wiresFor_resolveIn hcompiled' hentitled),
    (scene_resolveIn c key state i).trans hscene⟩

theorem wiresFor_resolve {key : String} (htidy : engine.Tidy) (hcompiled : engine.Compiled)
    (hconnected : (engine.controller c).connected = true)
    (hkeyed : (engine.controller c).key = some key) :
    WiresFor occasion c engine (engine.resolve c key).1 := by
  have hregister : WiresFor occasion c engine (engine.register key c).1 :=
    .of_calm ⟨rfl, rfl, fun _ => rfl, rfl, rfl⟩
  have htidy' : (engine.register key c).1.Tidy := htidy
  have hcompiled' : (engine.register key c).1.Compiled := hcompiled
  exact hregister.trans
    (wiresFor_foldl_resolveIn htidy' hcompiled' hconnected hkeyed (List.Subset.refl _))

/-- A connection wires on behalf of the controller that connects. -/
theorem wiresFor_connect (htidy : engine.Tidy) (hcompiled : engine.Compiled) (c : ControllerId)
    (requested : Option String) : WiresFor occasion c engine (engine.connect c requested).1 := by
  refine connect_ind (.refl engine) fun key _ hc _ _ => ?_
  have hkeyed : WiresFor occasion c engine (engine.connecting c key) :=
    .of_calm (calm_modifyController ..)
  have hcompiled' : (engine.connecting c key).Compiled := hcompiled
  have hself := controller_connecting_self hc key
  exact hkeyed.trans (wiresFor_resolve htidy hcompiled' (by rw [hself]) (by rw [hself]))

/-! ### Soft disconnections -/

theorem mem_wires_disconnect_soft :
    wire ∈ (engine.disconnect c false).wires ↔ wire ∈ engine.wires ∧ engine.Spares c wire := by
  cases hrunning : engine.running with
  | false =>
    rw [disconnect_eq_of_stopped hrunning, Spares, hrunning]
    exact (and_iff_left fun h => absurd h Bool.false_ne_true).symm
  | true =>
    rw [Spares, forall_prop_of_true hrunning]
    cases hkey : (engine.controller c).key with
    | some key =>
      rw [(parts_disconnect_soft hrunning hkey).wires, scene_controller]
      rfl
    | none => rw [disconnect_eq_of_keyless hrunning hkey, mem_wires_releasedAtHost]

/-- A soft disconnection keeps every id as applied that it does not free. -/
theorem frees_of_not_mem_memo {text : String} (hmemo : text ∈ (engine.inst i).memo)
    (h : text ∉ ((engine.disconnect c false).inst i).memo) : engine.Frees c i text := by
  cases hrunning : engine.running with
  | false =>
    rw [disconnect_eq_of_stopped hrunning] at h
    exact absurd hmemo h
  | true =>
    cases hkey : (engine.controller c).key with
    | some key =>
      rw [(parts_disconnect_soft hrunning hkey).memo, not_and_not_right] at h
      exact ⟨hrunning, key, hkey, h hmemo⟩
    | none =>
      rw [disconnect_eq_of_keyless hrunning hkey, inst_releasedAtHost] at h
      exact absurd hmemo h

/-! ### Updates -/

/-- What an update of a tidy engine keeps of the wires, and what it adds to them. -/
theorem update_spec (htidy : engine.Tidy) (hcompiled : engine.Compiled) (c : ControllerId) :
    ∃ entries, (engine.update c).1.log = (engine.disconnect c false).log ++ entries ∧
      (∀ entry ∈ entries, Serves occasion c entry ∧ Renews engine (engine.Frees c) entry) ∧
      ∀ wire, wire ∈ (engine.update c).1.wires ↔
        wire ∈ engine.wires ∧ engine.Spares c wire ∨ ∃ entry ∈ entries, Adds wire entry := by
  have hreleases := releases_disconnect engine c false
  have hreleased : Evolution occasion engine (engine.disconnect c false) :=
    hreleases.evolves.evolution htidy
  obtain ⟨entries, hlog, hentries⟩ :=
    (wiresFor_connect hreleased.tidy (Steps.compiled hreleased.steps hcompiled) c none).log
  refine ⟨entries, hlog, fun entry hmem => ?_, fun wire => ?_⟩
  · obtain ⟨hserves, hrenews⟩ := hentries entry hmem
    exact ⟨hserves, hrenews.mono hreleases.frame.2.1 fun i text => frees_of_not_mem_memo⟩
  · have hserves : ∀ entry ∈ entries, Serves occasion c entry := fun entry hmem =>
      (hentries entry hmem).1
    exact (mem_wires_of_serves hlog hserves).trans (or_congr_left mem_wires_disconnect_soft)

/-- A wire of other controllers, whose id live instances keep as applied and the controller does not
free, outlives an update exactly if the nodes of the controller spare it. -/
theorem mem_wires_update_iff (htidy : engine.Tidy) (hcompiled : engine.Compiled) (c : ControllerId)
    (hkept : ∀ i ∈ engine.live, wire.id.encode ∈ (engine.inst i).memo ∧
      ¬engine.Frees c i wire.id.encode) :
    wire ∈ (engine.update c).1.wires ↔ wire ∈ engine.wires ∧ engine.Spares c wire := by
  obtain ⟨entries, -, hentries, hwires⟩ :=
    @update_spec engine (engine.occasion (.update c)) htidy hcompiled c
  rw [hwires, or_iff_left]
  rintro ⟨entry, hmem, hadds⟩
  have hrenews := (hentries entry hmem).2
  cases entry with
  | forgot => exact hadds
  | told event scene =>
    cases event with
    | add i handler source target plan params context refusal =>
      cases refusal with
      | some => exact hadds
      | none =>
        obtain rfl : wire = ⟨source, target, plan.id⟩ := hadds
        obtain ⟨hlive, hfreed⟩ := hrenews
        obtain ⟨hmemo, hkept⟩ := hkept i hlive
        exact hkept (hfreed hmemo)
    | _ => exact hadds

/-- After any run, an update of a controller keeps exactly the wires that the nodes of the controller
spare. What it adds to them is asked for on behalf of the controller, under ids that have not been
applied or take part with the key of the controller. -/
theorem run_update (host : Host) (options : EngineOptions) (operations : List Operation)
    (c : ControllerId) :
    let engine := (start host options).run operations
    ∃ entries, (engine.update c).1.log = (engine.disconnect c false).log ++ entries ∧
      (∀ entry ∈ entries, Serves (engine.occasion (.update c)) c entry ∧
        Renews engine (engine.Frees c) entry) ∧
      ∀ wire, wire ∈ (engine.update c).1.wires ↔
        wire ∈ engine.wires ∧ engine.Spares c wire ∨ ∃ entry ∈ entries, Adds wire entry :=
  update_spec (tidy_run (tidy_start host options) operations)
    (compiled_run (tidy_start host options) (compiled_start host options) operations) c

-- The item of a list is a controller of its own. An update of the list ends its wire for good.
example :
    let config := Config.ofInteractions
      [((Interaction.ofTrigger "list" .click).withList ".items" (some ".item")).withEffect
          ((Effect.byId "mark").on "list"),
        (Interaction.ofTrigger "item" .click).withEffect ((Effect.byId "open").on "panel")]
    let document := (((Document.empty.put 1 none none [] .empty).put 2 (some 1) none ["items"]
      .empty).put 3 (some 2) none ["item"] .empty).put 4 none none [] .empty
    let engine := ((start { Host.bare with dom := document.dom } .standard).create config).1.run
      [.addNode 1 "list", .addNode 4 "panel", .addNode 3 "item"]
    engine.wires = [⟨3, 1, ⟨"list", "mark", 0⟩⟩, ⟨3, 4, ⟨"panel", "open", 1⟩⟩] ∧
      (engine.update 0).1.wires = [⟨3, 1, ⟨"list", "mark", 0⟩⟩] := by
  decide +kernel

end InteractionBinding.Engine
