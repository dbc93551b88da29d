import InteractionBinding.Proofs.Lifecycle.Covering
import InteractionBinding.Proofs.Subscriptions.Observations
/-!
# Destroying an engine

Destroying an engine ends every live instance and releases everyone whom the engine tracks in the
registry or in the table of a live instance (`Engine.destroy_spec`). Nothing is registered or live
afterwards, and the host holds no subscription of the engine; what is still observed is observed by
controllers that were not tracked. If everyone connected is registered, nobody stays connected, and
nothing stays wired (`Engine.run_destroyed`). A controller that has been replaced under its key may
not be tracked any more, and then outlives the end of the engine.
-/

namespace InteractionBinding.Engine

open scoped List

variable {engine before middle after : Engine} {c : ControllerId} {i : InstanceId} {key : String}

/-! ### Releasing controllers -/

/-- Some controllers are released softly, and the others stay as they are. -/
structure Discharges (gone : ControllerId → Prop) (before after : Engine) : Prop where
  released (c : ControllerId) : gone c → after.controller c = (before.controller c).released false
  kept (c : ControllerId) : ¬gone c → after.controller c = before.controller c

namespace Discharges

variable {gone gone' : ControllerId → Prop}

theorem of_controllers (h : after.controllers = before.controllers) :
    Discharges (fun _ => False) before after := by
  refine ⟨fun _ h => h.elim, fun c _ => ?_⟩
  rw [controller, h]
  rfl

theorem congr (h : Discharges gone before after) (hiff : ∀ c, gone c ↔ gone' c) :
    Discharges gone' before after :=
  ⟨fun c hc => h.released c ((hiff c).mpr hc),
    fun c hc => h.kept c fun hgone => hc ((hiff c).mp hgone)⟩

theorem trans (first : Discharges gone before middle) (second : Discharges gone' middle after) :
    Discharges (fun c => gone c ∨ gone' c) before after := by
  refine ⟨fun c hc => ?_, fun c hc => ?_⟩
  · by_cases hsecond : gone' c
    · rw [second.released c hsecond]
      by_cases hfirst : gone c
      · rw [first.released c hfirst]
        rfl
      · rw [first.kept c hfirst]
    · rw [second.kept c hsecond, first.released c (hc.resolve_right hsecond)]
  · rw [second.kept c fun h => hc (.inr h), first.kept c fun h => hc (.inl h)]

end Discharges

theorem discharges_disconnect (engine : Engine) (c : ControllerId) :
    Discharges (· = c) engine (engine.disconnect c false) := by
  refine ⟨fun other heq => ?_, fun other hne => ?_⟩
  · subst heq
    rw [controller_disconnect]
    split
    · rfl
    next hlength =>
      rw [controller_eq_default (Nat.not_lt.mp fun h => hlength ⟨rfl, h⟩)]
      rfl
  · rw [controller_disconnect, if_neg fun h => hne h.1.symm]

theorem discharges_foldl_disconnect (gone : List ControllerId) (engine : Engine) :
    Discharges (· ∈ gone) engine
      (gone.foldl (fun engine c => engine.disconnect c false) engine) := by
  induction gone generalizing engine with
  | nil => exact (Discharges.of_controllers rfl).congr fun c => by simp
  | cons c rest ih =>
    exact ((discharges_disconnect engine c).trans (ih _)).congr fun other => List.mem_cons.symm

/-! ### Ending instances -/

/-- An instance that has not ended lists a controller. -/
def Stands (engine : Engine) (i : InstanceId) (c : ControllerId) : Prop :=
  (engine.inst i).destroyed = false ∧ ∃ key, (engine.inst i).controllers.get? key = some c

/-- Some instances come to their end: they are live no more, and whoever they list is released. -/
structure Ends (gone : List InstanceId) (before after : Engine) : Prop where
  registry : after.registry = before.registry
  live : after.live = before.live.filter (· ∉ gone)
  stands (i : InstanceId) (c : ControllerId) : after.Stands i c ↔ before.Stands i c ∧ i ∉ gone
  discharges : Discharges (fun c => ∃ i ∈ gone, before.Stands i c) before after

theorem ends_nil (engine : Engine) : Ends [] engine engine where
  registry := rfl
  live := by simp
  stands i c := (and_iff_left List.not_mem_nil).symm
  discharges := (Discharges.of_controllers rfl).congr fun c => by simp

theorem Ends.trans {gone gone' : List InstanceId} (first : Ends gone before middle)
    (second : Ends gone' middle after) : Ends (gone ++ gone') before after where
  registry := second.registry.trans first.registry
  live := by
    rw [second.live, first.live, List.filter_filter]
    refine List.filter_congr fun i _ => ?_
    simp [Bool.and_comm]
  stands i c := by
    rw [second.stands, first.stands, List.mem_append, not_or, and_assoc]
  discharges := by
    refine (first.discharges.trans second.discharges).congr fun c => ⟨?_, ?_⟩
    · rintro (⟨i, hi, hstands⟩ | ⟨i, hi, hstands⟩)
      · exact ⟨i, List.mem_append_left _ hi, hstands⟩
      · exact ⟨i, List.mem_append_right _ hi, ((first.stands i c).mp hstands).1⟩
    · rintro ⟨i, hi, hstands⟩
      by_cases hfirst : i ∈ gone
      · exact .inl ⟨i, hfirst, hstands⟩
      · have hsecond := (List.mem_append.mp hi).resolve_left hfirst
        exact .inr ⟨i, hsecond, (first.stands i c).mpr ⟨hstands, hfirst⟩⟩

/-- An instance that does not exist lists nobody. -/
theorem Stands.lt (h : engine.Stands i c) : i < engine.instances.length := by
  by_contra hlength
  obtain ⟨-, key, hlisted⟩ := h
  rw [inst_eq_default (Nat.not_lt.mp hlength)] at hlisted
  cases hlisted

theorem stands_condemning {j : InstanceId} :
    (engine.condemning i).Stands j c ↔ engine.Stands j c ∧ j ∉ [i] := by
  have hinst : (engine.condemning i).inst j = (engine.modifyInstance i Instance.condemned).inst j :=
    rfl
  rw [Stands, hinst, inst_modifyInstance_eq, List.mem_singleton]
  split
  next hended =>
    exact ⟨fun h => Bool.noConfusion h.1, fun h => absurd hended.1.symm h.2⟩
  next hother =>
    exact (and_iff_left_of_imp fun h heq => hother ⟨heq.symm, Stands.lt h⟩).symm

theorem Softens.stands_iff {gone : List ControllerId} (h : Softens gone before after) :
    after.Stands i c ↔ before.Stands i c := by
  rw [Stands, Stands, destroyed_eq h.instances, h.table]

theorem stands_retiring {j : InstanceId} : (engine.retiring i).Stands j c ↔ engine.Stands j c := by
  have hinst : (engine.retiring i).inst j =
      (engine.modifyInstance i fun inst => { inst with memo := [] }).inst j := rfl
  rw [Stands, hinst, inst_modifyInstance_eq]
  split <;> rfl

/-- The end of an instance releases whoever it lists. -/
theorem ends_destroyInstance (htidy : engine.Tidy) (i : InstanceId) :
    Ends [i] engine (engine.destroyInstance i) := by
  cases hdestroyed : (engine.inst i).destroyed with
  | true =>
    have hnone (c : ControllerId) : ¬engine.Stands i c := fun h =>
      Bool.false_ne_true (h.1.symm.trans hdestroyed)
    rw [destroyInstance, if_pos hdestroyed]
    refine ⟨rfl, ?_, fun j c => ?_, (Discharges.of_controllers rfl).congr fun c => ?_⟩
    · have hout : ∀ j ∈ engine.live, j ∉ [i] := fun j hj hmem => by
        obtain rfl := List.mem_singleton.mp hmem
        exact Bool.false_ne_true ((htidy j hj).symm.trans hdestroyed)
      exact (List.filter_eq_self.mpr fun j hj => decide_eq_true (hout j hj)).symm
    · refine (and_iff_left_of_imp fun h hmem => ?_).symm
      obtain rfl := List.mem_singleton.mp hmem
      exact hnone c h
    · simp [hnone]
  | false =>
    rw [destroyInstance_of_standing hdestroyed]
    have hsoftens := softens_foldl_disconnect (engine.inst i).controllers.values
      (engine.condemning i)
    have hreleased := discharges_foldl_disconnect (engine.inst i).controllers.values
      (engine.condemning i)
    generalize (engine.inst i).controllers.values.foldl
      (fun engine c => engine.disconnect c false) (engine.condemning i) = released
      at hsoftens hreleased ⊢
    refine ⟨hsoftens.registry, ?_, fun j c => ?_,
      ⟨fun c hc => hreleased.released c ?_, fun c hc => hreleased.kept c fun hmem => hc ?_⟩⟩
    · have hlive : released.live = engine.live := hsoftens.live
      rw [← hlive]
      exact List.filter_congr fun j _ => by simp
    · rw [stands_retiring, hsoftens.stands_iff, stands_condemning]
    · obtain ⟨j, hj, -, key, hlisted⟩ := hc
      obtain rfl := List.mem_singleton.mp hj
      exact KeyMap.mem_values_iff.mpr ⟨key, hlisted⟩
    · exact ⟨i, List.mem_singleton_self i, hdestroyed, KeyMap.mem_values_iff.mp hmem⟩

theorem ends_foldl_destroyInstance (htidy : engine.Tidy) (gone : List InstanceId) :
    Ends gone engine (gone.foldl destroyInstance engine) := by
  induction gone generalizing engine with
  | nil => exact ends_nil engine
  | cons i rest ih =>
    have hevolves : Evolves .none engine (engine.destroyInstance i) := evolves_destroyInstance ..
    exact (ends_destroyInstance htidy i).trans (ih (hevolves.evolution htidy).tidy)

/-! ### Whom an engine tracks -/

/-- A controller is known to the registry, or to a live instance. -/
def Tracks (engine : Engine) (c : ControllerId) : Prop :=
  (∃ key, engine.registry.get? key = some c) ∨
    ∃ i ∈ engine.live, ∃ key, (engine.inst i).controllers.get? key = some c

/-- Destroying an engine releases whoever it tracks, and leaves nothing registered or live. -/
theorem destroy_spec (htidy : engine.Tidy) :
    engine.destroy.registry = .empty ∧ engine.destroy.live = [] ∧
      Discharges engine.Tracks engine engine.destroy := by
  have hends := ends_foldl_destroyInstance htidy engine.live
  rw [destroy_eq]
  generalize engine.live.foldl destroyInstance engine = ended at hends ⊢
  have hsoftens := softens_foldl_disconnect ended.registry.values { ended with registry := .empty }
  have hreleased : Discharges (· ∈ ended.registry.values) ended ended.forgetting :=
    have h := discharges_foldl_disconnect ended.registry.values { ended with registry := .empty }
    ⟨h.released, h.kept⟩
  have hlive : ended.live = [] := by
    rw [hends.live]
    exact List.filter_eq_nil_iff.mpr fun i hi => by simpa using hi
  refine ⟨hsoftens.registry, hsoftens.live.trans hlive,
    (hends.discharges.trans hreleased).congr fun c => ?_⟩
  rw [KeyMap.mem_values_iff, hends.registry, or_comm]
  exact or_congr_right (exists_congr fun i => and_congr_right fun hi => and_iff_right (htidy i hi))

/-- If everyone connected is registered, nobody stays connected. -/
theorem Discharges.connected_eq_false (h : Discharges engine.Tracks engine after)
    (henrolled : engine.scene.Enrolled) (c : ControllerId) :
    (after.controller c).connected = false := by
  by_cases htracks : engine.Tracks c
  · rw [h.released c htracks]
    rfl
  · rw [h.kept c htracks, ← Bool.not_eq_true]
    intro hconnected
    have hface : (engine.scene.controller c).connected = true := by
      rw [scene_controller]
      exact hconnected
    obtain ⟨key, -, hregistered⟩ := henrolled.connected c hface
    exact htracks (.inl ⟨key, hregistered⟩)

/-! ### Instances that have ended -/

/-- Every instance is live or has ended. -/
def Housed (engine : Engine) : Prop :=
  ∀ i < engine.instances.length, i ∈ engine.live ∨ (engine.inst i).destroyed = true

namespace Housed

theorem of_frame (h : before.Housed) (hlength : after.instances.length = before.instances.length)
    (hlive : after.live = before.live)
    (hdestroyed : ∀ i, (before.inst i).destroyed = true → (after.inst i).destroyed = true) :
    after.Housed := fun i hi =>
  (h i (hlength ▸ hi)).imp (fun hmem => hlive ▸ hmem) (hdestroyed i)

theorem of_instances (h : before.Housed) (hlive : after.live = before.live)
    (hinstances : after.scene.instances = before.scene.instances) : after.Housed :=
  h.of_frame (length_instances_eq hinstances) hlive fun i hi => (destroyed_eq hinstances i).trans hi

theorem modifyInstance (h : engine.Housed) (i : InstanceId) {f : Instance → Instance}
    (hf : ∀ inst, inst.destroyed = true → (f inst).destroyed = true) :
    (engine.modifyInstance i f).Housed := by
  refine h.of_frame (List.length_modify ..) rfl fun j hj => ?_
  rw [inst_modifyInstance_eq]
  split
  · exact hf _ hj
  · exact hj

end Housed

theorem housed_start (host : Host) (options : EngineOptions) : (start host options).Housed :=
  fun _ hi => absurd hi (Nat.not_lt_zero _)

/-- Deeds never lose an instance that has not ended. -/
theorem Deed.housed (h : Deed before after) (hhoused : before.Housed) : after.Housed := by
  have hhost {state : Engine} (host : Host) (hstate : state.Housed) :
      Housed { state with host := host } := hstate
  cases h with
  | move h =>
    exact hhoused.of_instances (congrArg Scene.live h.scene) (congrArg Scene.instances h.scene)
  | answer | enlist | arrive | amend | lose => exact hhoused
  | release c evict =>
    have hscene := scene_releasedAtHost before c evict
    exact hhoused.of_instances ((congrArg Scene.live hscene).trans rfl)
      ((congrArg Scene.instances hscene).trans rfl)
  | file i f => exact hhoused.modifyInstance i fun _ => id
  | forget i key => exact hhoused.modifyInstance i fun _ => id
  | unlisten i key => exact (hhost _ hhoused).modifyInstance i fun _ => id
  | condemn i => exact hhost _ (hhoused.modifyInstance i fun _ _ => rfl)
  | found config =>
    intro i hi
    rw [List.length_append, List.length_singleton, Nat.lt_succ_iff_lt_or_eq] at hi
    rcases hi with hi | rfl
    · refine (hhoused i hi).imp (List.mem_append_left _) fun hend => ?_
      rw [inst, getD_append_singleton, if_neg (Nat.ne_of_lt hi)]
      exact hend
    · exact .inl (List.mem_append_right _ (List.mem_singleton_self _))
  | retire i hended =>
    intro j hj
    have hkept : ((before.modifyInstance i fun inst => { inst with memo := [] }).inst j).destroyed =
        (before.inst j).destroyed := by
      rw [inst_modifyInstance_eq]
      split <;> rfl
    have hj' : j < before.instances.length := Nat.lt_of_lt_of_eq hj (List.length_modify ..)
    by_cases hji : j = i
    · exact .inr (hkept.trans (hji ▸ hended (hji ▸ hj')))
    · exact (hhoused j hj').imp (fun hmem => List.mem_filter.mpr ⟨hmem, decide_eq_true hji⟩)
        hkept.trans

/-- If no instance is live, none records a subscription. -/
theorem recorded_eq_nil {others : List Ticket} (haccounted : engine.Accounted others)
    (hhoused : engine.Housed) (hlive : engine.live = []) : engine.recorded = [] := by
  refine List.flatMap_eq_nil_iff.mpr fun inst hmem => ?_
  obtain ⟨i, hi, rfl⟩ := List.getElem_of_mem hmem
  rw [← inst_eq_getElem hi]
  have hended := (hhoused i hi).resolve_left fun h => by
    rw [hlive] at h
    cases h
  rw [Instance.tickets, (haccounted.inOrder i).ended hended, List.map_nil]

/-! ### What handlers hold -/

/-- Every node that a handler has been handed has been dropped by all handlers since. -/
def Dropped (engine : Engine) : Prop :=
  ∀ front event scene back, engine.log = front ++ .told event scene :: back →
    ∀ node ∈ event.handed, ∀ handler ∈ scene.handlers.all,
      ∃ later, .told (.remove handler node) later ∈ back

/-- If nobody is connected, everything that is covered has been torn down. -/
theorem Covered.dropped (h : engine.Covered)
    (hnobody : ∀ c, (engine.controller c).connected = false) : engine.Dropped := by
  intro front event scene back hlog node hnode handler hhandler
  obtain ⟨hhands, hcovered⟩ := h front event scene back hlog
  obtain ⟨c, hhands⟩ := hhands node hnode
  rcases hcovered c node hhands with hstays | htorn
  · have hconnected := hstays.connected
    rw [scene_controller] at hconnected
    exact absurd (hconnected.symm.trans (hnobody c)) Bool.true_eq_false.mp
  · exact htorn.removes hhandler

/-- A log has an event that hands the source of a wire to a handler, and no teardown of a node of the
wire after it. -/
def KeepsWired (wire : Wire) (entries : List Entry) : Prop :=
  ∃ front event scene back, entries = front ++ .told event scene :: back ∧
    wire.source ∈ event.handed ∧ ∀ handler node later,
      .told (.remove handler node) later ∈ back → wire.touches node = false

theorem KeepsWired.concat {wire : Wire} {entries : List Entry} (h : KeepsWired wire entries)
    {entry : Entry} (hentry : ∀ handler node later, entry = .told (.remove handler node) later →
      wire.touches node = false) : KeepsWired wire (entries ++ [entry]) := by
  obtain ⟨front, event, scene, back, rfl, hsource, hkept⟩ := h
  refine ⟨front, event, scene, back ++ [entry], by simp, hsource, fun handler node later hmem => ?_⟩
  rcases List.mem_append.mp hmem with hmem | hmem
  · exact hkept handler node later hmem
  · exact hentry handler node later (List.mem_singleton.mp hmem).symm

/-- A live wire is kept wired by the log. -/
theorem keepsWired_of_mem {entries : List Entry} {wire : Wire}
    (h : wire ∈ Event.liveWires (entries.filterMap Entry.event?)) : KeepsWired wire entries := by
  induction entries using List.reverseRecOn with
  | nil => cases h
  | append_singleton entries entry ih =>
    rw [List.filterMap_append, Event.liveWires, List.foldl_append] at h
    cases entry with
    | forgot i key => exact (ih h).concat fun _ _ _ heq => by cases heq
    | told event scene =>
      have hlive : wire ∈ Event.wire (Event.liveWires (entries.filterMap Entry.event?)) event := h
      cases event with
      | add i handler source target plan params context refusal =>
        cases refusal with
        | some refusal => exact (ih hlive).concat fun _ _ _ heq => by cases heq
        | none =>
          rcases Event.mem_wire_add.mp hlive with hlive | rfl
          · exact (ih hlive).concat fun _ _ _ heq => by cases heq
          · exact ⟨entries, _, scene, [], rfl, List.mem_cons_self,
              fun _ _ _ hmem => absurd hmem List.not_mem_nil⟩
      | remove handler node =>
        obtain ⟨hlive, htouches⟩ := List.mem_filter.mp hlive
        refine (ih hlive).concat fun _ _ _ heq => ?_
        obtain ⟨heq, -⟩ := Entry.told.inj heq
        obtain ⟨-, rfl⟩ := Event.remove.inj heq
        simpa using htouches
      | addSequence | effectState | insertSheet | removeSheet =>
        exact (ih hlive).concat fun _ _ _ heq => by cases heq

/-- Once handlers have dropped every node, nothing is wired. -/
theorem wires_eq_nil (hcovered : engine.Covered) (hdropped : engine.Dropped) :
    engine.wires = [] := by
  refine List.eq_nil_iff_forall_not_mem.mpr fun wire hwire => ?_
  obtain ⟨front, event, scene, back, hlog, hsource, hkept⟩ := keepsWired_of_mem hwire
  obtain ⟨c, hhands⟩ := (hcovered front event scene back hlog).1 wire.source hsource
  obtain ⟨handler, hhandler⟩ := Hands.exists_handler hhands
  obtain ⟨later, hmem⟩ := hdropped front event scene back hlog wire.source hsource handler hhandler
  have huntouched := hkept handler wire.source later hmem
  rw [Wire.touches, decide_eq_true rfl, Bool.true_or] at huntouched
  cases huntouched

/-! ### Destroyed engines -/

theorem housed_run {operations : List Operation} (hrunning : engine.running = true)
    (hhoused : engine.Housed) (hfollows : Follows NamesExisting engine operations) :
    (engine.run operations).Housed ∧ (engine.run operations).running = true :=
  run_of_deeds (fun _ _ hdeed _ => hdeed.housed)
    (fun _ _ _ _ _ h => h.of_instances (congrArg Scene.live (scene_watchChildList ..))
      (congrArg Scene.instances (scene_watchChildList ..))) hrunning hhoused hfollows

/-- A destroyed engine has nothing registered and nothing live, and everyone whom it tracked has been
released. The host holds the subscriptions that it held at the start, and the observations that it
held at the start and those of controllers that were not tracked. After a run of steady operations
over a nested document nobody is connected, handlers have dropped every node and nothing is wired;
if no controller has been asked to watch while it was not connected, nothing is observed either. -/
theorem run_destroyed {host : Host} {options : EngineOptions} {operations : List Operation}
    (hsubscriptions : host.subscriptions.Issued) (hobservations : host.observations.Issued)
    (hnames : Follows NamesExisting (start host options) operations) :
    let engine := (start host options).run operations
    let after := (engine.perform .destroy).1
    (after.registry = .empty ∧ after.live = [] ∧ Discharges engine.Tracks engine after) ∧
      (after.host.tickets ~ host.tickets ∧ after.host.watches ~ host.watches ++ after.watched) ∧
      (host.dom.Nested → Follows Steady (start host options) operations →
        (∀ c, (after.controller c).connected = false) ∧ after.Dropped ∧ after.wires = [] ∧
          (Follows WatchesConnected (start host options) operations →
            after.host.watches ~ host.watches)) := by
  intro engine after
  obtain ⟨hhoused, hrunning⟩ : engine.Housed ∧ engine.running = true :=
    housed_run rfl (housed_start host options) hnames
  have hafter : after = engine.destroy := by
    change (engine.whenRunning _).1 = _
    rw [whenRunning, if_pos hrunning]
  have hdeeds : Deeds engine after := hafter ▸ deeds_destroy engine
  obtain ⟨hregistry, hlive, hdischarges⟩ :
      after.registry = .empty ∧ after.live = [] ∧ Discharges engine.Tracks engine after :=
    hafter ▸ destroy_spec (tidy_run (tidy_start host options) operations)
  have haccounted : after.Accounted host.tickets :=
    hdeeds.posts.accounted (accounted_run (accounted_start hsubscriptions options)
      (hnames.mono fun engine operation h => by cases operation <;> first | exact h | trivial))
  have hwatching : after.Watching host.watches :=
    hdeeds.keeps (fun _ _ hdeed hrunning => hdeed.watching hrunning) hrunning
      (watching_run rfl (watching_start hobservations options) hnames)
  have hended : after.Housed := hdeeds.keeps (fun _ _ hdeed _ => hdeed.housed) hrunning hhoused
  refine ⟨⟨hregistry, hlive, hdischarges⟩, ⟨?_, hwatching.ledger⟩, fun hdom hsteady => ?_⟩
  · have hledger := haccounted.ledger
    rwa [recorded_eq_nil haccounted hended hlive, List.append_nil] at hledger
  · obtain ⟨hcovered, hready⟩ := covered_of_follows hdom hsteady
    have hcovered : after.Covered := by
      rw [hafter]
      exact ((proceeds_destroy engine).proceed hready).1.covered hcovered
    have hnobody := hdischarges.connected_eq_false hready.filed.enrolled
    have hdropped := hcovered.dropped hnobody
    refine ⟨hnobody, hdropped, wires_eq_nil hcovered hdropped, fun hwatches => ?_⟩
    have hattentive : after.Attentive :=
      hdeeds.attentive (attentive_run (attentive_start host options) hnames hwatches)
    have hledger := hwatching.ledger
    rwa [watched_eq_nil fun c => ?_, List.append_nil] at hledger
    exact not_not.mp fun hobserves =>
      Bool.false_ne_true ((hnobody c).symm.trans (hattentive c hobserves))

/-- A button that is replaced under its key is tracked no more. It stays connected, and wired. -/
example :
    let config := Config.ofInteractions [(Interaction.ofTrigger "button" .click).withEffect
      ((Effect.byId "press").on "button")]
    let engine := (start .bare .standard).run
      [.create config, .addNode 1 "button", .addNode 2 "button", .destroy]
    (engine.controller 0).connected = true ∧ engine.wires = [⟨1, 1, ⟨"button", "press", 0⟩⟩] := by
  decide +kernel

/-- A document in which the menu of node 1 has the list 4 with the item 5. -/
def menuDom : Dom where
  queryAll root selector :=
    if root ≠ 1 then []
    else if selector = "ul" then [4]
    else if selector = "ul > *" then [5]
    else []
  children node := if node = 1 then [4] else if node = 4 then [5] else []
  matchesSelector _ _ := false
  attributeOf _ _ := none

theorem nested_menuDom : menuDom.Nested := by
  intro root below selector selector' hbelow
  have hne : below ≠ 1 := by
    rintro rfl
    simp only [menuDom] at hbelow
    split at hbelow
    · cases hbelow
    · split at hbelow
      · simp at hbelow
      · split at hbelow <;> simp at hbelow
  simp [menuDom, hne]

/-- On a wide screen the items of the menu open the panel. -/
def menuConfig : Config :=
  (Config.ofInteractions [(((Interaction.ofTrigger "menu" .click).withList "ul" none).withConditions
    ["wide"]).withEffect ((Effect.byId "open").on "panel")]).withCondition "wide" ⟨.media, "wide"⟩

def menuHost : Host := { Host.bare with dom := menuDom, queryState := fun _ => true }

def menuOperations : List Operation :=
  [.create menuConfig, .addNode 2 "panel", .addNode 1 "menu"]

theorem steady_menuOperations : Follows Steady (start menuHost .standard) menuOperations := by
  refine ⟨⟨⟨exclusive_of_nodup ?_, isUnindexed_of_keys ?_⟩, trivial⟩,
    ⟨⟨exclusive_of_nodup ?_, trivial⟩, trivial⟩, ⟨⟨exclusive_of_nodup ?_, trivial⟩, trivial⟩,
    trivial⟩ <;> decide +kernel

/-- The menu listens for the width of the screen, observes its list and has an item wired. Nothing of
this is left when the engine has been destroyed. -/
theorem run_destroyed_menu :
    let engine := (start menuHost .standard).run menuOperations
    let after := (engine.perform .destroy).1
    (engine.wires = [⟨5, 2, ⟨"panel", "open", 0⟩⟩] ∧
        engine.host.tickets = [(1, ⟨.media, "(wide)"⟩)] ∧ engine.host.watches = [(1, 4)]) ∧
      menuDom.Nested ∧ Follows Steady (start menuHost .standard) menuOperations ∧
      after.registry = .empty ∧ after.live = [] ∧ (∀ c, (after.controller c).connected = false) ∧
      after.wires = [] ∧ after.host.tickets = [] ∧ after.host.watches = [] := by
  intro engine after
  obtain ⟨⟨hregistry, hlive, -⟩, ⟨htickets, -⟩, hsteady⟩ :=
    @run_destroyed menuHost .standard menuOperations ListenerSet.issued_empty
      ListenerSet.issued_empty ⟨trivial, trivial, trivial, trivial⟩
  obtain ⟨hnobody, -, hwires, hwatches⟩ := hsteady nested_menuDom steady_menuOperations
  exact ⟨by decide +kernel, nested_menuDom, steady_menuOperations, hregistry, hlive, hnobody, hwires,
    htickets.eq_nil, (hwatches ⟨trivial, trivial, trivial, trivial⟩).eq_nil⟩

end InteractionBinding.Engine
