import InteractionBinding.Proofs.Wiring.Removals
/-!
# The confines of a list

What a controller does about nodes that come to a container or leave it stays within its list. It
tears down removed nodes and asks for wirings through added items only, each of them for a rule that
is bound to the container on the side of this controller (`Engine.FollowsList`). It keeps no id as
applied, leaves the scene and with it the registry as it is, and of all controllers touches only
its own record of wired items (`Engine.Confined`).

A pass with a scope goes through the whole resolution of a key. That it leaves other lists alone
comes down to its pairs: an effect that is in scope has pairs only if the list it is paired through
is the one that has changed (`Pass.exists_throughItem`).
-/

namespace InteractionBinding

/-- What the owner of an observation resolves for nodes that are added to the container: those that
pass the item selector. -/
def Observation.scope (observation : Observation) (dom : Dom) (added : List NodeId) :
    Engine.ListScope where
  owner := observation.owner
  container := observation.containerSelector
  nodes := added.filter fun node =>
    observation.itemSelector.all fun selector => dom.matchesSelector node selector

namespace Engine

variable {before middle after engine : Engine} {c : ControllerId}
  {owners owners' : List ControllerId} {P Q : Entry → Prop}

/-- An entry follows from nodes that are reported to an observation: it tears a removed node down,
or asks for a justified wiring through an added item. -/
inductive FollowsList (occasion : Occasion) (scene : Scene) (observation : Observation)
    (added removed : List NodeId) : Entry → Prop
  | remove (handler : HandlerId) (node : NodeId)
      (hconnected : (scene.controller observation.owner).connected = true)
      (hremoved : node ∈ removed) :
    FollowsList occasion scene observation added removed (.told (.remove handler node) scene)
  | add (i : InstanceId) (handler : HandlerId) (source target : NodeId) (plan : EffectPlan)
      (params : KeyMap Json) (context : HandlerContext) (refusal : Option Refusal)
      (hconnected : (scene.controller observation.owner).connected = true) (warrant : Warrant)
      (hjustifies : Justifies occasion scene warrant i handler source target plan params context)
      (item : NodeId) (hitem : item ∈ (observation.scope scene.dom added).nodes)
      (hthrough : Pass.ThroughItem scene.dom (observation.scope scene.dom added)
        warrant.interaction.rule warrant.effect.effect warrant.source warrant.target item source
        target) :
    FollowsList occasion scene observation added removed
      (.told (.add i handler source target plan params context refusal) scene)

/-- Of the controllers only some owners change, and these only in which items are wired. No instance
applies an id or lets one be applied again. -/
structure Marks (owners : List ControllerId) (before after : Engine) : Prop where
  others (c : ControllerId) : c ∉ owners → after.controller c = before.controller c
  owners (c : ControllerId) : ∃ items,
    after.controller c = { before.controller c with wiredItems := items }
  memo (i : InstanceId) : (after.inst i).memo = (before.inst i).memo

/-- One engine comes from another by telling entries that fulfil a condition and by marking the
items of some owners. -/
structure Confined (P : Entry → Prop) (owners : List ControllerId) (before after : Engine) : Prop
    extends Marks owners before after where
  told : Tells P before after
  registry : after.registry = before.registry
  scene : after.scene = before.scene

/-! ### Composing -/

namespace Marks

theorem of_controllers (h : after.controllers = before.controllers)
    (hmemo : ∀ i, (after.inst i).memo = (before.inst i).memo) : Marks owners before after := by
  have hsame (c : ControllerId) : after.controller c = before.controller c := by
    rw [controller, controller, h]
  exact ⟨fun c _ => hsame c, fun c => ⟨_, hsame c⟩, hmemo⟩

theorem refl (owners : List ControllerId) (engine : Engine) : Marks owners engine engine :=
  .of_controllers rfl fun _ => rfl

theorem trans (first : Marks owners before middle) (second : Marks owners middle after) :
    Marks owners before after where
  others c h := (second.others c h).trans (first.others c h)
  owners c := by
    obtain ⟨items, hfirst⟩ := first.owners c
    obtain ⟨items', hsecond⟩ := second.owners c
    exact ⟨items', by rw [hsecond, hfirst]⟩
  memo i := (second.memo i).trans (first.memo i)

theorem mono (h : Marks owners before after) (hsub : owners ⊆ owners') :
    Marks owners' before after :=
  ⟨fun c hc => h.others c fun hmem => hc (hsub hmem), h.owners, h.memo⟩

theorem modifyController (engine : Engine) (c : ControllerId) {f : Controller → Controller}
    (hf : ∀ controller, ∃ items, f controller = { controller with wiredItems := items }) :
    Marks [c] engine (engine.modifyController c f) where
  others other hother := by
    rw [controller_modifyController_eq, if_neg]
    exact fun h => hother (List.mem_singleton.mpr h.1.symm)
  owners other := by
    rw [controller_modifyController_eq]
    split
    · exact hf _
    · exact ⟨_, rfl⟩
  memo i := rfl

theorem markItem (engine : Engine) (c : ControllerId) (id : String) (item : NodeId) :
    Marks [c] engine (engine.markItem c id item).1 :=
  markItem_ind (fun _ => .refl _ engine) (modifyController engine c fun _ => ⟨_, rfl⟩)

end Marks

namespace Confined

theorem of_scene (hmarks : Marks owners before after) (htold : Tells P before after)
    (hscene : after.scene = before.scene) : Confined P owners before after :=
  ⟨hmarks, htold, congrArg Scene.registry hscene, hscene⟩

theorem refl (owners : List ControllerId) (engine : Engine) : Confined P owners engine engine :=
  .of_scene (.refl owners engine) (.silent rfl) rfl

theorem trans (first : Confined P owners before middle) (second : Confined P owners middle after) :
    Confined P owners before after :=
  .of_scene (first.toMarks.trans second.toMarks) (first.told.trans second.told)
    (second.scene.trans first.scene)

theorem mono (h : Confined P owners before after) (himp : ∀ entry, P entry → Q entry)
    (hsub : owners ⊆ owners') : Confined Q owners' before after :=
  .of_scene (h.toMarks.mono hsub) (h.told.mono himp) h.scene

/-- What holds of every step of a fold from engines with one scene holds of the fold. -/
theorem foldl {α : Type} {f : Engine → α → Engine} {l : List α}
    (h : ∀ state, state.scene = engine.scene → ∀ a ∈ l, Confined P owners state (f state a)) :
    Confined P owners engine (l.foldl f engine) :=
  List.foldlRecOn (motive := fun state => Confined P owners engine state) _ _ (.refl owners engine)
    fun state hstate a ha => hstate.trans (h state hstate.scene a ha)

end Confined

/-! ### Wiring in a scope -/

namespace Pass

variable {pass : Pass} {scope : ListScope} {candidate : Candidate} {occasion : Occasion}
  {observation : Observation} {added removed : List NodeId} {key : String}

theorem marks_wirePair (pass : Pass) (candidate : Candidate) (handler : HandlerId)
    (context : HandlerContext) (progress : Progress) (pair : NodePair) :
    Marks [listOwner candidate] progress.engine
      (pass.wirePair handler candidate context progress pair).engine := by
  have hdecide : Marks [listOwner candidate] progress.engine
      (pass.decideItem candidate progress pair.item).1.engine := by
    cases pair.item with
    | none => exact .refl _ _
    | some item =>
      simp only [decideItem]
      split
      · exact .refl _ _
      · exact .markItem ..
  rw [wirePair]
  generalize pass.decideItem candidate progress pair.item = decision at hdecide ⊢
  dsimp only
  split
  · exact hdecide.trans (.of_controllers rfl fun _ => rfl)
  · exact hdecide

/-- In a scope a candidate marks items of the owner only. -/
theorem marks_applyCandidate (hscope : pass.scope = some scope)
    (hin : pass.inScope candidate.rule candidate.effect candidate.source candidate.target = true)
    (engine : Engine) : Marks [scope.owner] engine (pass.applyCandidate engine candidate) := by
  rw [applyCandidate]
  split
  · exact .refl _ engine
  next handler _ =>
    simp only [pairs_scoped hscope, hscope, Option.isNone_some, Bool.false_and,
      Bool.false_eq_true, if_false]
    refine List.foldlRecOn (motive := fun (progress : Progress) =>
      Marks [scope.owner] engine progress.engine) _ _ (.refl _ engine)
      fun progress hprogress pair hpair => hprogress.trans ?_
    obtain ⟨item, -, -, hthrough⟩ := exists_throughItem hscope hin hpair
    rw [← hthrough.listOwner_eq]
    exact pass.marks_wirePair candidate ..

/-- In a scope selected candidates mark items of the owner only. -/
theorem marks_applySelected (hscope : pass.scope = some scope) {selected : List Candidate}
    (hin : ∀ candidate ∈ selected,
      pass.inScope candidate.rule candidate.effect candidate.source candidate.target = true)
    (engine : Engine) : Marks [scope.owner] engine (pass.applySelected engine selected) :=
  List.foldlRecOn (motive := fun state : Engine => Marks [scope.owner] engine state) _ _
    (.refl _ engine) fun state hstate candidate hmem =>
      hstate.trans (marks_applyCandidate hscope (hin candidate (List.mem_reverse.mp hmem)) state)

/-- Wiring what a pass selects in the scope of an observation follows from the added nodes. -/
theorem confined_applySelected {heard : Engine} {selected : List Candidate}
    (hscope : pass.scope = some (observation.scope engine.scene.dom added))
    (hentitled : Entitled occasion engine.scene pass observation.owner key)
    (hquiet : Quiet engine heard) (hcontrollers : heard.controllers = engine.controllers)
    (hselected : ∀ candidate ∈ selected, pass.inScope candidate.rule candidate.effect
        candidate.source candidate.target = true ∧
      ∃ warrant, Warranted occasion engine.scene pass candidate warrant) :
    Confined (FollowsList occasion engine.scene observation added removed) [observation.owner]
      engine (pass.applySelected heard selected) := by
  obtain ⟨offers, hoffers, hextends⟩ :=
    Wires.quiet_trans hquiet (pass.applySelected_spec heard selected)
  have hmarks : Marks [observation.owner] engine (pass.applySelected heard selected) :=
    (Marks.of_controllers hcontrollers hquiet.memo).trans
      (marks_applySelected hscope (fun candidate hmem => (hselected candidate hmem).1) heard)
  refine .of_scene hmarks (.of_extends hextends fun event hevent => ?_) hextends.scene
  obtain ⟨offer, hoffer, rfl⟩ := List.mem_map.mp hevent
  obtain ⟨hmem, hproposal⟩ := hoffers.candidate_mem hoffer
  obtain ⟨hin, warrant, hwarrant⟩ := hselected offer.candidate (List.mem_reverse.mp hmem)
  obtain ⟨item, hitem, -, hthrough⟩ :=
    exists_throughItem hscope hin (mem_proposals.mp hproposal).2.2
  rw [hwarrant.candidate] at hthrough
  exact .add _ _ _ _ _ _ _ _ hentitled.connected warrant (hwarrant.justifies hproposal) item
    hitem hthrough

/-- Resolving a key in the scope of an observation, from the source and from the target. -/
theorem confined_resolveScoped (hcompiled : engine.Compiled)
    (hscope : pass.scope = some (observation.scope engine.scene.dom added))
    (hentitled : Entitled occasion engine.scene pass observation.owner key) :
    Confined (FollowsList occasion engine.scene observation added removed) [observation.owner]
      engine (pass.resolveIncoming (pass.resolveOutgoing engine observation.owner key)
        observation.owner key) := by
  have hout : Confined (FollowsList occasion engine.scene observation added removed)
      [observation.owner] engine (pass.resolveOutgoing engine observation.owner key) := by
    obtain ⟨heard, hquiet, hcontrollers, heq⟩ :=
      exists_heard_outgoing hscope engine observation.owner key
    rw [heq]
    exact confined_applySelected hscope hentitled hquiet hcontrollers fun candidate hmem =>
      ⟨inScope_of_mem_outgoingOf hmem,
        exists_warranted_of_mem_outgoingOf hcompiled hentitled hmem⟩
  generalize pass.resolveOutgoing engine observation.owner key = resolved at hout ⊢
  refine hout.trans ?_
  have hcompiled' : resolved.Compiled := compiled_congr hout.scene hcompiled
  rw [← hout.scene] at hscope hentitled ⊢
  obtain ⟨heard, hquiet, hcontrollers, heq⟩ :=
    pass.exists_heard_incoming resolved observation.owner key
  rw [heq]
  exact confined_applySelected hscope hentitled hquiet hcontrollers fun candidate hmem =>
    ⟨inScope_of_mem_incomingOf hmem,
      exists_warranted_of_mem_incomingOf hcompiled' hentitled hmem⟩

end Pass

/-! ### Deliveries -/

section Deliveries

variable {occasion : Occasion} {observation : Observation} {added removed : List NodeId}

/-- The removed nodes are torn down and kept as wired no more. -/
theorem confined_unlisted (hconnected : (engine.controller observation.owner).connected = true) :
    Confined (FollowsList occasion engine.scene observation added removed) [observation.owner]
      engine (Site.unlisted engine observation.owner removed) := by
  have hface : (engine.scene.controller observation.owner).connected = true := by
    rw [scene_controller]
    exact hconnected
  have htorn : (engine.teardown removed).controllers = engine.controllers ∧
      (engine.teardown removed).instances = engine.instances := by
    rw [teardown, foldl_tell]
    exact ⟨rfl, rfl⟩
  have hmarks : Marks [observation.owner] engine (engine.teardown removed) :=
    .of_controllers htorn.1 fun i => by rw [inst, inst, htorn.2]
  refine .of_scene (hmarks.trans (.modifyController _ _ fun controller => ⟨_, rfl⟩))
    ⟨removals engine.scene removed, log_teardown engine removed, fun entry hmem => ?_⟩
    (Site.scene_unlisted ..)
  obtain ⟨handler, -, node, hnode, rfl⟩ := mem_removals_iff.mp hmem
  exact .remove handler node hface hnode

/-- What the owner of an observation does about added and removed nodes stays within its list. -/
theorem confined_onChildList (htidy : engine.Tidy) (hcompiled : engine.Compiled)
    (hreports : occasion.reports observation.itemSelector
      (observation.scope engine.scene.dom added)) :
    Confined (FollowsList occasion engine.scene observation added removed) [observation.owner]
      engine (onChildList observation added removed engine) := by
  refine onChildList_ind (fun _ => .refl _ engine) confined_unlisted
    fun released key hscene hconnected hkeyed hunlisted => hunlisted.trans ?_
  rw [show engine.host.dom = engine.scene.dom from rfl, addListItems]
  have htidy' : released.Tidy := (tidy_congr (congrArg Scene.live hscene)
    (congrArg Scene.instances hscene)).mpr htidy
  refine .foldl fun state hstate i hmem => ?_
  have hentitled : Entitled occasion state.scene
      ⟨i, some (observation.scope engine.scene.dom added)⟩ observation.owner key :=
    hstate ▸ entitled_of_mem_instancesFor htidy' hconnected hkeyed hmem fun scope hscope =>
      Option.some.inj hscope ▸ ⟨⟨_, hreports⟩, rfl⟩
  have hsame : state.scene = engine.scene := hstate.trans hscene
  rw [← hsame] at hentitled ⊢
  exact Pass.confined_resolveScoped (compiled_congr hsame hcompiled) rfl hentitled

/-- The observations of a container. -/
def observationsOf (engine : Engine) (container : NodeId) : List (Token × Observation) :=
  engine.host.observations.snapshot fun observation => observation.container = container

/-- After any run, what the owner of a watched container does about added and removed nodes follows
from these within its list, and so does what all of its owners do together: removed nodes are torn
down, added items are wired for rules that are bound to the container, and nothing changes but
which items the owners keep as wired. -/
theorem run_childListChanged_confined (host : Host) (options : EngineOptions)
    (operations : List Operation) (container : NodeId) (added removed : List NodeId) :
    let engine := (start host options).run operations
    let occasion := engine.occasion (.childListChanged container added removed)
    (∀ entry ∈ engine.observationsOf container,
      Confined (FollowsList occasion engine.scene entry.2 added removed) [entry.2.owner] engine
        (onChildList entry.2 added removed engine)) ∧
    Confined (fun told => ∃ entry ∈ engine.observationsOf container,
        FollowsList occasion engine.scene entry.2 added removed told)
      ((engine.observationsOf container).map (·.2.owner)) engine
      (engine.perform (.childListChanged container added removed)).1 := by
  intro engine occasion
  have htidy := tidy_run (tidy_start host options) operations
  have hcompiled :=
    compiled_run (tidy_start host options) (compiled_start host options) operations
  have hstep (state : Engine) (hscene : state.scene = engine.scene) (entry : Token × Observation)
      (hentry : entry ∈ engine.observationsOf container) :
      Confined (FollowsList occasion engine.scene entry.2 added removed) [entry.2.owner] state
        (onChildList entry.2 added removed state) := by
    obtain ⟨hmem, hcontainer⟩ := List.mem_filter.mp hentry
    rw [← hscene]
    refine confined_onChildList ((tidy_congr (congrArg Scene.live hscene)
      (congrArg Scene.instances hscene)).mpr htidy) (compiled_congr hscene hcompiled) ?_
    exact ⟨entry.1, entry.2, hmem, of_decide_eq_true hcontainer, rfl, rfl, rfl, by rw [hscene]; rfl⟩
  refine ⟨hstep engine rfl, .foldl fun state hscene entry hentry => ?_⟩
  refine (hstep state hscene entry hentry).mono (fun told h => ⟨entry, hentry, h⟩) ?_
  exact List.cons_subset.mpr
    ⟨List.mem_map_of_mem (f := fun entry => entry.2.owner) hentry, List.nil_subset _⟩

/-- The tray of `trayDocument` with another cup in the place of the first one. -/
def refilledDocument : Document :=
  (trayDocument.detach 5).put 7 (some 2) none ["cup"] .empty

/-- The second cup is wired, the tap has no part in this but for its wire, and no id is applied. -/
theorem run_childListChanged_confined_cup :
    let engine := (start trayHost .standard).run
      (trayOperations ++ [.readDocument refilledDocument.dom])
    let after := (engine.perform (.childListChanged 2 [7] [5])).1
    engine.observationsOf 2 = [(1, ⟨2, 1, ".rack", some ".cup"⟩)] ∧
      (⟨7, 3, ⟨"tap", "fill", 0⟩⟩ ∈ after.wires ∧ ⟨7, 3, ⟨"tap", "fill", 0⟩⟩ ∉ engine.wires) ∧
      (after.inst 0).memo = (engine.inst 0).memo ∧ after.controller 0 = engine.controller 0 := by
  intro engine after
  have hobservations : engine.observationsOf 2 = [(1, ⟨2, 1, ".rack", some ".cup"⟩)] := by
    decide +kernel
  obtain ⟨-, hconfined⟩ := run_childListChanged_confined trayHost .standard
    (trayOperations ++ [.readDocument refilledDocument.dom]) 2 [7] [5]
  refine ⟨hobservations, by decide +kernel, hconfined.memo 0, hconfined.others 0 ?_⟩
  decide +kernel

end Deliveries

end Engine

end InteractionBinding
