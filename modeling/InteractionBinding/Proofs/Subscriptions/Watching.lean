import InteractionBinding.Proofs.Subscriptions.Observations
import InteractionBinding.Proofs.Engine.Moves
/-!
# Containers that are observed

A controller that watches the container of a list observes the node that it finds, unless it does so
already, and the host holds the observation under a token of its own (`Engine.Posted`). A pass
observes the containers of all candidates that it wires (`Engine.Pass.observes_applySelected`). A
disconnection gives up the observations of one controller and leaves those of the others
(`Engine.Posted.disconnect`).
-/

namespace InteractionBinding.Engine

variable {engine before middle after : Engine} {c : ControllerId} {i : InstanceId}
  {key text : String} {node : NodeId} {token : Token}

/-! ### Containers -/

/-- The node that a controller finds for the selector of a container. -/
def container? (engine : Engine) (c : ControllerId) (selector : String) : Option NodeId :=
  (engine.anchor c).bind (engine.host.dom.query? · selector)

/-- The container of the list that an effect is bound to, if both sides have an anchor. -/
def listNode? (engine : Engine) (rule : Rule) (effect : Effect) (source target : ControllerId) :
    Option NodeId :=
  match engine.anchor source, engine.anchor target with
  | some _, some _ => (rule.listContainer.or effect.listContainer).bind
      (engine.container? (if rule.isListBound then source else target))
  | _, _ => none

theorem listNode?_congr {rule : Rule} {effect : Effect} {source target : ControllerId}
    (hsource : after.anchor source = before.anchor source)
    (htarget : after.anchor target = before.anchor target)
    (hcontainer : ∀ selector, rule.listContainer.or effect.listContainer = some selector →
      after.container? (if rule.isListBound then source else target) selector =
        before.container? (if rule.isListBound then source else target) selector) :
    after.listNode? rule effect source target = before.listNode? rule effect source target := by
  rw [listNode?, listNode?, hsource, htarget]
  split
  · cases hselector : rule.listContainer.or effect.listContainer with
    | none => rfl
    | some selector => exact hcontainer selector hselector
  · rfl

/-! ### Observations -/

/-- The host holds an observation for a controller, under a selector that finds the container. -/
def Holds (engine : Engine) (c : ControllerId) (node : NodeId) (token : Token) : Prop :=
  ∃ observation, (token, observation) ∈ engine.host.observations.entries ∧
    observation.owner = c ∧ observation.container = node ∧
    engine.container? c observation.containerSelector = some node

/-- A controller observes a container. -/
def Observes (engine : Engine) (c : ControllerId) (node : NodeId) : Prop :=
  ∃ token, (node, token) ∈ (engine.controller c).observers

/-- What controllers observe is held by the host, each observation under a token of its own. -/
structure Posted (engine : Engine) : Prop where
  issued : engine.host.observations.Issued
  holds (c : ControllerId) (node : NodeId) (token : Token) :
    (node, token) ∈ (engine.controller c).observers → engine.Holds c node token

/-! ### What is carried along -/

/-- A controller that does not exist has no key and observes nothing. -/
theorem lt_of_key_isSome (h : (engine.controller c).key.isSome = true) :
    c < engine.controllers.length := by
  by_contra hlength
  rw [controller_eq_default (Nat.not_lt.mp hlength)] at h
  cases h

theorem lt_of_mem_observers (h : (node, token) ∈ (engine.controller c).observers) :
    c < engine.controllers.length := by
  by_contra hlength
  rw [controller_eq_default (Nat.not_lt.mp hlength)] at h
  cases h

/-- The document stays, and every controller keeps its place, its key, its connection and what it
observes. -/
structure Carries (before after : Engine) : Prop where
  dom : after.host.dom = before.host.dom
  seat (c : ControllerId) : c < before.controllers.length →
    (after.controller c).node = (before.controller c).node ∧
      (after.controller c).useFirstChild = (before.controller c).useFirstChild
  key (c : ControllerId) (key : String) :
    (before.controller c).key = some key → (after.controller c).key = some key
  connected (c : ControllerId) :
    (before.controller c).connected = true → (after.controller c).connected = true
  observers (c : ControllerId) : (before.controller c).observers ⊆ (after.controller c).observers

theorem carries_of_scene_eq (hscene : after.scene = before.scene)
    (hobservers : ∀ c, (before.controller c).observers ⊆ (after.controller c).observers) :
    Carries before after where
  dom := congrArg Scene.dom hscene
  seat c _ := ⟨congrArg Controller.Face.node (face_controller_eq hscene c),
    congrArg Controller.Face.useFirstChild (face_controller_eq hscene c)⟩
  key c _ h := (congrArg Controller.Face.key (face_controller_eq hscene c)).trans h
  connected c h := (congrArg Controller.Face.connected (face_controller_eq hscene c)).trans h
  observers := hobservers

theorem carries_of_controllers (hdom : after.host.dom = before.host.dom)
    (hcontrollers : after.controllers = before.controllers) : Carries before after := by
  have hsame (c : ControllerId) : after.controller c = before.controller c := by
    rw [controller, hcontrollers]
    rfl
  refine ⟨hdom, fun c _ => ?_, fun c _ h => ?_, fun c h => ?_, fun c => ?_⟩
  · rw [hsame]
    exact ⟨rfl, rfl⟩
  · rwa [hsame]
  · rwa [hsame]
  · rw [hsame]
    exact List.Subset.refl _

namespace Carries

theorem anchor (h : Carries before after) (hc : c < before.controllers.length) :
    after.anchor c = before.anchor c := by
  obtain ⟨hnode, hfirst⟩ := h.seat c hc
  simp only [Engine.anchor, hnode, hfirst, h.dom]

theorem container? (h : Carries before after) (hc : c < before.controllers.length) :
    after.container? c = before.container? c := by
  funext selector
  rw [Engine.container?, Engine.container?, h.anchor hc, h.dom]

theorem holds (h : Carries before after)
    (hobservations : before.host.observations.entries ⊆ after.host.observations.entries)
    (hc : c < before.controllers.length) (hholds : before.Holds c node token) :
    after.Holds c node token := by
  obtain ⟨observation, hmem, howner, hcontainer, hfound⟩ := hholds
  exact ⟨observation, hobservations hmem, howner, hcontainer, h.container? hc ▸ hfound⟩

end Carries

theorem Posted.carry (h : before.Posted) (hcarries : Carries before after)
    (hobservations : after.host.observations = before.host.observations)
    (hobservers : ∀ c, (after.controller c).observers = (before.controller c).observers) :
    after.Posted where
  issued := hobservations ▸ h.issued
  holds c node token hmem := by
    rw [hobservers] at hmem
    refine hcarries.holds ?_ (lt_of_mem_observers hmem) (h.holds c node token hmem)
    rw [hobservations]
    exact List.Subset.refl _

/-! ### Moves -/

/-- Watching observes the container that is found, if it is not observed already. -/
theorem watchChildList_cases (engine : Engine) (c : ControllerId) (selector : String)
    (item : Option String) :
    let watched := (engine.watchChildList c selector item).1
    watched = engine ∧
        (∀ node, engine.container? c selector = some node → engine.Observes c node) ∨
      ∃ node, engine.container? c selector = some node ∧
        watched.host.observations =
          (engine.host.observations.subscribe ⟨node, c, selector, item⟩).1 ∧
        ∀ d, (watched.controller d).observers = if c = d ∧ d < engine.controllers.length
          then (engine.controller d).observers ++ [(node, engine.host.observations.next)]
          else (engine.controller d).observers := by
  intro watched
  simp only [watched, watchChildList]
  split
  next hnone =>
    exact .inl ⟨rfl, fun node hnode =>
      absurd (hnone.symm.trans hnode) (Option.some_ne_none node).symm⟩
  next node hnode =>
    split
    next hany =>
      refine .inl ⟨rfl, fun other hother => ?_⟩
      obtain rfl := Option.some.inj (hnode.symm.trans hother)
      obtain ⟨⟨observed, token⟩, hmem, hsame⟩ := List.any_eq_true.mp hany
      obtain rfl := of_decide_eq_true hsame
      exact ⟨token, hmem⟩
    next =>
      refine .inr ⟨node, hnode, rfl, fun d => ?_⟩
      refine (congrArg _ (controller_modifyController_eq c d _)).trans ?_
      split <;> rfl

theorem observers_subset_watchChildList (engine : Engine) (c d : ControllerId) (selector : String)
    (item : Option String) : (engine.controller d).observers ⊆
      ((engine.watchChildList c selector item).1.controller d).observers := by
  obtain ⟨heq, -⟩ | ⟨node, -, -, hobservers⟩ := engine.watchChildList_cases c selector item
  · rw [heq]
    exact List.Subset.refl _
  · rw [hobservers]
    split
    · exact List.subset_append_left ..
    · exact List.Subset.refl _

/-- A controller that watches a container observes it from then on. -/
theorem observes_watchChildList (hc : c < engine.controllers.length) {selector : String}
    (hnode : engine.container? c selector = some node) (item : Option String) :
    (engine.watchChildList c selector item).1.Observes c node := by
  obtain ⟨heq, hobserved⟩ | ⟨other, hother, -, hobservers⟩ :=
    engine.watchChildList_cases c selector item
  · rw [heq]
    exact hobserved node hnode
  · obtain rfl := Option.some.inj (hnode.symm.trans hother)
    refine ⟨engine.host.observations.next, ?_⟩
    rw [hobservers, if_pos ⟨rfl, hc⟩]
    exact List.mem_append_right _ (List.mem_singleton_self _)

/-- A new observation is held by the host under the selector that has found the container. -/
theorem Posted.watchChildList (h : engine.Posted) (c : ControllerId) (selector : String)
    (item : Option String) : (engine.watchChildList c selector item).1.Posted := by
  have hcarries := carries_of_scene_eq (scene_watchChildList c selector item) fun d =>
    engine.observers_subset_watchChildList c d selector item
  obtain ⟨heq, -⟩ | ⟨node, hnode, hobservations, hobservers⟩ :=
    engine.watchChildList_cases c selector item
  · rw [heq]
    exact h
  · have hentries : (engine.watchChildList c selector item).1.host.observations.entries =
        engine.host.observations.entries ++
          [(engine.host.observations.next, ⟨node, c, selector, item⟩)] :=
      congrArg ListenerSet.entries hobservations
    refine ⟨hobservations ▸ h.issued.subscribe _, fun d other token hmem => ?_⟩
    have hold (hmem : (other, token) ∈ (engine.controller d).observers) :
        (engine.watchChildList c selector item).1.Holds d other token :=
      hcarries.holds (hentries ▸ List.subset_append_left ..) (lt_of_mem_observers hmem)
        (h.holds d other token hmem)
    rw [hobservers] at hmem
    split at hmem
    next hnew =>
      obtain ⟨rfl, hc⟩ := hnew
      rcases List.mem_append.mp hmem with hmem | hmem
      · exact hold hmem
      · obtain ⟨rfl, rfl⟩ := Prod.mk.inj (List.mem_singleton.mp hmem)
        refine ⟨⟨other, c, selector, item⟩, ?_, rfl, rfl, hcarries.container? hc ▸ hnode⟩
        rw [hentries]
        exact List.mem_append_right _ (List.mem_singleton_self _)
    next => exact hold hmem

theorem Move.carries (h : Move before after) : Carries before after := by
  refine carries_of_scene_eq h.scene fun c => ?_
  have hsame (hcontrollers : after.controllers = before.controllers) :
      (before.controller c).observers ⊆ (after.controller c).observers := by
    rw [controller, controller, hcontrollers]
    exact List.Subset.refl _
  cases h with
  | listen => exact hsame (listen_ind (P := fun after : Engine => after.controllers = _) rfl rfl)
  | watch d selector item => exact before.observers_subset_watchChildList d c selector item
  | markItem d id item =>
    refine markItem_ind (P := fun after : Engine => _ ⊆ (after.controller c).observers)
      (fun _ => List.Subset.refl _) ?_
    rw [controller_modifyController_eq]
    split <;> exact List.Subset.refl _
  | tell | markApplied => exact hsame rfl

theorem Move.posted (h : Move before after) (hposted : before.Posted) : after.Posted := by
  have hcarries := h.carries
  cases h with
  | listen i id source target query listener =>
    refine hposted.carry hcarries ?_ fun c => ?_ <;> simp only [Engine.listen] <;> split <;> rfl
  | watch c selector item => exact hposted.watchChildList c selector item
  | markItem c id item =>
    refine hposted.carry hcarries ?_ fun d => ?_ <;> rw [Engine.markItem] <;> split
    · rfl
    · rfl
    · rfl
    · rw [controller_modifyController_eq]
      split <;> rfl
  | tell | markApplied => exact hposted.carry hcarries rfl fun _ => rfl

namespace Moves

theorem carries (h : Moves before after) : Carries before after := by
  refine carries_of_scene_eq h.scene fun c => ?_
  induction h with
  | refl => exact List.Subset.refl _
  | tail _ hstep ih => exact List.Subset.trans ih (hstep.carries.observers c)

theorem posted (h : Moves before after) (hposted : before.Posted) : after.Posted := by
  induction h with
  | refl => exact hposted
  | tail _ hstep ih => exact hstep.posted ih

end Moves

/-! ### Passes -/

namespace Pass

variable {candidate : Candidate} {selected : List Candidate}

/-- The container that has to be observed on behalf of a candidate. -/
def listNode? (engine : Engine) (candidate : Candidate) : Option NodeId :=
  engine.listNode? candidate.rule candidate.effect.effect candidate.source candidate.target

/-- A full pass observes the container of a list before it looks at the items. -/
theorem observes_pairs (hmeets : Meets engine candidate)
    (hnode : listNode? engine candidate = some node) :
    ((Pass.mk i none).pairs engine candidate).1.Observes (listOwner candidate) node := by
  rw [listNode?, Engine.listNode?] at hnode
  split at hnode
  next sourceAnchor targetAnchor hsource htarget =>
    simp only [pairs, hsource, htarget]
    cases hrule : candidate.rule.listContainer with
    | some selector =>
      have hbound := Rule.isListBound_of_some hrule
      rw [hrule, if_pos hbound] at hnode
      rw [listOwner, if_pos hbound]
      simp only [listItems, hsource]
      exact observes_watchChildList (lt_of_connected hmeets.source) hnode _
    | none =>
      have hunbound := Rule.not_isListBound_of_none hrule
      rw [hrule, if_neg hunbound, Option.none_or] at hnode
      rw [listOwner, if_neg hunbound]
      obtain ⟨selector, heffect, hnode⟩ := Option.bind_eq_some_iff.mp hnode
      simp only [heffect, listItems, htarget]
      exact observes_watchChildList (lt_of_connected hmeets.target) hnode _
  next => cases hnode

/-- A full pass observes the container of every candidate that has a handler. -/
theorem observes_applyCandidate (hmeets : Meets engine candidate)
    (hhandler : (engine.host.handlers.get? candidate.rule.trigger).isSome = true)
    (hnode : listNode? engine candidate = some node) :
    ((Pass.mk i none).applyCandidate engine candidate).Observes (listOwner candidate) node := by
  obtain ⟨handler, hhandler⟩ := Option.isSome_iff_exists.mp hhandler
  have hpairs := observes_pairs (i := i) hmeets hnode
  simp only [applyCandidate, hhandler]
  generalize (Pass.mk i none).pairs engine candidate = found at hpairs ⊢
  have hwired : Moves found.1 (found.2.foldl ((Pass.mk i none).wirePair handler candidate
      (handlerContext engine candidate.id (some candidate.target) candidate.gate candidate.rule))
      ⟨found.1, [], false⟩).engine :=
    List.foldlRecOn (motive := fun progress : Progress => Moves found.1 progress.engine) _ _ .refl
      fun progress hprogress pair _ => hprogress.trans (moves_wirePair ..)
  have hkept {after : Engine} (hmoves : Moves found.1 after) :
      after.Observes (listOwner candidate) node :=
    hpairs.imp fun _ hmem => hmoves.carries.observers _ hmem
  split
  · exact hkept (hwired.tail (.markApplied ..))
  · exact hkept hwired

theorem listNode?_congr (h : after.scene = before.scene) :
    listNode? after candidate = listNode? before candidate := by
  have hanchor (c : ControllerId) : after.anchor c = before.anchor c := by
    rw [anchor_eq, anchor_eq, h]
  have hdom : after.host.dom = before.host.dom := congrArg Scene.dom h
  refine Engine.listNode?_congr (hanchor _) (hanchor _) fun selector _ => ?_
  rw [container?, container?, hanchor, hdom]

theorem Meets.congr (h : after.scene = before.scene) (hmeets : Meets before candidate) :
    Meets after candidate where
  source := (congrArg Controller.Face.connected (face_controller_eq h _)).trans hmeets.source
  target := (congrArg Controller.Face.connected (face_controller_eq h _)).trans hmeets.target

/-- A full pass observes the containers of all candidates that it wires. -/
theorem observes_applySelected (hmeets : ∀ candidate ∈ selected, Meets engine candidate)
    (hmem : candidate ∈ selected)
    (hhandler : (engine.host.handlers.get? candidate.rule.trigger).isSome = true)
    (hnode : listNode? engine candidate = some node) :
    ((Pass.mk i none).applySelected engine selected).Observes (listOwner candidate) node := by
  obtain ⟨front, back, hsplit⟩ := List.append_of_mem (List.mem_reverse.mpr hmem)
  have hmoves (state : Engine) (hscene : state.scene = engine.scene) (candidates : List Candidate)
      (hsubset : candidates ⊆ selected) :
      Moves state (candidates.foldl (Pass.mk i none).applyCandidate state) :=
    Moves.foldl _ _ fun state' hstate' other hother => moves_applyCandidate _
      (.congr (hstate'.scene.trans hscene) (hmeets other (hsubset hother)))
  have hsubset {other : Candidate} (hother : other ∈ front ++ candidate :: back) :
      other ∈ selected := List.mem_reverse.mp (hsplit ▸ hother)
  have hfront := hmoves engine rfl front fun _ h => hsubset (List.mem_append_left _ h)
  rw [applySelected, hsplit, List.foldl_append, List.foldl_cons]
  generalize front.foldl (Pass.mk i none).applyCandidate engine = middle at hfront ⊢
  have hhandler' : (middle.host.handlers.get? candidate.rule.trigger).isSome = true := by
    rwa [show middle.host.handlers = engine.host.handlers from
      congrArg Scene.handlers hfront.scene]
  have hmeets' : Meets middle candidate := .congr hfront.scene (hmeets candidate hmem)
  have hobserved := observes_applyCandidate (i := i) hmeets' hhandler'
    ((listNode?_congr hfront.scene).trans hnode)
  have happlied := moves_applyCandidate (Pass.mk i none) hmeets'
  have hback := hmoves _ (happlied.scene.trans hfront.scene) back fun _ h =>
    hsubset (List.mem_append_right _ (List.mem_cons_of_mem _ h))
  exact hobserved.imp fun _ h => hback.carries.observers _ h

end Pass

/-! ### Disconnecting -/

/-- The observations of a controller that is disconnected are given up at the host. -/
theorem observations_disconnect (hrunning : engine.running = true) (c : ControllerId)
    (evict : Bool) : (engine.disconnect c evict).host.observations =
      { engine.host.observations with
        entries := engine.host.observations.entries.filter fun entry =>
          entry.1 ∉ (engine.controller c).observers.map Prod.snd } := by
  have hreleased : (engine.releasedAtHost c evict).host.observations = _ :=
    observations_releaseHost (engine.modifyController c (Controller.released · evict)) c
      (engine.controller c)
  refine disconnect_ind (P := fun after : Engine => after.host.observations = _)
    (fun hstopped => absurd (hrunning.symm.trans hstopped) Bool.true_eq_false.mp)
    (fun _ _ => hreleased) fun key _ _ => ?_
  have hcleared (state : Engine) (instances : List InstanceId) :
      (instances.foldl (releaseKey c key evict) state).host.observations =
        state.host.observations :=
    List.foldlRecOn (motive := fun after : Engine => after.host.observations =
      state.host.observations) _ _ rfl fun after h i _ => by
        rw [← h]
        simp only [releaseKey]
        split
        · exact (observations_unsubscribeAll ..).trans (releaseController_ind
            (P := fun released : Engine => released.host.observations = _) rfl fun _ => rfl)
        · rfl
  dsimp only
  split
  · exact unregister_ind (P := fun after : Engine => after.host.observations = _)
      ((hcleared ..).trans hreleased) fun _ => (hcleared ..).trans hreleased
  · exact (hcleared ..).trans hreleased

theorem anchor_disconnect (engine : Engine) (c : ControllerId) (evict : Bool) (d : ControllerId) :
    (engine.disconnect c evict).anchor d = engine.anchor d := by
  have hdom := (releases_disconnect engine c evict).frame.1
  simp only [anchor, controller_disconnect, hdom]
  split <;> rfl

theorem container?_disconnect (engine : Engine) (c : ControllerId) (evict : Bool)
    (d : ControllerId) : (engine.disconnect c evict).container? d = engine.container? d := by
  funext selector
  rw [container?, container?, anchor_disconnect, (releases_disconnect engine c evict).frame.1]

theorem key_disconnect (engine : Engine) (c : ControllerId) (evict : Bool) (d : ControllerId) :
    ((engine.disconnect c evict).controller d).key = (engine.controller d).key := by
  rw [controller_disconnect]
  split <;> rfl

/-- Tokens tell apart whose observations are given up. -/
theorem not_mem_tokens_of_owner_ne (hissued : engine.host.observations.Issued)
    (howned : ∀ node token, (node, token) ∈ (engine.controller c).observers →
      ∃ observation, (token, observation) ∈ engine.host.observations.entries ∧ observation.owner = c)
    {observation : Observation} (hentry : (token, observation) ∈ engine.host.observations.entries)
    (hne : observation.owner ≠ c) : token ∉ (engine.controller c).observers.map Prod.snd := by
  intro hgone
  obtain ⟨⟨node, token'⟩, hobserver, rfl⟩ := List.mem_map.mp hgone
  obtain ⟨own, hown, howner⟩ := howned node token' hobserver
  obtain rfl : observation = own := congrArg Prod.snd
    (List.inj_on_of_nodup_map hissued.distinct hentry hown rfl)
  exact hne howner

/-- A disconnection keeps the observations of the other controllers posted. -/
theorem Posted.disconnect (h : engine.Posted) (hrunning : engine.running = true) (c : ControllerId)
    (evict : Bool) : (engine.disconnect c evict).Posted := by
  have hobservations := observations_disconnect hrunning c evict
  refine ⟨hobservations ▸ h.issued.filter _, fun d node token hmem => ?_⟩
  have hd : d ≠ c ∧ (node, token) ∈ (engine.controller d).observers := by
    rw [controller_disconnect] at hmem
    split at hmem
    next => cases hmem
    next hother => exact ⟨fun heq => hother ⟨heq.symm, lt_of_mem_observers hmem⟩, hmem⟩
  obtain ⟨hne, hmem⟩ := hd
  obtain ⟨observation, hentry, howner, hcontainer, hfound⟩ := h.holds d node token hmem
  refine ⟨observation, ?_, howner, hcontainer, ?_⟩
  · rw [hobservations]
    refine List.mem_filter.mpr ⟨hentry, decide_eq_true ?_⟩
    refine not_mem_tokens_of_owner_ne h.issued (fun node token hmem => ?_) hentry (howner ▸ hne)
    obtain ⟨own, hown, howned, -⟩ := h.holds c node token hmem
    exact ⟨own, hown, howned⟩
  · rwa [container?_disconnect]

end InteractionBinding.Engine
