import InteractionBinding.Proofs.Engine.Deeds
import InteractionBinding.Proofs.Lifecycle.Disconnecting
import InteractionBinding.Proofs.Subscriptions.Ledger
/-!
# The ledger of observations

An observation of a container is booked twice as well, at the host and with the controller that
watches the container. The two books agree in every state that operations reach
(`Engine.watching_run`): what the host holds is what it held at the start and what the controllers
record. A controller that records an observation is connected, unless it has been asked to watch
while it was not (`Engine.attentive_run`).
-/

namespace InteractionBinding

/-- What both books know of an observation: its token and its container. -/
abbrev Watch := Token × NodeId

/-- The observations that a host holds. -/
def Host.watches (host : Host) : List Watch :=
  host.observations.entries.map fun entry => (entry.1, entry.2.container)

/-- The observations that a controller records. -/
def Controller.watches (controller : Controller) : List Watch := controller.observers.map Prod.swap

theorem Host.watches_observe (host : Host) (observation : Observation) :
    (host.observe observation).1.watches =
      host.watches ++ [(host.observations.next, observation.container)] := List.map_append

namespace Engine

open scoped List

variable {others : List Watch} {before after engine : Engine} {c : ControllerId}

/-- The observations that the controllers of an engine record. -/
def watched (engine : Engine) : List Watch := engine.controllers.flatMap Controller.watches

/-- The host holds what others observe and what the controllers record, every observation under a
token of its own. -/
structure Watching (others : List Watch) (engine : Engine) : Prop where
  issued : engine.host.observations.Issued
  ledger : engine.host.watches ~ others ++ engine.watched

theorem watching_start {host : Host} (h : host.observations.Issued) (options : EngineOptions) :
    (start host options).Watching host.watches where
  issued := h
  ledger := by
    rw [watched, start, List.flatMap_nil, List.append_nil]

/-- What a controller gives up and what it adds make the difference of what is recorded. -/
theorem watched_modifyController (hc : c < engine.controllers.length)
    (f : Controller → Controller) {gone added : List Watch}
    (h : gone ++ (f (engine.controller c)).watches ~ added ++ (engine.controller c).watches) :
    gone ++ (engine.modifyController c f).watched ~ added ++ engine.watched := by
  rw [controller_eq_getElem hc] at h
  exact flatMap_modify_perm hc Controller.watches f h

/-- If no controller observes a container, nothing is recorded. -/
theorem watched_eq_nil (h : ∀ c, (engine.controller c).observers = []) : engine.watched = [] := by
  refine List.flatMap_eq_nil_iff.mpr fun controller hmem => ?_
  obtain ⟨c, hc, rfl⟩ := List.getElem_of_mem hmem
  rw [← controller_eq_getElem hc, Controller.watches, h c, List.map_nil]

/-- A change of a controller that leaves its observations as they are. -/
theorem watched_modifyController_eq (engine : Engine) (c : ControllerId)
    {f : Controller → Controller}
    (hf : ∀ controller, (f controller).observers = controller.observers) :
    (engine.modifyController c f).watched = engine.watched := by
  have hwatched (engine : Engine) : engine.watched =
      (engine.controllers.map Controller.observers).flatMap fun observers =>
        observers.map Prod.swap := by
    rw [List.flatMap_map]
    rfl
  rw [hwatched, hwatched, modifyController, map_modify_of_comp_eq Controller.observers f hf]

/-! ### Giving up observations -/

theorem host_teardown (engine : Engine) (nodes : List NodeId) :
    (engine.teardown nodes).host = engine.host := by
  rw [teardown, foldl_tell]
  rfl

/-- What a controller held is given up at the host. -/
theorem observations_releaseHost (engine : Engine) (c : ControllerId) (held : Controller) :
    (engine.releaseHost c held).host.observations =
      { engine.host.observations with
        entries := engine.host.observations.entries.filter fun entry =>
          entry.1 ∉ held.observers.map Prod.snd } := by
  have hnodes : (if held.connected then engine.teardown (engine.ownedNodes c) else engine).host =
      engine.host := by
    split
    · exact host_teardown ..
    · rfl
  have hsheets (state : Engine) :
      (held.stylesheet.toList.foldl removeSheet state).host = state.host :=
    List.foldlRecOn (motive := fun (after : Engine) => after.host = state.host) _ _ rfl
      fun after hafter sheet _ => hafter
  have hfold (host : Host) : (held.observers.foldl (fun host observer => host.unobserve observer.2)
      host).observations = (held.observers.map Prod.snd).foldl ListenerSet.unsubscribe
        host.observations := by
    rw [List.foldl_map]
    exact (List.foldl_hom Host.observations fun _ _ => rfl).symm
  rw [← ListenerSet.foldl_unsubscribe, ← hfold, ← (hsheets _).trans hnodes]
  rfl

theorem observations_unsubscribeAll (engine : Engine) (listeners : List ConditionListener) :
    (engine.unsubscribeAll listeners).host.observations = engine.host.observations :=
  List.foldlRecOn (motive := fun (host : Host) => host.observations = engine.host.observations)
    listeners _ rfl fun _ h _ _ => h

theorem watches_releasedAtHost (engine : Engine) (c : ControllerId) (evict : Bool) :
    (engine.releasedAtHost c evict).host.watches = engine.host.watches.filter fun watch =>
      watch.1 ∉ (engine.controller c).watches.map Prod.fst := by
  have htokens : (engine.controller c).watches.map Prod.fst =
      (engine.controller c).observers.map Prod.snd := List.map_map
  rw [Host.watches, releasedAtHost, observations_releaseHost, htokens, Host.watches, List.filter_map]
  rfl

theorem controllers_releasedAtHost (engine : Engine) (c : ControllerId) (evict : Bool) :
    (engine.releasedAtHost c evict).controllers =
      (engine.modifyController c (Controller.released · evict)).controllers :=
  controllers_releaseHost ..

/-! ### Deeds keep the books -/

namespace Watching

theorem congr (h : before.Watching others)
    (hobservations : after.host.observations = before.host.observations)
    (hwatched : after.watched = before.watched) : after.Watching others := by
  refine ⟨hobservations ▸ h.issued, ?_⟩
  rw [Host.watches, hobservations, hwatched]
  exact h.ledger

/-- A new observation is booked at the host and with its controller. -/
theorem watchChildList (h : engine.Watching others) (hc : c < engine.controllers.length)
    (container : String) (item : Option String) :
    (engine.watchChildList c container item).1.Watching others := by
  refine watchChildList_ind h fun node _ => ?_
  have hwatched : (engine.modifyController c fun controller => { controller with
      observers := controller.observers ++ [(node, engine.host.observations.next)] }).watched ~
      (engine.host.observations.next, node) :: engine.watched := by
    refine @watched_modifyController engine c hc _ [] [(engine.host.observations.next, node)] ?_
    rw [Controller.watches, List.map_append]
    exact List.perm_append_singleton ..
  refine ⟨h.issued.subscribe ⟨node, c, container, item⟩, ?_⟩
  calc (engine.host.observe ⟨node, c, container, item⟩).1.watches
    _ = engine.host.watches ++ [(engine.host.observations.next, node)] :=
      Host.watches_observe ..
    _ ~ (engine.host.observations.next, node) :: engine.host.watches :=
      List.perm_append_singleton ..
    _ ~ (engine.host.observations.next, node) :: (others ++ engine.watched) := h.ledger.cons _
    _ ~ others ++ (engine.host.observations.next, node) :: engine.watched :=
      List.perm_middle.symm
    _ ~ _ := hwatched.symm.append_left others

/-- The observations of a controller that is released are given up at the host, and no others. -/
theorem release (h : engine.Watching others) (c : ControllerId) (evict : Bool) :
    (engine.releasedAtHost c evict).Watching others := by
  have hwatched : (engine.controller c).watches ++ (engine.releasedAtHost c evict).watched ~
      engine.watched := by
    rw [watched, controllers_releasedAtHost]
    rcases Nat.lt_or_ge c engine.controllers.length with hc | hc
    · exact @watched_modifyController engine c hc (Controller.released · evict) _ []
        (.of_eq (List.append_nil _))
    · rw [controller_eq_default hc, modifyController, List.modify_eq_self hc]
      rfl
  refine ⟨?_, ?_⟩
  · rw [releasedAtHost, observations_releaseHost]
    exact h.issued.filter _
  · rw [watches_releasedAtHost]
    refine filter_perm_of_tokens ((h.ledger.trans (hwatched.symm.append_left others)).trans
      (List.perm_append_comm_assoc ..)) ?_
    have htokens : engine.host.watches.map Prod.fst =
        engine.host.observations.entries.map Prod.fst := List.map_map
    rw [htokens]
    exact h.issued.distinct

end Watching

theorem Move.watching (h : Move before after) (hwatching : before.Watching others) :
    after.Watching others := by
  cases h with
  | listen => exact listen_ind hwatching (hwatching.congr rfl rfl)
  | watch c container item hc => exact hwatching.watchChildList (lt_of_connected hc) container item
  | markItem c =>
    exact markItem_ind (fun _ => hwatching)
      (hwatching.congr rfl (watched_modifyController_eq before c fun _ => rfl))
  | tell | markApplied => exact hwatching.congr rfl rfl

/-- What has been booked twice stays booked twice in a running engine. -/
theorem Deed.watching (h : Deed before after) (hrunning : before.running = true)
    (hwatching : before.Watching others) : after.Watching others := by
  cases h with
  | move h => exact h.watching hwatching
  | answer host _ hobservations => exact hwatching.congr hobservations rfl
  | arrive node useFirstChild =>
    refine hwatching.congr rfl ?_
    have hnone : [Controller.ofNode node useFirstChild].flatMap Controller.watches = [] := rfl
    rw [watched, newController, List.flatMap_append, hnone, List.append_nil, watched]
  | amend c f hobservers =>
    exact hwatching.congr rfl (watched_modifyController_eq before c hobservers)
  | release c evict => exact hwatching.release c evict
  | lose c evict hstopped => exact absurd (hrunning.symm.trans hstopped) Bool.true_eq_false.mp
  | enlist | file | forget | found | retire => exact hwatching.congr rfl rfl
  | unlisten i key => exact hwatching.congr (observations_unsubscribeAll ..) rfl
  | condemn i => exact hwatching.congr (observations_unsubscribeAll ..) rfl

theorem watching_run {operations : List Operation} (hrunning : engine.running = true)
    (hwatching : engine.Watching others) (hfollows : Follows NamesExisting engine operations) :
    (engine.run operations).Watching others :=
  (run_of_deeds (fun _ _ hdeed hrunning => hdeed.watching hrunning)
    (fun _ _ container item hc h => h.watchChildList hc container item) hrunning hwatching
    hfollows).1

/-! ### Who observes -/

/-- A controller that observes a container is connected. -/
def Attentive (engine : Engine) : Prop :=
  ∀ c, (engine.controller c).observers ≠ [] → (engine.controller c).connected = true

theorem attentive_start (host : Host) (options : EngineOptions) : (start host options).Attentive :=
  fun _ h => absurd rfl h

namespace Attentive

theorem congr (h : before.Attentive) (hcontrollers : after.controllers = before.controllers) :
    after.Attentive := by
  intro c
  rw [controller, hcontrollers]
  exact h c

theorem modifyController (h : engine.Attentive) {f : Controller → Controller}
    (hf : (f (engine.controller c)).observers ≠ [] → (f (engine.controller c)).connected = true) :
    (engine.modifyController c f).Attentive := by
  intro other
  rw [controller_modifyController_eq]
  split
  next heq => exact heq.1 ▸ hf
  next => exact h other

end Attentive

theorem Move.attentive (h : Move before after) (hattentive : before.Attentive) :
    after.Attentive := by
  cases h with
  | listen => exact listen_ind hattentive (hattentive.congr rfl)
  | watch c container item hc =>
    exact watchChildList_ind hattentive fun _ _ => hattentive.modifyController fun _ => hc
  | markItem c =>
    exact markItem_ind (fun _ => hattentive) (hattentive.modifyController (hattentive c))
  | tell | markApplied => exact hattentive.congr rfl

theorem Deed.attentive (h : Deed before after) (hattentive : before.Attentive) :
    after.Attentive := by
  cases h with
  | move h => exact h.attentive hattentive
  | arrive node useFirstChild =>
    intro c
    rw [controller, newController, getD_append_singleton]
    split
    · exact fun h => absurd rfl h
    · exact hattentive c
  | amend c f hobservers hconnected =>
    exact hattentive.modifyController fun h => hconnected _ (hattentive c (hobservers _ ▸ h))
  | release c evict =>
    exact (hattentive.modifyController fun h => absurd rfl h).congr
      (controllers_releasedAtHost before c evict)
  | lose c evict => exact hattentive.modifyController fun h => absurd rfl h
  | answer | enlist | file | forget | unlisten | found | condemn | retire =>
    exact hattentive.congr rfl

theorem Deeds.attentive (h : Deeds before after) (hattentive : before.Attentive) :
    after.Attentive := by
  induction h with
  | refl => exact hattentive
  | tail _ hstep ih => exact hstep.attentive ih

/-- If no controller is asked to watch while it is not connected, only connected ones observe. -/
theorem attentive_run {operations : List Operation} (hattentive : engine.Attentive)
    (hnames : Follows NamesExisting engine operations)
    (hwatches : Follows WatchesConnected engine operations) :
    (engine.run operations).Attentive := by
  induction operations generalizing engine with
  | nil => exact hattentive
  | cons operation rest ih =>
    exact ih ((deeds_perform hnames.1 hwatches.1).attentive hattentive) hnames.2 hwatches.2

end Engine

end InteractionBinding
