import InteractionBinding.Proofs.Lifecycle.Attire
import InteractionBinding.Proofs.Subscriptions.Watching
/-!
# What the host holds for controllers

The host holds two kinds of things for a controller, observations of containers and a stylesheet, and
the controller records both. The two sides agree in every state that the operations of an engine
reach, and a controller that has been disconnected leaves nothing behind (`Engine.run_balanced`).

Observations are booked with tokens, which the ledger of observations balances
(`Engine.Watching`); here it is added whose observation a token stands for, and that a controller
observes a container once (`Engine.Vigilant`). Stylesheets are not held by the host of the model: the
ones that are adopted at present are read off the log (`Engine.adopted`).

## Main definitions

* `Engine.adopted`, `Engine.worn` — the stylesheets that the host has been told to adopt, and those
  that controllers record.
* `Engine.Dressed` — these are the same.
* `Engine.Balanced` — observations and stylesheets are booked alike on both sides.
-/

namespace InteractionBinding

/-- What an event makes of the adopted stylesheets. -/
def Event.adopt (sheets : List SheetId) : Event → List SheetId
  | .insertSheet sheet _ => sheets ++ [sheet]
  | .removeSheet sheet => sheets.erase sheet
  | _ => sheets

namespace Engine

open scoped List

variable {engine before after : Engine} {others : List Watch} {c : ControllerId} {node : NodeId}
  {token : Token} {admits : ControllerId → Bool → Prop}

/-! ### Observations -/

/-- The host observes a container for a controller under a token. -/
def ObservesFor (engine : Engine) (c : ControllerId) (node : NodeId) (token : Token) : Prop :=
  ∃ observation, (token, observation) ∈ engine.host.observations.entries ∧
    observation.owner = c ∧ observation.container = node

/-- What a controller records is observed for this controller, every container once. -/
structure Vigilant (engine : Engine) : Prop where
  owned (c : ControllerId) (node : NodeId) (token : Token) :
    (node, token) ∈ (engine.controller c).observers → engine.ObservesFor c node token
  single (c : ControllerId) : ((engine.controller c).observers.map Prod.fst).Nodup

namespace Vigilant

theorem congr (h : before.Vigilant)
    (hobservations : after.host.observations = before.host.observations)
    (hobservers : ∀ c, (after.controller c).observers = (before.controller c).observers) :
    after.Vigilant where
  owned c node token hmem := by
    rw [ObservesFor, hobservations]
    exact h.owned c node token (hobservers c ▸ hmem)
  single c := by
    rw [hobservers]
    exact h.single c

/-- A controller observes a container that it has not observed yet. -/
theorem watchChildList (h : engine.Vigilant) (c : ControllerId) (container : String)
    (item : Option String) : (engine.watchChildList c container item).1.Vigilant := by
  refine watchChildList_ind h fun node hnew => ?_
  let watch (controller : Controller) : Controller := { controller with
    observers := controller.observers ++ [(node, engine.host.observations.next)] }
  have hobservers (d : ControllerId) :
      ((engine.modifyController c watch).controller d).observers =
        if c = d ∧ d < engine.controllers.length
          then (engine.controller d).observers ++ [(node, engine.host.observations.next)]
          else (engine.controller d).observers := by
    rw [controller_modifyController_eq]
    split <;> rfl
  have hheld {d : ControllerId} {other : NodeId} {token : Token}
      (hmem : (other, token) ∈ (engine.controller d).observers) :
      ∃ observation, (token, observation) ∈ engine.host.observations.entries ++
          [(engine.host.observations.next, ⟨node, c, container, item⟩)] ∧
        observation.owner = d ∧ observation.container = other :=
    (h.owned d other token hmem).imp fun _ hobservation =>
      ⟨List.mem_append_left _ hobservation.1, hobservation.2⟩
  refine ⟨fun d other token hmem => ?_, fun d => ?_⟩
  · change (other, token) ∈ ((engine.modifyController c watch).controller d).observers at hmem
    rw [hobservers] at hmem
    split at hmem
    next hand =>
      rcases List.mem_append.mp hmem with hmem | hmem
      · exact hheld hmem
      · obtain ⟨rfl, rfl⟩ := Prod.mk.inj (List.mem_singleton.mp hmem)
        exact ⟨_, List.mem_append_right _ (List.mem_singleton_self _), hand.1, rfl⟩
    next => exact hheld hmem
  · change (((engine.modifyController c watch).controller d).observers.map Prod.fst).Nodup
    rw [hobservers]
    split
    next hand =>
      rw [List.map_append]
      refine List.nodup_append.mpr ⟨h.single d, List.nodup_singleton _, ?_⟩
      rintro other hother _ hnode rfl
      obtain rfl : other = node := List.mem_singleton.mp hnode
      exact hnew (hand.1 ▸ hother)
    next => exact h.single d

/-- A controller that is released gives up its own observations only. -/
theorem release (h : engine.Vigilant) (hissued : engine.host.observations.Issued)
    (c : ControllerId) (evict : Bool) : (engine.releasedAtHost c evict).Vigilant := by
  have hcontroller (d : ControllerId) :
      ((engine.releasedAtHost c evict).controller d).observers =
        if c = d ∧ d < engine.controllers.length then [] else (engine.controller d).observers := by
    rw [controller, controllers_releasedAtHost]
    refine (congrArg _ (controller_modifyController_eq c d _)).trans ?_
    split <;> rfl
  refine ⟨fun d node token hmem => ?_, fun d => ?_⟩
  · have hd : d ≠ c ∧ (node, token) ∈ (engine.controller d).observers := by
      rw [hcontroller] at hmem
      split at hmem
      next => cases hmem
      next hother => exact ⟨fun heq => hother ⟨heq.symm, lt_of_mem_observers hmem⟩, hmem⟩
    obtain ⟨hne, hmem⟩ := hd
    obtain ⟨observation, hentry, howner, hcontainer⟩ := h.owned d node token hmem
    refine ⟨observation, ?_, howner, hcontainer⟩
    rw [releasedAtHost, observations_releaseHost]
    refine List.mem_filter.mpr ⟨hentry, decide_eq_true ?_⟩
    refine not_mem_tokens_of_owner_ne hissued (fun node token hmem => ?_) hentry (howner ▸ hne)
    obtain ⟨own, hown, howned, -⟩ := h.owned c node token hmem
    exact ⟨own, hown, howned⟩
  · rw [hcontroller]
    split
    · exact List.nodup_nil
    · exact h.single d

end Vigilant

theorem Move.vigilant (h : Move before after) (hvigilant : before.Vigilant) : after.Vigilant := by
  cases h with
  | listen => exact listen_ind hvigilant (hvigilant.congr rfl fun _ => rfl)
  | watch c container item => exact hvigilant.watchChildList c container item
  | markItem =>
    refine markItem_ind (fun _ => hvigilant) (hvigilant.congr rfl fun d => ?_)
    rw [controller_modifyController_eq]
    split <;> rfl
  | tell | markApplied => exact hvigilant.congr rfl fun _ => rfl

theorem Deed.vigilant (h : Deed before after) (hrunning : before.running = true)
    (hissued : before.host.observations.Issued) (hvigilant : before.Vigilant) :
    after.Vigilant := by
  cases h with
  | move h => exact h.vigilant hvigilant
  | answer host _ hobservations => exact hvigilant.congr hobservations fun _ => rfl
  | arrive node useFirstChild =>
    refine hvigilant.congr rfl fun c => ?_
    rw [controller, newController, getD_append_singleton]
    split
    next heq =>
      rw [controller_eq_default (Nat.le_of_eq heq.symm)]
      rfl
    · rfl
  | amend c f hobservers =>
    refine hvigilant.congr rfl fun d => ?_
    rw [controller_modifyController_eq]
    split
    · exact hobservers _
    · rfl
  | release c evict => exact hvigilant.release hissued c evict
  | lose c evict hstopped => exact absurd (hrunning.symm.trans hstopped) Bool.true_eq_false.mp
  | enlist | file | forget | found | retire => exact hvigilant.congr rfl fun _ => rfl
  | unlisten i key =>
    exact hvigilant.congr (observations_unsubscribeAll ..) fun _ => rfl
  | condemn i => exact hvigilant.congr (observations_unsubscribeAll ..) fun _ => rfl

/-! ### Stylesheets -/

/-- The stylesheets that the host has been told to adopt and not to remove. -/
def adopted (engine : Engine) : List SheetId := engine.events.foldl Event.adopt []

/-- The stylesheets that controllers record. -/
def worn (engine : Engine) : List SheetId := engine.controllers.filterMap Controller.stylesheet

/-- The host has adopted what the controllers record, every stylesheet once, and has given it a name
before. -/
structure Dressed (engine : Engine) : Prop where
  ledger : engine.adopted ~ engine.worn
  distinct : engine.adopted.Nodup
  given : ∀ sheet ∈ engine.adopted, sheet < engine.host.nextSheet

theorem adopted_eq_foldl {entries : List Entry} (h : after.log = before.log ++ entries) :
    after.adopted = (entries.filterMap Entry.event?).foldl Event.adopt before.adopted := by
  rw [adopted, events_eq_append h, List.foldl_append]
  rfl

theorem adopted_tell (engine : Engine) (event : Event) :
    (engine.tell event).adopted = event.adopt engine.adopted := by
  have hlog : (engine.tell event).log = engine.log ++ [.told event engine.scene] := rfl
  rw [adopted_eq_foldl hlog]
  rfl

theorem adopted_of_plain (h : Tells Entry.IsPlain before after) :
    after.adopted = before.adopted := by
  obtain ⟨entries, hlog, hplain⟩ := h
  rw [adopted_eq_foldl hlog]
  refine List.foldlRecOn (motive := fun sheets => sheets = before.adopted) _ _ rfl
    fun sheets hsheets event hevent => ?_
  obtain ⟨entry, hentry, hevent⟩ := List.mem_filterMap.mp hevent
  have hevent := hplain entry hentry event hevent
  cases event with
  | insertSheet | removeSheet => exact absurd trivial hevent
  | _ => exact hsheets

theorem adopted_removeSheets (engine : Engine) (sheet? : Option SheetId) :
    (sheet?.toList.foldl removeSheet engine).adopted =
      sheet?.toList.foldl List.erase engine.adopted := by
  cases sheet? with
  | none => rfl
  | some sheet => exact adopted_tell engine (.removeSheet sheet)

theorem worn_congr (h : after.controllers.map Controller.stylesheet =
    before.controllers.map Controller.stylesheet) : after.worn = before.worn := by
  have hworn (engine : Engine) :
      engine.worn = (engine.controllers.map Controller.stylesheet).filterMap id := by
    rw [List.filterMap_map]
    rfl
  rw [hworn, hworn, h]

/-- What a controller takes off and what it puts on make the difference of what is recorded. -/
theorem worn_modifyController (hc : c < engine.controllers.length) (f : Controller → Controller)
    {added : List SheetId}
    (h : (f (engine.controller c)).stylesheet.toList = added) :
    (engine.controller c).stylesheet.toList ++ (engine.modifyController c f).worn ~
      added ++ engine.worn := by
  rw [controller_eq_getElem hc] at h ⊢
  rw [worn, worn, List.filterMap_eq_flatMap_toList, List.filterMap_eq_flatMap_toList, ← h]
  exact flatMap_modify_perm hc (fun controller => controller.stylesheet.toList) f
    List.perm_append_comm

/-- A controller that is released takes its stylesheet off. -/
theorem worn_released {evict : Bool} (h : after.controllers =
    (engine.modifyController c (Controller.released · evict)).controllers) :
    (engine.controller c).stylesheet.toList ++ after.worn ~ engine.worn := by
  rw [worn, h]
  rcases Nat.lt_or_ge c engine.controllers.length with hc | hc
  · exact @worn_modifyController engine c hc (Controller.released · evict) [] rfl
  · rw [controller_eq_default hc, modifyController, List.modify_eq_self hc]
    rfl

theorem adopted_releasedAtHost (engine : Engine) (c : ControllerId) (evict : Bool) :
    (engine.releasedAtHost c evict).adopted =
      (engine.controller c).stylesheet.toList.foldl List.erase engine.adopted := by
  let held := engine.controller c
  let released := engine.modifyController c (Controller.released · evict)
  let torn := if held.connected then released.teardown (released.ownedNodes c) else released
  have htorn : torn.adopted = engine.adopted := by
    simp only [torn]
    split
    · exact adopted_of_plain (keepsAttire_teardown released _).plain
    · rfl
  exact (adopted_removeSheets torn held.stylesheet).trans (by rw [htorn])

theorem nextSheet_releasedAtHost (engine : Engine) (c : ControllerId) (evict : Bool) :
    (engine.releasedAtHost c evict).host.nextSheet = engine.host.nextSheet := by
  have hsheets (state : Engine) (sheet? : Option SheetId) :
      (sheet?.toList.foldl removeSheet state).host = state.host := by
    cases sheet? <;> rfl
  have hobservers (host : Host) (observers : List (NodeId × Token)) :
      (observers.foldl (fun host observer => host.unobserve observer.2) host).nextSheet =
        host.nextSheet :=
    List.foldlRecOn (motive := fun after : Host => after.nextSheet = host.nextSheet) _ _ rfl
      fun _ h _ _ => h
  rw [releasedAtHost, releaseHost, hobservers, hsheets]
  split
  · rw [host_teardown]
    rfl
  · rfl

namespace Dressed

theorem congr (h : before.Dressed) (hadopted : after.adopted = before.adopted)
    (hworn : after.worn = before.worn) (hsheet : after.host.nextSheet = before.host.nextSheet) :
    after.Dressed where
  ledger := by
    rw [hadopted, hworn]
    exact h.ledger
  distinct := hadopted ▸ h.distinct
  given := by
    rw [hadopted, hsheet]
    exact h.given

theorem keep (h : before.Dressed) (hkeeps : KeepsAttire before after) : after.Dressed := by
  refine h.congr (adopted_of_plain hkeeps.plain) (worn_congr ?_) hkeeps.nextSheet
  have hsheets := congrArg (List.map Prod.fst) hkeeps.controllers
  rwa [List.map_map, List.map_map] at hsheets

theorem arrive (h : engine.Dressed) (node : NodeId) (useFirstChild : Bool) :
    (engine.newController node useFirstChild).1.Dressed := by
  refine h.congr rfl ?_ rfl
  rw [worn, newController, List.filterMap_append]
  exact List.append_nil _

/-- Of the stylesheets that were adopted, one is removed, if there is one, and the rest is
recorded. -/
theorem of_removed {sheet? : Option SheetId} {held : List SheetId}
    (hadopted : engine.adopted = sheet?.toList.foldl List.erase held)
    (hledger : held ~ sheet?.toList ++ engine.worn) (hdistinct : held.Nodup)
    (hgiven : ∀ sheet ∈ held, sheet < engine.host.nextSheet) : engine.Dressed := by
  cases sheet? with
  | none =>
    obtain rfl : engine.adopted = held := hadopted
    exact ⟨hledger, hdistinct, hgiven⟩
  | some sheet =>
    have hadopted : engine.adopted = held.erase sheet := hadopted
    refine ⟨?_, hadopted ▸ hdistinct.erase sheet, fun other hother => ?_⟩
    · have herased := hledger.erase sheet
      rwa [Option.toList_some, List.singleton_append, List.erase_cons_head, ← hadopted] at herased
    · exact hgiven other (List.mem_of_mem_erase (hadopted ▸ hother))

/-- The stylesheet of a controller that is released is removed. -/
theorem release (h : engine.Dressed) (c : ControllerId) (evict : Bool) :
    (engine.releasedAtHost c evict).Dressed := by
  refine of_removed (adopted_releasedAtHost engine c evict)
    (h.ledger.trans (worn_released (controllers_releasedAtHost engine c evict)).symm) h.distinct ?_
  rw [nextSheet_releasedAtHost]
  exact h.given

/-- A new stylesheet is adopted before the one that it replaces is removed. -/
theorem renderStyle (h : engine.Dressed) (hc : c < engine.controllers.length)
    (rules : List String) : (engine.renderStyle c rules).1.Dressed := by
  rw [Engine.renderStyle]
  split
  · exact h
  · let sheet := engine.host.nextSheet
    let inserted := (engine.insertSheet rules).1
    let previous := (engine.controller c).stylesheet
    let wear (controller : Controller) : Controller := { controller with stylesheet := some sheet }
    have hinserted : inserted.adopted = engine.adopted ++ [sheet] :=
      adopted_tell engine (.insertSheet sheet rules)
    have hkept : (previous.toList.foldl removeSheet inserted).controllers = engine.controllers ∧
        (previous.toList.foldl removeSheet inserted).host.nextSheet = sheet + 1 := by
      cases previous <;> exact ⟨rfl, rfl⟩
    have hworn : previous.toList ++
        ((previous.toList.foldl removeSheet inserted).modifyController c wear).worn ~
          [sheet] ++ engine.worn := by
      rw [worn, modifyController, hkept.1]
      exact worn_modifyController hc wear rfl
    have hadopted : (previous.toList.foldl removeSheet inserted).adopted =
        previous.toList.foldl List.erase (engine.adopted ++ [sheet]) := by
      rw [← hinserted]
      exact adopted_removeSheets inserted previous
    refine of_removed hadopted ?_ ?_ ?_
    · calc engine.adopted ++ [sheet]
        _ ~ [sheet] ++ engine.adopted := List.perm_append_comm
        _ ~ [sheet] ++ engine.worn := h.ledger.append_left _
        _ ~ _ := hworn.symm
    · refine List.nodup_append.mpr ⟨h.distinct, List.nodup_singleton _, ?_⟩
      rintro other hother _ hsheet rfl
      rw [List.mem_singleton.mp hsheet] at hother
      exact Nat.lt_irrefl _ (h.given _ hother)
    · intro other hother
      refine Nat.lt_of_lt_of_eq ?_ hkept.2.symm
      rcases List.mem_append.mp hother with hother | hother
      · exact Nat.lt_succ_of_lt (h.given other hother)
      · exact List.mem_singleton.mp hother ▸ Nat.lt_succ_self sheet

theorem toggleEffect (h : engine.Dressed) (c : ControllerId) (effectId : String)
    (action : EffectStateAction) (item : Option NodeId) :
    (engine.toggleEffect c effectId action item).1.Dressed := by
  rcases engine.toggleEffect_cases c effectId action item with
    heq | ⟨node, active, -, -, -, heq⟩ <;> rw [heq]
  · exact h
  · exact h.congr (adopted_tell engine (.effectState node active))
      (worn_congr (map_modify_of_comp_eq Controller.stylesheet _ (fun _ => by rfl) ..)) rfl

end Dressed

/-- A change keeps the books of stylesheets as long as the engine runs. -/
theorem Change.dressed (h : Change admits before after)
    (hdressed : before.running = true → before.Dressed) :
    after.running = true → after.Dressed := by
  intro hrunning
  cases h with
  | keep h => exact (hdressed (h.running.symm.trans hrunning)).keep h
  | arrive node useFirstChild => exact (hdressed hrunning).arrive node useFirstChild
  | release c evict hadmits hbefore => exact (hdressed hbefore).release c evict
  | lose c evict hadmits hstopped =>
    exact absurd (hstopped.symm.trans hrunning) Bool.false_ne_true
  | stop => exact absurd hrunning Bool.false_ne_true

theorem Changes.dressed (h : Changes admits before after)
    (hdressed : before.running = true → before.Dressed) :
    after.running = true → after.Dressed := by
  induction h with
  | refl => exact hdressed
  | tail _ hstep ih => exact hstep.dressed ih

/-! ### Operations -/

/-- An operation names instances and controllers that exist. -/
def Addresses (engine : Engine) : Operation → Prop
  | .listen i _ _ _ _ => i < engine.instances.length
  | .watch c _ _ | .style c _ => c < engine.controllers.length
  | _ => True

/-- An engine that runs after an operation has run before, as it never starts again. -/
theorem running_of_perform {operation : Operation} (haddresses : engine.Addresses operation)
    (h : (engine.perform operation).1.running = true) :
    engine.running = true ∧ engine.NamesExisting operation := by
  have hnames : engine.NamesExisting operation := by
    cases operation with
    | stop => exact Bool.false_ne_true h
    | listen | watch => exact haddresses
    | _ => trivial
  refine ⟨?_, hnames⟩
  rcases perform_cases hnames with hdeeds | ⟨c, container, item, -, heq⟩
  · exact hdeeds.running.symm.trans h
  · rw [heq] at h
    exact (congrArg Scene.running (scene_watchChildList ..)).symm.trans h

theorem Dressed.perform (h : engine.Dressed) {operation : Operation}
    (haddresses : engine.Addresses operation)
    (hrunning : (engine.perform operation).1.running = true) :
    (engine.perform operation).1.Dressed := by
  have hchanges (htoggle : ∀ c effectId action item, operation ≠ .toggle c effectId action item)
      (hstyle : ∀ c rules, operation ≠ .style c rules) : (engine.perform operation).1.Dressed :=
    (@changes_perform engine (fun _ _ => True) operation (fun _ => trivial) (fun _ _ => trivial)
      htoggle hstyle).dressed (fun _ => h) hrunning
  cases operation with
  | toggle c effectId action item => exact h.toggleEffect c effectId action item
  | style c rules => exact h.renderStyle haddresses rules
  | _ => exact hchanges (fun _ _ _ _ heq => nomatch heq) fun _ _ heq => nomatch heq

/-- What others observe aside, the host holds what controllers record, observations as well as
stylesheets. -/
structure Balanced (others : List Watch) (engine : Engine) : Prop where
  watching : engine.Watching others
  vigilant : engine.Vigilant
  dressed : engine.Dressed

namespace Balanced

theorem perform (h : engine.Balanced others) {operation : Operation}
    (haddresses : engine.Addresses operation)
    (hrunning : (engine.perform operation).1.running = true) :
    (engine.perform operation).1.Balanced others := by
  obtain ⟨hbefore, hnames⟩ := running_of_perform haddresses hrunning
  have hobservations : (engine.perform operation).1.Watching others ∧
      (engine.perform operation).1.Vigilant := by
    rcases perform_cases hnames with hdeeds | ⟨c, container, item, hc, heq⟩
    · refine hdeeds.keeps (P := fun state => state.Watching others ∧ state.Vigilant)
        (fun before after hdeed hrunning hboth => ?_) hbefore ⟨h.watching, h.vigilant⟩
      exact ⟨hdeed.watching hrunning hboth.1, hdeed.vigilant hrunning hboth.1.issued hboth.2⟩
    · rw [heq]
      exact ⟨h.watching.watchChildList hc container item,
        h.vigilant.watchChildList c container item⟩
  exact ⟨hobservations.1, hobservations.2, h.dressed.perform haddresses hrunning⟩

end Balanced

/-! ### Runs -/

theorem running_of_run {operations : List Operation} (hfollows : Follows Addresses engine operations)
    (hrunning : (engine.run operations).running = true) : engine.running = true := by
  induction operations generalizing engine with
  | nil => exact hrunning
  | cons operation rest ih => exact (running_of_perform hfollows.1 (ih hfollows.2 hrunning)).1

/-- What an engine books stays balanced until it stops. -/
theorem Balanced.run {operations : List Operation} (h : engine.Balanced others)
    (hfollows : Follows Addresses engine operations)
    (hrunning : (engine.run operations).running = true) :
    (engine.run operations).Balanced others := by
  induction operations generalizing engine with
  | nil => exact h
  | cons operation rest ih =>
    exact ih (h.perform hfollows.1 (running_of_run hfollows.2 hrunning)) hfollows.2 hrunning

end Engine

end InteractionBinding
