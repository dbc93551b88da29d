import InteractionBinding.Proofs.Lifecycle.Attire
import InteractionBinding.Proofs.Subscriptions.Observations
/-!
# Effect states

A toggle that changes the active effects of a node writes them to the node. Nothing else writes to
a node, and nothing else changes the active effects that a controller holds
(`Engine.keepsActive_perform`), but for the dismissal of the controller: an eviction clears its
active effects and writes nothing. So what has last been written to a node are its active effects as
long as nobody else toggles it, unless the controller has been dismissed since
(`Engine.run_activeEffects`).
-/

namespace InteractionBinding

/-- Whether an event writes the active effects of a node. -/
def Event.IsState : Event → Prop
  | .effectState .. => True
  | _ => False

/-- The list that an event writes to a node. -/
def Event.state? (n : NodeId) : Event → Option (List String)
  | .effectState node effects => if node = n then some effects else none
  | _ => none

/-- An entry that writes no active effects. -/
def Entry.IsStateless (entry : Entry) : Prop := ∀ event ∈ entry.event?, ¬event.IsState

theorem Controller.activeOn_setActive (controller : Controller) (node n : NodeId)
    (active : List String) : (controller.setActive node active).activeOn n =
      if node = n then active else controller.activeOn n := by
  rw [Controller.activeOn, Controller.setActive, List.find?_cons]
  by_cases hnode : node = n
  · rw [if_pos hnode, decide_eq_true hnode]
    rfl
  · rw [if_neg hnode, decide_eq_false hnode, List.find?_filter, Controller.activeOn]
    refine congrArg (fun entry => (Option.map Prod.snd entry).getD [])
      (congrArg (List.find? · controller.activeEffects) (funext fun entry => ?_))
    by_cases hentry : entry.1 = n
    · simp [hentry, Ne.symm hnode]
    · simp [hentry]

namespace Engine

variable {engine before middle after : Engine} {c : ControllerId} {n : NodeId}
  {admits : ControllerId → Bool → Prop}

/-- A controller takes over what it writes for a node, and keeps the rest. -/
theorem activeOn_writeActive (engine : Engine) (c d : ControllerId) (n m : NodeId)
    (active : List String) :
    ((engine.writeActive c n active).controller d).activeOn m =
      if d = c ∧ m = n ∧ c < engine.controllers.length then active
      else (engine.controller d).activeOn m := by
  rw [writeActive, controller_modifyController_eq]
  by_cases hd : c = d ∧ d < (engine.tell (.effectState n active)).controllers.length
  · obtain ⟨rfl, hc⟩ := hd
    rw [if_pos ⟨rfl, hc⟩, Controller.activeOn_setActive]
    exact if_congr ⟨fun heq => ⟨rfl, heq.symm, hc⟩, fun hand => hand.2.1.symm⟩ rfl rfl
  · rw [if_neg hd, if_neg]
    · rfl
    · rintro ⟨rfl, -, hc⟩
      exact hd ⟨rfl, hc⟩

/-- The lists that have been written to a node, in the order in which they have been written. -/
def statesOf (engine : Engine) (n : NodeId) : List (List String) :=
  engine.events.filterMap (Event.state? n)

theorem statesOf_of_stateless (h : Tells Entry.IsStateless before after) (n : NodeId) :
    after.statesOf n = before.statesOf n := by
  obtain ⟨entries, hlog, hentries⟩ := h
  rw [statesOf, events_eq_append hlog, List.filterMap_append, ← statesOf]
  refine List.append_right_eq_self.mpr (List.filterMap_eq_nil_iff.mpr fun event hevent => ?_)
  obtain ⟨entry, hentry, hevent⟩ := List.mem_filterMap.mp hevent
  have hstateless := hentries entry hentry event hevent
  cases event with
  | effectState => exact absurd trivial hstateless
  | _ => rfl

/-- One engine comes from another without a list being written to a node, and with the active
effects that a controller holds as they are. -/
structure KeepsActive (c : ControllerId) (before after : Engine) : Prop where
  silent : Tells Entry.IsStateless before after
  active : (after.controller c).activeEffects = (before.controller c).activeEffects

namespace KeepsActive

theorem refl (engine : Engine) : KeepsActive c engine engine := ⟨.silent rfl, rfl⟩

theorem trans (first : KeepsActive c before middle) (second : KeepsActive c middle after) :
    KeepsActive c before after :=
  ⟨first.silent.trans second.silent, second.active.trans first.active⟩

/-- A change that neither tells anything nor touches a controller. -/
theorem aside (hlog : after.log = before.log)
    (hcontrollers : after.controllers = before.controllers) : KeepsActive c before after :=
  ⟨.silent hlog, by rw [controller, controller, hcontrollers]⟩

theorem amend (engine : Engine) (d : ControllerId) (f : Controller → Controller)
    (hf : ∀ controller, (f controller).activeEffects = controller.activeEffects) :
    KeepsActive c engine (engine.modifyController d f) := by
  refine ⟨.silent rfl, ?_⟩
  rw [controller_modifyController_eq]
  split
  · exact hf _
  · rfl

theorem tell (engine : Engine) {event : Event} (h : ¬event.IsState) :
    KeepsActive c engine (engine.tell event) := by
  refine ⟨.single rfl fun other hother => ?_, rfl⟩
  rw [← Option.some.inj hother]
  exact h

/-- A stylesheet is no active effect. -/
theorem removeSheets (engine : Engine) (sheet? : Option SheetId) :
    KeepsActive c engine (sheet?.toList.foldl removeSheet engine) := by
  cases sheet? with
  | none => exact .refl engine
  | some sheet => exact .tell engine id

end KeepsActive

/-! ### Changes of the attire -/

theorem Entry.IsPlain.isStateless {entry : Entry} (h : entry.IsPlain) : entry.IsStateless := by
  intro event hevent hstate
  cases event with
  | effectState => exact h _ hevent trivial
  | _ => exact hstate

/-- What is kept of the attire of controllers includes their active effects. -/
theorem KeepsAttire.keepsActive (h : KeepsAttire before after) (c : ControllerId) :
    KeepsActive c before after :=
  ⟨h.plain.mono fun _ => Entry.IsPlain.isStateless, congrArg Prod.snd (h.attire c)⟩

/-- The release of a controller writes to no node. -/
theorem stateless_releasedAtHost (engine : Engine) (d : ControllerId) (evict : Bool) :
    Tells Entry.IsStateless engine (engine.releasedAtHost d evict) := by
  let held := engine.controller d
  let released := engine.modifyController d (Controller.released · evict)
  let torn := if held.connected then released.teardown (released.ownedNodes d) else released
  have hreleased : Tells Entry.IsStateless engine released := .silent rfl
  have htorn : KeepsActive d released torn := by
    simp only [torn]
    split
    · exact (keepsAttire_teardown ..).keepsActive d
    · exact .refl released
  have hsheets : KeepsActive d torn (held.stylesheet.toList.foldl removeSheet torn) :=
    .removeSheets torn held.stylesheet
  exact (hreleased.trans htorn.silent).trans hsheets.silent

/-- Only an eviction takes active effects away. -/
theorem activeEffects_released {d : ControllerId} {evict : Bool} (h : ¬(evict = true ∧ d = c)) :
    ((engine.modifyController d (Controller.released · evict)).controller c).activeEffects =
      (engine.controller c).activeEffects := by
  rw [controller_modifyController_eq]
  split
  next hand =>
    cases evict with
    | false => rfl
    | true => exact absurd ⟨rfl, hand.1⟩ h
  · rfl

theorem Change.stateless (h : Change admits before after) :
    Tells Entry.IsStateless before after := by
  cases h with
  | keep h => exact h.plain.mono fun _ => Entry.IsPlain.isStateless
  | arrive | lose | stop => exact .silent rfl
  | release d evict => exact stateless_releasedAtHost before d evict

theorem Change.activeEffects (h : Change admits before after) (hkept : ¬admits c true) :
    (after.controller c).activeEffects = (before.controller c).activeEffects := by
  have hother {d : ControllerId} {evict : Bool} (hadmits : admits d evict) :
      ¬(evict = true ∧ d = c) := by
    rintro ⟨rfl, rfl⟩
    exact hkept hadmits
  cases h with
  | keep h => exact (h.keepsActive c).active
  | arrive node useFirstChild =>
    rw [controller, newController, getD_append_singleton]
    split
    next heq =>
      rw [controller, List.getD_eq_getElem?_getD, List.getElem?_eq_none (Nat.le_of_eq heq.symm)]
      rfl
    · rfl
  | release d evict hadmits =>
    rw [controller, controllers_releasedAtHost]
    exact activeEffects_released (hother hadmits)
  | lose d evict hadmits => exact activeEffects_released (hother hadmits)
  | stop => rfl

namespace Changes

theorem stateless (h : Changes admits before after) : Tells Entry.IsStateless before after := by
  induction h with
  | refl => exact .silent rfl
  | tail _ hstep ih => exact ih.trans hstep.stateless

theorem keepsActive (h : Changes admits before after) (hkept : ¬admits c true) :
    KeepsActive c before after := by
  refine ⟨h.stateless, ?_⟩
  induction h with
  | refl => rfl
  | tail _ hstep ih => exact (hstep.activeEffects hkept).trans ih

end Changes

/-! ### Operations -/

theorem keepsActive_renderStyle (engine : Engine) (d : ControllerId) (rules : List String) :
    KeepsActive c engine (engine.renderStyle d rules).1 :=
  renderStyle_ind (.refl engine) ((KeepsActive.tell engine id).trans (.aside rfl rfl))
    (fun state _ hstate => hstate.trans (.tell state id))
    fun state _ hstate => hstate.trans (.amend state d _ fun _ => rfl)

/-- A node is toggled by one controller only. -/
def TogglesAlone (c : ControllerId) (n : NodeId) (engine : Engine) : Operation → Prop
  | .toggle d _ _ item =>
    item.or (engine.anchor d) = some n → d = c ∧ c < engine.controllers.length
  | _ => True

/-- An operation that neither toggles nor dismisses keeps the active effects of a controller, and
writes to no node. -/
theorem keepsActive_perform {operation : Operation} (hkept : ¬engine.Dismisses c operation)
    (htoggle : ∀ d effectId action item, operation ≠ .toggle d effectId action item) :
    KeepsActive c engine (engine.perform operation).1 := by
  have hchanges (hstyle : ∀ d rules, operation ≠ .style d rules) :
      KeepsActive c engine (engine.perform operation).1 := by
    have hchanges : Changes (fun d evict => evict = true → engine.Dismisses d operation) engine
        (engine.perform operation).1 :=
      changes_perform (fun _ h => absurd h Bool.false_ne_true) (fun _ h _ => h) htoggle hstyle
    exact hchanges.keepsActive fun h => hkept (h rfl)
  cases operation with
  | style d rules => exact keepsActive_renderStyle engine d rules
  | _ => exact hchanges fun _ _ heq => nomatch heq

/-! ### Writing -/

/-- Lists are written to a node, and a controller holds the last of them, or what it held before if
there is none. -/
structure Writes (c : ControllerId) (n : NodeId) (written : List (List String))
    (before after : Engine) : Prop where
  states : after.statesOf n = before.statesOf n ++ written
  active : (after.controller c).activeOn n =
    written.getLast?.getD ((before.controller c).activeOn n)

theorem Writes.trans {written written' : List (List String)}
    (first : Writes c n written before middle) (second : Writes c n written' middle after) :
    Writes c n (written ++ written') before after := by
  refine ⟨by rw [second.states, first.states, List.append_assoc], ?_⟩
  rw [second.active, first.active, List.getLast?_append]
  cases written'.getLast? <;> rfl

theorem KeepsActive.writes (h : KeepsActive c before after) (n : NodeId) :
    Writes c n [] before after := by
  refine ⟨by rw [statesOf_of_stateless h.silent, List.append_nil], ?_⟩
  rw [Controller.activeOn, h.active]
  rfl

theorem statesOf_tell (engine : Engine) (node : NodeId) (active : List String) :
    (engine.tell (.effectState node active)).statesOf n =
      engine.statesOf n ++ if node = n then [active] else [] := by
  have hlog : (engine.tell (.effectState node active)).log =
      engine.log ++ [.told (.effectState node active) engine.scene] := rfl
  rw [statesOf, events_eq_append hlog, List.filterMap_append, ← statesOf]
  refine congrArg (engine.statesOf n ++ ·) ?_
  by_cases hnode : node = n <;> simp [Entry.event?, Event.state?, hnode]

/-- A toggle writes the active effects of a node if they change. -/
theorem exists_writes_toggleEffect {effectId : String} {action : EffectStateAction}
    {item : Option NodeId} (halone : engine.TogglesAlone c n (.toggle d effectId action item)) :
    ∃ written, Writes c n written engine (engine.toggleEffect d effectId action item).1 := by
  rcases engine.toggleEffect_cases d effectId action item with
    heq | ⟨node, active, -, hnode, -, heq⟩ <;> rw [heq]
  · exact ⟨[], (KeepsActive.refl engine).writes n⟩
  · refine ⟨if node = n then [active] else [], statesOf_tell engine node active, ?_⟩
    rw [activeOn_writeActive]
    by_cases hn : node = n
    · obtain ⟨rfl, hc⟩ := halone (hn ▸ hnode)
      rw [if_pos ⟨rfl, hn.symm, hc⟩, if_pos hn]
      rfl
    · rw [if_neg hn, if_neg fun hand => hn hand.2.1.symm]
      rfl

theorem exists_writes_perform {operation : Operation} (hkept : ¬engine.Dismisses c operation)
    (halone : engine.TogglesAlone c n operation) :
    ∃ written, Writes c n written engine (engine.perform operation).1 := by
  cases operation with
  | toggle d effectId action item => exact exists_writes_toggleEffect halone
  | _ => exact ⟨[], (keepsActive_perform hkept fun _ _ _ _ heq => nomatch heq).writes n⟩

/-- Along a run that does not dismiss a controller, the controller holds what has last been written
to a node that nobody else toggles. -/
theorem exists_writes_run {operations : List Operation}
    (hkept : Follows (fun engine operation => ¬engine.Dismisses c operation) engine operations)
    (halone : Follows (TogglesAlone c n) engine operations) :
    ∃ written, Writes c n written engine (engine.run operations) := by
  induction operations generalizing engine with
  | nil => exact ⟨[], (KeepsActive.refl engine).writes n⟩
  | cons operation rest ih =>
    obtain ⟨written, hfirst⟩ := exists_writes_perform hkept.1 halone.1
    obtain ⟨written', hrest⟩ := ih hkept.2 halone.2
    exact ⟨written ++ written', hfirst.trans hrest⟩

/-- A dismissal clears the active effects that a controller holds, and writes to no node. -/
theorem activeOn_perform_of_dismisses {operation : Operation} (h : engine.Dismisses c operation) :
    (engine.perform operation).1.statesOf n = engine.statesOf n ∧
      ((engine.perform operation).1.controller c).activeOn n = [] := by
  have hevicted : (engine.disconnect c true).statesOf n = engine.statesOf n ∧
      ((engine.disconnect c true).controller c).activeOn n = [] := by
    have hdisconnect : Changes (fun _ _ => True) engine (engine.disconnect c true) :=
      changes_disconnect trivial engine
    refine ⟨statesOf_of_stateless hdisconnect.stateless n, ?_⟩
    rw [controller_disconnect]
    split
    · rfl
    next hmissing =>
      have hc : engine.controllers.length ≤ c := Nat.not_lt.mp fun hc => hmissing ⟨rfl, hc⟩
      rw [controller, List.getD_eq_getElem?_getD, List.getElem?_eq_none hc]
      rfl
  cases operation with
  | disconnect d evict =>
    obtain ⟨rfl, rfl⟩ := h
    exact hevicted
  | removeKey key =>
    obtain ⟨hrunning, hget⟩ := h
    have heq : (engine.perform (.removeKey key)).1 = engine.disconnect c true := by
      simp only [perform, whenRunning, hrunning, if_true, answering, removeKey, hget]
    rw [heq]
    exact hevicted
  | _ => exact h.elim

/-! ### Runs -/

theorem Follows.drop {admits : Engine → Operation → Prop} {first second : List Operation}
    (h : Follows admits engine (first ++ second)) : Follows admits (engine.run first) second := by
  induction first generalizing engine with
  | nil => exact h
  | cons operation rest ih => exact ih h.2

/-- A run does not dismiss a controller, or there is a last time that it does. -/
theorem dismissal_cases (engine : Engine) (c : ControllerId) (operations : List Operation) :
    Follows (fun engine operation => ¬engine.Dismisses c operation) engine operations ∨
      ∃ front operation late, operations = front ++ operation :: late ∧
        (engine.run front).Dismisses c operation ∧
        Follows (fun engine operation => ¬engine.Dismisses c operation)
          ((engine.run front).perform operation).1 late := by
  induction operations generalizing engine with
  | nil => exact .inl trivial
  | cons operation rest ih =>
    rcases ih (engine.perform operation).1 with
      hkept | ⟨front, last, late, rfl, hdismisses, hkept⟩
    · by_cases hdismisses : engine.Dismisses c operation
      · exact .inr ⟨[], operation, rest, rfl, hdismisses, hkept⟩
      · exact .inl ⟨hdismisses, hkept⟩
    · exact .inr ⟨operation :: front, last, late, rfl, hdismisses, hkept⟩

/-- What has last been written is what a controller holds that has held nothing before. -/
theorem Writes.forall_getLast?_iff {written : List (List String)}
    (h : Writes c n written before after) (hnone : (before.controller c).activeOn n = []) :
    (∀ last ∈ (after.statesOf n).getLast?, last = (after.controller c).activeOn n) ↔
      written ≠ [] ∨ ∀ last ∈ (before.statesOf n).getLast?, last = [] := by
  rw [h.states, h.active, hnone]
  rcases List.eq_nil_or_concat written with rfl | ⟨earlier, last, rfl⟩
  · simp
  · simp

/-- A run, cut after the last dismissal of a controller: the active effects that the controller has
for a node that nobody else toggles are what has last been written to the node since then, and there
are none if nothing has. So they are what has last been written to the node at all exactly if that
has been written since the last dismissal or was empty. -/
theorem run_activeEffects {host : Host} {options : EngineOptions} {operations : List Operation}
    (halone : Follows (TogglesAlone c n) (start host options) operations) :
    ∃ early late written, operations = early ++ late ∧
      (early = [] ∨ ∃ front operation, early = front ++ [operation] ∧
        ((start host options).run front).Dismisses c operation) ∧
      Follows (fun engine operation => ¬engine.Dismisses c operation)
        ((start host options).run early) late ∧
      let before := (start host options).run early
      let after := (start host options).run operations
      after.statesOf n = before.statesOf n ++ written ∧
        after.activeEffects c (some n) = written.getLast?.getD [] ∧
        ((∀ last ∈ (after.statesOf n).getLast?, last = after.activeEffects c (some n)) ↔
          written ≠ [] ∨ ∀ last ∈ (before.statesOf n).getLast?, last = []) := by
  rcases dismissal_cases (start host options) c operations with
    hkept | ⟨front, operation, late, rfl, hdismisses, hkept⟩
  · obtain ⟨written, hwrites⟩ := exists_writes_run hkept halone
    have hnone : ((start host options).controller c).activeOn n = [] := rfl
    refine ⟨[], operations, written, rfl, .inl rfl, hkept, hwrites.states, ?_,
      hwrites.forall_getLast?_iff hnone⟩
    exact hwrites.active.trans (by rw [hnone])
  · have hearly : (start host options).run (front ++ [operation]) =
        (((start host options).run front).perform operation).1 := by
      rw [run_append, run_cons, run_nil]
    obtain ⟨-, hnone⟩ := @activeOn_perform_of_dismisses _ c n _ hdismisses
    obtain ⟨written, hwrites⟩ := exists_writes_run hkept halone.drop.2
    rw [← hearly] at hnone hkept hwrites
    have hrun : (start host options).run (front ++ operation :: late) =
        ((start host options).run (front ++ [operation])).run late := by
      rw [← run_append, List.append_assoc, List.singleton_append]
    rw [← hrun] at hwrites
    refine ⟨front ++ [operation], late, written, by rw [List.append_assoc, List.singleton_append],
      .inr ⟨front, operation, rfl, hdismisses⟩, hkept, hwrites.states, ?_,
      hwrites.forall_getLast?_iff hnone⟩
    exact hwrites.active.trans (by rw [hnone])

/-- A lamp fades, and is dismissed: it stays faded, though it has no active effect. -/
theorem run_activeEffects_faded :
    let operations : List Operation :=
      [.newController 1 false, .toggle 0 "fade" .add none, .disconnect 0 true]
    let after := (start .bare .standard).run operations
    Follows (TogglesAlone 0 1) (start .bare .standard) operations ∧
      (after.statesOf 1).getLast? = some ["fade"] ∧ after.activeEffects 0 (some 1) = [] ∧
      ∃ front operation late, operations = front ++ operation :: late ∧
        ((start .bare .standard).run front).Dismisses 0 operation ∧
        (((start .bare .standard).run (front ++ [operation])).statesOf 1).getLast? =
          some ["fade"] := by
  intro operations after
  have halone : Follows (TogglesAlone 0 1) (start .bare .standard) operations :=
    ⟨trivial, fun _ => ⟨rfl, by decide⟩, trivial, trivial⟩
  have hlast : (after.statesOf 1).getLast? = some ["fade"] := by decide +kernel
  have hactive : after.activeEffects 0 (some 1) = [] := by decide +kernel
  refine ⟨halone, hlast, hactive, ?_⟩
  obtain ⟨early, late, written, hsplit, hearly, -, hstates, -, hiff⟩ := run_activeEffects halone
  -- what has last been written is not what is active, so nothing has been written since
  have hstale := mt hiff.mpr fun h => by
    have heq := h _ hlast
    rw [hactive] at heq
    cases heq
  obtain ⟨hnone, hbefore⟩ := not_or.mp hstale
  obtain rfl := not_not.mp hnone
  rw [List.append_nil] at hstates
  rcases hearly with rfl | ⟨front, operation, rfl, hdismisses⟩
  · exact absurd (fun _ h => nomatch h) hbefore
  · refine ⟨front, operation, late, hsplit.trans (List.append_assoc ..), hdismisses, ?_⟩
    rw [← hstates]
    exact hlast

end Engine

end InteractionBinding
