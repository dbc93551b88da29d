import InteractionBinding.Proofs.Lifecycle.EffectStates
import Mathlib.Data.List.Induction
/-!
# Active effects as ordered sets

The calls that have been made for the active effects of a node say of every effect by itself whether
it is active: it has become so by the last of them that did not find it active and left it active.
A controller does not keep the calls but a list, which every call edits at its end or by taking
effects out. The list is the ordered set of the calls: it has the effects that are active, each of
them once, in the order in which they have last become active (`EffectCall.isOrderedSet_iff`).

What one controller holds for one node is the list of the calls for this node alone, whatever else
is done in between. A dismissal counts as a call that clears the list.

## Main definitions

* `EffectCall.isActive` — whether an effect is active after calls, each effect by itself.
* `EffectCall.LastActivatedAt` — the place of the call by which an effect has last become active.
* `EffectCall.IsOrderedSet` — a list of effects agrees with the calls.
* `Engine.effectCalls` — the calls for one controller and one node along a run.

## Main results

* `EffectCall.IsOrderedSet.outcome` — every call keeps a list in agreement with the calls.
* `EffectCall.isOrderedSet_iff` — the list of the calls is the only one that agrees with them.
* `Engine.activeEffects_run` — in every run the active effects are the list of the calls.
* `Engine.run_toggleEffect` — what one toggle does in any state of a run: to the list, to the
  document and to the lists of other nodes and controllers.
-/

namespace InteractionBinding

/-- A call for the active effects of a node. -/
structure EffectCall where
  effectId : String
  action : EffectStateAction
deriving DecidableEq, Repr

namespace EffectCall

variable {call : EffectCall} {calls : List EffectCall} {active : List String} {effectId : String}
  {i : Nat}

/-- The call that clears the list, whatever effect it names. -/
def clearing : EffectCall := ⟨"", .clear⟩

/-- Whether an effect is active after a call, by whether it is active before. -/
def leavesActive (call : EffectCall) (effectId : String) (active : Bool) : Bool :=
  match call.action with
  | .add => active || decide (effectId = call.effectId)
  | .remove => active && decide (effectId ≠ call.effectId)
  | .toggle => if effectId = call.effectId then !active else active
  | .clear => false

/-- The list of active effects after a call. -/
def outcome (call : EffectCall) (active : List String) : List String :=
  match call.action with
  | .add => if call.effectId ∈ active then active else active ++ [call.effectId]
  | .remove => active.filter fun other => other ≠ call.effectId
  | .toggle =>
    if call.effectId ∈ active then active.filter fun other => other ≠ call.effectId
    else active ++ [call.effectId]
  | .clear => []

/-- A list that does not change is not written. -/
theorem apply?_eq (call : EffectCall) (active : List String) :
    call.action.apply? call.effectId active =
      if call.outcome active = active then none else some (call.outcome active) := by
  obtain ⟨effectId, action⟩ := call
  by_cases hmem : effectId ∈ active
  · have hfilter : (active.filter fun other => other ≠ effectId) ≠ active := fun heq =>
      absurd (List.filter_eq_self.mp heq effectId hmem) (by simp)
    cases action <;> simp_all [ EffectStateAction.apply?, outcome]
  · have hfilter : (active.filter fun other => other ≠ effectId) = active :=
      List.filter_eq_self.mpr fun other hother => by grind
    cases action <;> simp_all [ EffectStateAction.apply?, outcome]

theorem mem_outcome_iff :
    effectId ∈ call.outcome active ↔ call.leavesActive effectId (decide (effectId ∈ active)) := by
  obtain ⟨other, action⟩ := call
  cases action <;> grind [outcome, leavesActive]

/-- A call takes effects out of the list, or appends an effect that the list does not have. -/
theorem outcome_cases (call : EffectCall) (active : List String) :
    (call.outcome active).Sublist active ∨
      call.effectId ∉ active ∧ call.outcome active = active ++ [call.effectId] := by
  obtain ⟨effectId, action⟩ := call
  by_cases hmem : effectId ∈ active <;> cases action <;> simp [outcome, hmem]

/-! ### Effects by themselves -/

/-- Whether an effect is active after calls. -/
def isActive (calls : List EffectCall) (effectId : String) : Bool :=
  calls.foldl (fun active call => call.leavesActive effectId active) false

theorem isActive_append (calls : List EffectCall) (call : EffectCall) (effectId : String) :
    isActive (calls ++ [call]) effectId = call.leavesActive effectId (isActive calls effectId) := by
  rw [isActive, List.foldl_append]
  rfl

/-- The effect becomes active by the call at a place. -/
structure ActivatedAt (calls : List EffectCall) (effectId : String) (i : Nat) : Prop where
  lt_length : i < calls.length
  before : isActive (calls.take i) effectId = false
  after : isActive (calls.take (i + 1)) effectId = true

/-- The effect has last become active by the call at a place. -/
structure LastActivatedAt (calls : List EffectCall) (effectId : String) (i : Nat) : Prop where
  activatedAt : ActivatedAt calls effectId i
  le : ∀ j, ActivatedAt calls effectId j → j ≤ i

/-- A further call leaves the activations by the calls before it where they are, and may be one. -/
theorem activatedAt_append_iff :
    ActivatedAt (calls ++ [call]) effectId i ↔
      ActivatedAt calls effectId i ∨ i = calls.length ∧ isActive calls effectId = false ∧
        isActive (calls ++ [call]) effectId = true := by
  have htake {j : Nat} (hj : j ≤ calls.length) : (calls ++ [call]).take j = calls.take j :=
    List.take_append_of_le_length hj
  constructor
  · rintro ⟨hlt, hbefore, hafter⟩
    rw [List.length_append, List.length_singleton] at hlt
    rcases Nat.lt_or_eq_of_le (Nat.le_of_lt_succ hlt) with hlt | rfl
    · rw [htake (Nat.le_of_lt hlt)] at hbefore
      rw [htake hlt] at hafter
      exact .inl ⟨hlt, hbefore, hafter⟩
    · rw [htake (Nat.le_refl _), List.take_length] at hbefore
      rw [List.take_of_length_le (by simp)] at hafter
      exact .inr ⟨rfl, hbefore, hafter⟩
  · rintro (⟨hlt, hbefore, hafter⟩ | ⟨rfl, hbefore, hafter⟩)
    · refine ⟨by simp; omega, ?_, ?_⟩
      · rwa [htake (Nat.le_of_lt hlt)]
      · rwa [htake hlt]
    · refine ⟨by simp, ?_, ?_⟩
      · rwa [htake (Nat.le_refl _), List.take_length]
      · rwa [List.take_of_length_le (by simp)]

/-- An effect that is active is not activated again. -/
theorem LastActivatedAt.append (h : LastActivatedAt calls effectId i)
    (hactive : isActive calls effectId = true) (call : EffectCall) :
    LastActivatedAt (calls ++ [call]) effectId i where
  activatedAt := activatedAt_append_iff.mpr (.inl h.activatedAt)
  le j hj := by
    rcases activatedAt_append_iff.mp hj with hj | ⟨-, hinactive, -⟩
    · exact h.le j hj
    · exact absurd (hactive.symm.trans hinactive) Bool.noConfusion

/-- An effect that was not active and is active now has been activated by the last call. -/
theorem lastActivatedAt_append (hbefore : isActive calls effectId = false)
    (hafter : isActive (calls ++ [call]) effectId = true) :
    LastActivatedAt (calls ++ [call]) effectId calls.length where
  activatedAt := activatedAt_append_iff.mpr (.inr ⟨rfl, hbefore, hafter⟩)
  le j hj := Nat.le_of_lt_succ (by simpa using hj.lt_length)

/-- An active effect has been activated. -/
theorem exists_lastActivatedAt (h : isActive calls effectId = true) :
    ∃ i, LastActivatedAt calls effectId i := by
  induction calls using List.reverseRecOn with
  | nil => cases h
  | append_singleton calls call ih =>
    cases hbefore : isActive calls effectId with
    | false => exact ⟨calls.length, lastActivatedAt_append hbefore h⟩
    | true =>
      obtain ⟨i, hi⟩ := ih hbefore
      exact ⟨i, hi.append hbefore call⟩

theorem LastActivatedAt.unique {j : Nat} (h : LastActivatedAt calls effectId i)
    (h' : LastActivatedAt calls effectId j) : i = j :=
  Nat.le_antisymm (h'.le i h.activatedAt) (h.le j h'.activatedAt)

/-! ### Ordered sets -/

/-- The list agrees with the calls: it has the active effects, each of them once, in the order in
which they have last become active. -/
structure IsOrderedSet (calls : List EffectCall) (active : List String) : Prop where
  nodup : active.Nodup
  mem_iff : ∀ effectId, effectId ∈ active ↔ isActive calls effectId = true
  ordered : active.Pairwise fun first second =>
    ∃ i j, LastActivatedAt calls first i ∧ LastActivatedAt calls second j ∧ i < j

namespace IsOrderedSet

theorem nil : IsOrderedSet [] [] where
  nodup := .nil
  mem_iff _ := by simp [isActive]
  ordered := .nil

/-- The effects of the list stay in their order while they are active. -/
theorem ordered_append (h : IsOrderedSet calls active) (call : EffectCall) :
    active.Pairwise fun first second => ∃ i j, LastActivatedAt (calls ++ [call]) first i ∧
      LastActivatedAt (calls ++ [call]) second j ∧ i < j := by
  refine h.ordered.imp_of_mem fun hfirst hsecond ⟨i, j, hi, hj, hlt⟩ => ?_
  exact ⟨i, j, hi.append ((h.mem_iff _).mp hfirst) call, hj.append ((h.mem_iff _).mp hsecond) call,
    hlt⟩

/-- A call keeps the list in agreement with the calls. -/
theorem outcome (h : IsOrderedSet calls active) (call : EffectCall) :
    IsOrderedSet (calls ++ [call]) (call.outcome active) := by
  have hmem (effectId : String) :
      effectId ∈ call.outcome active ↔ isActive (calls ++ [call]) effectId = true := by
    have hactive : decide (effectId ∈ active) = isActive calls effectId :=
      Bool.eq_iff_iff.mpr (decide_eq_true_iff.trans (h.mem_iff effectId))
    rw [mem_outcome_iff, isActive_append, hactive]
  rcases outcome_cases call active with hsub | ⟨hnew, heq⟩
  · exact ⟨h.nodup.sublist hsub, hmem, (h.ordered_append call).sublist hsub⟩
  · -- the appended effect has been activated by this call, and all others before
    have hinactive : isActive calls call.effectId = false :=
      Bool.eq_false_iff.mpr fun hactive => hnew ((h.mem_iff _).mpr hactive)
    have hlast : LastActivatedAt (calls ++ [call]) call.effectId calls.length :=
      lastActivatedAt_append hinactive ((hmem _).mp (heq ▸ List.mem_concat_self))
    refine ⟨?_, hmem, ?_⟩
    · rw [heq]
      exact List.nodup_append.mpr ⟨h.nodup, List.nodup_singleton _, by grind⟩
    · rw [heq]
      refine List.pairwise_append.mpr ⟨h.ordered_append call, List.pairwise_singleton _ _, ?_⟩
      intro effectId hold other hother
      obtain rfl := List.mem_singleton.mp hother
      have hactive := (h.mem_iff effectId).mp hold
      obtain ⟨i, hi⟩ := exists_lastActivatedAt hactive
      exact ⟨i, calls.length, hi.append hactive call, hlast, hi.activatedAt.lt_length⟩

/-- The calls determine the list. -/
theorem unique {other : List String} (h : IsOrderedSet calls active)
    (h' : IsOrderedSet calls other) : active = other := by
  have hperm : active.Perm other := (List.perm_ext_iff_of_nodup h.nodup h'.nodup).mpr
    fun effectId => (h.mem_iff effectId).trans (h'.mem_iff effectId).symm
  refine hperm.eq_of_pairwise ?_ h.ordered h'.ordered
  rintro first second - - ⟨i, j, hi, hj, hlt⟩ ⟨j', i', hj', hi', hlt'⟩
  rw [hi.unique hi', hj.unique hj'] at hlt
  exact absurd hlt (Nat.lt_asymm hlt')

end IsOrderedSet

/-- The list that calls make of the empty one. -/
def replay (calls : List EffectCall) : List String :=
  calls.foldl (fun active call => call.outcome active) []

theorem isOrderedSet_replay (calls : List EffectCall) : IsOrderedSet calls (replay calls) := by
  induction calls using List.reverseRecOn with
  | nil => exact .nil
  | append_singleton calls call ih =>
    rw [replay, List.foldl_append]
    exact ih.outcome call

theorem isOrderedSet_iff : IsOrderedSet calls active ↔ active = replay calls :=
  ⟨fun h => h.unique (isOrderedSet_replay calls), fun heq => heq ▸ isOrderedSet_replay calls⟩

end EffectCall

namespace Engine

variable {engine : Engine} {c : ControllerId} {n : NodeId}

/-- The node that a call of a controller is for, unless the engine has stopped: the item, or else
the anchor. -/
def effectTarget? (engine : Engine) (c : ControllerId) (item : Option NodeId) : Option NodeId :=
  if engine.running then item.or (engine.anchor c) else none

/-- The call that an operation makes for the active effects that a controller holds for a node. A
dismissal of the controller clears them. -/
def effectCall? (engine : Engine) (c : ControllerId) (n : NodeId) : Operation → Option EffectCall
  | .toggle d effectId action item =>
    if d = c ∧ c < engine.controllers.length ∧ engine.effectTarget? c item = some n then
      some ⟨effectId, action⟩
    else none
  | .disconnect d evict => if evict = true ∧ d = c then some .clearing else none
  | .removeKey key =>
    if engine.running = true ∧ engine.registry.get? key = some c then some .clearing else none
  | _ => none

/-- The calls that operations make for the active effects that a controller holds for a node. -/
def effectCalls (engine : Engine) (c : ControllerId) (n : NodeId) :
    List Operation → List EffectCall
  | [] => []
  | operation :: rest =>
    (engine.effectCall? c n operation).toList ++ (engine.perform operation).1.effectCalls c n rest

/-! ### One call -/

theorem events_writeActive (engine : Engine) (c : ControllerId) (n : NodeId)
    (active : List String) :
    (engine.writeActive c n active).events = engine.events ++ [.effectState n active] := by
  have hlog : (engine.writeActive c n active).log =
      engine.log ++ [.told (.effectState n active) engine.scene] := rfl
  exact events_eq_append hlog

section Toggle

variable {effectId : String} {action : EffectStateAction} {item : Option NodeId}

/-- A call without a node does nothing. -/
theorem toggleEffect_of_eq_none (h : engine.effectTarget? c item = none) :
    engine.toggleEffect c effectId action item = (engine, false) := by
  rw [effectTarget?] at h
  rw [toggleEffect]
  cases hrunning : engine.running
  · rfl
  · rw [hrunning, if_pos rfl] at h
    rw [h]
    rfl

/-- A call either leaves the list of its node as it is, or tells the host of the new one. -/
theorem toggleEffect_of_eq_some (h : engine.effectTarget? c item = some n) :
    engine.toggleEffect c effectId action item =
      if EffectCall.outcome ⟨effectId, action⟩ ((engine.controller c).activeOn n) =
          (engine.controller c).activeOn n then (engine, false)
      else (engine.writeActive c n
        (EffectCall.outcome ⟨effectId, action⟩ ((engine.controller c).activeOn n)), true) := by
  rw [effectTarget?] at h
  cases hrunning : engine.running
  · rw [hrunning] at h
    cases h
  rw [hrunning, if_pos rfl] at h
  rw [toggleEffect, hrunning, h]
  have happly := EffectCall.apply?_eq ⟨effectId, action⟩ ((engine.controller c).activeOn n)
  split at happly
  next heq => simp [happly, heq]
  next hne => simp [happly, hne, writeActive]

/-- A call changes what its controller holds for its node, and nothing that a controller holds for
any other one. -/
theorem activeOn_toggleEffect (h : engine.effectTarget? c item = some n) (d : ControllerId)
    (m : NodeId) :
    ((engine.toggleEffect c effectId action item).1.controller d).activeOn m =
      if d = c ∧ m = n ∧ c < engine.controllers.length then
        EffectCall.outcome ⟨effectId, action⟩ ((engine.controller c).activeOn n)
      else (engine.controller d).activeOn m := by
  rw [toggleEffect_of_eq_some h]
  split
  next heq =>
    split
    next hand => rw [hand.1, hand.2.1, heq]
    next => rfl
  next hne => rw [activeOn_writeActive]

end Toggle

/-! ### Runs -/

/-- An operation changes the list by the call that it makes, and not without one. -/
theorem activeOn_perform (engine : Engine) (operation : Operation) :
    ((engine.perform operation).1.controller c).activeOn n =
      (engine.effectCall? c n operation).toList.foldl (fun active call => call.outcome active)
        ((engine.controller c).activeOn n) := by
  have hkeeps (hkept : ¬engine.Dismisses c operation)
      (htoggle : ∀ d effectId action item, operation ≠ .toggle d effectId action item) :
      ((engine.perform operation).1.controller c).activeOn n = (engine.controller c).activeOn n :=
    ((keepsActive_perform hkept htoggle).writes n).active
  cases operation with
  | toggle d effectId action item =>
    rw [effectCall?]
    cases htarget : engine.effectTarget? d item with
    | none =>
      have hnone : (engine.perform (.toggle d effectId action item)).1 = engine :=
        congrArg Prod.fst (toggleEffect_of_eq_none htarget)
      rw [hnone, if_neg]
      · rfl
      · rintro ⟨rfl, -, hsome⟩
        rw [htarget] at hsome
        cases hsome
    | some m =>
      refine (activeOn_toggleEffect htarget c n).trans ?_
      by_cases hcall : d = c ∧ c < engine.controllers.length ∧ m = n
      · obtain ⟨rfl, hc, rfl⟩ := hcall
        rw [if_pos ⟨rfl, rfl, hc⟩, if_pos ⟨rfl, hc, htarget⟩]
        rfl
      · rw [if_neg, if_neg]
        · rfl
        · rintro ⟨rfl, hc, hsome⟩
          exact hcall ⟨rfl, hc, Option.some.inj (htarget.symm.trans hsome)⟩
        · rintro ⟨rfl, rfl, hc⟩
          exact hcall ⟨rfl, hc, rfl⟩
  | disconnect d evict =>
    rw [effectCall?]
    split
    next h =>
      have hdismisses : engine.Dismisses c (.disconnect d evict) := h
      exact (activeOn_perform_of_dismisses hdismisses).2
    next h => exact hkeeps h fun _ _ _ _ heq => nomatch heq
  | removeKey key =>
    rw [effectCall?]
    split
    next h =>
      have hdismisses : engine.Dismisses c (.removeKey key) := h
      exact (activeOn_perform_of_dismisses hdismisses).2
    next h => exact hkeeps h fun _ _ _ _ heq => nomatch heq
  | _ => exact hkeeps id fun _ _ _ _ heq => nomatch heq

theorem activeOn_run (engine : Engine) (operations : List Operation) :
    ((engine.run operations).controller c).activeOn n =
      (engine.effectCalls c n operations).foldl (fun active call => call.outcome active)
        ((engine.controller c).activeOn n) := by
  induction operations generalizing engine with
  | nil => rfl
  | cons operation rest ih =>
    rw [run_cons, ih, activeOn_perform, effectCalls, List.foldl_append]

/-- In every run, what a controller holds for a node is the list of the calls for it. -/
theorem activeEffects_run (host : Host) (options : EngineOptions) (operations : List Operation)
    (c : ControllerId) (n : NodeId) :
    ((start host options).run operations).activeEffects c (some n) =
      EffectCall.replay ((start host options).effectCalls c n operations) :=
  activeOn_run (start host options) operations

/-- In every state of a run the active effects of a node are the one ordered set of the calls for it.
A toggle appends its effect exactly if it adds or toggles one that is absent, takes it out exactly if
it removes or toggles one that is present, and clears. It answers whether the list of its node has
changed, tells the host of the new list if it has, and of nothing otherwise, and leaves the lists of
all other nodes and controllers as they are. Without a node to go to it does nothing. -/
theorem run_toggleEffect {host : Host} {options : EngineOptions} {operations : List Operation}
    {c : ControllerId} (hc : c < ((start host options).run operations).controllers.length) :
    let engine := (start host options).run operations
    (∀ n active, EffectCall.IsOrderedSet ((start host options).effectCalls c n operations) active ↔
      active = engine.activeEffects c (some n)) ∧
    ∀ effectId action item,
      let result := engine.toggleEffect c effectId action item
      (engine.effectTarget? c item = none → result = (engine, false)) ∧
      ∀ n, engine.effectTarget? c item = some n →
        let before := engine.activeEffects c (some n)
        let after := result.1.activeEffects c (some n)
        after = EffectCall.outcome ⟨effectId, action⟩ before ∧
        (result.2 = true ↔ after ≠ before) ∧
        result.1.events =
          engine.events ++ (if after = before then [] else [.effectState n after]) ∧
        ∀ d m, ¬(d = c ∧ m = n) →
          result.1.activeEffects d (some m) = engine.activeEffects d (some m) := by
  intro engine
  refine ⟨fun n active => ?_,
    fun effectId action item => ⟨toggleEffect_of_eq_none, fun n htarget => ?_⟩⟩
  · rw [activeEffects_run]
    exact EffectCall.isOrderedSet_iff
  intro before after
  have hafter : after = EffectCall.outcome ⟨effectId, action⟩ before :=
    (activeOn_toggleEffect htarget c n).trans (if_pos ⟨rfl, rfl, hc⟩)
  have hothers (d : ControllerId) (m : NodeId) (hother : ¬(d = c ∧ m = n)) :
      (engine.toggleEffect c effectId action item).1.activeEffects d (some m) =
        engine.activeEffects d (some m) :=
    (activeOn_toggleEffect htarget d m).trans (if_neg fun hand => hother ⟨hand.1, hand.2.1⟩)
  have hresult : engine.toggleEffect c effectId action item =
      if after = before then (engine, false) else (engine.writeActive c n after, true) := by
    rw [hafter]
    exact toggleEffect_of_eq_some htarget
  refine ⟨hafter, ?_, ?_, hothers⟩
  · rw [hresult]
    split
    next heq => simp [heq]
    next hne => simp [hne]
  · rw [hresult]
    split
    next => simp
    next => exact events_writeActive engine c n after

/-- A lamp fades, glows and fades anew, which puts the fading behind the glow. A toggle takes the
fading out again, and leaves another lamp as it is. -/
theorem run_toggleEffect_lamp :
    let operations : List Operation :=
      [.newController 1 false, .toggle 0 "fade" .add none, .toggle 0 "glow" .toggle none,
        .toggle 0 "fade" .remove (some 1), .toggle 0 "glow" .add none,
        .toggle 0 "fade" .add none, .toggle 0 "dim" .add (some 2)]
    let calls := (start .bare .standard).effectCalls 0 1 operations
    let engine := (start .bare .standard).run operations
    let result := engine.toggleEffect 0 "fade" .toggle none
    0 < engine.controllers.length ∧
      calls = [⟨"fade", .add⟩, ⟨"glow", .toggle⟩, ⟨"fade", .remove⟩, ⟨"glow", .add⟩,
        ⟨"fade", .add⟩] ∧
      engine.activeEffects 0 (some 1) = ["glow", "fade"] ∧
      (∃ i j, EffectCall.LastActivatedAt calls "glow" i ∧
        EffectCall.LastActivatedAt calls "fade" j ∧ i < j) ∧
      result.2 = true ∧ result.1.events = engine.events ++ [.effectState 1 ["glow"]] ∧
      result.1.activeEffects 0 (some 2) = ["dim"] := by
  intro operations calls engine result
  have hc : 0 < engine.controllers.length := by decide +kernel
  have hcalls : calls = [⟨"fade", .add⟩, ⟨"glow", .toggle⟩, ⟨"fade", .remove⟩, ⟨"glow", .add⟩,
      ⟨"fade", .add⟩] := by decide +kernel
  have hbefore : engine.activeEffects 0 (some 1) = ["glow", "fade"] := by decide +kernel
  have hdim : engine.activeEffects 0 (some 2) = ["dim"] := by decide +kernel
  have htarget : engine.effectTarget? 0 none = some 1 := by decide +kernel
  obtain ⟨hset, hcall⟩ := run_toggleEffect hc
  obtain ⟨-, hcall⟩ := hcall "fade" .toggle none
  obtain ⟨hafter, hanswer, hevents, hothers⟩ := hcall 1 htarget
  rw [hbefore] at hafter hanswer hevents
  rw [hafter] at hanswer hevents
  have hordered := ((hset 1 _).mpr hbefore.symm).ordered
  refine ⟨hc, hcalls, hbefore, List.rel_of_pairwise_cons hordered (List.mem_singleton_self _),
    hanswer.mpr (by decide), hevents, (hothers 0 2 (by decide)).trans hdim⟩

end Engine

end InteractionBinding
