import InteractionBinding.Listeners.Script
import InteractionBinding.Proofs.Subscriptions.Ledger
/-!
# Notifications under re-entrancy

Listeners may do anything with the set that calls them, to any depth of nesting. Still the log of a
run determines the set at every moment, and every event of the log is possible at its moment: a
subscription is given the next token, and a call reaches a token that is in the set. Whatever holds
along such logs holds of every run. A token that has departed from the set is not called again,
and what one notification calls is a matter of the snapshot it took: the listeners of the snapshot,
one after the other, those that are in the set when their turn comes.

## Main definitions

* `ListenerSet.replay` — the set that the events of a log leave.
* `Reentrant.History` — logs of events that are possible at their moment.
* `Reentrant.callsAt` — the calls of a log at one depth of nesting.
* `Reentrant.Orderly` — tokens are distinct at every moment, and departed tokens are not called.
* `Reentrant.Exact` — what one notification calls.

## Main results

* `Reentrant.passes_perform`, `Reentrant.passes_notify` — every run passes through a history.
* `Reentrant.notify_exact` — every run is orderly, and every notification is exact.
* `Reentrant.notify_mono` — the fuel bounds a notification and does not change its result.
-/

namespace InteractionBinding

/-! ### Replaying a log -/

namespace ListenerSet

variable {α ν : Type} {set : ListenerSet α} {token : Token}

theorem contains_eq_false_iff :
    set.contains token = false ↔ token ∉ set.entries.map Prod.fst := by
  rw [contains, List.any_eq_false, List.mem_map]
  simp only [decide_eq_true_eq, not_exists, not_and]

theorem Issued.unsubscribe (h : set.Issued) (token : Token) : (set.unsubscribe token).Issued :=
  h.filter _

/-- The set that an event leaves. -/
def after (set : ListenerSet α) : Reentrant.Event α ν → ListenerSet α
  | .subscribed _ listener => (set.subscribe listener).1
  | .unsubscribed token _ => set.unsubscribe token
  | .called .. => set

/-- The set that the events of a log leave. -/
def replay (set : ListenerSet α) (log : List (Reentrant.Event α ν)) : ListenerSet α :=
  log.foldl after set

theorem replay_append (set : ListenerSet α) (past future : List (Reentrant.Event α ν)) :
    set.replay (past ++ future) = (set.replay past).replay future := List.foldl_append

theorem Issued.after (h : set.Issued) (event : Reentrant.Event α ν) : (set.after event).Issued := by
  cases event with
  | subscribed _ listener => exact h.subscribe listener
  | unsubscribed token _ => exact h.unsubscribe token
  | called _ _ _ => exact h

theorem Issued.replay (h : set.Issued) (log : List (Reentrant.Event α ν)) :
    (set.replay log).Issued := by
  induction log generalizing set with
  | nil => exact h
  | cons event rest ih => exact ih (h.after event)

theorem next_le_after (set : ListenerSet α) (event : Reentrant.Event α ν) :
    set.next ≤ (set.after event).next := by
  cases event with
  | subscribed _ _ => exact Nat.le_succ _
  | unsubscribed _ _ => exact Nat.le_refl _
  | called _ _ _ => exact Nat.le_refl _

/-- A token that has been given and is not in the set any more. -/
structure Departed (set : ListenerSet α) (token : Token) : Prop where
  given : token < set.next
  absent : set.contains token = false

/-- No event brings a token back. -/
theorem Departed.after (h : set.Departed token) (event : Reentrant.Event α ν) :
    (set.after event).Departed token := by
  refine ⟨Nat.lt_of_lt_of_le h.given (set.next_le_after event), contains_eq_false_iff.mpr ?_⟩
  have habsent := contains_eq_false_iff.mp h.absent
  cases event with
  | subscribed _ listener =>
    rw [ListenerSet.after, tokens_subscribe, List.mem_append, List.mem_singleton, not_or]
    exact ⟨habsent, Nat.ne_of_lt h.given⟩
  | unsubscribed other _ =>
    exact fun hmem => habsent ((List.filter_sublist.map Prod.fst).subset hmem)
  | called _ _ _ => exact habsent

/-- A token that is found and given up has departed. -/
theorem Issued.departed_unsubscribe (h : set.Issued) (hfound : set.contains token = true) :
    (set.unsubscribe token).Departed token := by
  obtain ⟨entry, hmem, heq⟩ := List.any_eq_true.mp hfound
  refine ⟨h.given token ?_, contains_unsubscribe_self set token⟩
  exact of_decide_eq_true heq ▸ List.mem_map_of_mem hmem

/-- A delivery to a snapshot delivers to its first part, and from where that ends to the rest. -/
theorem deliver?_append {σ : Type} (setOf : σ → ListenerSet α) (call : Token × α → σ → Option σ)
    (earlier later : List (Token × α)) (state : σ) :
    deliver? setOf call (earlier ++ later) state =
      (deliver? setOf call earlier state).bind (deliver? setOf call later) := by
  induction earlier generalizing state with
  | nil => rfl
  | cons entry rest ih =>
    rw [List.cons_append, deliver?, deliver?]
    split
    · rw [Option.bind_assoc]
      exact Option.bind_congr fun state _ => ih state
    · exact ih state

/-- A delivery keeps its result when its calls keep theirs. -/
theorem deliver?_mono {σ : Type} {setOf : σ → ListenerSet α} {call other : Token × α → σ → Option σ}
    (h : ∀ entry before after, call entry before = some after → other entry before = some after)
    {entries : List (Token × α)} {start finish : σ}
    (hend : deliver? setOf call entries start = some finish) :
    deliver? setOf other entries start = some finish := by
  induction entries generalizing start with
  | nil => exact hend
  | cons entry rest ih =>
    rw [deliver?] at hend ⊢
    split
    next hin =>
      rw [if_pos hin] at hend
      obtain ⟨state, hcall, hrest⟩ := Option.bind_eq_some_iff.mp hend
      exact Option.bind_eq_some_iff.mpr ⟨state, h entry start state hcall, ih hrest⟩
    next hout =>
      rw [if_neg hout] at hend
      exact ih hend

end ListenerSet

namespace Reentrant

open ListenerSet

variable {ε α ν : Type} {depth : Nat} {value : ν} {set : ListenerSet α}

/-! ### Histories -/

/-- What is possible at a moment, within notifications that are nested in at least `depth`
others. -/
def Admits (depth : Nat) (set : ListenerSet α) : Event α ν → Prop
  | .subscribed token _ => token = set.next
  | .unsubscribed token found => found = set.contains token
  | .called d entry _ => depth ≤ d ∧ set.contains entry.1 = true

/-- Logs whose events are possible at their moment. -/
inductive History (depth : Nat) : ListenerSet α → List (Event α ν) → Prop
  | nil (set : ListenerSet α) : History depth set []
  | cons {set : ListenerSet α} {event : Event α ν} {rest : List (Event α ν)}
      (hadmits : Admits depth set event) (hrest : History depth (set.after event) rest) :
      History depth set (event :: rest)

namespace History

variable {log past future : List (Event α ν)}

theorem append (hpast : History depth set past) (hfuture : History depth (set.replay past) future) :
    History depth set (past ++ future) := by
  induction hpast with
  | nil => exact hfuture
  | cons hadmits _ ih => exact .cons hadmits (ih hfuture)

theorem of_append (h : History depth set (past ++ future)) :
    History depth (set.replay past) future := by
  induction past generalizing set with
  | nil => exact h
  | cons event rest ih =>
    cases h with
    | cons _ hrest => exact ih hrest

/-- What happens at a depth happens at all depths above it. -/
theorem mono {shallow : Nat} (hle : shallow ≤ depth) (h : History depth set log) :
    History shallow set log := by
  induction h with
  | nil set => exact .nil set
  | @cons set event rest hadmits _ ih =>
    refine .cons ?_ ih
    cases event with
    | subscribed _ _ => exact hadmits
    | unsubscribed _ _ => exact hadmits
    | called _ _ _ => exact ⟨Nat.le_trans hle hadmits.1, hadmits.2⟩

/-- A token that has departed is never called again. -/
theorem ne_of_departed {token : Token} (hdeparted : set.Departed token) (h : History depth set log)
    {d : Nat} {entry : Token × α} (hmem : .called d entry value ∈ log) : entry.1 ≠ token := by
  induction h with
  | nil => exact absurd hmem List.not_mem_nil
  | @cons set event rest hadmits _ ih =>
    rcases List.mem_cons.mp hmem with rfl | hmem
    · rintro rfl
      exact Bool.false_ne_true (hdeparted.absent.symm.trans hadmits.2)
    · exact ih (hdeparted.after event) hmem

/-- New tokens were not given before. -/
theorem next_le {token : Token} {listener : α} (h : History depth set log)
    (hmem : .subscribed token listener ∈ log) : set.next ≤ token := by
  induction h with
  | nil => exact absurd hmem List.not_mem_nil
  | @cons set event rest hadmits _ ih =>
    rcases List.mem_cons.mp hmem with rfl | hmem
    · exact Nat.le_of_eq hadmits.symm
    · exact Nat.le_trans (set.next_le_after event) (ih hmem)

end History

/-! ### The calls of a notification -/

/-- The calls that a log records of notifications nested in `depth` others, with their values. -/
def callsAt (depth : Nat) (log : List (Event α ν)) : List ((Token × α) × ν) :=
  log.filterMap fun
    | .called d entry value => if d = depth then some (entry, value) else none
    | _ => none

theorem callsAt_append (depth : Nat) (past future : List (Event α ν)) :
    callsAt depth (past ++ future) = callsAt depth past ++ callsAt depth future :=
  List.filterMap_append

@[simp]
theorem callsAt_called (depth : Nat) (entry : Token × α) (value : ν) (log : List (Event α ν)) :
    callsAt depth (.called depth entry value :: log) = (entry, value) :: callsAt depth log :=
  List.filterMap_cons_some (if_pos rfl)

/-- Notifications within a notification make none of its calls. -/
theorem History.callsAt_eq_nil {log : List (Event α ν)} (h : History (depth + 1) set log) :
    callsAt depth log = [] := by
  induction h with
  | nil => rfl
  | @cons set event rest hadmits _ ih =>
    refine (List.filterMap_cons_none ?_).trans ih
    cases event with
    | subscribed _ _ => rfl
    | unsubscribed _ _ => rfl
    | called d _ _ => exact if_neg (Nat.ne_of_gt hadmits.1)

/-! ### Runs pass through histories -/

/-- What a run from `start` to `finish` does: it adds `during` to the log. -/
structure Passes (depth : Nat) (start : State ε α ν) (during : List (Event α ν))
    (finish : State ε α ν) : Prop where
  log : finish.log = start.log ++ during
  set : finish.set = start.set.replay during
  history : History depth start.set during

variable {start middle finish : State ε α ν} {before during later : List (Event α ν)}

namespace Passes

theorem of_env (depth : Nat) (start : State ε α ν) (env : ε) :
    Passes depth start [] { start with env := env } :=
  ⟨(List.append_nil _).symm, rfl, .nil _⟩

theorem trans (h : Passes depth start before middle) (h' : Passes depth middle later finish) :
    Passes depth start (before ++ later) finish where
  log := by rw [h'.log, h.log, List.append_assoc]
  set := by rw [h'.set, h.set, replay_append]
  history := h.history.append (h.set ▸ h'.history)

/-- An event that is possible is a run of its own. -/
theorem of_admits {event : Event α ν} (h : Admits depth start.set event) :
    Passes depth start [event]
      { start with set := start.set.after event, log := start.log ++ [event] } :=
  ⟨rfl, rfl, .cons h (.nil _)⟩

theorem mono {shallow : Nat} (hle : shallow ≤ depth) (h : Passes depth start during finish) :
    Passes shallow start during finish :=
  ⟨h.log, h.set, h.history.mono hle⟩

end Passes

/-- A program passes through a history when the notifications it asks for do. -/
theorem passes_perform {inner : ν → State ε α ν → Option (State ε α ν)}
    (hinner : ∀ value before after, inner value before = some after →
      ∃ during, Passes depth before during after)
    {program : Program ε α ν} (hend : perform inner program start = some finish) :
    ∃ during, Passes depth start during finish := by
  induction program generalizing start with
  | done env =>
    obtain rfl := Option.some.inj hend
    exact ⟨[], .of_env depth start env⟩
  | subscribe listener next ih =>
    obtain ⟨later, hlater⟩ := ih _ hend
    have hevent : Admits (ν := ν) depth start.set (.subscribed start.set.next listener) := rfl
    exact ⟨_, (Passes.of_admits hevent).trans hlater⟩
  | unsubscribe token next ih =>
    obtain ⟨later, hlater⟩ := ih _ hend
    have hevent : Admits (ν := ν) depth start.set
      (.unsubscribed token (start.set.contains token)) := rfl
    exact ⟨_, (Passes.of_admits hevent).trans hlater⟩
  | contains token next ih => exact ih _ hend
  | notify value env next ih =>
    obtain ⟨middle, hnotify, hrest⟩ := Option.bind_eq_some_iff.mp hend
    obtain ⟨nested, hnested⟩ := hinner _ _ _ hnotify
    obtain ⟨later, hlater⟩ := ih _ hrest
    exact ⟨_, ((Passes.of_env depth start env).trans hnested).trans hlater⟩

/-- A call is logged, and what follows it is at greater depth. -/
def Calls (depth : Nat) (value : ν) (call : Token × α → State ε α ν → Option (State ε α ν)) :
    Prop :=
  ∀ entry before after, before.set.contains entry.1 = true → call entry before = some after →
    ∃ nested, Passes depth before (.called depth entry value :: nested) after ∧
      callsAt depth nested = []

/-- What a listener does when it is called is nested deeper than the call. -/
theorem calls_call (react : α → ν → ε → Program ε α ν)
    {inner : ν → State ε α ν → Option (State ε α ν)}
    (hinner : ∀ value before after, inner value before = some after →
      ∃ during, Passes (depth + 1) before during after) :
    Calls depth value (call react inner depth value) := by
  intro entry before after hin hcall
  obtain ⟨nested, hnested⟩ := passes_perform hinner hcall
  have hevent : Admits depth before.set (.called depth entry value) := ⟨Nat.le_refl _, hin⟩
  exact ⟨nested, (Passes.of_admits hevent).trans (hnested.mono (Nat.le_succ depth)),
    hnested.history.callsAt_eq_nil⟩

/-- One turn of a delivery: a listener that is in the set is called, another one is passed over. -/
theorem passes_turn {call : Token × α → State ε α ν → Option (State ε α ν)}
    (hcalls : Calls depth value call) {entry : Token × α} {rest : List (Token × α)}
    (hend : deliver? State.set call (entry :: rest) start = some finish) :
    ∃ during middle, Passes depth start during middle ∧
      callsAt depth during = (if start.set.contains entry.1 then [(entry, value)] else []) ∧
      deliver? State.set call rest middle = some finish := by
  rw [deliver?] at hend
  split at hend
  next hin =>
    obtain ⟨middle, hcall, hrest⟩ := Option.bind_eq_some_iff.mp hend
    obtain ⟨nested, hnested, hnone⟩ := hcalls entry start middle hin hcall
    refine ⟨_, middle, hnested, ?_, hrest⟩
    rw [if_pos hin, callsAt_called, hnone]
  next hout => exact ⟨[], start, .of_env depth start start.env, (if_neg hout).symm, hend⟩

/-- A delivery calls some of the listeners of its snapshot, in their order. -/
theorem passes_deliver {call : Token × α → State ε α ν → Option (State ε α ν)}
    (hcalls : Calls depth value call) {entries : List (Token × α)}
    (hend : deliver? State.set call entries start = some finish) :
    ∃ during, Passes depth start during finish ∧
      (callsAt depth during).Sublist (entries.map fun entry => (entry, value)) := by
  induction entries generalizing start with
  | nil =>
    obtain rfl := Option.some.inj hend
    exact ⟨[], .of_env depth start start.env, List.nil_sublist _⟩
  | cons entry rest ih =>
    obtain ⟨during, middle, hturn, hcall, hrest⟩ := passes_turn hcalls hend
    obtain ⟨later, hlater, hsublist⟩ := ih hrest
    refine ⟨during ++ later, hturn.trans hlater, ?_⟩
    rw [callsAt_append, hcall]
    split
    · exact hsublist.cons_cons _
    · exact hsublist.cons _

/-- A notification passes through a history, whatever fuel it has for the notifications within. -/
theorem passes_notify (react : α → ν → ε → Program ε α ν) {fuel : Nat}
    (hend : notify react fuel depth value start = some finish) :
    ∃ during, Passes depth start during finish := by
  induction fuel generalizing depth value start finish with
  | zero => exact absurd hend (Option.some_ne_none _).symm
  | succ fuel ih =>
    obtain ⟨during, hpasses, -⟩ := passes_deliver (calls_call react fun _ _ _ => ih) hend
    exact ⟨during, hpasses⟩

/-! ### Fuel -/

/-- A program has the same result when the notifications it asks for have theirs. -/
theorem perform_mono {inner other : ν → State ε α ν → Option (State ε α ν)}
    (h : ∀ value before after, inner value before = some after → other value before = some after)
    {program : Program ε α ν} (hend : perform inner program start = some finish) :
    perform other program start = some finish := by
  induction program generalizing start with
  | done env => exact hend
  | subscribe listener next ih => exact ih _ hend
  | unsubscribe token next ih => exact ih _ hend
  | contains token next ih => exact ih _ hend
  | notify value env next ih =>
    obtain ⟨middle, hnotify, hrest⟩ := Option.bind_eq_some_iff.mp hend
    exact Option.bind_eq_some_iff.mpr ⟨middle, h _ _ _ hnotify, ih _ hrest⟩

/-- A notification that ends has the same result with more fuel. -/
theorem notify_mono {react : α → ν → ε → Program ε α ν} {fuel more : Nat} (hle : fuel ≤ more)
    (hend : notify react fuel depth value start = some finish) :
    notify react more depth value start = some finish := by
  induction fuel generalizing more depth value start finish with
  | zero => exact absurd hend (Option.some_ne_none _).symm
  | succ fuel ih =>
    obtain ⟨more, rfl⟩ := Nat.exists_eq_add_of_le' (Nat.le_trans (Nat.le_add_left 1 fuel) hle)
    exact deliver?_mono (fun _ _ _ => perform_mono fun _ _ _ => ih (Nat.le_of_succ_le_succ hle)) hend

/-! ### Exactness -/

/-- What holds of the events `during` that happen to a set. -/
structure Orderly (set : ListenerSet α) (during : List (Event α ν)) : Prop where
  /-- At every moment tokens are distinct, and new ones are different from all that were given. -/
  issued : ∀ past, past <+: during → (set.replay past).Issued
  /-- A token that is unsubscribed is not called afterwards. -/
  unsubscribed : ∀ past token future, during = past ++ .unsubscribed token true :: future →
    ∀ d entry value, .called d entry value ∈ future → entry.1 ≠ token
  /-- Neither is a token that was unsubscribed before. -/
  departed : ∀ token, set.Departed token →
    ∀ d entry value, .called d entry value ∈ during → entry.1 ≠ token

/-- What one notification does, nested in `depth` others, when `during` happens from its start to
its end. -/
structure Exact (react : α → ν → ε → Program ε α ν) (fuel depth : Nat) (value : ν)
    (start : State ε α ν) (during : List (Event α ν)) : Prop where
  /-- It calls listeners that were subscribed when it began, in the order of subscription. -/
  order : (callsAt depth during).Sublist (start.set.entries.map fun entry => (entry, value))
  /-- It calls none that is subscribed meanwhile. -/
  newcomers : ∀ token listener, .subscribed token listener ∈ during →
    ∀ call ∈ callsAt depth during, call.1.1 ≠ token
  /-- It calls a listener once if the listener is still subscribed when its turn comes, and not
  otherwise. The turn comes when the notification has dealt with the listeners before. -/
  turn : ∀ earlier entry later, start.set.entries = earlier ++ entry :: later →
    ∃ turn, deliver? State.set (call react (notify react fuel (depth + 1)) depth value)
        earlier start = some turn ∧
      (callsAt depth during).countP (fun call => call.1.1 = entry.1) =
        if turn.set.contains entry.1 then 1 else 0

theorem Passes.orderly (h : Passes depth start during finish) (hissued : start.set.Issued) :
    Orderly start.set during where
  issued past _ := hissued.replay past
  unsubscribed := by
    rintro past token future rfl d entry value hmem
    have hhistory := h.history.of_append
    cases hhistory with
    | cons hadmits hrest =>
      have hfound : (start.set.replay past).contains token = true := Eq.symm hadmits
      exact hrest.ne_of_departed ((hissued.replay past).departed_unsubscribe hfound) hmem
  departed token hdeparted d entry value hmem := h.history.ne_of_departed hdeparted hmem

/-- Listeners of other tokens make no call of a token. -/
theorem countP_calls_eq_zero {calls : List ((Token × α) × ν)} {entries : List (Token × α)}
    {token : Token} (hcalls : calls.Sublist (entries.map fun entry => (entry, value)))
    (hother : token ∉ entries.map Prod.fst) :
    calls.countP (fun call => call.1.1 = token) = 0 := by
  refine List.countP_eq_zero.mpr fun call hmem hcall => hother ?_
  obtain ⟨entry, hentry, rfl⟩ := List.mem_map.mp (hcalls.subset hmem)
  exact of_decide_eq_true hcall ▸ List.mem_map_of_mem hentry

/-- A delivery to listeners with different tokens comes to each of them in turn, and calls it if it
is in the set then. -/
theorem exists_turn {call : Token × α → State ε α ν → Option (State ε α ν)}
    (hcalls : Calls depth value call) {earlier later : List (Token × α)} {entry : Token × α}
    (hdistinct : ((earlier ++ entry :: later).map Prod.fst).Nodup)
    (hend : deliver? State.set call (earlier ++ entry :: later) start = some finish)
    (hlog : finish.log = start.log ++ during) :
    ∃ turn, deliver? State.set call earlier start = some turn ∧
      (callsAt depth during).countP (fun call => call.1.1 = entry.1) =
        if turn.set.contains entry.1 then 1 else 0 := by
  rw [List.map_append, List.map_cons] at hdistinct
  obtain ⟨-, hrest, hapart⟩ := List.nodup_append.mp hdistinct
  have hearlier : entry.1 ∉ earlier.map Prod.fst := fun hmem =>
    hapart _ hmem _ List.mem_cons_self rfl
  have hlater : entry.1 ∉ later.map Prod.fst := (List.nodup_cons.mp hrest).1
  rw [deliver?_append] at hend
  obtain ⟨turn, hturn, hend⟩ := Option.bind_eq_some_iff.mp hend
  obtain ⟨before, hbefore, hbeforeCalls⟩ := passes_deliver hcalls hturn
  obtain ⟨own, middle, hown, hownCalls, hend⟩ := passes_turn hcalls hend
  obtain ⟨after, hafter, hafterCalls⟩ := passes_deliver hcalls hend
  have hduring : during = before ++ (own ++ after) := by
    refine List.append_cancel_left (hlog.symm.trans ?_)
    rw [hafter.log, hown.log, hbefore.log, List.append_assoc, List.append_assoc]
  refine ⟨turn, hturn, ?_⟩
  rw [hduring, callsAt_append, callsAt_append, hownCalls, List.countP_append, List.countP_append,
    countP_calls_eq_zero hbeforeCalls hearlier, countP_calls_eq_zero hafterCalls hlater,
    Nat.zero_add, Nat.add_zero]
  split
  · exact List.countP_singleton.trans (if_pos (decide_eq_true rfl))
  · rfl

/-- A notification of a set with distinct tokens is exact. -/
theorem exact_of_notify {react : α → ν → ε → Program ε α ν} {fuel : Nat}
    (hissued : start.set.Issued)
    (hend : notify react (fuel + 1) depth value start = some finish) :
    ∃ during, finish.log = start.log ++ during ∧
      Exact react fuel depth value start during := by
  have hcalls : Calls depth value (call react (notify react fuel (depth + 1)) depth value) :=
    calls_call react fun _ _ _ => passes_notify react
  obtain ⟨during, hpasses, horder⟩ := passes_deliver hcalls hend
  refine ⟨during, hpasses.log, horder, ?_, ?_⟩
  · intro token listener hnew call hcall htoken
    obtain ⟨entry, hentry, rfl⟩ := List.mem_map.mp (horder.subset hcall)
    have hgiven := hissued.given entry.1 (List.mem_map_of_mem hentry)
    exact Nat.not_le_of_lt hgiven (htoken ▸ hpasses.history.next_le hnew)
  · intro earlier entry later hentries
    have hdistinct := hissued.distinct
    rw [hentries] at hdistinct
    rw [notify, hentries] at hend
    exact exists_turn hcalls hdistinct hend hpasses.log

/-- Whatever listeners do with a set while they are called, all that happens to it is orderly, and
every notification that ends is exact. A nested notification is one that starts at a moment of a
run, when the tokens of the set are distinct too. -/
theorem notify_exact (react : α → ν → ε → Program ε α ν) {start : State ε α ν}
    (hissued : start.set.Issued) (fuel depth : Nat) :
    (∀ program finish, perform (notify react fuel depth) program start = some finish →
      ∃ during, Passes depth start during finish ∧ Orderly start.set during) ∧
    ∀ value finish, notify react (fuel + 1) depth value start = some finish →
      ∃ during, Passes depth start during finish ∧ Orderly start.set during ∧
        Exact react fuel depth value start during := by
  constructor
  · intro program finish hend
    obtain ⟨during, hpasses⟩ := passes_perform (fun _ _ _ => passes_notify react) hend
    exact ⟨during, hpasses, hpasses.orderly hissued⟩
  · intro value finish hend
    obtain ⟨during, hpasses⟩ := passes_notify react hend
    obtain ⟨same, hsame, hexact⟩ := exact_of_notify hissued hend
    obtain rfl := List.append_cancel_left (hpasses.log.symm.trans hsame)
    exact ⟨during, hpasses, hpasses.orderly hissued, hexact⟩

/-- The first of three listeners leaves the set, takes the third with it and brings a new one before
it notifies the set again. The new listener hears the nested notification only, and the third one
hears none. -/
theorem notify_exact_script :
    let first : ScriptedListener :=
      ⟨"first", [.unsubscribe "first", .unsubscribe "third", .subscribe "new" [], .notify 7]⟩
    let second : ScriptedListener := ⟨"second", []⟩
    let third : ScriptedListener := ⟨"third", []⟩
    let start : ListenerAction.State :=
      ⟨⟨4, [(1, first), (2, second), (3, third)]⟩, ⟨[("first", 1), ("third", 3)], none⟩, []⟩
    let log : List (Event ScriptedListener Int) :=
      [.called 0 (1, first) 5, .unsubscribed 1 true, .unsubscribed 3 true,
        .subscribed 4 ⟨"new", []⟩, .called 1 (2, second) 7, .called 1 (4, ⟨"new", []⟩) 7,
        .called 0 (2, second) 5]
    (notify ListenerAction.react 2 0 5 start).map State.log = some log ∧
      start.set.Issued ∧ Orderly start.set log ∧ Exact ListenerAction.react 1 0 5 start log ∧
      callsAt 0 log = [((1, first), 5), ((2, second), 5)] := by
  intro first second third start log
  have hissued : start.set.Issued := ⟨by decide, by decide⟩
  have hlog : (notify ListenerAction.react 2 0 5 start).map State.log = some log := rfl
  obtain ⟨finish, hend, hfinish⟩ := Option.map_eq_some_iff.mp hlog
  obtain ⟨during, hpasses, horderly, hexact⟩ :=
    (notify_exact ListenerAction.react hissued 1 0).2 5 finish hend
  obtain rfl : during = log := hpasses.log.symm.trans hfinish
  exact ⟨hlog, hissued, horderly, hexact, rfl⟩

end Reentrant

end InteractionBinding
