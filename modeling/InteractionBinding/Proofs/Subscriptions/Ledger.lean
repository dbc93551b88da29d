import InteractionBinding.Config.Builder
import InteractionBinding.Proofs.Lifecycle.Withdrawing
import InteractionBinding.Proofs.Subscriptions.Postings
import Mathlib.Data.List.GetD
/-!
# The ledger of subscriptions

A subscription is booked twice, at the host and in the listeners of an instance. The two books agree
in every state that operations reach: what the host holds is what it held at the start and what the
instances record. So no subscription is leaked, and none is given up twice. A posting changes both
books by the same tickets: an instance that gives up listeners gives up their tokens at the host,
and tokens tell tickets apart.

## Main definitions

* `ListenerSet.Issued` — tokens are given once.
* `Engine.recorded` — the tickets that the instances of an engine record.
* `Engine.Accounted` — both books agree, and every instance keeps its own in order.

## Main results

* `Engine.Posting.accounted`, `Engine.accounted_run` — a posting keeps the books in agreement, and
  so does every run.
* `Engine.mem_listeners_disconnect` — what the eviction of a controller ends.
-/

namespace InteractionBinding

/-! ### Tokens -/

namespace ListenerSet

variable {α : Type} {set : ListenerSet α}

/-- Every token of a set has been given before, and for one listener only. -/
structure Issued (set : ListenerSet α) : Prop where
  given : ∀ token ∈ set.entries.map Prod.fst, token < set.next
  distinct : (set.entries.map Prod.fst).Nodup

theorem issued_empty : (empty : ListenerSet α).Issued :=
  ⟨fun _ hmem => absurd hmem List.not_mem_nil, List.nodup_nil⟩

theorem tokens_subscribe (set : ListenerSet α) (listener : α) :
    (set.subscribe listener).1.entries.map Prod.fst = set.entries.map Prod.fst ++ [set.next] :=
  List.map_append

/-- The token of a new subscription is not in use. -/
theorem Issued.subscribe (h : set.Issued) (listener : α) : (set.subscribe listener).1.Issued := by
  constructor
  · intro token hmem
    rw [tokens_subscribe, List.mem_append, List.mem_singleton] at hmem
    rcases hmem with hmem | rfl
    · exact Nat.lt_succ_of_lt (h.given token hmem)
    · exact Nat.lt_succ_self _
  · rw [tokens_subscribe]
    refine List.nodup_append.mpr ⟨h.distinct, List.nodup_singleton _, ?_⟩
    intro token hmem other hother
    rw [List.mem_singleton.mp hother]
    exact Nat.ne_of_lt (h.given token hmem)

theorem Issued.filter (h : set.Issued) (p : Token × α → Bool) :
    ({ set with entries := set.entries.filter p } : ListenerSet α).Issued := by
  have hsublist : ((set.entries.filter p).map Prod.fst).Sublist (set.entries.map Prod.fst) :=
    List.filter_sublist.map Prod.fst
  exact ⟨fun token hmem => h.given token (hsublist.subset hmem), h.distinct.sublist hsublist⟩

end ListenerSet

/-! ### Books -/

section Books

open scoped List

variable {α β : Type}

/-- Of entries with different tokens, those remain whose tokens are not given up. -/
theorem filter_perm_of_tokens {held gone kept : List (Token × α)} (h : held ~ gone ++ kept)
    (hdistinct : (held.map Prod.fst).Nodup) :
    held.filter (fun entry => entry.1 ∉ gone.map Prod.fst) ~ kept := by
  have htokens : (gone.map Prod.fst ++ kept.map Prod.fst).Nodup := by
    rw [← List.map_append]
    exact (h.map Prod.fst).nodup_iff.mp hdistinct
  have hgone : gone.filter (fun entry => entry.1 ∉ gone.map Prod.fst) = [] :=
    List.filter_eq_nil_iff.mpr fun entry hmem => by
      simpa using ⟨entry.2, hmem⟩
  have hkept : kept.filter (fun entry => entry.1 ∉ gone.map Prod.fst) = kept := by
    refine List.filter_eq_self.mpr fun entry hmem => decide_eq_true fun htoken => ?_
    exact (List.nodup_append.mp htokens).2.2 _ htoken _ (List.mem_map_of_mem hmem) rfl
  have hfilter := h.filter fun entry => entry.1 ∉ gone.map Prod.fst
  rwa [List.filter_append, hgone, hkept, List.nil_append] at hfilter

/-- What one element of a list gives up and adds makes the difference of what all elements hold. -/
theorem flatMap_modify_perm {l : List α} {n : Nat} (hn : n < l.length) (entries : α → List β)
    (f : α → α) {gone added : List β}
    (h : gone ++ entries (f l[n]) ~ added ++ entries l[n]) :
    gone ++ (l.modify n f).flatMap entries ~ added ++ l.flatMap entries := by
  have hpull (a : α) : (l.take n ++ a :: l.drop (n + 1)).flatMap entries ~
      entries a ++ ((l.take n).flatMap entries ++ (l.drop (n + 1)).flatMap entries) := by
    rw [List.flatMap_append, List.flatMap_cons]
    exact List.perm_append_comm_assoc ..
  have hbefore := hpull l[n]
  rw [← List.drop_eq_getElem_cons, List.take_append_drop] at hbefore
  have hafter := hpull (f l[n])
  rw [← List.modify_eq_take_cons_drop hn] at hafter
  generalize (l.take n).flatMap entries ++ (l.drop (n + 1)).flatMap entries = rest at hbefore hafter
  calc gone ++ (l.modify n f).flatMap entries
    _ ~ gone ++ (entries (f l[n]) ++ rest) := hafter.append_left _
    _ = gone ++ entries (f l[n]) ++ rest := (List.append_assoc ..).symm
    _ ~ added ++ entries l[n] ++ rest := h.append_right rest
    _ = added ++ (entries l[n] ++ rest) := List.append_assoc ..
    _ ~ added ++ l.flatMap entries := hbefore.symm.append_left _

end Books

/-! ### Tickets -/

/-- What both books know of a subscription: its token and its query. -/
abbrev Ticket := Token × Query

/-- The subscriptions that a host holds. -/
def Host.tickets (host : Host) : List Ticket :=
  host.subscriptions.entries.map fun entry => (entry.1, entry.2.query)

def ConditionListener.ticket (listener : ConditionListener) : Ticket :=
  (listener.token, listener.query)

/-- The subscriptions that an instance records. -/
def Instance.tickets (inst : Instance) : List Ticket :=
  inst.listeners.map ConditionListener.ticket

/-- An instance has at most one listener for an id and a query text, and none once it is
destroyed. -/
structure Instance.InOrder (inst : Instance) : Prop where
  single : (inst.listeners.map fun listener => (listener.id, listener.query.text)).Nodup
  ended : inst.destroyed = true → inst.listeners = []

theorem Instance.inOrder_of_nil {inst : Instance} (h : inst.listeners = []) : inst.InOrder :=
  ⟨by rw [h]; exact List.nodup_nil, fun _ => h⟩

/-- An instance stays in order with a listener for what it has not listened for yet. -/
theorem Instance.InOrder.listening {inst : Instance} (h : inst.InOrder)
    {listener : ConditionListener} (hstanding : inst.destroyed = false)
    (hnew : inst.isListening listener.id listener.query.text = false) :
    ({ inst with listeners := inst.listeners ++ [listener] } : Instance).InOrder := by
  refine ⟨?_, fun hend => absurd hend (Bool.eq_false_iff.mp hstanding)⟩
  rw [List.map_append]
  refine List.nodup_append.mpr ⟨h.single, List.nodup_singleton _, ?_⟩
  intro slot hslot other hother heq
  obtain ⟨held, hheld, rfl⟩ := List.mem_map.mp hslot
  rw [List.map_singleton, List.mem_singleton] at hother
  obtain ⟨hid, htext⟩ := Prod.mk.inj (heq.trans hother)
  refine Bool.eq_false_iff.mp hnew (List.any_eq_true.mpr ⟨held, hheld, ?_⟩)
  rw [hid, htext, decide_eq_true rfl, decide_eq_true rfl, Bool.and_self]

theorem Host.tokens_tickets (host : Host) :
    host.tickets.map Prod.fst = host.subscriptions.entries.map Prod.fst := List.map_map

theorem Host.tickets_subscribe (host : Host) (subscription : QuerySubscription) :
    (host.subscribe subscription).1.tickets =
      host.tickets ++ [(host.subscriptions.next, subscription.query)] := List.map_append

namespace Engine

open scoped List

variable {others : List Ticket} {before after engine : Engine} {i : InstanceId}

/-- The subscriptions that the instances of an engine record. -/
def recorded (engine : Engine) : List Ticket := engine.instances.flatMap Instance.tickets

/-- The host holds what others have subscribed to and what the instances record, every subscription
under a token of its own, and all instances are in order. -/
structure Accounted (others : List Ticket) (engine : Engine) : Prop where
  issued : engine.host.subscriptions.Issued
  ledger : engine.host.tickets.Perm (others ++ engine.recorded)
  inOrder (i : InstanceId) : (engine.inst i).InOrder

theorem accounted_start {host : Host} (h : host.subscriptions.Issued) (options : EngineOptions) :
    (start host options).Accounted host.tickets where
  issued := h
  ledger := by
    rw [recorded, start, List.flatMap_nil, List.append_nil]
  inOrder _ := Instance.inOrder_of_nil rfl

/-- What an instance gives up and what it adds make the difference of what is recorded. -/
theorem recorded_modifyInstance (hi : i < engine.instances.length) (f : Instance → Instance)
    (gone added : List ConditionListener)
    (h : gone ++ (f (engine.inst i)).listeners ~ added ++ (engine.inst i).listeners) :
    gone.map ConditionListener.ticket ++ (engine.modifyInstance i f).recorded ~
      added.map ConditionListener.ticket ++ engine.recorded := by
  have htickets := h.map ConditionListener.ticket
  rw [List.map_append, List.map_append, inst_eq_getElem hi] at htickets
  exact flatMap_modify_perm hi Instance.tickets f htickets

theorem inOrder_modifyInstance (engine : Engine) (h : ∀ j, (engine.inst j).InOrder)
    {f : Instance → Instance} (hf : (f (engine.inst i)).InOrder) (j : InstanceId) :
    ((engine.modifyInstance i f).inst j).InOrder := by
  rw [inst_modifyInstance_eq]
  split
  next hj =>
    obtain ⟨rfl, -⟩ := hj
    exact hf
  next => exact h j

theorem tickets_unsubscribeAll (engine : Engine) (gone : List ConditionListener) :
    (engine.unsubscribeAll gone).host.tickets = engine.host.tickets.filter fun ticket =>
      ticket.1 ∉ (gone.map ConditionListener.ticket).map Prod.fst := by
  have htokens : (gone.map ConditionListener.ticket).map Prod.fst =
      gone.map ConditionListener.token := List.map_map
  rw [Host.tickets, entries_unsubscribeAll, htokens, Host.tickets, List.filter_map]
  rfl

/-! ### Postings keep the books -/

namespace Accounted

theorem idle (h : before.Accounted others) (hidle : Idle before after) :
    after.Accounted others := by
  have hrecorded (engine : Engine) : engine.recorded =
      (engine.instances.map Instance.book).flatMap fun book =>
        book.1.map ConditionListener.ticket := by
    rw [List.flatMap_map]
    rfl
  have hbook (i : InstanceId) : (after.inst i).book = (before.inst i).book := by
    have hget (engine : Engine) : (engine.inst i).book =
        (engine.instances.map Instance.book).getD i (Instance.book default) :=
      (List.getD_map ..).symm
    rw [hget, hget, hidle.books]
  refine ⟨hidle.subscriptions ▸ h.issued, ?_, fun i => ?_⟩
  · rw [Host.tickets, hidle.subscriptions, hrecorded, hidle.books, ← hrecorded]
    exact h.ledger
  · obtain ⟨hlisteners, hdestroyed⟩ := Prod.mk.inj (hbook i)
    exact ⟨hlisteners ▸ (h.inOrder i).single, fun hend =>
      hlisteners.trans ((h.inOrder i).ended (hdestroyed ▸ hend))⟩

theorem found (h : engine.Accounted others) (config : Config) :
    Accounted others { engine with
      instances := engine.instances ++ [Instance.ofConfig config]
      live := engine.live ++ [engine.instances.length] } where
  issued := h.issued
  ledger := by
    have hnone : [Instance.ofConfig config].flatMap Instance.tickets = [] := rfl
    rw [recorded, List.flatMap_append, hnone, List.append_nil]
    exact h.ledger
  inOrder i := by
    rw [inst, getD_append_singleton]
    split
    · exact Instance.inOrder_of_nil rfl
    · exact h.inOrder i

/-- A new listener is booked at the host and in its instance. -/
theorem listen (h : engine.Accounted others) (hi : i < engine.instances.length)
    (id source target : String) (query : Query) (listener : QueryListener) :
    (engine.listen i id source target query listener).1.Accounted others := by
  simp only [Engine.listen]
  split
  · exact h
  next hfree =>
    rw [Bool.or_eq_true, not_or, Bool.not_eq_true] at hfree
    obtain ⟨hstanding, hnew⟩ := hfree
    have hrecorded := recorded_modifyInstance hi (fun inst => { inst with
      listeners := inst.listeners ++ [⟨id, query, source, target, engine.host.subscriptions.next⟩] })
      [] [⟨id, query, source, target, engine.host.subscriptions.next⟩]
      (List.perm_append_singleton ..)
    refine ⟨h.issued.subscribe ⟨query, listener⟩, ?_, inOrder_modifyInstance _ h.inOrder
      ((h.inOrder i).listening hstanding (Bool.eq_false_iff.mpr hnew))⟩
    calc (engine.host.subscribe ⟨query, listener⟩).1.tickets
      _ = engine.host.tickets ++ [(engine.host.subscriptions.next, query)] :=
        Host.tickets_subscribe ..
      _ ~ (engine.host.subscriptions.next, query) :: engine.host.tickets :=
        List.perm_append_singleton ..
      _ ~ (engine.host.subscriptions.next, query) :: (others ++ engine.recorded) :=
        h.ledger.cons _
      _ ~ others ++ (engine.host.subscriptions.next, query) :: engine.recorded :=
        List.perm_middle.symm
      _ ~ _ := hrecorded.symm.append_left others

/-- Listeners that an instance gives up are given up at the host, and nothing else is. -/
theorem giveUp (h : engine.Accounted others) (f : Instance → Instance)
    (gone : List ConditionListener)
    (hlisteners : gone ++ (f (engine.inst i)).listeners ~ (engine.inst i).listeners)
    (hinOrder : (f (engine.inst i)).InOrder) :
    ((engine.unsubscribeAll gone).modifyInstance i f).Accounted others := by
  rcases Nat.lt_or_ge i engine.instances.length with hi | hi
  case inr =>
    have hnone : (engine.inst i).listeners = [] := by
      rw [inst_eq_default hi]
      rfl
    obtain ⟨rfl, -⟩ := List.append_eq_nil_iff.mp (hnone ▸ hlisteners).eq_nil
    have hsame : engine.modifyInstance i f = engine := by
      rw [modifyInstance, List.modify_eq_self hi]
    exact (congrArg (Accounted others) hsame).mpr h
  refine ⟨?_, ?_, inOrder_modifyInstance (engine.unsubscribeAll gone) h.inOrder hinOrder⟩
  · have hissued := h.issued.filter fun entry => entry.1 ∉ gone.map ConditionListener.token
    rw [← entries_unsubscribeAll] at hissued
    exact hissued
  · have hrecorded := recorded_modifyInstance hi f gone [] hlisteners
    have hsplit : engine.host.tickets ~ gone.map ConditionListener.ticket ++
        (others ++ (engine.modifyInstance i f).recorded) :=
      (h.ledger.trans (hrecorded.symm.append_left others)).trans
        (List.perm_append_comm_assoc ..)
    have hdistinct : (engine.host.tickets.map Prod.fst).Nodup := by
      rw [Host.tokens_tickets]
      exact h.issued.distinct
    have hkept := filter_perm_of_tokens hsplit hdistinct
    rwa [← tickets_unsubscribeAll] at hkept

end Accounted

/-- What has been booked twice stays booked twice. -/
theorem Posting.accounted (h : Posting before after) (haccounted : before.Accounted others) :
    after.Accounted others := by
  cases h with
  | idle h => exact haccounted.idle h
  | found config => exact haccounted.found config
  | listen i id source target query listener hi =>
    exact haccounted.listen hi id source target query listener
  | unlisten i key =>
    refine haccounted.giveUp _ _ (List.filter_append_perm _ _) ?_
    obtain ⟨hsingle, hended⟩ := haccounted.inOrder i
    refine ⟨hsingle.sublist (List.filter_sublist.map _), fun hend => ?_⟩
    rw [hended hend, List.filter_nil]
  | condemn i =>
    exact haccounted.giveUp Instance.condemned _ (.of_eq (List.append_nil _))
      (Instance.inOrder_of_nil rfl)

theorem Posts.accounted (h : Posts before after) (haccounted : before.Accounted others) :
    after.Accounted others := by
  induction h with
  | refl => exact haccounted
  | tail _ hstep ih => exact hstep.accounted ih

/-! ### Runs -/

theorem accounted_run {operations : List Operation} (haccounted : engine.Accounted others)
    (hfollows : Follows AsksExisting engine operations) :
    (engine.run operations).Accounted others := by
  induction operations generalizing engine with
  | nil => exact haccounted
  | cons operation rest ih =>
    obtain ⟨hasks, hrest⟩ := hfollows
    exact ih ((posts_perform hasks).accounted haccounted) hrest

/-! ### Evictions -/

/-- The eviction of a controller ends what the instances that know its key listen for on behalf of
it, and nothing else. -/
theorem mem_listeners_disconnect {c : ControllerId} {key : String}
    (hrunning : engine.running = true) (hkey : (engine.controller c).key = some key)
    {listener : ConditionListener} :
    listener ∈ ((engine.disconnect c true).inst i).listeners ↔
      listener ∈ (engine.inst i).listeners ∧
        ¬(i ∈ engine.instancesFor key ∧ (listener.source = key ∨ listener.target = key)) := by
  rw [inst_disconnect hrunning hkey]
  split
  next hknows =>
    rw [Instance.without]
    simp only [if_true, List.mem_filter, Bool.not_eq_true', ← Bool.not_eq_true,
      ConditionListener.concerns_iff, hknows, true_and]
  next hout => exact (and_iff_left fun h => hout h.1).symm

/-! ### What operations reach -/

end Engine

end InteractionBinding
