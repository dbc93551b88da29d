import InteractionBinding.Proofs.Lifecycle.Withdrawing
import Mathlib.Data.Finset.Card
import Mathlib.Data.List.ProdSigma
/-!
# Broadcasts to handlers

Handlers are registered for trigger kinds, over the handlers that the kinds had before. What a table
of handlers holds in the end depends on the last registration of each kind and on the order of the
first ones. A teardown is broadcast to the handlers that still serve a kind, each of them once
whatever kinds it serves, and in the order in which the kinds were registered first
(`HandlerTable.ofRegistrations_broadcasts`).

## Main definitions

* `HandlerTable.ofRegistrations` — the table after registrations.
* `HandlerTable.kinds` — the kinds that are served, in the order of the table.
-/

namespace InteractionBinding

namespace HandlerTable

/-! ### First occurrences -/

theorem firstOccurrences_filter (p : HandlerId → Bool) (l : List HandlerId) :
    firstOccurrences (l.filter p) = (firstOccurrences l).filter p := by
  induction l with
  | nil => rfl
  | cons first rest ih =>
    rw [firstOccurrences]
    by_cases hfirst : p first = true
    · rw [List.filter_cons_of_pos hfirst, firstOccurrences, ih, List.filter_cons_of_pos hfirst]
      exact congrArg _ (List.filter_comm ..)
    · rw [List.filter_cons_of_neg hfirst, List.filter_cons_of_neg hfirst, ih, List.filter_filter]
      refine List.filter_congr fun other _ => ?_
      by_cases hother : p other = true
      · have hne : other ≠ first := fun heq => hfirst (heq ▸ hother)
        simp [hother, hne]
      · simp [hother]

theorem nodup_firstOccurrences (l : List HandlerId) : (firstOccurrences l).Nodup := by
  induction l with
  | nil => exact List.nodup_nil
  | cons first rest ih =>
    exact List.nodup_cons.mpr ⟨fun hmem => by simp at hmem, ih.filter _⟩

/-- First occurrences stand in the order of their places. -/
theorem pairwise_firstOccurrences (l : List HandlerId) :
    (firstOccurrences l).Pairwise fun h h' => l.idxOf h < l.idxOf h' := by
  induction l with
  | nil => exact List.Pairwise.nil
  | cons first rest ih =>
    refine List.pairwise_cons.mpr ⟨fun other hmem => ?_, ?_⟩
    · have hne : other ≠ first := of_decide_eq_true (List.mem_filter.mp hmem).2
      rw [List.idxOf_cons_self, List.idxOf_cons_ne _ hne.symm]
      exact Nat.succ_pos _
    · refine (ih.filter _).imp_of_mem fun {h h'} hmem hmem' hlt => ?_
      have hne : h ≠ first := of_decide_eq_true (List.mem_filter.mp hmem).2
      have hne' : h' ≠ first := of_decide_eq_true (List.mem_filter.mp hmem').2
      rw [List.idxOf_cons_ne _ hne.symm, List.idxOf_cons_ne _ hne'.symm]
      exact Nat.succ_lt_succ hlt

/-- The handlers of kinds are the same when repeated kinds are left out before. -/
theorem firstOccurrences_map_eraseDups (f : TriggerKind → HandlerId) :
    ∀ kinds : List TriggerKind,
      firstOccurrences (kinds.eraseDups.map f) = firstOccurrences (kinds.map f)
  | [] => rfl
  | kind :: rest => by
    have ih := firstOccurrences_map_eraseDups f (rest.filter fun other => !other == kind)
    have hsame : ((rest.filter fun other => !other == kind).map f).filter (· ≠ f kind) =
        (rest.map f).filter (· ≠ f kind) := by
      rw [List.filter_map, List.filter_map, List.filter_filter]
      refine congrArg _ (List.filter_congr fun other _ => ?_)
      by_cases heq : other = kind <;> simp [heq]
    rw [List.eraseDups_cons, List.map_cons, List.map_cons, firstOccurrences, firstOccurrences, ih,
      ← firstOccurrences_filter, ← firstOccurrences_filter]
    exact congrArg (f kind :: firstOccurrences ·) hsame
  termination_by kinds => kinds.length
  decreasing_by exact Nat.lt_succ_of_le (List.length_filter_le ..)

/-! ### Registrations -/

/-- The table after registrations, one after the other. -/
def ofRegistrations (registrations : List (TriggerKind × HandlerId)) : HandlerTable :=
  registrations.foldl (fun table registration => table.register registration.1 registration.2)
    .empty

/-- The kinds that are served, in the order of the table. -/
def kinds (table : HandlerTable) : List TriggerKind := table.entries.map Prod.fst

variable {registrations : List (TriggerKind × HandlerId)}

theorem ofRegistrations_concat (registrations : List (TriggerKind × HandlerId))
    (kind : TriggerKind) (handler : HandlerId) :
    ofRegistrations (registrations ++ [(kind, handler)]) =
      (ofRegistrations registrations).register kind handler := by
  rw [ofRegistrations, List.foldl_append]
  rfl

/-- A kind that is new is put behind the others, and one that is served keeps its place. -/
theorem kinds_register (table : HandlerTable) (kind : TriggerKind) (handler : HandlerId) :
    (table.register kind handler).kinds =
      if kind ∈ table.kinds then table.kinds else table.kinds ++ [kind] := by
  obtain ⟨entries⟩ := table
  unfold register
  induction entries with
  | nil => rfl
  | cons entry rest ih =>
    obtain ⟨k, h⟩ := entry
    rw [registerEntry]
    split
    next heq => simp [kinds, heq]
    next hne =>
      simp only [kinds, List.map_cons, List.mem_cons, Ne.symm hne, false_or] at ih ⊢
      rw [ih]
      by_cases hmem : kind ∈ rest.map Prod.fst <;> simp [hmem]

/-- The kinds of a table stand in the order of their first registrations. -/
theorem kinds_ofRegistrations (registrations : List (TriggerKind × HandlerId)) :
    (ofRegistrations registrations).kinds = (registrations.map Prod.fst).eraseDups := by
  induction registrations using List.reverseRecOn with
  | nil => rfl
  | append_singleton registrations registration ih =>
    obtain ⟨kind, handler⟩ := registration
    rw [ofRegistrations_concat, kinds_register, ih, List.map_append, List.eraseDups_append]
    by_cases hmem : kind ∈ registrations.map Prod.fst
    · simp [List.removeAll, hmem, List.mem_eraseDups]
    · simp [List.removeAll, hmem, List.mem_eraseDups, List.eraseDups_cons]

theorem mem_kinds_ofRegistrations {kind : TriggerKind} :
    kind ∈ (ofRegistrations registrations).kinds ↔ kind ∈ registrations.map Prod.fst := by
  rw [kinds_ofRegistrations, List.mem_eraseDups]

theorem nodup_kinds_ofRegistrations (registrations : List (TriggerKind × HandlerId)) :
    (ofRegistrations registrations).kinds.Nodup := by
  induction registrations using List.reverseRecOn with
  | nil => exact List.nodup_nil
  | append_singleton registrations registration ih =>
    obtain ⟨kind, handler⟩ := registration
    rw [ofRegistrations_concat, kinds_register]
    split
    · exact ih
    next hnew =>
      exact (List.nodup_append_comm.mpr (List.nodup_cons.mpr ⟨hnew, ih⟩))

/-- A kind is served by the handler that was registered for it last. -/
theorem get?_ofRegistrations (registrations : List (TriggerKind × HandlerId))
    (kind : TriggerKind) :
    (ofRegistrations registrations).get? kind =
      (registrations.reverse.find? fun registration => registration.1 = kind).map Prod.snd := by
  induction registrations using List.reverseRecOn with
  | nil => rfl
  | append_singleton registrations registration ih =>
    obtain ⟨other, handler⟩ := registration
    rw [ofRegistrations_concat, get?_register, ih, List.reverse_append, List.reverse_singleton,
      List.singleton_append, List.find?_cons]
    by_cases heq : other = kind <;> simp [heq]

theorem get?_eq_some_of_mem {table : HandlerTable} (h : table.kinds.Nodup)
    {entry : TriggerKind × HandlerId} (hmem : entry ∈ table.entries) :
    table.get? entry.1 = some entry.2 := by
  obtain ⟨found, hfound⟩ : ∃ found, table.entries.find? (fun other => other.1 = entry.1) =
      some found :=
    Option.isSome_iff_exists.mp (List.find?_isSome.mpr ⟨entry, hmem, decide_eq_true rfl⟩)
  have hkind : found.1 = entry.1 := by simpa using List.find?_some hfound
  have heq : found = entry :=
    List.inj_on_of_nodup_map h (List.mem_of_find?_eq_some hfound) hmem hkind
  rw [get?, hfound, heq]
  rfl

/-! ### The handlers that are told -/

/-- The handlers of a table are those that serve a kind. -/
theorem mem_all_iff {table : HandlerTable} (h : table.kinds.Nodup) {handler : HandlerId} :
    handler ∈ table.all ↔ ∃ kind, table.get? kind = some handler := by
  rw [all, mem_firstOccurrences, List.mem_map]
  constructor
  · rintro ⟨entry, hmem, rfl⟩
    exact ⟨entry.1, get?_eq_some_of_mem h hmem⟩
  · rintro ⟨kind, hget⟩
    obtain ⟨entry, hfind, rfl⟩ := Option.map_eq_some_iff.mp hget
    exact ⟨entry, List.mem_of_find?_eq_some hfind, rfl⟩

/-- The handlers of a table are found from all registrations, by the handlers that their kinds have
in the end. -/
theorem all_ofRegistrations (registrations : List (TriggerKind × HandlerId)) :
    (ofRegistrations registrations).all = firstOccurrences
      ((registrations.map Prod.fst).map fun kind =>
        ((ofRegistrations registrations).get? kind).getD 0) := by
  have hentries : (ofRegistrations registrations).entries.map Prod.snd =
      (ofRegistrations registrations).kinds.map fun kind =>
        ((ofRegistrations registrations).get? kind).getD 0 := by
    rw [kinds, List.map_map]
    refine List.map_congr_left fun entry hmem => ?_
    rw [Function.comp_apply, get?_eq_some_of_mem (nodup_kinds_ofRegistrations _) hmem]
    rfl
  rw [all, hentries, kinds_ofRegistrations, firstOccurrences_map_eraseDups]

theorem idxOf_map_le (f : TriggerKind → HandlerId) (kinds : List TriggerKind) (kind : TriggerKind) :
    (kinds.map f).idxOf (f kind) ≤ kinds.idxOf kind := by
  induction kinds with
  | nil => exact Nat.le_refl _
  | cons first rest ih =>
    rw [List.map_cons]
    by_cases heq : f first = f kind
    · rw [heq, List.idxOf_cons_self]
      exact Nat.zero_le _
    · have hne : first ≠ kind := fun h => heq (congrArg f h)
      rw [List.idxOf_cons_ne _ heq, List.idxOf_cons_ne _ hne]
      exact Nat.succ_le_succ ih

theorem exists_idxOf_map {f : TriggerKind → HandlerId} {kinds : List TriggerKind}
    {handler : HandlerId} (h : handler ∈ kinds.map f) :
    ∃ kind ∈ kinds, f kind = handler ∧ kinds.idxOf kind = (kinds.map f).idxOf handler := by
  induction kinds with
  | nil => exact absurd h List.not_mem_nil
  | cons first rest ih =>
    rw [List.map_cons] at h ⊢
    by_cases heq : f first = handler
    · exact ⟨first, List.mem_cons_self, heq, by rw [heq, List.idxOf_cons_self,
        List.idxOf_cons_self]⟩
    · obtain ⟨kind, hmem, hkind, hidx⟩ := ih ((List.mem_cons.mp h).resolve_left (Ne.symm heq))
      have hne : first ≠ kind := fun hfirst => heq (hfirst ▸ hkind)
      refine ⟨kind, List.mem_cons_of_mem _ hmem, hkind, ?_⟩
      rw [List.idxOf_cons_ne _ hne, List.idxOf_cons_ne _ heq, hidx]

/-- Of two handlers that are told, the first one serves a kind that was registered before every
kind of the other. -/
theorem pairwise_all_ofRegistrations (registrations : List (TriggerKind × HandlerId)) :
    (ofRegistrations registrations).all.Pairwise fun first second =>
      ∃ kind, (ofRegistrations registrations).get? kind = some first ∧
        ∀ other, (ofRegistrations registrations).get? other = some second →
          (registrations.map Prod.fst).idxOf kind < (registrations.map Prod.fst).idxOf other := by
  have hserved {kind : TriggerKind} (hmem : kind ∈ registrations.map Prod.fst) :
      (ofRegistrations registrations).get? kind =
        some (((ofRegistrations registrations).get? kind).getD 0) := by
    obtain ⟨entry, hentry, rfl⟩ := List.mem_map.mp (mem_kinds_ofRegistrations.mpr hmem)
    rw [get?_eq_some_of_mem (nodup_kinds_ofRegistrations _) hentry]
    rfl
  rw [all_ofRegistrations]
  refine (pairwise_firstOccurrences _).imp_of_mem fun {first second} hfirst _ hlt => ?_
  obtain ⟨kind, hmem, hkind, hidx⟩ := exists_idxOf_map (mem_firstOccurrences.mp hfirst)
  refine ⟨kind, (hserved hmem).trans (congrArg some hkind), fun other hother => ?_⟩
  have hle := idxOf_map_le (fun kind => ((ofRegistrations registrations).get? kind).getD 0)
    (registrations.map Prod.fst) other
  rw [hother, Option.getD_some] at hle
  exact hidx ▸ Nat.lt_of_lt_of_le hlt hle

/-! ### Broadcasts -/

/-- A teardown tells every handler to drop every node. -/
theorem events_teardown (engine : Engine) (nodes : List NodeId) :
    (engine.teardown nodes).events = engine.events ++
      (engine.host.handlers.all ×ˢ nodes).map fun removal => .remove removal.1 removal.2 := by
  have hevents : (engine.host.handlers.all.flatMap fun handler =>
      nodes.map (Event.remove handler ·)) =
      (engine.host.handlers.all ×ˢ nodes).map fun removal => .remove removal.1 removal.2 := by
    simp only [SProd.sprod, List.product, List.map_flatMap, List.map_map, Function.comp_def]
  rw [Engine.teardown, Engine.foldl_tell, Engine.events_tellAll, hevents]

/-- After any registrations, every kind is served by the handler registered for it last, and there
are as many as different kinds have been registered. The handlers that serve a kind are listed once
each, in the order of the first registrations of the earliest kinds that they serve, and a teardown
of nodes tells each of them once to drop each node. -/
theorem ofRegistrations_broadcasts (registrations : List (TriggerKind × HandlerId))
    {engine : Engine} (hhandlers : engine.host.handlers = ofRegistrations registrations)
    {nodes : List NodeId} (hnodes : nodes.Nodup) :
    let table := ofRegistrations registrations
    let kinds := registrations.map Prod.fst
    (∀ kind, table.get? kind =
        (registrations.reverse.find? fun registration => registration.1 = kind).map Prod.snd) ∧
      table.size = kinds.toFinset.card ∧
      table.all.Nodup ∧
      (∀ handler, handler ∈ table.all ↔ ∃ kind, table.get? kind = some handler) ∧
      (table.all.Pairwise fun first second =>
        ∃ kind, table.get? kind = some first ∧
          ∀ other, table.get? other = some second → kinds.idxOf kind < kinds.idxOf other) ∧
      ∃ removals : List (HandlerId × NodeId),
        (engine.teardown nodes).events =
            engine.events ++ removals.map (fun removal => .remove removal.1 removal.2) ∧
          removals.Nodup ∧
          ∀ handler node, (handler, node) ∈ removals ↔
            (∃ kind, table.get? kind = some handler) ∧ node ∈ nodes := by
  intro table kinds
  have hkinds : table.kinds.Nodup := nodup_kinds_ofRegistrations registrations
  have hsize : table.size = kinds.toFinset.card := by
    have hfinset : kinds.toFinset = table.kinds.toFinset := by
      ext kind
      rw [List.mem_toFinset, List.mem_toFinset]
      exact mem_kinds_ofRegistrations.symm
    rw [hfinset, List.toFinset_card_of_nodup hkinds, HandlerTable.kinds, List.length_map, size]
  refine ⟨get?_ofRegistrations registrations, hsize, nodup_firstOccurrences _,
    fun handler => mem_all_iff hkinds, pairwise_all_ofRegistrations registrations,
    table.all ×ˢ nodes, ?_, (nodup_firstOccurrences _).product hnodes, fun handler node => ?_⟩
  · rw [events_teardown, hhandlers]
  · rw [List.mem_product, mem_all_iff hkinds]

/-- Of three handlers the second one is replaced for its only kind, by one that serves another kind
already and so comes first. -/
theorem ofRegistrations_broadcasts_replaced :
    let registrations : List (TriggerKind × HandlerId) :=
      [(.hover, 7), (.click, 5), (.viewEnter, 9), (.hover, 9)]
    let engine := Engine.start (.fresh .bare (fun _ => .accepting) (ofRegistrations registrations)
      fun _ => true) .standard
    [3, 4].Nodup ∧ (ofRegistrations registrations).all = [9, 5] ∧
      (ofRegistrations registrations).get? .hover = some 9 ∧
      ∃ removals : List (HandlerId × NodeId),
        (engine.teardown [3, 4]).events =
            engine.events ++ removals.map (fun removal => .remove removal.1 removal.2) ∧
          removals.Nodup ∧ ¬(7, 3) ∈ removals ∧ (9, 4) ∈ removals := by
  intro registrations engine
  have hnodes : [3, 4].Nodup := by decide
  obtain ⟨hget, -, -, hmem, -, removals, hevents, hnodup, hiff⟩ :=
    @ofRegistrations_broadcasts registrations engine rfl _ hnodes
  have hreplaced : ¬(7, 3) ∈ removals := fun hremoval =>
    absurd ((hmem 7).mpr ((hiff 7 3).mp hremoval).1) (by decide)
  exact ⟨hnodes, by decide, hget .hover, removals, hevents, hnodup, hreplaced,
    (hiff 9 4).mpr ⟨⟨.hover, hget .hover⟩, by decide⟩⟩

end HandlerTable

end InteractionBinding
