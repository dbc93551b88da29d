import InteractionBinding.Proofs.Wiring.ListCalls
import InteractionBinding.Proofs.Wiring.Updating
/-!
# Removed list items

When a change of a container is reported to somebody who observes it, exactly those wires are lost
that a removed node takes part in, and those are gained that the change asks for and does not tear
down again (`Engine.run_childListChanged`). A wire that goes through a removed item without a
selector ends at the item, so it is live afterwards only if the change has asked for it anew. A wire
that reaches a node below the item by a selector outlives the item, if the node is not reported as
well.
-/

namespace InteractionBinding.Engine

variable {engine before after : Engine} {wire : Wire} {entries : List Entry}

/-! ### What the log keeps wired -/

/-- Some entry adds a wire, and no later one tears it down. -/
def Sustains (wire : Wire) (entries : List Entry) : Prop :=
  ∃ front entry back, entries = front ++ entry :: back ∧ Adds wire entry ∧
    ∀ later ∈ back, later.tears wire = false

theorem sustains_append_singleton {entry : Entry} :
    Sustains wire (entries ++ [entry]) ↔
      Adds wire entry ∨ Sustains wire entries ∧ entry.tears wire = false := by
  constructor
  · rintro ⟨front, first, back, hsplit, hadds, hkept⟩
    rcases List.eq_nil_or_concat back with rfl | ⟨back, last, rfl⟩
    · obtain ⟨-, hlast⟩ := List.append_inj' hsplit rfl
      exact .inl ((List.singleton_inj.mp hlast) ▸ hadds)
    · have hsplit' : entries ++ [entry] = (front ++ first :: back) ++ [last] := by simp [hsplit]
      obtain ⟨rfl, hlast⟩ := List.append_inj' hsplit' rfl
      obtain rfl := List.singleton_inj.mp hlast
      exact .inr ⟨⟨front, first, back, rfl, hadds, fun later hmem => hkept later (by simp [hmem])⟩,
        hkept entry (by simp)⟩
  · rintro (hadds | ⟨⟨front, first, back, rfl, hadds, hkept⟩, hentry⟩)
    · exact ⟨entries, entry, [], rfl, hadds, fun _ hmem => absurd hmem List.not_mem_nil⟩
    · exact ⟨front, first, back ++ [entry], by simp, hadds, List.forall_mem_append.mpr
        ⟨hkept, List.forall_mem_singleton.mpr hentry⟩⟩

/-- A wire is live after some entries if it was live before and none of them tears it down, or if
they keep it wired. -/
theorem mem_wires_of_log (hlog : after.log = before.log ++ entries) :
    wire ∈ after.wires ↔
      (wire ∈ before.wires ∧ ∀ entry ∈ entries, entry.tears wire = false) ∨
        Sustains wire entries := by
  rw [wires_eq_foldl hlog]
  generalize before.wires = wires
  clear hlog
  induction entries using List.reverseRecOn with
  | nil => simp [Sustains]
  | append_singleton entries entry ih =>
    have hstep (live : List Wire) : wire ∈ ([entry].filterMap Entry.event?).foldl Event.wire live ↔
        wire ∈ live ∧ entry.tears wire = false ∨ Adds wire entry := by
      cases entry with
      | forgot => exact (or_iff_left id).trans (and_iff_left rfl) |>.symm
      | told event scene =>
        cases event with
        | remove handler node =>
          change wire ∈ live.filter _ ↔ _
          rw [List.mem_filter, Bool.not_eq_true']
          exact (or_iff_left id).symm
        | add i handler source target plan params context refusal =>
          cases refusal with
          | none =>
            exact (@Event.mem_wire_add live i handler source target plan params context wire).trans
              (or_congr_left (and_iff_left rfl).symm)
          | some => exact (or_iff_left id).trans (and_iff_left rfl) |>.symm
        | addSequence | effectState | insertSheet | removeSheet =>
          exact (or_iff_left id).trans (and_iff_left rfl) |>.symm
    rw [List.filterMap_append, List.foldl_append, hstep, ih, sustains_append_singleton,
      List.forall_mem_append, List.forall_mem_singleton]
    tauto

/-! ### Changes that somebody observes -/

/-- A change of a list that somebody observes tears a wire down exactly if a removed node takes part
in it. -/
theorem Course.tears_iff {occasion : Occasion} {added removed : List NodeId} {charges : List Charge}
    (h : Course occasion added removed charges before after)
    (hremovals : (removals before.scene removed).map (Charge.mk · none) ⊆ charges) :
    (∀ entry ∈ charges.map Charge.entry, entry.tears wire = false) ↔
      ∀ handler ∈ before.host.handlers.all, ∀ node ∈ removed, wire.touches node = false := by
  constructor
  · intro huntorn handler hhandler node hnode
    have hentry : .told (.remove handler node) before.scene ∈ removals before.scene removed :=
      mem_removals_iff.mpr ⟨handler, hhandler, node, hnode, rfl⟩
    exact huntorn _ (List.mem_map.mpr ⟨⟨_, none⟩, hremovals (List.mem_map_of_mem hentry), rfl⟩)
  · intro huntouched entry hmem
    obtain ⟨⟨entry, account⟩, hcharge, rfl⟩ := List.mem_map.mp hmem
    have hdelivers := h.delivers _ hcharge
    cases entry with
    | forgot => rfl
    | told event scene =>
      cases event with
      | remove handler node =>
        cases account with
        | none => exact huntouched handler hdelivers.2.1 node hdelivers.2.2
        | some => exact hdelivers.elim
      | _ => rfl

/-- A change that adds nothing keeps nothing wired anew. -/
theorem not_sustains_of_unadded {occasion : Occasion} {removed : List NodeId} {scene : Scene}
    {charges : List Charge}
    (h : ∀ charge ∈ charges, Delivers occasion [] removed scene charge) :
    ¬Sustains wire (charges.map Charge.entry) := by
  rintro ⟨front, entry, back, hsplit, hadds, -⟩
  obtain ⟨⟨entry, account⟩, hcharge, rfl⟩ := List.mem_map.mp
    (hsplit ▸ List.mem_append_right _ List.mem_cons_self : entry ∈ charges.map Charge.entry)
  have hdelivers := h _ hcharge
  cases entry with
  | forgot => exact hadds
  | told event told =>
    cases event with
    | add =>
      cases account with
      | none => exact hdelivers
      | some account => exact absurd hdelivers.2.1 List.not_mem_nil
    | _ => exact hadds

/-- After any run, a change of a container that somebody observes ends exactly the wires that a
removed node takes part in, and adds those that it asks for through added items and does not tear
down again. A wire through a removed item without a selector is live afterwards only if it is one of
these. -/
theorem run_childListChanged {host : Host} {options : EngineOptions} {operations : List Operation}
    {container : NodeId} (hobserved : ((start host options).run operations).IsObserved container)
    (added removed : List NodeId) :
    let engine := (start host options).run operations
    let change : Operation := .childListChanged container added removed
    let after := (engine.perform change).1
    ∃ charges : List Charge, after.log = engine.log ++ charges.map Charge.entry ∧
      (∀ charge ∈ charges, Delivers (engine.occasion change) added removed engine.scene charge) ∧
      (∀ wire, wire ∈ after.wires ↔
        (wire ∈ engine.wires ∧ ∀ handler ∈ engine.host.handlers.all, ∀ node ∈ removed,
          wire.touches node = false) ∨ Sustains wire (charges.map Charge.entry)) ∧
      ∀ wire ∈ after.wires, ∀ handler ∈ engine.host.handlers.all, ∀ item ∈ removed,
        ∀ (warrant : Warrant) (dom : Dom), warrant.Through dom item wire.source wire.target →
          warrant.reach = none → Sustains wire (charges.map Charge.entry) := by
  intro engine change after
  obtain ⟨charges, hcourse, hremovals⟩ := course_childListChanged
    (tidy_run (tidy_start host options) operations)
    (compiled_run (tidy_start host options) (compiled_start host options) operations)
    container added removed
  have hwires (wire : Wire) : wire ∈ after.wires ↔ _ :=
    (mem_wires_of_log hcourse.log).trans
      (or_congr_left (and_congr_right fun _ => hcourse.tears_iff (hremovals hobserved)))
  refine ⟨charges, hcourse.log, hcourse.delivers, hwires, ?_⟩
  intro wire hwire handler hhandler item hitem warrant dom hthrough hreach
  refine ((hwires wire).mp hwire).resolve_left fun ⟨_, huntouched⟩ => ?_
  exact Bool.false_ne_true ((huntouched handler hhandler item hitem).symm.trans
    (hthrough.touches hreach wire.id))

/-- A tray, node 1, holds the cup, node 5, on its rack, node 2. The cup has a handle, node 6. -/
def trayDocument : Document :=
  ((((Document.empty.put 1 none none [] .empty).put 2 (some 1) none ["rack"] .empty).put 5 (some 2)
    none ["cup"] .empty).put 6 (some 5) none ["handle"] .empty).put 3 none none [] .empty

def trayHost : Host := { Host.bare with dom := trayDocument.dom }

/-- What is on the rack fills at the tap, and its handles open the tap. -/
def trayOperations : List Operation :=
  let rule := (Interaction.ofTrigger "tray" .click).withList ".rack" (some ".cup")
  [.create (Config.ofInteractions [rule.withEffect ((Effect.byId "fill").on "tap"),
      (rule.withSelector ".handle").withEffect ((Effect.byId "open").on "tap")]),
    .addNode 3 "tap", .addNode 1 "tray"]

/-- When the cup is removed from the rack, its own wire is lost. That of its handle stays. -/
theorem run_childListChanged_cup :
    let engine := (start trayHost .standard).run trayOperations
    let after := (engine.perform (.childListChanged 2 [] [5])).1
    let cup : Wire := ⟨5, 3, ⟨"tap", "fill", 0⟩⟩
    let handle : Wire := ⟨6, 3, ⟨"tap", "open", 1⟩⟩
    engine.IsObserved 2 ∧ (cup ∈ engine.wires ∧ handle ∈ engine.wires) ∧
      cup ∉ after.wires ∧ handle ∈ after.wires := by
  intro engine after cup handle
  have hobserved : engine.IsObserved 2 :=
    ⟨rfl, (1, ⟨2, 1, ".rack", some ".cup"⟩), by decide +kernel⟩
  have hlive : cup ∈ engine.wires ∧ handle ∈ engine.wires := by decide +kernel
  obtain ⟨charges, -, hdelivers, hwires, -⟩ := run_childListChanged hobserved [] [5]
  refine ⟨hobserved, hlive, fun hmem => ?_, (hwires handle).mpr (.inl ⟨hlive.2, ?_⟩)⟩
  · obtain ⟨-, huntouched⟩ := ((hwires cup).mp hmem).resolve_right
      (not_sustains_of_unadded hdelivers)
    exact Bool.false_ne_true (huntouched 0 (by decide) 5 (List.mem_singleton_self 5)).symm
  · intro handler _ node hnode
    obtain rfl := List.mem_singleton.mp hnode
    decide

end InteractionBinding.Engine
