import InteractionBinding.Proofs.Wiring.Justified
/-!
# Calls that are charged to list items

A stretch of a log can be charged: every entry that asks for a wire through an item of a list is
charged to the item and to the controller that owns the list. The charges are sparing if nothing is
charged to an item for a wire as long as the item is kept as wired, be it from before or from an
earlier charge, and the item is kept as wired from a charge to its next teardown
(`Engine.Sparing`). Sparing stretches compose (`Engine.Sparing.trans`), and in a sparing stretch two
charges for one wire have a teardown of the item between them (`Engine.Sparing.exists_removes`).
-/

namespace InteractionBinding

namespace Entry

/-- Whether an entry tears a node down. -/
def removes (node : NodeId) : Entry → Bool
  | .told (.remove _ other) _ => other = node
  | _ => false

/-- Whether an entry asks for a wire, on behalf of whatever instance. -/
def callsFor (wire : Wire) : Entry → Bool
  | .told (.add _ _ source target plan _ _ _) _ => wire = ⟨source, target, plan.id⟩
  | _ => false

end Entry

namespace Engine

/-- An item of the list of a controller. -/
structure Account where
  owner : ControllerId
  item : NodeId
deriving DecidableEq

/-- An entry of a log, and the account that it is charged to, if it is. -/
structure Charge where
  entry : Entry
  account : Option Account

/-- Whether a wire is asked for at the expense of an account. -/
def Charge.bills (charge : Charge) (account : Account) (wire : Wire) : Bool :=
  charge.account = some account && charge.entry.callsFor wire

variable {engine before middle after : Engine} {account : Account} {wire : Wire}
  {charge : Charge} {charges charges' front back : List Charge} {start start' : Bool}

/-- Whether the item of an account is kept as wired under the id of a wire. -/
def keeps (engine : Engine) (account : Account) (wire : Wire) : Bool :=
  (engine.controller account.owner).wiredItems.contains (wire.id.encode, account.item)

theorem keeps_iff {engine : Engine} {account : Account} {wire : Wire} :
    engine.keeps account wire = true ↔
      (wire.id.encode, account.item) ∈ (engine.controller account.owner).wiredItems :=
  List.contains_iff_mem

/-- Whether the item of an account has to be kept as wired after some charges: a wire has been
billed to the account, or the item was kept at the start, and it has not been torn down since. -/
def held (start : Bool) (account : Account) (wire : Wire) (charges : List Charge) : Bool :=
  charges.foldl (fun held charge =>
    charge.bills account wire || held && !charge.entry.removes account.item) start

theorem held_append :
    held start account wire (charges ++ charges') =
      held (held start account wire charges) account wire charges' :=
  List.foldl_append

theorem held_mono (h : start = true → start' = true)
    (hheld : held start account wire charges = true) :
    held start' account wire charges = true := by
  induction charges generalizing start start' with
  | nil => exact h hheld
  | cons charge rest ih =>
    refine ih (fun hfirst => ?_) hheld
    rw [Bool.or_eq_true, Bool.and_eq_true] at hfirst ⊢
    exact hfirst.imp_right (And.imp_left h)

/-- As long as the item is not torn down, it is held if it was at the start or has been billed. -/
theorem held_of_kept (h : ∀ charge ∈ charges, charge.entry.removes account.item = false) :
    held start account wire charges = true ↔
      start = true ∨ ∃ charge ∈ charges, charge.bills account wire = true := by
  induction charges using List.reverseRecOn with
  | nil => simp [held]
  | append_singleton charges charge ih =>
    rw [List.forall_mem_append, List.forall_mem_singleton] at h
    rw [held_append, held, List.foldl_cons, List.foldl_nil, Bool.or_eq_true, h.2, Bool.not_false,
      Bool.and_true, ih h.1]
    simp only [List.mem_append, List.mem_singleton]
    grind

/-- Without bills, an item is held if it was at the start and has not been torn down. -/
theorem held_of_unbilled (h : ∀ charge ∈ charges, charge.account = none)
    (hheld : held start account wire charges = true) :
    start = true ∧ ∀ charge ∈ charges, charge.entry.removes account.item = false := by
  induction charges using List.reverseRecOn with
  | nil => exact ⟨hheld, fun _ hmem => absurd hmem List.not_mem_nil⟩
  | append_singleton charges charge ih =>
    rw [List.forall_mem_append, List.forall_mem_singleton] at h
    have hbill : charge.bills account wire = false := by
      rw [Charge.bills, h.2]
      rfl
    rw [held_append, held, List.foldl_cons, List.foldl_nil, hbill, Bool.false_or,
      Bool.and_eq_true, Bool.not_eq_true'] at hheld
    obtain ⟨hstart, hkept⟩ := ih h.1 hheld.1
    refine ⟨hstart, List.forall_mem_append.mpr ⟨hkept, ?_⟩⟩
    exact List.forall_mem_singleton.mpr hheld.2

/-! ### Sparing stretches -/

/-- A stretch of a log whose charges spare what is kept as wired. -/
structure Sparing (charges : List Charge) (before after : Engine) : Prop where
  log : after.log = before.log ++ charges.map Charge.entry
  handlers : after.host.handlers = before.host.handlers
  heard (charge : Charge) (account : Account) (wire : Wire) : charge ∈ charges →
    charge.bills account wire = true → ∃ handler, handler ∈ before.host.handlers.all
  spared (front : List Charge) (charge : Charge) (back : List Charge) :
    charges = front ++ charge :: back → ∀ account wire, charge.bills account wire = true →
      held (before.keeps account wire) account wire front = false
  kept (account : Account) (wire : Wire) : (∃ handler, handler ∈ before.host.handlers.all) →
    held (before.keeps account wire) account wire charges = true →
      after.keeps account wire = true

namespace Sparing

theorem silent (hlog : after.log = before.log)
    (hhandlers : after.host.handlers = before.host.handlers)
    (hcontrollers : after.controllers = before.controllers) : Sparing [] before after where
  log := by rw [hlog, List.map_nil, List.append_nil]
  handlers := hhandlers
  heard _ _ _ hmem := absurd hmem List.not_mem_nil
  spared front charge back hsplit := by simp at hsplit
  kept account wire _ h := by
    rw [keeps, controller, hcontrollers]
    exact h

/-- Without teardowns, charges spare what is kept as wired if they bill no item that is kept, and
none twice for a wire. -/
theorem of_kept (hlog : after.log = before.log ++ charges.map Charge.entry)
    (hhandlers : after.host.handlers = before.host.handlers)
    (hheard : ∀ charge ∈ charges, ∃ handler, handler ∈ before.host.handlers.all)
    (hkept : ∀ charge ∈ charges, ∀ item, charge.entry.removes item = false)
    (hfresh : ∀ charge ∈ charges, ∀ account wire, charge.bills account wire = true →
      before.keeps account wire = false)
    (honce : charges.Pairwise fun charge again => ∀ account wire,
      charge.bills account wire = true → again.bills account wire ≠ true)
    (hkeeps : ∀ account wire, before.keeps account wire = true → after.keeps account wire = true)
    (hbilled : ∀ charge ∈ charges, ∀ account wire, charge.bills account wire = true →
      after.keeps account wire = true) : Sparing charges before after where
  log := hlog
  handlers := hhandlers
  heard charge _ _ hmem _ := hheard charge hmem
  spared front charge back hsplit account wire hbills := by
    subst hsplit
    rw [← Bool.not_eq_true, held_of_kept fun charge hmem =>
      hkept charge (List.mem_append_left _ hmem) _]
    rintro (hbefore | ⟨earlier, hmem, hbills'⟩)
    · have hfree := hfresh charge (List.mem_append_right _ List.mem_cons_self) account wire hbills
      exact Bool.false_ne_true (hfree.symm.trans hbefore)
    · exact (List.pairwise_append.mp honce).2.2 earlier hmem charge List.mem_cons_self account wire
        hbills' hbills
  kept account wire _ hheld := by
    rcases (held_of_kept fun charge hmem => hkept charge hmem _).mp hheld with
      hbefore | ⟨charge, hmem, hbills⟩
    · exact hkeeps account wire hbefore
    · exact hbilled charge hmem account wire hbills

theorem trans (first : Sparing charges before middle) (second : Sparing charges' middle after) :
    Sparing (charges ++ charges') before after where
  log := by rw [second.log, first.log, List.map_append, List.append_assoc]
  handlers := second.handlers.trans first.handlers
  heard charge account wire hmem hbills := by
    rcases List.mem_append.mp hmem with hmem | hmem
    · exact first.heard charge account wire hmem hbills
    · exact first.handlers ▸ second.heard charge account wire hmem hbills
  spared front charge back hsplit account wire hbills := by
    rcases List.append_eq_append_iff.mp hsplit with ⟨rest, rfl, hsecond⟩ | ⟨rest, hfirst, hsecond⟩
    · rw [held_append, ← Bool.not_eq_true]
      intro hheld
      have hmem : charge ∈ charges' := by simp [hsecond]
      have hkept := first.kept account wire
        (first.handlers ▸ second.heard charge account wire hmem hbills)
      have hspared := second.spared rest charge back hsecond account wire hbills
      exact Bool.false_ne_true (hspared.symm.trans (held_mono hkept hheld))
    · cases rest with
      | nil =>
        rw [List.append_nil] at hfirst
        rw [List.nil_append] at hsecond
        rw [← hfirst, ← Bool.not_eq_true]
        intro hheld
        have hmem : charge ∈ charges' := by simp [← hsecond]
        have hkept := first.kept account wire
          (first.handlers ▸ second.heard charge account wire hmem hbills) hheld
        have hspared := second.spared [] charge back hsecond.symm account wire hbills
        exact Bool.false_ne_true (hspared.symm.trans hkept)
      | cons charge' rest =>
        obtain ⟨rfl, -⟩ := List.cons.inj hsecond
        exact first.spared front charge rest hfirst account wire hbills
  kept account wire hhandler hheld := by
    rw [held_append] at hheld
    exact second.kept account wire (first.handlers ▸ hhandler)
      (held_mono (first.kept account wire hhandler) hheld)

/-- Before a wire is billed to an account whose item is kept as wired from the start, the item is
torn down. -/
theorem exists_removes_of_keeps (h : Sparing charges before after)
    (hsplit : charges = front ++ charge :: back) (hbills : charge.bills account wire = true)
    (hkeeps : before.keeps account wire = true) :
    ∃ torn ∈ front, torn.entry.removes account.item = true := by
  by_contra hnone
  have hkept : ∀ torn ∈ front, torn.entry.removes account.item = false := by simpa using hnone
  have hheld : held (before.keeps account wire) account wire front = true :=
    (held_of_kept hkept).mpr (.inl hkeeps)
  have hspared := h.spared front charge back hsplit account wire hbills
  exact Bool.false_ne_true (hspared.symm.trans hheld)

/-- Before a wire is billed to an account again, the item is torn down. -/
theorem exists_removes (h : Sparing charges before after) {between : List Charge} {again : Charge}
    (hsplit : charges = front ++ charge :: (between ++ again :: back))
    (hbills : charge.bills account wire = true) (hagain : again.bills account wire = true) :
    ∃ torn ∈ between, torn.entry.removes account.item = true := by
  by_contra hnone
  have hkept : ∀ torn ∈ between, torn.entry.removes account.item = false := by simpa using hnone
  have hspared := h.spared (front ++ charge :: between) again back (by simp [hsplit]) account wire
    hagain
  rw [held_append, held, List.foldl_cons, hbills, Bool.true_or] at hspared
  exact Bool.false_ne_true (hspared.symm.trans ((held_of_kept hkept).mpr (.inl rfl)))

end Sparing

end Engine

end InteractionBinding
