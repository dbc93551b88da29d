import InteractionBinding.Config.Builder
import InteractionBinding.Proofs.Wiring.Deliveries
/-!
# Calls while a list changes

While a list changes, every call of a handler can be charged to an added item and to the controller
that owns the list, such that two calls for one wire at the expense of one item have a teardown of
the item between them (`Engine.run_list_changes`). An item that is kept as wired from before is not
called before it is torn down. A change may report nodes that earlier ones have reported, but none
twice: within one change a node that is reported twice is called twice.
-/

namespace InteractionBinding.Engine

/-- A list changes: the document is read again, or a change of the children of a container is
reported, in which no node is added twice. -/
def IsListChange : Operation → Prop
  | .readDocument dom => dom.FindsOnce
  | .childListChanged _ added _ => added.Nodup
  | _ => False

/-- A charge comes from one of some changes: it is a teardown of a removed node, or a call for a
wire that goes through an added item, at the expense of the item and the owner of its list. -/
def Charge.ComesFrom (changes : List Operation) (charge : Charge) : Prop :=
  ∃ container added removed, .childListChanged container added removed ∈ changes ∧
    ∃ occasion scene, Delivers occasion added removed scene charge

variable {engine : Engine}

/-- Changes of lists are charged, and spare what is kept as wired. -/
theorem sparing_run (htidy : engine.Tidy) (hcompiled : engine.Compiled)
    (hdom : engine.host.dom.FindsOnce) {changes : List Operation}
    (hchanges : ∀ change ∈ changes, IsListChange change) :
    ∃ charges, Sparing charges engine (engine.run changes) ∧
      ∀ charge ∈ charges, charge.ComesFrom changes := by
  induction changes generalizing engine with
  | nil => exact ⟨[], .silent rfl rfl rfl, fun _ hmem => absurd hmem List.not_mem_nil⟩
  | cons change rest ih =>
    obtain ⟨hchange, hrest⟩ := List.forall_mem_cons.mp hchanges
    obtain ⟨hsteps, htidy'⟩ := perform_steps htidy change
    have hcompiled' := hsteps.compiled hcompiled
    have hlater {charge : Charge} (h : charge.ComesFrom rest) : charge.ComesFrom (change :: rest) :=
      h.imp fun _ => Exists.imp fun _ => Exists.imp fun _ => And.imp_left (List.mem_cons_of_mem _)
    cases change with
    | readDocument dom =>
      obtain ⟨charges, hsparing, hcome⟩ := ih htidy' hcompiled' hchange hrest
      have hread : Sparing [] engine (engine.readDocument dom) := .silent rfl rfl rfl
      exact ⟨[] ++ charges, hread.trans hsparing, fun charge hmem => hlater (hcome charge hmem)⟩
    | childListChanged container added removed =>
      obtain ⟨charges, hcourse, -⟩ :=
        course_childListChanged htidy hcompiled container added removed
      have hdom' : (engine.childListChanged container added removed).1.host.dom = engine.host.dom :=
        congrArg Scene.dom hcourse.scene
      obtain ⟨charges', hsparing, hcome⟩ := ih htidy' hcompiled' (hdom' ▸ hdom) hrest
      refine ⟨charges ++ charges', (hcourse.sparing hdom hchange).trans hsparing,
        List.forall_mem_append.mpr ⟨fun charge hmem => ?_, fun charge hmem => ?_⟩⟩
      · exact ⟨container, added, removed, List.mem_cons_self, _, _, hcourse.delivers charge hmem⟩
      · exact hlater (hcome charge hmem)
    | _ => exact hchange.elim

/-- After any run, what is told while lists change can be charged: every call goes through an added
item and is charged to it and to the owner of its list. Between two calls for one wire that are
charged alike the item is torn down, and so it is before the first one if the item is kept as wired
from before. -/
theorem run_list_changes {host : Host} {options : EngineOptions} {operations : List Operation}
    (hdom : ((start host options).run operations).host.dom.FindsOnce) {changes : List Operation}
    (hchanges : ∀ change ∈ changes, IsListChange change) :
    let engine := (start host options).run operations
    ∃ charges : List Charge, (engine.run changes).log = engine.log ++ charges.map Charge.entry ∧
      (∀ charge ∈ charges, charge.ComesFrom changes) ∧
      (∀ front charge back account wire, charges = front ++ charge :: back →
        charge.bills account wire = true → engine.keeps account wire = true →
          ∃ torn ∈ front, torn.entry.removes account.item = true) ∧
      ∀ front charge between again back account wire,
        charges = front ++ charge :: (between ++ again :: back) →
          charge.bills account wire = true → again.bills account wire = true →
            ∃ torn ∈ between, torn.entry.removes account.item = true := by
  intro engine
  obtain ⟨charges, hsparing, hcome⟩ := sparing_run (tidy_run (tidy_start host options) operations)
    (compiled_run (tidy_start host options) (compiled_start host options) operations) hdom hchanges
  refine ⟨charges, hsparing.log, hcome, ?_, ?_⟩
  · intro front charge back account wire hsplit hbills hkeeps
    exact hsparing.exists_removes_of_keeps hsplit hbills hkeeps
  · intro front charge between again back account wire hsplit hbills hagain
    exact hsparing.exists_removes hsplit hbills hagain

/-- A document in which node 1 has a shelf, node 2, with some books on it. -/
def shelfDom (books : List NodeId) : Dom where
  queryAll root selector :=
    if root = 1 ∧ selector = ".shelf" then [2]
    else if root = 1 ∧ selector = ".shelf > .book" then books
    else []
  children node := if node = 1 then [2] else if node = 2 then books else []
  matchesSelector node selector := node ∈ books && selector = ".book"
  attributeOf _ _ := none

theorem findsOnce_shelfDom {books : List NodeId} (h : books.Nodup) :
    (shelfDom books).FindsOnce := by
  intro root selector
  simp only [shelfDom]
  split
  · exact List.nodup_singleton 2
  · split
    · exact h
    · exact List.nodup_nil

/-- The books of the case open on the desk. -/
def shelfOperations : List Operation :=
  [.create (Config.ofInteractions [((Interaction.ofTrigger "case" .click).withList ".shelf"
      (some ".book")).withEffect ((Effect.byId "open").on "desk")]),
    .addNode 3 "desk", .addNode 1 "case"]

/-- A book is put on the shelf, which is reported twice, taken off and put back. -/
def shelfChanges : List Operation :=
  [.readDocument (shelfDom [4]), .childListChanged 2 [4] [], .childListChanged 2 [4] [],
    .readDocument (shelfDom []), .childListChanged 2 [] [4], .readDocument (shelfDom [4]),
    .childListChanged 2 [4] []]

/-- The handler is called for the book when it is put on the shelf, and again when it is put
back. -/
theorem run_list_changes_shelf :
    let engine := (start { Host.bare with dom := shelfDom [] } .standard).run shelfOperations
    let wire : Wire := ⟨4, 3, ⟨"desk", "open", 0⟩⟩
    (engine.host.dom.FindsOnce ∧ ∀ change ∈ shelfChanges, IsListChange change) ∧
      (engine.run shelfChanges).log.countP (Entry.callsFor wire) = 2 ∧
      ∃ charges : List Charge, (engine.run shelfChanges).log =
          engine.log ++ charges.map Charge.entry ∧
        ∀ front charge between again back, charges = front ++ charge :: (between ++ again :: back) →
          charge.bills ⟨1, 4⟩ wire = true → again.bills ⟨1, 4⟩ wire = true →
            ∃ torn ∈ between, torn.entry.removes 4 = true := by
  intro engine wire
  have hdom : engine.host.dom.FindsOnce := by
    have hsame : engine.host.dom = shelfDom [] := rfl
    exact hsame ▸ findsOnce_shelfDom List.nodup_nil
  have hone : (shelfDom [4]).FindsOnce := findsOnce_shelfDom (List.nodup_singleton 4)
  have hnone : (shelfDom []).FindsOnce := findsOnce_shelfDom List.nodup_nil
  have hchanges : ∀ change ∈ shelfChanges, IsListChange change := by
    simp [shelfChanges, IsListChange, hone, hnone]
  obtain ⟨charges, hlog, -, -, hagain⟩ :=
    @run_list_changes { Host.bare with dom := shelfDom [] } .standard shelfOperations hdom
      shelfChanges hchanges
  exact ⟨⟨hdom, hchanges⟩, by decide +kernel, charges, hlog,
    fun front charge between again back => hagain front charge between again back ⟨1, 4⟩ wire⟩

-- A book that one change reports twice is called twice.
example :
    let engine := (start { Host.bare with dom := shelfDom [] } .standard).run shelfOperations
    (engine.run [.readDocument (shelfDom [4]), .childListChanged 2 [4, 4] []]).log.countP
      (Entry.callsFor ⟨4, 3, ⟨"desk", "open", 0⟩⟩) = 2 := by
  decide +kernel

end InteractionBinding.Engine
