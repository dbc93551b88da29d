import InteractionBinding.Config.Decode
import InteractionBinding.Config.Encode
import InteractionBinding.Proofs.Config.Values
/-!
# Reading and writing records

A record is read member by member, and the members of an object stand in the order of their names.
A record writes its members in an order of its own. Where members of different names are read
independently of each other, the order does not matter, so that an object that a record has
written may be read in the order of the writing.

## Main definitions

* `Decode.Yields` — a property of all values that a decoder reads.
* `Decode.Visits` — what visiting the members of an object makes of the fields met so far.
* `Decode.Independent` — members of different names can be exchanged.
* `Decode.Writes` — what visiting written members makes of the fields met so far.

## Main results

* `Decode.visit_induction` — what every member keeps, an object keeps.
* `Decode.Visits.perm` — members of different names may be visited in any order.
* `Decode.Writes.object` — an object is visited like the list of members it is built from.
* `Decode.writes_optionalMember`, `Decode.writes_unless`, `Decode.writes_payload` — what the
  written members become.
* `Decode.list_ofJson`, `Decode.table_ofJson` — lists and tables are read back when their values
  are.
-/

namespace InteractionBinding

namespace Decode

open Json

variable {σ α β : Type}

theorem bind_eq_ok {x : Except Fault α} {f : α → Except Fault β} {b : β} :
    (x >>= f) = .ok b ↔ ∃ a, x = .ok a ∧ f a = .ok b := by
  cases x <;> simp [bind, Except.bind]

theorem pure_eq_ok {a b : α} : (pure a : Except Fault α) = .ok b ↔ a = b := by
  simp [pure, Except.pure]

theorem map_eq_ok {f : α → β} {x : Except Fault α} {b : β} :
    (f <$> x) = .ok b ↔ ∃ a, x = .ok a ∧ f a = b := by
  cases x <;> simp [Functor.map, Except.map]

theorem once_eq_ok {name : String} {field : Option α} {value : Decoder α} {tree : Tree}
    {result : Option α} : once name field value tree = .ok result ↔
      field = none ∧ ∃ read, value tree = .ok read ∧ some read = result := by
  cases field with
  | none => simp only [once, true_and, map_eq_ok]
  | some _ => simp [once]

/-- A field that has not been met yet takes what its member is read as. -/
theorem map_once {set : Option α → β} {name : String} {decoder : Decoder α} {tree : Tree} {read : α}
    (h : decoder tree = .ok read) : (set <$> once name none decoder tree) = .ok (set (some read)) :=
  map_eq_ok.mpr ⟨some read, once_eq_ok.mpr ⟨rfl, read, h, rfl⟩, rfl⟩

theorem required_eq_ok {name : String} {field : Option α} {value : α} :
    required name field = .ok value ↔ field = some value := by
  cases field <;> simp [required]

theorem reached_eq_ok {expected : Expected} {fields length : Nat} {field : Option α} {value : α} :
    reached expected fields length field = .ok value ↔ field = some value := by
  cases field <;> simp [reached]

theorem anyValue_eq_ok {tree : Tree} {value : Json} :
    anyValue tree = .ok value ↔ tree.toJson? = some value := by
  unfold anyValue
  split <;> simp_all

/-! ### What decoders read -/

/-- All values that the decoder reads have the property. -/
def Yields (decoder : Decoder α) (P : α → Prop) : Prop :=
  ∀ tree value, decoder tree = .ok value → P value

/-- Every value that is kept is read back. -/
theorem yields_anyValue : Yields anyValue Json.Rereads := fun _ _ h =>
  rereads_of_toJson? (anyValue_eq_ok.mp h)

section Yields

variable {decoder : Decoder α} {P : α → Prop} (hyields : Yields decoder P)
include hyields

theorem Yields.items {closed : Bool} {trees : List Tree} {values : List α}
    (h : items decoder closed trees = .ok values) : ∀ value ∈ values, P value := by
  induction trees generalizing values with
  | nil =>
    simp only [Decode.items, bind_eq_ok, pure_eq_ok] at h
    obtain ⟨_, _, rfl⟩ := h
    exact List.forall_mem_nil _
  | cons tree rest ih =>
    simp only [Decode.items, bind_eq_ok, pure_eq_ok] at h
    obtain ⟨head, hhead, tail, htail, rfl⟩ := h
    exact List.forall_mem_cons.mpr ⟨hyields tree head hhead, ih htail⟩

theorem Yields.list : Yields (list decoder) fun values => ∀ value ∈ values, P value := by
  intro tree values h
  cases tree with
  | array trees closed => exact hyields.items h
  | _ => cases h

theorem Yields.once {name : String} {field result : Option α} {tree : Tree}
    (h : once name field decoder tree = .ok result) : ∀ value ∈ result, P value := by
  obtain ⟨-, value, hvalue, rfl⟩ := once_eq_ok.mp h
  exact fun _ hmem => Option.some.inj hmem ▸ hyields tree value hvalue

theorem Yields.positional {closed : Bool} {trees rest : List Tree} {result : Option α}
    (h : positional decoder closed trees = .ok (result, rest)) : ∀ value ∈ result, P value := by
  cases trees with
  | nil =>
    simp only [Decode.positional, bind_eq_ok, pure_eq_ok] at h
    obtain ⟨_, _, heq⟩ := h
    cases heq
    exact fun _ hmem => absurd hmem (Option.not_mem_none _)
  | cons tree tail =>
    simp only [Decode.positional, bind_eq_ok, pure_eq_ok] at h
    obtain ⟨value, hvalue, heq⟩ := h
    cases heq
    exact fun _ hmem => Option.some.inj hmem ▸ hyields tree value hvalue

end Yields

/-- What every member keeps, an object keeps. -/
theorem visit_induction {member : σ → String → Tree → Except Fault σ} {P : σ → Prop}
    (hmember : ∀ state name tree after, P state → member state name tree = .ok after → P after)
    {closed : Bool} {entries : List (Option String × Tree)} {state after : σ} (hstate : P state)
    (h : visit member closed state entries = .ok after) : P after := by
  induction entries generalizing state with
  | nil =>
    simp only [visit, bind_eq_ok, pure_eq_ok] at h
    obtain ⟨_, _, rfl⟩ := h
    exact hstate
  | cons entry rest ih =>
    obtain ⟨name | name, tree⟩ := entry
    · cases h
    · obtain ⟨next, hnext, hrest⟩ := bind_eq_ok.mp h
      exact ih (hmember state name tree next hstate hnext) hrest

theorem Yields.table {decoder : Decoder α} {P : α → Prop} (hyields : Yields decoder P) :
    Yields (table decoder) fun table => ∀ entry ∈ table.entries, P entry.2 := by
  intro tree table h
  cases tree with
  | object entries closed =>
    refine visit_induction (P := fun table => ∀ entry ∈ table.entries, P entry.2) ?_ ?_ h
    · intro state name tree after hstate hmember
      obtain ⟨value, hvalue, rfl⟩ := map_eq_ok.mp hmember
      intro entry hentry
      rcases KeyMap.mem_insertEntry hentry with rfl | hentry
      · exact hyields tree value hvalue
      · exact hstate entry hentry
    · exact List.forall_mem_nil _
  | _ => cases h

/-! ### Members in any order -/

/-- Visiting the members in the given order makes the fields `after` of the fields `state`. -/
def Visits (member : σ → String → Tree → Except Fault σ) (state : σ)
    (fields : List (String × Json)) (after : σ) : Prop :=
  visit member true state (Tree.membersOfJson fields) = .ok after

/-- Members of different names are read independently of each other: where one can be read behind
another, they can be read the other way round, and the fields are the same. -/
def Independent (member : σ → String → Tree → Except Fault σ) : Prop :=
  ∀ state name tree next other item after, name ≠ other →
    member state name tree = .ok next → member next other item = .ok after →
      ∃ next', member state other item = .ok next' ∧ member next' name tree = .ok after

section Visits

variable {member : σ → String → Tree → Except Fault σ} {state next after : σ}
  {fields others : List (String × Json)}

theorem visits_nil_iff : Visits member state [] after ↔ state = after := by
  simp [Visits, Tree.membersOfJson, visit, ending, bind, Except.bind, pure, Except.pure]

theorem visits_cons_iff {name : String} {value : Json} :
    Visits member state ((name, value) :: fields) after ↔
      ∃ next, member state name (Tree.ofJson value) = .ok next ∧ Visits member next fields after :=
  bind_eq_ok

theorem Visits.append (h : Visits member state fields next)
    (hothers : Visits member next others after) : Visits member state (fields ++ others) after := by
  induction fields generalizing state with
  | nil => exact visits_nil_iff.mp h ▸ hothers
  | cons field rest ih =>
    obtain ⟨step, hstep, hrest⟩ := visits_cons_iff.mp h
    exact visits_cons_iff.mpr ⟨step, hstep, ih hrest⟩

/-- Members of different names may be visited in any order. -/
theorem Visits.perm (hindependent : Independent member) (hperm : fields.Perm others)
    (hnodup : (fields.map Prod.fst).Nodup) (h : Visits member state fields after) :
    Visits member state others after := by
  induction hperm generalizing state after with
  | nil => exact h
  | cons field _ ih =>
    obtain ⟨step, hstep, hrest⟩ := visits_cons_iff.mp h
    exact visits_cons_iff.mpr ⟨step, hstep, ih (List.nodup_cons.mp hnodup).2 hrest⟩
  | swap first second rest =>
    obtain ⟨step, hstep, hrest⟩ := visits_cons_iff.mp h
    obtain ⟨step', hstep', hrest'⟩ := visits_cons_iff.mp hrest
    have hne : second.1 ≠ first.1 := fun heq =>
      (List.nodup_cons.mp hnodup).1 (heq ▸ List.mem_cons_self)
    obtain ⟨other, hother, hother'⟩ := hindependent _ _ _ _ _ _ _ hne hstep hstep'
    exact visits_cons_iff.mpr ⟨other, hother, visits_cons_iff.mpr ⟨step', hother', hrest'⟩⟩
  | trans hfirst _ ih ih' =>
    exact ih' ((hfirst.map Prod.fst).nodup_iff.mp hnodup) (ih hnodup h)

/-- The entries of a table that are read one by one become the table. -/
theorem visits_entries (after : KeyMap α → σ) (encode : α → Json) (table : KeyMap α)
    (h : ∀ entry ∈ table.entries, ∀ done,
      member (after done) entry.1 (Tree.ofJson (encode entry.2)) =
        .ok (after (done.insert entry.1 entry.2))) :
    Visits member (after .empty) (table.toList.map fun (name, value) => (name, encode value))
      (after table) := by
  have hfold : ∀ (entries : List (String × α)) (done : KeyMap α),
      (∀ entry ∈ entries, entry ∈ table.entries) →
        Visits member (after done) (entries.map fun (name, value) => (name, encode value))
          (after (entries.foldl (fun m e => m.insert e.1 e.2) done)) := by
    intro entries
    induction entries with
    | nil => exact fun _ _ => visits_nil_iff.mpr rfl
    | cons entry rest ih =>
      intro done hmem
      obtain ⟨hentry, hrest⟩ := List.forall_mem_cons.mp hmem
      exact visits_cons_iff.mpr ⟨_, h entry hentry done, ih _ hrest⟩
  have htable := hfold table.entries .empty fun _ hmem => hmem
  rwa [show table.entries.foldl (fun m e => m.insert e.1 e.2) .empty = table from
    KeyMap.ofList_toList table] at htable

end Visits

/-! ### Written members -/

/-- The members have some of the given names, in this order, and visiting them makes the fields
`after` of the fields `state`. -/
structure Writes (member : σ → String → Tree → Except Fault σ) (names : List String) (state : σ)
    (fields : List (String × Json)) (after : σ) : Prop where
  visits : Visits member state fields after
  names : (fields.map Prod.fst).Sublist names

section Writes

variable {member : σ → String → Tree → Except Fault σ} {state next after : σ}
  {fields others : List (String × Json)} {names otherNames : List String}

theorem Writes.append (h : Writes member names state fields next)
    (hothers : Writes member otherNames next others after) :
    Writes member (names ++ otherNames) state (fields ++ others) after where
  visits := h.visits.append hothers.visits
  names := by
    rw [List.map_append]
    exact h.names.append hothers.names

/-- An object is visited like the list of members it is built from. -/
theorem Writes.object (h : Writes member names state fields after)
    (hindependent : Independent member) (hnodup : names.Nodup) :
    Visits member state (KeyMap.ofList fields).toList after :=
  have hfields : (fields.map Prod.fst).Nodup := hnodup.sublist h.names
  h.visits.perm hindependent (KeyMap.toList_ofList_perm hfields).symm hfields

/-- A member that is always written sets its field. -/
theorem writes_field (after : Option α → σ) {name : String} {value : Json} (read : α)
    (h : member (after none) name (Tree.ofJson value) = .ok (after (some read))) :
    Writes member [name] (after none) [(name, value)] (after (some read)) where
  visits := visits_cons_iff.mpr ⟨_, h, visits_nil_iff.mpr rfl⟩
  names := .refl _

/-- A member for an optional text sets its field where there is a text. -/
theorem writes_optionalMember (after : Option (Option String) → σ) {name : String}
    (value : Option String)
    (h : ∀ text, member (after none) name (.string text) = .ok (after (some (some text)))) :
    Writes member [name] (after none) (optionalMember name value) (after (value.map some)) := by
  cases value with
  | none => exact ⟨visits_nil_iff.mpr rfl, List.nil_sublist _⟩
  | some text => exact writes_field after (some text) (h text)

/-- A member that may be left out sets its field where it is written. -/
theorem writes_unless (after : Option α → σ) {name : String} {value : Json} (skip : Bool)
    (read : α) (h : member (after none) name (Tree.ofJson value) = .ok (after (some read))) :
    Writes member [name] (after none) (if skip then [] else [(name, value)])
      (after (if skip then none else some read)) := by
  cases skip with
  | true => exact ⟨visits_nil_iff.mpr rfl, List.nil_sublist _⟩
  | false => exact writes_field after read h

/-- A payload is read entry by entry. -/
theorem writes_payload (after : KeyMap Json → σ) (payload : KeyMap Json)
    (h : ∀ entry ∈ payload.entries, ∀ done,
      member (after done) entry.1 (Tree.ofJson entry.2) =
        .ok (after (done.insert entry.1 entry.2))) :
    Writes member payload.keys (after .empty) payload.toList (after payload) :=
  ⟨by simpa using visits_entries after id payload h, .refl _⟩

end Writes

/-! ### Lists and tables -/

theorem items_ofJson {decoder : Decoder α} {encode : α → Json} {values : List α}
    (h : ∀ value ∈ values, decoder (Tree.ofJson (encode value)) = .ok value) :
    items decoder true (Tree.itemsOfJson (values.map encode)) = .ok values := by
  induction values with
  | nil => rfl
  | cons value rest ih =>
    obtain ⟨hvalue, hrest⟩ := List.forall_mem_cons.mp h
    exact bind_eq_ok.mpr ⟨value, hvalue, bind_eq_ok.mpr ⟨rest, ih hrest, rfl⟩⟩

theorem list_ofJson {decoder : Decoder α} {encode : α → Json} {values : List α}
    (h : ∀ value ∈ values, decoder (Tree.ofJson (encode value)) = .ok value) :
    list decoder (Tree.ofJson (.array (values.map encode))) = .ok values :=
  items_ofJson h

@[simp]
theorem strings_ofStrings (texts : List String) :
    strings (Tree.ofJson (ofStrings texts)) = .ok texts :=
  list_ofJson fun _ _ => rfl

/-- The members of a written table stand in the order of the keys. -/
theorem ofJson_toJson_table (encode : α → Json) (table : KeyMap α) :
    Tree.ofJson (table.toJson encode) =
      .object (Tree.membersOfJson (table.toList.map fun (name, value) => (name, encode value)))
        true := by
  have hsorted : (table.toList.map fun (name, value) => (name, encode value)).Pairwise
      (fun a b => a.1 < b.1) := List.pairwise_map.mpr table.sorted
  rw [KeyMap.toJson, object, KeyMap.toList_ofList_of_sorted hsorted, Tree.ofJson]

theorem table_ofJson {decoder : Decoder α} {encode : α → Json} {table : KeyMap α}
    (h : ∀ entry ∈ table.entries, decoder (Tree.ofJson (encode entry.2)) = .ok entry.2) :
    Decode.table decoder (Tree.ofJson (table.toJson encode)) = .ok table := by
  rw [ofJson_toJson_table]
  refine visits_entries id encode table fun entry hentry done => ?_
  rw [h entry hentry]
  rfl

end Decode

end InteractionBinding
