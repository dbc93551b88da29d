import InteractionBinding.Json.Tree
/-!
# Values that are read back

A JSON value is read back when the tree of the value has the value itself. Not every value is: in
an object that repeats a name the last member counts, and the members are put into the order of
their names. The value of a tree always is.

## Main definitions

* `Json.Rereads` — the tree of a value has this value.

## Main results

* `Json.rereads_of_toJson?` — the value of a tree is read back.
* `Json.isSound_of_toJson?` — a tree with a value is sound.
* `Json.exists_toJson?_ofJson` — the tree of a value has a value.
* `Json.rereads_ofTable` — an object is read back when its members are.
-/

namespace InteractionBinding.Json

/-- The value is read back from its own tree: none of its objects repeats a name, and their members
stand in the order of the names. -/
def Rereads (value : Json) : Prop := (Tree.ofJson value).toJson? = some value

theorem itemsToJson?_itemsOfJson {values : List Json} (h : ∀ value ∈ values, value.Rereads) :
    Tree.itemsToJson? (Tree.itemsOfJson values) = some values := by
  induction values with
  | nil => rfl
  | cons value rest ih =>
    have hvalue : (Tree.ofJson value).toJson? = some value := h value List.mem_cons_self
    have hrest := ih fun other hmem => h other (List.mem_cons_of_mem _ hmem)
    simp [Tree.itemsOfJson, Tree.itemsToJson?, hvalue, hrest]

theorem membersToJson?_membersOfJson {fields : List (String × Json)}
    (h : ∀ field ∈ fields, field.2.Rereads) :
    Tree.membersToJson? (Tree.membersOfJson fields) = some fields := by
  induction fields with
  | nil => rfl
  | cons field rest ih =>
    obtain ⟨name, value⟩ := field
    have hvalue : (Tree.ofJson value).toJson? = some value := h (name, value) List.mem_cons_self
    have hrest := ih fun other hmem => h other (List.mem_cons_of_mem _ hmem)
    simp [Tree.membersOfJson, Tree.membersToJson?, hvalue, hrest]

theorem rereads_array {values : List Json} (h : ∀ value ∈ values, value.Rereads) :
    (Json.array values).Rereads := by
  simp [Rereads, Tree.ofJson, Tree.toJson?, itemsToJson?_itemsOfJson h]

/-- An object whose members are the entries of a table is read back when they are. -/
theorem rereads_ofTable {table : KeyMap Json} (h : ∀ entry ∈ table.entries, entry.2.Rereads) :
    (ofTable table).Rereads := by
  have hfields : Tree.membersToJson? (Tree.membersOfJson table.toList) = some table.toList :=
    membersToJson?_membersOfJson h
  simp [Rereads, ofTable, Tree.ofJson, Tree.toJson?, hfields, object, KeyMap.ofList_toList]

/-- Of the members that an object is built from, those that count have to be read back. -/
theorem rereads_object {fields : List (String × Json)} (h : ∀ field ∈ fields, field.2.Rereads) :
    (object fields).Rereads :=
  rereads_ofTable fun entry hmem => h entry (KeyMap.mem_of_mem_ofList hmem)

/-! ### Values of trees -/

mutual

/-- The value of a tree is read back. -/
theorem rereads_of_toJson? : ∀ {tree : Tree} {value : Json}, tree.toJson? = some value →
    value.Rereads
  | .null, value, h => by
    obtain rfl := Option.some.inj h
    rfl
  | .bool _, value, h => by
    obtain rfl := Option.some.inj h
    rfl
  | .number _, value, h => by
    obtain rfl := Option.some.inj h
    rfl
  | .string _, value, h => by
    obtain rfl := Option.some.inj h
    rfl
  | .array items closed, value, h => by
    rw [Tree.toJson?] at h
    split at h
    · obtain ⟨values, hvalues, rfl⟩ := Option.map_eq_some_iff.mp h
      exact rereads_array (rereads_of_itemsToJson? hvalues)
    · cases h
  | .object entries closed, value, h => by
    rw [Tree.toJson?] at h
    split at h
    · obtain ⟨fields, hfields, rfl⟩ := Option.map_eq_some_iff.mp h
      exact rereads_object (rereads_of_membersToJson? hfields)
    · cases h
  | .valueless, value, h => by cases h
  | .broken, value, h => by cases h

theorem rereads_of_itemsToJson? : ∀ {items : List Tree} {values : List Json},
    Tree.itemsToJson? items = some values → ∀ value ∈ values, value.Rereads
  | [], values, h => by
    obtain rfl := Option.some.inj h
    exact List.forall_mem_nil _
  | item :: rest, values, h => by
    simp only [Tree.itemsToJson?, Option.bind_eq_bind, Option.bind_eq_some_iff] at h
    obtain ⟨head, hhead, tail, htail, heq⟩ := h
    obtain rfl := Option.some.inj heq
    exact List.forall_mem_cons.mpr ⟨rereads_of_toJson? hhead, rereads_of_itemsToJson? htail⟩

theorem rereads_of_membersToJson? : ∀ {entries : List (Option String × Tree)}
    {fields : List (String × Json)}, Tree.membersToJson? entries = some fields →
    ∀ field ∈ fields, field.2.Rereads
  | [], fields, h => by
    obtain rfl := Option.some.inj h
    exact List.forall_mem_nil _
  | (name, tree) :: rest, fields, h => by
    simp only [Tree.membersToJson?, Option.bind_eq_bind, Option.bind_eq_some_iff] at h
    obtain ⟨_, _, head, hhead, tail, htail, heq⟩ := h
    obtain rfl := Option.some.inj heq
    exact List.forall_mem_cons.mpr ⟨rereads_of_toJson? hhead, rereads_of_membersToJson? htail⟩

end

/-! ### Sound documents -/

mutual

/-- A tree with a value is sound. -/
theorem isSound_of_toJson? : ∀ {tree : Tree} {value : Json}, tree.toJson? = some value →
    tree.isSound = true
  | .null, _, _ => rfl
  | .bool _, _, _ => rfl
  | .number _, _, _ => rfl
  | .string _, _, _ => rfl
  | .array items closed, value, h => by
    rw [Tree.toJson?] at h
    split at h
    next hclosed =>
      obtain ⟨values, hvalues, _⟩ := Option.map_eq_some_iff.mp h
      rw [Tree.isSound, itemsSound_of_itemsToJson? hvalues, hclosed, Bool.and_true]
    next => cases h
  | .object entries closed, value, h => by
    rw [Tree.toJson?] at h
    split at h
    next hclosed =>
      obtain ⟨fields, hfields, _⟩ := Option.map_eq_some_iff.mp h
      rw [Tree.isSound, membersSound_of_membersToJson? hfields, hclosed, Bool.and_true]
    next => cases h
  | .valueless, _, h => by cases h
  | .broken, _, h => by cases h

theorem itemsSound_of_itemsToJson? : ∀ {items : List Tree} {values : List Json},
    Tree.itemsToJson? items = some values → Tree.itemsSound items = true
  | [], _, _ => rfl
  | item :: rest, values, h => by
    simp only [Tree.itemsToJson?, Option.bind_eq_bind, Option.bind_eq_some_iff] at h
    obtain ⟨head, hhead, tail, htail, _⟩ := h
    rw [Tree.itemsSound, isSound_of_toJson? hhead, itemsSound_of_itemsToJson? htail, Bool.and_true]

theorem membersSound_of_membersToJson? : ∀ {entries : List (Option String × Tree)}
    {fields : List (String × Json)}, Tree.membersToJson? entries = some fields →
    Tree.membersSound entries = true
  | [], _, _ => rfl
  | (name, tree) :: rest, fields, h => by
    simp only [Tree.membersToJson?, Option.bind_eq_bind, Option.bind_eq_some_iff] at h
    obtain ⟨_, _, head, hhead, tail, htail, _⟩ := h
    rw [Tree.membersSound, isSound_of_toJson? hhead, membersSound_of_membersToJson? htail,
      Bool.and_true]

end

/-! ### Trees of values -/

mutual

/-- The tree of a value has a value. -/
theorem exists_toJson?_ofJson : ∀ value : Json, ∃ other, (Tree.ofJson value).toJson? = some other
  | .null => ⟨.null, rfl⟩
  | .bool value => ⟨.bool value, rfl⟩
  | .number value => ⟨.number value, rfl⟩
  | .string value => ⟨.string value, rfl⟩
  | .array items => by
    obtain ⟨values, hvalues⟩ := exists_itemsToJson?_itemsOfJson items
    exact ⟨.array values, by simp [Tree.ofJson, Tree.toJson?, hvalues]⟩
  | .members fields => by
    obtain ⟨others, hothers⟩ := exists_membersToJson?_membersOfJson fields
    exact ⟨object others, by simp [Tree.ofJson, Tree.toJson?, hothers]⟩

theorem exists_itemsToJson?_itemsOfJson :
    ∀ items : List Json, ∃ values, Tree.itemsToJson? (Tree.itemsOfJson items) = some values
  | [] => ⟨[], rfl⟩
  | item :: rest => by
    obtain ⟨value, hvalue⟩ := exists_toJson?_ofJson item
    obtain ⟨values, hvalues⟩ := exists_itemsToJson?_itemsOfJson rest
    exact ⟨value :: values, by simp [Tree.itemsOfJson, Tree.itemsToJson?, hvalue, hvalues]⟩

theorem exists_membersToJson?_membersOfJson : ∀ fields : List (String × Json),
    ∃ others, Tree.membersToJson? (Tree.membersOfJson fields) = some others
  | [] => ⟨[], rfl⟩
  | (name, field) :: rest => by
    obtain ⟨value, hvalue⟩ := exists_toJson?_ofJson field
    obtain ⟨others, hothers⟩ := exists_membersToJson?_membersOfJson rest
    exact ⟨(name, value) :: others,
      by simp [Tree.membersOfJson, Tree.membersToJson?, hvalue, hothers]⟩

end

end InteractionBinding.Json
