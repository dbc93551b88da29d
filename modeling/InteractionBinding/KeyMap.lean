/-!
# Tables keyed by names

A `KeyMap α` is a finite table from strings to values of type `α`. Its entries are kept in strictly
increasing key order, so a table has one representation: two tables with the same look-ups are
equal, and every walk over a table goes by code points of the keys.
-/

namespace InteractionBinding

/-- A finite table from strings, its entries in strictly increasing order of their keys. -/
structure KeyMap (α : Type) where
  entries : List (String × α)
  sorted : entries.Pairwise (fun a b => a.1 < b.1)
deriving DecidableEq

namespace KeyMap

variable {α β : Type}

/-- The first value stored under `key` in a list of entries. -/
def lookup (key : String) : List (String × α) → Option α
  | [] => none
  | (k, v) :: rest => if k = key then some v else lookup key rest

/-- Puts an entry at its place in a sorted list, over an entry of the same key. -/
def insertEntry (key : String) (value : α) : List (String × α) → List (String × α)
  | [] => [(key, value)]
  | (k, v) :: rest =>
    if key < k then (key, value) :: (k, v) :: rest
    else if key = k then (key, value) :: rest
    else (k, v) :: insertEntry key value rest

theorem mem_insertEntry {key : String} {value : α} {e : String × α} {l : List (String × α)}
    (h : e ∈ insertEntry key value l) : e = (key, value) ∨ e ∈ l := by
  induction l with
  | nil => simpa [insertEntry] using h
  | cons head tail ih =>
    obtain ⟨k, v⟩ := head
    rw [insertEntry] at h
    split at h
    · simpa using h
    · split at h
      · rcases List.mem_cons.mp h with h | h
        · exact .inl h
        · exact .inr (List.mem_cons_of_mem _ h)
      · rcases List.mem_cons.mp h with h | h
        · exact .inr (h ▸ List.mem_cons_self)
        · exact (ih h).imp_right (List.mem_cons_of_mem _)

theorem lt_of_not_lt_of_ne {a b : String} (h : ¬ a < b) (hne : a ≠ b) : b < a := by
  rcases String.le_total a b with hab | hba
  · exact absurd (String.le_antisymm hab (String.not_lt.mp h)) hne
  · exact String.not_le.mp fun hab => hne (String.le_antisymm hab hba)

theorem insertEntry_sorted (key : String) (value : α) {l : List (String × α)}
    (h : l.Pairwise (fun a b => a.1 < b.1)) :
    (insertEntry key value l).Pairwise (fun a b => a.1 < b.1) := by
  induction l with
  | nil => simp [insertEntry]
  | cons head tail ih =>
    obtain ⟨k, v⟩ := head
    obtain ⟨hhead, htail⟩ := List.pairwise_cons.mp h
    rw [insertEntry]
    split
    next hlt =>
      refine List.pairwise_cons.mpr ⟨fun e he => ?_, h⟩
      rcases List.mem_cons.mp he with he | he
      · exact he ▸ hlt
      · exact String.lt_trans hlt (hhead e he)
    next hnlt =>
      split
      next heq => exact List.pairwise_cons.mpr ⟨fun e he => heq ▸ hhead e he, htail⟩
      next hne =>
        refine List.pairwise_cons.mpr ⟨fun e he => ?_, ih htail⟩
        rcases mem_insertEntry he with he | he
        · exact he ▸ lt_of_not_lt_of_ne hnlt hne
        · exact hhead e he

/-- The table without entries. -/
def empty : KeyMap α := ⟨[], List.Pairwise.nil⟩

instance : Inhabited (KeyMap α) := ⟨empty⟩

/-- The value stored under `key`, if any. -/
def get? (m : KeyMap α) (key : String) : Option α := lookup key m.entries

/-- Whether a value is stored under `key`. -/
def contains (m : KeyMap α) (key : String) : Bool := (m.get? key).isSome

/-- Stores `value` under `key`, over what was there. -/
def insert (m : KeyMap α) (key : String) (value : α) : KeyMap α :=
  ⟨insertEntry key value m.entries, insertEntry_sorted key value m.sorted⟩

/-- Forgets what is stored under `key`. -/
def erase (m : KeyMap α) (key : String) : KeyMap α :=
  ⟨m.entries.filter (fun e => decide (e.1 ≠ key)), m.sorted.filter _⟩

/-- Replaces what is stored under `key`, or `default` when nothing is, by its image under `f`. -/
def modify (m : KeyMap α) (key : String) (default : α) (f : α → α) : KeyMap α :=
  m.insert key (f ((m.get? key).getD default))

/-- The table of a list of entries; of several entries of one key the last one counts. -/
def ofList (entries : List (String × α)) : KeyMap α :=
  entries.foldl (fun m e => m.insert e.1 e.2) empty

/-- The entries in key order. -/
def toList (m : KeyMap α) : List (String × α) := m.entries

/-- The keys in increasing order. -/
def keys (m : KeyMap α) : List String := m.entries.map Prod.fst

/-- The values in key order. -/
def values (m : KeyMap α) : List α := m.entries.map Prod.snd

def size (m : KeyMap α) : Nat := m.entries.length

def isEmpty (m : KeyMap α) : Bool := m.entries.isEmpty

/-- Stores every entry of `overrides` over the entries of `base`. -/
def override (base overrides : KeyMap α) : KeyMap α :=
  overrides.entries.foldl (fun m e => m.insert e.1 e.2) base

/-! ### Look-ups -/

theorem lookup_insertEntry_self (key : String) (value : α) (l : List (String × α)) :
    lookup key (insertEntry key value l) = some value := by
  induction l with
  | nil => simp [insertEntry, lookup]
  | cons head tail ih =>
    obtain ⟨k, v⟩ := head
    rw [insertEntry]
    split
    · simp [lookup]
    · split
      · simp [lookup]
      next hne => simp [lookup, Ne.symm hne, ih]

theorem lookup_insertEntry_of_ne {key other : String} (hne : other ≠ key) (value : α)
    (l : List (String × α)) : lookup other (insertEntry key value l) = lookup other l := by
  induction l with
  | nil => simp [insertEntry, lookup, Ne.symm hne]
  | cons head tail ih =>
    obtain ⟨k, v⟩ := head
    rw [insertEntry]
    split
    · simp [lookup, Ne.symm hne]
    · split
      next heq => subst heq; simp [lookup, Ne.symm hne]
      next => simp only [lookup, ih]

@[simp]
theorem get?_empty (key : String) : (empty : KeyMap α).get? key = none := rfl

@[simp]
theorem get?_insert_self (m : KeyMap α) (key : String) (value : α) :
    (m.insert key value).get? key = some value :=
  lookup_insertEntry_self key value m.entries

theorem get?_insert_of_ne (m : KeyMap α) {key other : String} (hne : other ≠ key) (value : α) :
    (m.insert key value).get? other = m.get? other :=
  lookup_insertEntry_of_ne hne value m.entries

theorem get?_insert (m : KeyMap α) (key other : String) (value : α) :
    (m.insert key value).get? other = if other = key then some value else m.get? other := by
  split
  next heq => rw [heq, get?_insert_self]
  next hne => exact get?_insert_of_ne m hne value

theorem lookup_filter_ne (key other : String) (l : List (String × α)) :
    lookup other (l.filter (fun e => decide (e.1 ≠ key))) =
      if other = key then none else lookup other l := by
  induction l with
  | nil => simp [lookup]
  | cons head tail ih =>
    obtain ⟨k, v⟩ := head
    by_cases hk : k = key
    · subst hk
      by_cases ho : other = k
      · simp_all
      · simp_all [lookup, Ne.symm ho]
    · by_cases ho : k = other
      · subst ho; simp [lookup, hk]
      · simp_all [lookup]

theorem get?_erase (m : KeyMap α) (key other : String) :
    (m.erase key).get? other = if other = key then none else m.get? other :=
  lookup_filter_ne key other m.entries

theorem get?_modify (m : KeyMap α) (key other : String) (default : α) (f : α → α) :
    (m.modify key default f).get? other =
      if other = key then some (f ((m.get? key).getD default)) else m.get? other :=
  get?_insert m key other _

private theorem lookup_eq_none_of_lt {key : String} {l : List (String × α)}
    (h : ∀ e ∈ l, key < e.1) : lookup key l = none := by
  induction l with
  | nil => rfl
  | cons head tail ih =>
    obtain ⟨k, v⟩ := head
    have hk : k ≠ key := fun heq => String.lt_irrefl key (heq ▸ h (k, v) List.mem_cons_self)
    simp [lookup, hk, ih fun e he => h e (List.mem_cons_of_mem _ he)]

private theorem entries_eq_of_lookup_eq {l r : List (String × α)}
    (hl : l.Pairwise (fun a b => a.1 < b.1)) (hr : r.Pairwise (fun a b => a.1 < b.1))
    (h : ∀ key, lookup key l = lookup key r) : l = r := by
  induction l generalizing r with
  | nil =>
    cases r with
    | nil => rfl
    | cons head tail => obtain ⟨k, v⟩ := head; simpa [lookup] using h k
  | cons head tail ih =>
    obtain ⟨k, v⟩ := head
    obtain ⟨hhead, htail⟩ := List.pairwise_cons.mp hl
    cases r with
    | nil => simpa [lookup] using h k
    | cons head' tail' =>
      obtain ⟨k', v'⟩ := head'
      obtain ⟨hhead', htail'⟩ := List.pairwise_cons.mp hr
      have hkk : k = k' := by
        rcases Decidable.em (k = k') with heq | hne
        · exact heq
        rcases Decidable.em (k < k') with hlt | hnlt
        · have hnone : lookup k ((k', v') :: tail') = none :=
            lookup_eq_none_of_lt fun e he => by
              rcases List.mem_cons.mp he with he | he
              · exact he ▸ hlt
              · exact String.lt_trans hlt (hhead' e he)
          have hsome : lookup k ((k, v) :: tail) = some v := by simp [lookup]
          rw [h k, hnone] at hsome
          cases hsome
        · have hlt := lt_of_not_lt_of_ne hnlt hne
          have hnone : lookup k' ((k, v) :: tail) = none :=
            lookup_eq_none_of_lt fun e he => by
              rcases List.mem_cons.mp he with he | he
              · exact he ▸ hlt
              · exact String.lt_trans hlt (hhead e he)
          have hsome : lookup k' ((k', v') :: tail') = some v' := by simp [lookup]
          rw [(h k').symm, hnone] at hsome
          cases hsome
      subst hkk
      have hv : v = v' := by simpa [lookup] using h k
      subst hv
      rw [ih htail htail' fun key => ?_]
      rcases Decidable.em (k = key) with heq | hne
      · subst heq
        rw [lookup_eq_none_of_lt hhead, lookup_eq_none_of_lt hhead']
      · simpa [lookup, hne] using h key

private theorem get?_foldl_insert (m : KeyMap α) {l : List (String × α)}
    (h : l.Pairwise (fun a b => a.1 < b.1)) (key : String) :
    (l.foldl (fun m e => m.insert e.1 e.2) m).get? key = (lookup key l).or (m.get? key) := by
  induction l generalizing m with
  | nil => simp [lookup]
  | cons head tail ih =>
    obtain ⟨k, v⟩ := head
    obtain ⟨hhead, htail⟩ := List.pairwise_cons.mp h
    rw [List.foldl_cons, ih _ htail, get?_insert, lookup]
    by_cases hk : k = key
    · subst hk
      simp [lookup_eq_none_of_lt hhead]
    · simp [hk, Ne.symm hk]

/-- A look-up in an override goes to its second table first. -/
theorem get?_override (base overrides : KeyMap α) (key : String) :
    (base.override overrides).get? key = (overrides.get? key).or (base.get? key) :=
  get?_foldl_insert base overrides.sorted key

/-- Tables with the same look-ups are equal. -/
theorem ext_get? {m n : KeyMap α} (h : ∀ key, m.get? key = n.get? key) : m = n := by
  obtain ⟨l, hl⟩ := m
  obtain ⟨r, hr⟩ := n
  have : l = r := entries_eq_of_lookup_eq hl hr h
  subst this
  rfl

theorem insert_comm (m : KeyMap α) {key other : String} (hne : key ≠ other) (value item : α) :
    (m.insert key value).insert other item = (m.insert other item).insert key value := by
  refine ext_get? fun name => ?_
  simp only [get?_insert]
  split <;> split <;> simp_all

theorem insert_insert (m : KeyMap α) (key : String) (value item : α) :
    (m.insert key value).insert key item = m.insert key item := by
  refine ext_get? fun name => ?_
  simp only [get?_insert]
  split <;> rfl

/-! ### Membership -/

private theorem lookup_eq_some_of_mem {key : String} {value : α} {l : List (String × α)}
    (hsorted : l.Pairwise (fun a b => a.1 < b.1)) (h : (key, value) ∈ l) :
    lookup key l = some value := by
  induction l with
  | nil => cases h
  | cons head tail ih =>
    obtain ⟨hhead, htail⟩ := List.pairwise_cons.mp hsorted
    rcases List.mem_cons.mp h with rfl | h
    · simp [lookup]
    · have hlt : head.1 < key := hhead _ h
      have hne : head.1 ≠ key := fun heq => String.lt_irrefl key (heq ▸ hlt)
      simp [lookup, hne, ih htail h]

private theorem mem_of_lookup_eq_some {key : String} {value : α} {l : List (String × α)}
    (h : lookup key l = some value) : (key, value) ∈ l := by
  induction l with
  | nil => cases h
  | cons head tail ih =>
    rw [lookup] at h
    split at h
    next heq =>
      rw [← heq, ← Option.some.inj h]
      exact List.mem_cons_self
    next => exact List.mem_cons_of_mem _ (ih h)

theorem mem_entries_iff {m : KeyMap α} {key : String} {value : α} :
    (key, value) ∈ m.entries ↔ m.get? key = some value :=
  ⟨lookup_eq_some_of_mem m.sorted, mem_of_lookup_eq_some⟩

theorem mem_values_iff {m : KeyMap α} {value : α} :
    value ∈ m.values ↔ ∃ key, m.get? key = some value := by
  simp [values, ← mem_entries_iff]

theorem mem_keys_iff {m : KeyMap α} {key : String} :
    key ∈ m.keys ↔ ∃ value, m.get? key = some value := by
  simp [keys, ← mem_entries_iff]

/-! ### Tables of lists -/

theorem ofList_toList (m : KeyMap α) : ofList m.toList = m := by
  refine ext_get? fun key => ?_
  rw [show ofList m.toList = empty.override m from rfl, get?_override, get?_empty, Option.or_none]

/-- A sorted list is the list of its table. -/
theorem toList_ofList_of_sorted {l : List (String × α)}
    (h : l.Pairwise (fun a b => a.1 < b.1)) : (ofList l).toList = l :=
  congrArg toList (ofList_toList ⟨l, h⟩)

private theorem insertEntry_perm (key : String) (value : α) {l : List (String × α)}
    (h : key ∉ l.map Prod.fst) : (insertEntry key value l).Perm ((key, value) :: l) := by
  induction l with
  | nil => exact .refl _
  | cons head tail ih =>
    obtain ⟨k, v⟩ := head
    rw [List.map_cons, List.mem_cons, not_or] at h
    rw [insertEntry]
    split
    · exact .refl _
    · rw [if_neg h.1]
      exact ((ih h.2).cons _).trans (.swap _ _ _)

private theorem foldl_insert_perm (m : KeyMap α) {l : List (String × α)}
    (h : (m.keys ++ l.map Prod.fst).Nodup) :
    (l.foldl (fun m e => m.insert e.1 e.2) m).toList.Perm (m.toList ++ l) := by
  induction l generalizing m with
  | nil => simp
  | cons head tail ih =>
    obtain ⟨key, value⟩ := head
    have hkey : key ∉ m.keys := fun hmem =>
      (List.nodup_append.mp h).2.2 key hmem key List.mem_cons_self rfl
    have hinsert : (m.insert key value).toList.Perm ((key, value) :: m.toList) :=
      insertEntry_perm key value hkey
    have hnodup : ((m.insert key value).keys ++ tail.map Prod.fst).Nodup := by
      refine (List.Perm.nodup_iff ?_).mp h
      exact List.perm_middle.trans (((hinsert.map Prod.fst).append_right _).symm)
    exact (ih _ hnodup).trans ((hinsert.append_right tail).trans List.perm_middle.symm)

theorem nodup_keys (m : KeyMap α) : m.keys.Nodup :=
  List.pairwise_map.mpr (m.sorted.imp fun hlt => String.ne_of_lt hlt)

/-- A list without repeated keys is reordered in its table. -/
theorem toList_ofList_perm {l : List (String × α)} (h : (l.map Prod.fst).Nodup) :
    (ofList l).toList.Perm l :=
  foldl_insert_perm empty h

/-- What stands in the table of a list stands in the list. -/
theorem mem_of_mem_ofList {l : List (String × α)} {entry : String × α}
    (h : entry ∈ (ofList l).entries) : entry ∈ l := by
  have hfold : ∀ m : KeyMap α, entry ∈ (l.foldl (fun m e => m.insert e.1 e.2) m).entries →
      entry ∈ m.entries ∨ entry ∈ l := by
    clear h
    induction l with
    | nil => exact fun m => .inl
    | cons head tail ih =>
      intro m hmem
      rcases ih _ hmem with hmem | hmem
      · rcases mem_insertEntry hmem with rfl | hmem
        · exact .inr List.mem_cons_self
        · exact .inl hmem
      · exact .inr (List.mem_cons_of_mem _ hmem)
  exact (hfold empty h).resolve_left List.not_mem_nil

end KeyMap

/-- A table without values: a set of texts, walked in the order of their code points. -/
abbrev KeySet := KeyMap Unit

namespace KeySet

def add (set : KeySet) (key : String) : KeySet := KeyMap.insert set key ()

end KeySet

end InteractionBinding
