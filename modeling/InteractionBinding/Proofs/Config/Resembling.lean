import InteractionBinding.Proofs.Config.Rereading
import Mathlib.Data.List.Forall2
/-!
# Documents that resemble each other

Two documents of one value can differ: in the order of the members of an object, in members that a
later one of the same name replaces, and in the kind of document that they are. Whether a
configuration is read from a document, and which one, depends on little of this: what a decoder
reads of a document, it reads of the documents that resemble it, and a decoder for the other kind of
document follows it. This is shown part by part.

## Main definitions

* `Decode.Overwrites` — a member that is read a second time replaces the first reading.
* `Decode.IsResemblance` — a relation between documents that decoders cannot tell apart.
* `Decode.Follows` — one decoder reads what another one reads.

## Main results

* `Decode.Visits.ofList` — members may be visited in the order of their names, the last one of
  each name only.
* `Decode.follows_config` — the decoder of configurations follows itself, also from one kind of
  document to the other.
-/

namespace InteractionBinding

namespace Decode

open Json

variable {σ α β : Type}

/-! ### Members that are read again -/

/-- A member that is read a second time, if it may be, counts as if it had not been read before. -/
def Overwrites (member : σ → String → Tree → Except Fault σ) : Prop :=
  ∀ state name tree next item after, member state name tree = .ok next →
    member next name item = .ok after → member state name item = .ok after

theorem overwrites_conditionMember (origin : Origin) : Overwrites (conditionMember origin) := by
  intro state name tree next item after h h'
  unfold conditionMember at *
  split at h <;> simp only [bind_eq_ok, pure_eq_ok, once_eq_ok] at h h' ⊢ <;> grind

theorem overwrites_effectMember : Overwrites effectMember := by
  intro state name tree next item after h h'
  unfold effectMember at *
  split at h <;> simp only [bind_eq_ok, pure_eq_ok, once_eq_ok] at h h' ⊢ <;>
    grind [KeyMap.insert_insert]

theorem overwrites_sequenceMember : Overwrites sequenceMember := by
  intro state name tree next item after h h'
  unfold sequenceMember at *
  split at h <;> simp only [bind_eq_ok, pure_eq_ok, once_eq_ok] at h h' ⊢ <;>
    grind [KeyMap.insert_insert]

theorem overwrites_referenceMember? : Overwrites referenceMember? := by
  intro state name tree next item after h h'
  unfold referenceMember? at *
  split at h <;> simp only [bind_eq_ok, pure_eq_ok, once_eq_ok, reduceCtorEq] at h h' ⊢ <;> grind

theorem overwrites_interactionMember : Overwrites interactionMember := by
  intro state name tree next item after h h'
  unfold interactionMember at *
  split at h <;> simp only [bind_eq_ok, pure_eq_ok, once_eq_ok] at h h' ⊢ <;> grind

theorem overwrites_configMember (origin : Origin) : Overwrites (configMember origin) := by
  intro state name tree next item after h h'
  unfold configMember at *
  split at h <;> simp only [bind_eq_ok, pure_eq_ok, once_eq_ok] at h h' ⊢ <;> grind

theorem independent_insert (decoder : Decoder α) :
    Independent fun (table : KeyMap α) name tree => table.insert name <$> decoder tree := by
  intro state name tree next other item after hne h h'
  simp only [map_eq_ok] at h h' ⊢
  grind [KeyMap.insert_comm]

theorem overwrites_insert (decoder : Decoder α) :
    Overwrites fun (table : KeyMap α) name tree => table.insert name <$> decoder tree := by
  intro state name tree next item after h h'
  simp only [map_eq_ok] at h h' ⊢
  grind [KeyMap.insert_insert]

/-- The kind of a condition may stand as the only name of an object. -/
theorem conditionKind_object {origin : Origin} {entries : List (Option String × Tree)}
    {closed : Bool} {kind : ConditionKind}
    (h : conditionKind origin (.object entries closed) = .ok kind) :
    ∃ name item, entries = [(some name, item)] ∧ conditionKindOfName name = .ok kind ∧
      unit item = .ok () := by
  match entries, origin with
  | [], .text => cases h
  | [], .value => cases h
  | (none, _) :: _, .text => cases h
  | (none, _) :: _, .value => cases h
  | (some name, item) :: rest, .text =>
    obtain ⟨read, hname, hread⟩ := bind_eq_ok.mp h
    obtain ⟨_, hitem, hend⟩ := bind_eq_ok.mp hread
    split at hend
    next hrest =>
      obtain rfl := pure_eq_ok.mp hend
      obtain ⟨hrest, -⟩ := Bool.and_eq_true_iff.mp hrest
      exact ⟨name, item, by rw [List.isEmpty_iff.mp hrest], hname, hitem⟩
    next => cases hend
  | [(some name, item)], .value =>
    obtain ⟨read, hname, hread⟩ := bind_eq_ok.mp h
    obtain ⟨_, hitem, hend⟩ := bind_eq_ok.mp hread
    obtain rfl := pure_eq_ok.mp hend
    exact ⟨name, item, rfl, hname, hitem⟩
  | (some _, _) :: _ :: _, .value => cases h

/-! ### Rearranged members -/

section Visits

variable {member : σ → String → Tree → Except Fault σ} {state next after : σ}
  {fields : List (String × Json)}

/-- A member of a name that has not been visited may be visited first. -/
theorem Visits.head (h : Visits member state fields next) (hindependent : Independent member)
    (hnodup : (fields.map Prod.fst).Nodup) {name : String} {value : Json}
    (hname : name ∉ fields.map Prod.fst)
    (hmember : member next name (Tree.ofJson value) = .ok after) :
    Visits member state ((name, value) :: fields) after := by
  have happend : Visits member state (fields ++ [(name, value)]) after :=
    h.append (visits_cons_iff.mpr ⟨after, hmember, visits_nil_iff.mpr rfl⟩)
  refine happend.perm hindependent (List.perm_append_singleton _ _) ?_
  exact ((List.perm_append_singleton _ _).map _).nodup_iff.mpr (List.nodup_cons.mpr ⟨hname, hnodup⟩)

/-- A further member takes its place among those that have been visited, over one of its name. -/
theorem Visits.insertEntry (hindependent : Independent member) (hoverwrites : Overwrites member)
    (hsorted : fields.Pairwise (fun a b => a.1 < b.1)) (h : Visits member state fields next)
    {name : String} {value : Json} (hmember : member next name (Tree.ofJson value) = .ok after) :
    Visits member state (KeyMap.insertEntry name value fields) after := by
  induction fields generalizing state with
  | nil => exact h.head hindependent List.nodup_nil List.not_mem_nil hmember
  | cons field rest ih =>
    obtain ⟨key, old⟩ := field
    have hnodup : (((key, old) :: rest).map Prod.fst).Nodup := KeyMap.nodup_keys ⟨_, hsorted⟩
    obtain ⟨hhead, hrest⟩ := List.pairwise_cons.mp hsorted
    rw [KeyMap.insertEntry]
    split
    next hlt =>
      refine h.head hindependent hnodup ?_ hmember
      rintro hmem
      obtain ⟨entry, hentry, rfl⟩ := List.mem_map.mp hmem
      rcases List.mem_cons.mp hentry with rfl | hentry
      · exact String.lt_irrefl _ hlt
      · exact String.lt_irrefl _ (String.lt_trans hlt (hhead _ hentry))
    next =>
      obtain ⟨step, hstep, hvisits⟩ := visits_cons_iff.mp h
      obtain ⟨hkey, hothers⟩ := List.nodup_cons.mp hnodup
      split
      next heq =>
        subst heq
        obtain ⟨again, hagain, hrest⟩ :=
          visits_cons_iff.mp (hvisits.head hindependent hothers hkey hmember)
        exact visits_cons_iff.mpr ⟨again, hoverwrites _ _ _ _ _ _ hstep hagain, hrest⟩
      next => exact visits_cons_iff.mpr ⟨step, hstep, ih hrest hvisits⟩

/-- Members that have been visited in any order may be visited in the order of their names, the
last one of each name only. -/
theorem Visits.ofList (hindependent : Independent member) (hoverwrites : Overwrites member)
    (h : Visits member state fields after) :
    Visits member state (KeyMap.ofList fields).toList after := by
  have hfold : ∀ (fields : List (String × Json)) (table : KeyMap Json) (next : σ),
      Visits member state table.toList next → Visits member next fields after →
        Visits member state (fields.foldl (fun m e => m.insert e.1 e.2) table).toList after := by
    intro fields
    induction fields with
    | nil => exact fun table next htable hfields => visits_nil_iff.mp hfields ▸ htable
    | cons field rest ih =>
      intro table next htable hfields
      obtain ⟨step, hstep, hrest⟩ := visits_cons_iff.mp hfields
      exact ih _ step (htable.insertEntry hindependent hoverwrites table.sorted hstep) hrest
  exact hfold fields .empty state (visits_nil_iff.mpr rfl) h

end Visits

/-! ### Resemblance -/

/-- What the decoder reads of a tree, its follower reads of every tree that resembles it. -/
def Follows (R : Tree → Tree → Prop) (decoder follower : Decoder α) : Prop :=
  ∀ tree copy value, R tree copy → decoder tree = .ok value → follower copy = .ok value

/-- A relation between sound documents of one value: arrays resemble each other item by item, and
objects in so far as their members can be visited. -/
structure IsResemblance (R : Tree → Tree → Prop) : Prop where
  value : ∀ tree copy, R tree copy → ∃ value, tree.toJson? = some value ∧ copy.toJson? = some value
  array : ∀ items closed copy, R (.array items closed) copy →
    ∃ copies, copy = .array copies true ∧ List.Forall₂ R items copies
  single : ∀ name item closed copy, R (.object [(some name, item)] closed) copy →
    ∃ other, copy = .object [(some name, other)] true ∧ R item other
  object : ∀ entries closed copy, R (.object entries closed) copy →
    ∃ copies, copy = .object copies true ∧
      ∀ {σ : Type} {member follower : σ → String → Tree → Except Fault σ}, Independent member →
        Independent follower → Overwrites follower →
          (∀ state name, Follows R (member state name) (follower state name)) →
            ∀ state after, visit member closed state entries = .ok after →
              visit follower true state copies = .ok after

/-- Entry by entry, the names are the same and the values resemble each other. -/
def Entrywise (R : Tree → Tree → Prop) (entries copies : List (Option String × Tree)) : Prop :=
  List.Forall₂ (fun entry copy => copy.1 = entry.1 ∧ R entry.2 copy.2) entries copies

theorem Entrywise.visit {R : Tree → Tree → Prop}
    {member follower : σ → String → Tree → Except Fault σ}
    (hmember : ∀ state name, Follows R (member state name) (follower state name))
    {entries copies : List (Option String × Tree)} (hentries : Entrywise R entries copies)
    {closed : Bool} {state after : σ} (h : visit member closed state entries = .ok after) :
    visit follower true state copies = .ok after := by
  induction hentries generalizing state with
  | nil =>
    obtain ⟨_, _, heq⟩ := bind_eq_ok.mp h
    exact heq
  | @cons entry copy _ _ hentry _ ih =>
    obtain ⟨name, item⟩ := entry
    obtain ⟨_, other⟩ := copy
    obtain ⟨hname, hitem⟩ := hentry
    cases name with
    | none => cases h
    | some name =>
      obtain rfl : _ = some name := hname
      obtain ⟨next, hnext, hrest⟩ := bind_eq_ok.mp h
      exact bind_eq_ok.mpr ⟨next, hmember state name item other next hitem hnext, ih hrest⟩

section Follows

variable {R : Tree → Tree → Prop} {decoder follower : Decoder α}

theorem Follows.map (h : Follows R decoder follower) (f : α → β) :
    Follows R (fun tree => f <$> decoder tree) (fun tree => f <$> follower tree) := by
  intro tree copy value hR hread
  obtain ⟨read, hdecoder, rfl⟩ := map_eq_ok.mp hread
  exact map_eq_ok.mpr ⟨read, h tree copy read hR hdecoder, rfl⟩

theorem Follows.once (h : Follows R decoder follower) (name : String) (field : Option α) :
    Follows R (once name field decoder) (once name field follower) := by
  intro tree copy value hR hread
  obtain ⟨rfl, read, hdecoder, rfl⟩ := once_eq_ok.mp hread
  exact once_eq_ok.mpr ⟨rfl, read, h tree copy read hR hdecoder, rfl⟩

/-- A field of a record is followed if what its member is read as is. -/
theorem Follows.field (h : Follows R decoder follower) (name : String) (field : Option α)
    (set : Option α → σ) :
    Follows R (fun tree => do return set (← Decode.once name field decoder tree))
      (fun tree => do return set (← Decode.once name field follower tree)) := by
  exact (h.once name field).map set

theorem Follows.items (h : Follows R decoder follower) {items copies : List Tree}
    (hitems : List.Forall₂ R items copies) {closed : Bool} {values : List α}
    (hread : Decode.items decoder closed items = .ok values) :
    Decode.items follower true copies = .ok values := by
  induction hitems generalizing values with
  | nil =>
    obtain ⟨_, _, heq⟩ := bind_eq_ok.mp hread
    exact heq
  | cons hitem _ ih =>
    obtain ⟨value, hvalue, hread⟩ := bind_eq_ok.mp hread
    obtain ⟨rest, hrest, heq⟩ := bind_eq_ok.mp hread
    exact bind_eq_ok.mpr ⟨value, h _ _ _ hitem hvalue, bind_eq_ok.mpr ⟨rest, ih hrest, heq⟩⟩

theorem Follows.positional (h : Follows R decoder follower) {items copies rest : List Tree}
    (hitems : List.Forall₂ R items copies) {closed : Bool} {field : Option α}
    (hread : positional decoder closed items = .ok (field, rest)) :
    ∃ others, positional follower true copies = .ok (field, others) ∧
      List.Forall₂ R rest others := by
  cases hitems with
  | nil =>
    obtain ⟨_, _, heq⟩ := bind_eq_ok.mp hread
    cases heq
    exact ⟨[], rfl, .nil⟩
  | cons hitem hrest =>
    obtain ⟨value, hvalue, heq⟩ := bind_eq_ok.mp hread
    cases heq
    exact ⟨_, bind_eq_ok.mpr ⟨value, h _ _ _ hitem hvalue, rfl⟩, hrest⟩

theorem noMore_of_forall₂ {origin other : Origin} {length : Nat} {closed : Bool}
    {rest others : List Tree} (hrest : List.Forall₂ R rest others)
    (h : noMore origin length closed rest = .ok ()) (length' : Nat) :
    noMore other length' true others = .ok () := by
  cases hrest with
  | nil => rfl
  | cons => cases origin <;> cases h

end Follows


section Resemblance

variable {R : Tree → Tree → Prop} (hR : IsResemblance R)
include hR

theorem IsResemblance.string {text : String} {copy : Tree} (h : R (.string text) copy) :
    copy = .string text := by
  obtain ⟨value, hvalue, hcopy⟩ := hR.value _ _ h
  obtain rfl : Json.string text = value := Option.some.inj hvalue
  cases copy with
  | string => 
    cases hcopy
    rfl
  | array => simp [Tree.toJson?] at hcopy
  | object => simp [Tree.toJson?, Json.object] at hcopy
  | _ => cases hcopy

theorem IsResemblance.null {copy : Tree} (h : R .null copy) : copy = .null := by
  obtain ⟨value, hvalue, hcopy⟩ := hR.value _ _ h
  obtain rfl : Json.null = value := Option.some.inj hvalue
  cases copy with
  | null => rfl
  | array => simp [Tree.toJson?] at hcopy
  | object => simp [Tree.toJson?, Json.object] at hcopy
  | _ => cases hcopy

theorem follows_string : Follows R string string := by
  intro tree copy value h hread
  cases tree with
  | string text =>
    rw [hR.string h]
    exact hread
  | _ => cases hread

theorem follows_optionalString : Follows R optionalString optionalString := by
  intro tree copy value h hread
  cases tree with
  | null =>
    rw [hR.null h]
    exact hread
  | string text =>
    rw [hR.string h]
    exact hread
  | _ => cases hread

theorem follows_unit : Follows R unit unit := by
  intro tree copy value h hread
  cases tree with
  | null =>
    rw [hR.null h]
    exact hread
  | _ => cases hread

theorem follows_skipped : Follows R skipped skipped := by
  intro tree copy _ h _
  obtain ⟨value, _, hcopy⟩ := hR.value _ _ h
  exact if_pos (isSound_of_toJson? hcopy)

theorem follows_anyValue : Follows R anyValue anyValue := by
  intro tree copy read h hread
  obtain ⟨value, hvalue, hcopy⟩ := hR.value _ _ h
  obtain rfl : value = read := Option.some.inj (hvalue.symm.trans (anyValue_eq_ok.mp hread))
  exact anyValue_eq_ok.mpr hcopy

theorem Follows.list {decoder follower : Decoder α} (h : Follows R decoder follower) :
    Follows R (Decode.list decoder) (Decode.list follower) := by
  intro tree copy values hcopy hread
  cases tree with
  | array items closed =>
    obtain ⟨copies, rfl, hitems⟩ := hR.array _ _ _ hcopy
    exact h.items hitems hread
  | _ => cases hread

theorem Follows.table {decoder follower : Decoder α} (h : Follows R decoder follower) :
    Follows R (Decode.table decoder) (Decode.table follower) := by
  intro tree copy table hcopy hread
  cases tree with
  | object entries closed =>
    obtain ⟨copies, rfl, hvisit⟩ := hR.object _ _ _ hcopy
    exact hvisit (independent_insert decoder) (independent_insert follower)
      (overwrites_insert follower) (fun state name => h.map _) _ _ hread
  | _ => cases hread

theorem follows_strings : Follows R strings strings := (follows_string hR).list hR

/-! ### Conditions -/

theorem follows_conditionKind (origin other : Origin) :
    Follows R (conditionKind origin) (conditionKind other) := by
  intro tree copy kind h hread
  cases tree with
  | string name =>
    rw [hR.string h]
    cases origin <;> cases other <;> exact hread
  | object entries closed =>
    obtain ⟨name, item, rfl, hname, hitem⟩ := conditionKind_object hread
    obtain ⟨copied, rfl, hcopied⟩ := hR.single _ _ _ _ h
    have hunit := follows_unit hR _ _ _ hcopied hitem
    cases other <;> simp [conditionKind, hname, hunit, bind, Except.bind, pure, Except.pure]
  | _ => cases origin <;> cases hread

theorem follows_conditionMember (origin other : Origin) (fields : ConditionFields) (name : String) :
    Follows R (conditionMember origin fields name) (conditionMember other fields name) := by
  unfold conditionMember
  split
  · exact (follows_conditionKind hR origin other).field _ _ fun kind => { fields with kind }
  · exact (follows_string hR).field _ _ fun predicate => { fields with predicate }
  · exact (follows_skipped hR).map fun _ => fields

theorem follows_condition (origin other : Origin) :
    Follows R (condition origin) (condition other) := by
  intro tree copy read h hread
  cases tree with
  | object entries closed =>
    obtain ⟨fields, hfields, hread⟩ := bind_eq_ok.mp hread
    obtain ⟨copies, rfl, hvisit⟩ := hR.object _ _ _ h
    exact bind_eq_ok.mpr ⟨fields, hvisit (independent_conditionMember _)
      (independent_conditionMember _) (overwrites_conditionMember _)
      (follows_conditionMember hR origin other) _ _ hfields, hread⟩
  | array items closed =>
    obtain ⟨copies, rfl, hitems⟩ := hR.array _ _ _ h
    obtain ⟨⟨kind, rest⟩, hkind, hread⟩ := bind_eq_ok.mp hread
    obtain ⟨kind', hkind', hread⟩ := bind_eq_ok.mp hread
    obtain ⟨⟨predicate, rest⟩, hpredicate, hread⟩ := bind_eq_ok.mp hread
    obtain ⟨predicate', hpredicate', hread⟩ := bind_eq_ok.mp hread
    obtain ⟨_, hend, hread⟩ := bind_eq_ok.mp hread
    obtain ⟨_, hkind, hrest⟩ := (follows_conditionKind hR origin other).positional hitems hkind
    obtain ⟨_, hpredicate, hrest⟩ := (follows_string hR).positional hrest hpredicate
    exact bind_eq_ok.mpr ⟨_, hkind, bind_eq_ok.mpr ⟨_, hkind', bind_eq_ok.mpr ⟨_, hpredicate,
      bind_eq_ok.mpr ⟨_, hpredicate', bind_eq_ok.mpr ⟨_, noMore_of_forall₂ hrest hend _, hread⟩⟩⟩⟩⟩
  | _ => cases hread

/-! ### Effects and sequences -/

theorem follows_effectMember (fields : EffectFields) (name : String) :
    Follows R (effectMember fields name) (effectMember fields name) := by
  unfold effectMember
  split
  · exact (follows_optionalString hR).field _ _ fun effectId => { fields with effectId }
  · exact (follows_optionalString hR).field _ _ fun key => { fields with key }
  · exact (follows_optionalString hR).field _ _ fun listContainer => { fields with listContainer }
  · exact (follows_optionalString hR).field _ _ fun listItemSelector =>
      { fields with listItemSelector }
  · exact (follows_optionalString hR).field _ _ fun selector => { fields with selector }
  · exact (follows_strings hR).field _ _ fun conditions => { fields with conditions }
  · exact (follows_anyValue hR).map fun value =>
      { fields with payload := fields.payload.insert name value }

theorem follows_effect : Follows R effect effect := by
  intro tree copy read h hread
  cases tree with
  | object entries closed =>
    obtain ⟨fields, hfields, hread⟩ := bind_eq_ok.mp hread
    obtain ⟨copies, rfl, hvisit⟩ := hR.object _ _ _ h
    exact bind_eq_ok.mpr ⟨fields, hvisit independent_effectMember independent_effectMember
      overwrites_effectMember (follows_effectMember hR) _ _ hfields, hread⟩
  | _ => cases hread

theorem follows_sequenceMember (fields : SequenceFields) (name : String) :
    Follows R (sequenceMember fields name) (sequenceMember fields name) := by
  unfold sequenceMember
  split
  · exact (follows_optionalString hR).field _ _ fun sequenceId => { fields with sequenceId }
  · exact (follows_strings hR).field _ _ fun conditions => { fields with conditions }
  · exact ((follows_effect hR).list hR).field _ _ fun effects => { fields with effects }
  · exact (follows_anyValue hR).map fun value =>
      { fields with payload := fields.payload.insert name value }

theorem follows_sequenceDef : Follows R sequenceDef sequenceDef := by
  intro tree copy read h hread
  cases tree with
  | object entries closed =>
    obtain ⟨fields, hfields, hread⟩ := bind_eq_ok.mp hread
    obtain ⟨copies, rfl, hvisit⟩ := hR.object _ _ _ h
    exact bind_eq_ok.mpr ⟨fields, hvisit independent_sequenceMember independent_sequenceMember
      overwrites_sequenceMember (follows_sequenceMember hR) _ _ hfields, hread⟩
  | _ => cases hread

theorem follows_referenceMember? (fields : ReferenceFields) (name : String) :
    Follows R (referenceMember? fields name) (referenceMember? fields name) := by
  unfold referenceMember?
  split
  · exact (follows_string hR).field _ _ fun sequenceId => { fields with sequenceId }
  · exact (follows_strings hR).field _ _ fun conditions => { fields with conditions }
  · exact fun _ _ _ _ hread => by cases hread

theorem follows_sequenceRef : Follows R sequenceRef sequenceRef := by
  intro tree copy read h hread
  cases tree with
  | object entries closed =>
    obtain ⟨fields, hfields, hread⟩ := bind_eq_ok.mp hread
    obtain ⟨copies, rfl, hvisit⟩ := hR.object _ _ _ h
    exact bind_eq_ok.mpr ⟨fields, hvisit independent_referenceMember? independent_referenceMember?
      overwrites_referenceMember? (follows_referenceMember? hR) _ _ hfields, hread⟩
  | array items closed =>
    obtain ⟨copies, rfl, hitems⟩ := hR.array _ _ _ h
    rcases hitems with _ | ⟨hid, _ | ⟨hconditions, _ | ⟨_, _⟩⟩⟩
    · cases hread
    · obtain ⟨sequenceId, hsequenceId, hread⟩ := bind_eq_ok.mp hread
      exact bind_eq_ok.mpr ⟨sequenceId, follows_string hR _ _ _ hid hsequenceId, hread⟩
    · obtain ⟨sequenceId, hsequenceId, hread⟩ := bind_eq_ok.mp hread
      obtain ⟨conditions, hread', hread⟩ := bind_eq_ok.mp hread
      exact bind_eq_ok.mpr ⟨sequenceId, follows_string hR _ _ _ hid hsequenceId,
        bind_eq_ok.mpr ⟨conditions, follows_strings hR _ _ _ hconditions hread', hread⟩⟩
    · cases hread
  | _ => cases hread

theorem follows_sequenceEntry : Follows R sequenceEntry sequenceEntry := by
  intro tree copy entry h hread
  obtain ⟨value, hvalue, hcopy⟩ := hR.value _ _ h
  rw [sequenceEntry, hvalue] at hread
  rw [sequenceEntry, hcopy]
  cases href : sequenceRef tree with
  | ok reference => 
    rw [href] at hread
    rw [follows_sequenceRef hR _ _ _ h href]
    exact hread
  | error fault =>
    rw [href] at hread
    cases hdef : sequenceDef tree with
    | error => simp [hdef] at hread
    | ok sequence =>
      have hcopydef := follows_sequenceDef hR _ _ _ h hdef
      cases hcopyref : sequenceRef copy with
      | ok reference => exact absurd hcopyref (sequenceRef_of_sequenceDef hcopydef reference)
      | error =>
        simpa [hdef, hcopydef] using hread

/-! ### Interactions and configurations -/

theorem follows_triggerKind : Follows R triggerKind triggerKind := (follows_string hR).map _

theorem follows_params : Follows R (table anyValue) (table anyValue) :=
  (follows_anyValue hR).table hR

theorem follows_interactionMember (fields : InteractionFields) (name : String) :
    Follows R (interactionMember fields name) (interactionMember fields name) := by
  unfold interactionMember
  split
  · exact (follows_optionalString hR).field _ _ fun key => { fields with key }
  · exact (follows_triggerKind hR).field _ _ fun trigger => { fields with trigger }
  · exact (follows_params hR).field _ _ fun params => { fields with params }
  · exact (follows_strings hR).field _ _ fun conditions => { fields with conditions }
  · exact (follows_optionalString hR).field _ _ fun selector => { fields with selector }
  · exact (follows_optionalString hR).field _ _ fun listContainer => { fields with listContainer }
  · exact (follows_optionalString hR).field _ _ fun listItemSelector =>
      { fields with listItemSelector }
  · exact ((follows_effect hR).list hR).field _ _ fun effects => { fields with effects }
  · exact ((follows_sequenceEntry hR).list hR).field _ _ fun sequences => { fields with sequences }
  · exact (follows_skipped hR).map fun _ => fields

theorem follows_interaction (origin other : Origin) :
    Follows R (interaction origin) (interaction other) := by
  intro tree copy read h hread
  cases tree with
  | object entries closed =>
    obtain ⟨fields, hfields, hread⟩ := bind_eq_ok.mp hread
    obtain ⟨copies, rfl, hvisit⟩ := hR.object _ _ _ h
    exact bind_eq_ok.mpr ⟨fields, hvisit independent_interactionMember
      independent_interactionMember overwrites_interactionMember (follows_interactionMember hR)
      _ _ hfields, hread⟩
  | array items closed =>
    obtain ⟨copies, rfl, hitems⟩ := hR.array _ _ _ h
    obtain ⟨⟨key, rest⟩, hkey, hread⟩ := bind_eq_ok.mp hread
    obtain ⟨_, hkey, hrest⟩ := (follows_optionalString hR).positional hitems hkey
    obtain ⟨⟨trigger, rest⟩, htrigger, hread⟩ := bind_eq_ok.mp hread
    obtain ⟨_, htrigger, hrest⟩ := (follows_triggerKind hR).positional hrest htrigger
    obtain ⟨kind, hkind, hread⟩ := bind_eq_ok.mp hread
    obtain ⟨⟨params, rest⟩, hparams, hread⟩ := bind_eq_ok.mp hread
    obtain ⟨_, hparams, hrest⟩ := (follows_params hR).positional hrest hparams
    obtain ⟨⟨conditions, rest⟩, hconditions, hread⟩ := bind_eq_ok.mp hread
    obtain ⟨_, hconditions, hrest⟩ := (follows_strings hR).positional hrest hconditions
    obtain ⟨⟨selector, rest⟩, hselector, hread⟩ := bind_eq_ok.mp hread
    obtain ⟨_, hselector, hrest⟩ := (follows_optionalString hR).positional hrest hselector
    obtain ⟨⟨container, rest⟩, hcontainer, hread⟩ := bind_eq_ok.mp hread
    obtain ⟨_, hcontainer, hrest⟩ := (follows_optionalString hR).positional hrest hcontainer
    obtain ⟨⟨item, rest⟩, hitem, hread⟩ := bind_eq_ok.mp hread
    obtain ⟨_, hitem, hrest⟩ := (follows_optionalString hR).positional hrest hitem
    obtain ⟨⟨effects, rest⟩, heffects, hread⟩ := bind_eq_ok.mp hread
    obtain ⟨_, heffects, hrest⟩ := ((follows_effect hR).list hR).positional hrest heffects
    obtain ⟨⟨sequences, rest⟩, hsequences, hread⟩ := bind_eq_ok.mp hread
    obtain ⟨_, hsequences, hrest⟩ :=
      ((follows_sequenceEntry hR).list hR).positional hrest hsequences
    obtain ⟨_, hend, hread⟩ := bind_eq_ok.mp hread
    refine bind_eq_ok.mpr ⟨_, hkey, bind_eq_ok.mpr ⟨_, htrigger, bind_eq_ok.mpr ⟨_, hkind, ?_⟩⟩⟩
    refine bind_eq_ok.mpr ⟨_, hparams, bind_eq_ok.mpr ⟨_, hconditions, ?_⟩⟩
    refine bind_eq_ok.mpr ⟨_, hselector, bind_eq_ok.mpr ⟨_, hcontainer, ?_⟩⟩
    refine bind_eq_ok.mpr ⟨_, hitem, bind_eq_ok.mpr ⟨_, heffects, ?_⟩⟩
    exact bind_eq_ok.mpr ⟨_, hsequences, bind_eq_ok.mpr ⟨_, noMore_of_forall₂ hrest hend _, hread⟩⟩
  | _ => cases hread

theorem follows_configMember (origin other : Origin) (fields : ConfigFields) (name : String) :
    Follows R (configMember origin fields name) (configMember other fields name) := by
  unfold configMember
  split
  · exact ((follows_interaction hR origin other).list hR).field _ _ fun interactions =>
      { fields with interactions }
  · exact ((follows_effect hR).table hR).field _ _ fun effects => { fields with effects }
  · exact ((follows_condition hR origin other).table hR).field _ _ fun conditions =>
      { fields with conditions }
  · exact ((follows_sequenceDef hR).table hR).field _ _ fun sequences => { fields with sequences }
  · exact (follows_skipped hR).map fun _ => fields

/-- A configuration that is read from a document is read from every document that resembles it,
whether they come as texts or as values. -/
theorem follows_config (origin other : Origin) : Follows R (config origin) (config other) := by
  intro tree copy read h hread
  cases tree with
  | object entries closed =>
    obtain ⟨fields, hfields, hread⟩ := bind_eq_ok.mp hread
    obtain ⟨copies, rfl, hvisit⟩ := hR.object _ _ _ h
    exact bind_eq_ok.mpr ⟨fields, hvisit (independent_configMember _) (independent_configMember _)
      (overwrites_configMember _) (follows_configMember hR origin other) _ _ hfields, hread⟩
  | array items closed =>
    obtain ⟨copies, rfl, hitems⟩ := hR.array _ _ _ h
    obtain ⟨⟨interactions, rest⟩, hinteractions, hread⟩ := bind_eq_ok.mp hread
    obtain ⟨_, hinteractions, hrest⟩ :=
      ((follows_interaction hR origin other).list hR).positional hitems hinteractions
    obtain ⟨⟨effects, rest⟩, heffects, hread⟩ := bind_eq_ok.mp hread
    obtain ⟨_, heffects, hrest⟩ := ((follows_effect hR).table hR).positional hrest heffects
    obtain ⟨⟨conditions, rest⟩, hconditions, hread⟩ := bind_eq_ok.mp hread
    obtain ⟨_, hconditions, hrest⟩ :=
      ((follows_condition hR origin other).table hR).positional hrest hconditions
    obtain ⟨⟨sequences, rest⟩, hsequences, hread⟩ := bind_eq_ok.mp hread
    obtain ⟨_, hsequences, hrest⟩ :=
      ((follows_sequenceDef hR).table hR).positional hrest hsequences
    obtain ⟨_, hend, hread⟩ := bind_eq_ok.mp hread
    refine bind_eq_ok.mpr ⟨_, hinteractions, bind_eq_ok.mpr ⟨_, heffects, ?_⟩⟩
    refine bind_eq_ok.mpr ⟨_, hconditions, bind_eq_ok.mpr ⟨_, hsequences, ?_⟩⟩
    exact bind_eq_ok.mpr ⟨_, noMore_of_forall₂ hrest hend _, hread⟩
  | _ => cases hread

end Resemblance

end Decode
end InteractionBinding
