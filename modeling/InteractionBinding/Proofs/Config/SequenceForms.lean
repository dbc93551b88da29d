import InteractionBinding.Proofs.Config.Rereading
import Mathlib.Data.List.Forall2
/-!
# The two forms of a sequence of an interaction

A sequence of an interaction is a reference to a stored sequence or a sequence of its own, and
nothing in the document names the form. A reference has no members beside its two fields, while a
sequence takes all other members into its payload, so that both forms have to be told apart by
their fields. Here the values of each form are described by their members, without a decoder: which
member fills which field, what a field is without a member, and what the payload is made of.

The decoders fill the fields member by member, and refuse a second member of a field. So the
induction over the members carries how far every field has been filled before (`Decode.Fills`).

## Main definitions

* `Json.Gives`, `Json.GivesOr` — what the members of a name give in an object.
* `Effect.StandsIn`, `SequenceDef.StandsIn`, `SequenceRef.StandsIn` — the members of an object are
  the fields and the payload of a record.
* `Json.IsReference`, `Json.IsSequence` — the values of the two forms.
* `Decode.firstOf` — two decoders tried one after the other.

## Main results

* `Decode.reads_effect`, `Decode.reads_sequenceRef`, `Decode.reads_sequenceDef` — a decoder reads
  exactly the values of its form, as what stands in them.
* `Decode.not_isSequence_of_isReference` — no value has both forms.
* `Decode.sequenceEntry_reads_one_form` — an entry is read as the form that its value has, in
  whatever order the forms are tried.
-/

namespace InteractionBinding

namespace Json

variable {α : Type}

/-- The value is a text. -/
def IsText (value : Json) (text : String) : Prop := value = .string text

/-- The value is a text, or null for none. -/
def IsOptionalText (value : Json) (text : Option String) : Prop :=
  value = ofOption (text.map .string)

/-- The value is an array, and each of its items is related to what it is read as. -/
def IsListOf (means : Json → α → Prop) (value : Json) (read : List α) : Prop :=
  ∃ items, value = .array items ∧ List.Forall₂ means items read

/-- What the members of a name give: nothing if there are none, and what the value of the only one
means. -/
def Gives (means : Json → α → Prop) (fields : List (String × Json)) (name : String)
    (given : Option α) : Prop :=
  List.Forall₂ (fun field => means field.2) (fields.filter fun field => field.1 = name) given.toList

/-- What the members of a name give, or else the default. -/
def GivesOr (default : α) (means : Json → α → Prop) (fields : List (String × Json)) (name : String)
    (read : α) : Prop :=
  ∃ given, Gives means fields name given ∧ given.getD default = read

/-- A value as it is kept: the members of its objects stand in the order of their names, and of
several members of one name the last one is there. -/
def kept (value : Json) : Json := ((Tree.ofJson value).toJson?).getD .null

/-- The members of an object that have none of the given names, as they are kept. -/
def others (names : List String) (fields : List (String × Json)) : List (String × Json) :=
  (fields.filter fun field => field.1 ∉ names).map fun (name, value) => (name, value.kept)

theorem toJson?_ofJson_eq_kept (value : Json) : (Tree.ofJson value).toJson? = some value.kept := by
  obtain ⟨result, hresult⟩ := exists_toJson?_ofJson value
  rw [kept, hresult, Option.getD_some]

theorem others_cons_of_mem {names : List String} {name : String} (hname : name ∈ names)
    (value : Json) (rest : List (String × Json)) :
    others names ((name, value) :: rest) = others names rest := by
  simp [others, hname]

theorem others_cons_of_notMem {names : List String} {name : String} (hname : name ∉ names)
    (value : Json) (rest : List (String × Json)) :
    others names ((name, value) :: rest) = (name, value.kept) :: others names rest := by
  simp [others, hname]

end Json

open Json

/-- The members of an object are the fields and the payload of the effect. -/
structure Effect.StandsIn (fields : List (String × Json)) (effect : Effect) : Prop where
  effectId : GivesOr none IsOptionalText fields "effectId" effect.effectId
  key : GivesOr none IsOptionalText fields "key" effect.key
  listContainer : GivesOr none IsOptionalText fields "listContainer" effect.listContainer
  listItemSelector : GivesOr none IsOptionalText fields "listItemSelector" effect.listItemSelector
  selector : GivesOr none IsOptionalText fields "selector" effect.selector
  conditions : GivesOr [] (IsListOf IsText) fields "conditions" effect.conditions
  payload : KeyMap.ofList (others Effect.memberNames fields) = effect.payload

/-- The value is an object in which the effect stands. -/
def Json.IsEffect (value : Json) (effect : Effect) : Prop :=
  ∃ fields, value = .members fields ∧ effect.StandsIn fields

/-- The members of an object are the fields and the payload of the sequence. Its effects have to be
given. -/
structure SequenceDef.StandsIn (fields : List (String × Json)) (sequence : SequenceDef) : Prop where
  sequenceId : GivesOr none IsOptionalText fields "sequenceId" sequence.sequenceId
  conditions : GivesOr [] (IsListOf IsText) fields "conditions" sequence.conditions
  effects : Gives (IsListOf IsEffect) fields "effects" (some sequence.effects)
  payload : KeyMap.ofList (others SequenceDef.memberNames fields) = sequence.payload

/-- The value is an object in which the sequence stands. -/
def Json.IsSequence (value : Json) (sequence : SequenceDef) : Prop :=
  ∃ fields, value = .members fields ∧ sequence.StandsIn fields

/-- The members of an object are the fields of the reference, and there are no others. Its name has
to be given. -/
structure SequenceRef.StandsIn (fields : List (String × Json)) (reference : SequenceRef) :
    Prop where
  sequenceId : Gives IsText fields "sequenceId" (some reference.sequenceId)
  conditions : GivesOr [] (IsListOf IsText) fields "conditions" reference.conditions
  names : ∀ field ∈ fields, field.1 = "sequenceId" ∨ field.1 = "conditions"

/-- The value is a reference: an object in which it stands, or the array of its name and, if they
are given, its conditions. -/
inductive Json.IsReference : Json → SequenceRef → Prop
  | object {fields : List (String × Json)} {reference : SequenceRef}
      (h : reference.StandsIn fields) : IsReference (.members fields) reference
  | name {value : Json} {sequenceId : String} (h : IsText value sequenceId) :
      IsReference (.array [value]) ⟨sequenceId, []⟩
  | both {value list : Json} {sequenceId : String} {conditions : List String}
      (h : IsText value sequenceId) (hlist : IsListOf IsText list conditions) :
      IsReference (.array [value, list]) ⟨sequenceId, conditions⟩

namespace Decode

variable {α σ : Type} {means : Json → α → Prop} {decoder : Decoder α}

/-- The decoder reads a value as something if and only if the value means it. -/
def Reads (decoder : Decoder α) (means : Json → α → Prop) : Prop :=
  ∀ value read, decoder (.ofJson value) = .ok read ↔ means value read

/-! ### Texts and lists -/

theorem reads_string : Reads string IsText := by
  intro value read
  cases value <;> simp [string, Tree.ofJson, IsText, mismatch]

theorem reads_optionalString : Reads optionalString IsOptionalText := by
  intro value read
  cases value <;> cases read <;>
    simp [optionalString, string, Tree.ofJson, IsOptionalText, mismatch, ofOption]

theorem Reads.items (h : Reads decoder means) (values : List Json) (read : List α) :
    items decoder true (Tree.itemsOfJson values) = .ok read ↔ List.Forall₂ means values read := by
  induction values generalizing read with
  | nil =>
    rw [List.forall₂_nil_left_iff, Tree.itemsOfJson, Decode.items]
    exact pure_eq_ok.trans eq_comm
  | cons value rest ih =>
    simp only [Tree.itemsOfJson, Decode.items, bind_eq_ok, pure_eq_ok, h value, ih,
      List.forall₂_cons_left_iff]
    grind

theorem Reads.list (h : Reads decoder means) : Reads (list decoder) (IsListOf means) := by
  intro value read
  cases value with
  | array values => simpa [IsListOf, Tree.ofJson, Decode.list] using h.items values read
  | _ => simp [Decode.list, Tree.ofJson, IsListOf]

theorem reads_strings : Reads strings (IsListOf IsText) := reads_string.list

/-! ### Fields -/

/-- The members of a name fill a field, which may have been filled before. -/
def Fills (means : Json → α → Prop) (fields : List (String × Json)) (name : String)
    (before after : Option α) : Prop :=
  ∃ given, List.Forall₂ (fun field => means field.2) (fields.filter fun field => field.1 = name)
    given ∧ before.toList ++ given = after.toList

section Fills

variable {fields : List (String × Json)} {name : String} {before after : Option α}

theorem fills_none_iff : Fills means fields name none after ↔ Gives means fields name after := by
  simp [Fills, Gives]

theorem fills_nil_iff : Fills means [] name before after ↔ before = after := by
  cases before <;> cases after <;> simp [Fills]

/-- A member of the name takes the field while it is open. -/
theorem fills_cons_iff {other : String} {value : Json} :
    Fills means ((other, value) :: fields) name before after ↔
      if other = name then
        before = none ∧ ∃ read, means value read ∧ Fills means fields name (some read) after
      else Fills means fields name before after := by
  split
  next heq =>
    subst heq
    cases before <;> cases after <;> simp [Fills, List.forall₂_cons_left_iff]
  next hne => simp [Fills, hne]

/-- A member that is read into a field: the field is still open, and is filled. -/
theorem exists_once_iff (h : Reads decoder means) {set : Option α → σ} {field : Option α}
    {value : Json} {P : σ → Prop} :
    (∃ next, (once name field decoder (.ofJson value) >>= fun given => pure (set given)) =
        .ok next ∧ P next) ↔
      field = none ∧ ∃ read, means value read ∧ P (set (some read)) := by
  simp only [bind_eq_ok, pure_eq_ok, once_eq_ok, h value]
  grind

end Fills

/-! ### Records -/

variable {fields : List (String × Json)}

theorem visits_referenceMember?_iff {state after : ReferenceFields} :
    Visits referenceMember? state fields after ↔
      Fills IsText fields "sequenceId" state.sequenceId after.sequenceId ∧
      Fills (IsListOf IsText) fields "conditions" state.conditions after.conditions ∧
      ∀ field ∈ fields, field.1 = "sequenceId" ∨ field.1 = "conditions" := by
  induction fields generalizing state with
  | nil =>
    rw [visits_nil_iff, fills_nil_iff, fills_nil_iff]
    cases state
    cases after
    simp
  | cons field rest ih =>
    obtain ⟨name, value⟩ := field
    rw [visits_cons_iff, fills_cons_iff, fills_cons_iff, List.forall_mem_cons]
    by_cases hid : name = "sequenceId"
    · subst hid
      simp only [referenceMember?, exists_once_iff reads_string, ih, String.reduceEq, reduceIte]
      grind
    by_cases hconditions : name = "conditions"
    · subst hconditions
      simp only [referenceMember?, exists_once_iff reads_strings, ih, String.reduceEq, reduceIte]
      grind
    · simp [referenceMember?, hid, hconditions]

/-- A member that is kept in the payload. -/
theorem exists_anyValue_iff {value : Json} {set : Json → σ} {P : σ → Prop} :
    (∃ next, (set <$> anyValue (.ofJson value)) = .ok next ∧ P next) ↔ P (set value.kept) := by
  simp only [map_eq_ok, anyValue_eq_ok, toJson?_ofJson_eq_kept]
  grind

theorem visits_effectMember_iff {state after : EffectFields} :
    Visits effectMember state fields after ↔
      Fills IsOptionalText fields "effectId" state.effectId after.effectId ∧
      Fills IsOptionalText fields "key" state.key after.key ∧
      Fills IsOptionalText fields "listContainer" state.listContainer after.listContainer ∧
      Fills IsOptionalText fields "listItemSelector" state.listItemSelector
        after.listItemSelector ∧
      Fills IsOptionalText fields "selector" state.selector after.selector ∧
      Fills (IsListOf IsText) fields "conditions" state.conditions after.conditions ∧
      (others Effect.memberNames fields).foldl (fun m e => m.insert e.1 e.2) state.payload =
        after.payload := by
  induction fields generalizing state with
  | nil =>
    simp only [visits_nil_iff, fills_nil_iff]
    cases state
    cases after
    simp [others]
  | cons field rest ih =>
    obtain ⟨name, value⟩ := field
    simp only [visits_cons_iff, fills_cons_iff]
    by_cases hname : name ∈ Effect.memberNames
    · rw [others_cons_of_mem hname]
      simp only [Effect.memberNames, List.mem_cons, List.not_mem_nil, or_false] at hname
      rcases hname with rfl | rfl | rfl | rfl | rfl | rfl <;>
        simp only [effectMember, exists_once_iff reads_optionalString,
          exists_once_iff reads_strings, ih, String.reduceEq, reduceIte] <;>
        grind
    · rw [others_cons_of_notMem hname]
      simp only [effectMember_of_notMem hname, exists_anyValue_iff, ih]
      simp only [Effect.memberNames, List.mem_cons, List.not_mem_nil, or_false, not_or] at hname
      simp [hname]

/-- A text that is missing or null is none. -/
theorem join_eq_getD {β : Type} (field : Option (Option β)) : field.join = field.getD none := by
  cases field <;> rfl

theorem standsIn_effect_iff {effect : Effect} :
    effect.StandsIn fields ↔
      ∃ after, Visits effectMember ⟨none, none, none, none, none, none, .empty⟩ fields after ∧
        after.toEffect = effect := by
  simp only [visits_effectMember_iff, fills_none_iff]
  constructor
  · obtain ⟨_, _, _, _, _, _, payload⟩ := effect
    rintro ⟨⟨effectId, hid, rfl⟩, ⟨key, hkey, rfl⟩, ⟨container, hcontainer, rfl⟩,
      ⟨item, hitem, rfl⟩, ⟨selector, hselector, rfl⟩, ⟨conditions, hconditions, rfl⟩, hpayload⟩
    refine ⟨⟨effectId, key, container, item, selector, conditions, payload⟩,
      ⟨hid, hkey, hcontainer, hitem, hselector, hconditions, hpayload⟩, ?_⟩
    simp only [EffectFields.toEffect, join_eq_getD]
  · rintro ⟨after, ⟨hid, hkey, hcontainer, hitem, hselector, hconditions, hpayload⟩, rfl⟩
    simp only [EffectFields.toEffect, join_eq_getD]
    exact ⟨⟨_, hid, rfl⟩, ⟨_, hkey, rfl⟩, ⟨_, hcontainer, rfl⟩, ⟨_, hitem, rfl⟩,
      ⟨_, hselector, rfl⟩, ⟨_, hconditions, rfl⟩, hpayload⟩

theorem reads_effect : Reads effect IsEffect := by
  intro value read
  cases value with
  | members fields =>
    simp only [IsEffect, members.injEq, exists_eq_left', standsIn_effect_iff, Visits, effect,
      Tree.ofJson, bind_eq_ok, pure_eq_ok]
  | _ => simp [effect, Tree.ofJson, IsEffect]

theorem visits_sequenceMember_iff {state after : SequenceFields} :
    Visits sequenceMember state fields after ↔
      Fills IsOptionalText fields "sequenceId" state.sequenceId after.sequenceId ∧
      Fills (IsListOf IsText) fields "conditions" state.conditions after.conditions ∧
      Fills (IsListOf IsEffect) fields "effects" state.effects after.effects ∧
      (others SequenceDef.memberNames fields).foldl (fun m e => m.insert e.1 e.2) state.payload =
        after.payload := by
  induction fields generalizing state with
  | nil =>
    simp only [visits_nil_iff, fills_nil_iff]
    cases state
    cases after
    simp [others]
  | cons field rest ih =>
    obtain ⟨name, value⟩ := field
    simp only [visits_cons_iff, fills_cons_iff]
    by_cases hname : name ∈ SequenceDef.memberNames
    · rw [others_cons_of_mem hname]
      simp only [SequenceDef.memberNames, List.mem_cons, List.not_mem_nil, or_false] at hname
      rcases hname with rfl | rfl | rfl
      · simp only [sequenceMember, exists_once_iff reads_optionalString, ih, String.reduceEq,
          reduceIte]
        grind
      · simp only [sequenceMember, exists_once_iff reads_strings, ih, String.reduceEq, reduceIte]
        grind
      · simp only [sequenceMember, exists_once_iff reads_effect.list, ih, String.reduceEq, reduceIte]
        grind
    · rw [others_cons_of_notMem hname]
      simp only [sequenceMember_of_notMem hname, exists_anyValue_iff, ih]
      simp only [SequenceDef.memberNames, List.mem_cons, List.not_mem_nil, or_false,
        not_or] at hname
      simp [hname]

theorem standsIn_sequence_iff {sequence : SequenceDef} :
    sequence.StandsIn fields ↔
      ∃ after, Visits sequenceMember ⟨none, none, none, .empty⟩ fields after ∧
        ∃ effects, after.effects = some effects ∧
          (⟨after.sequenceId.join, after.conditions.getD [], effects, after.payload⟩ :
            SequenceDef) = sequence := by
  simp only [visits_sequenceMember_iff, fills_none_iff]
  constructor
  · obtain ⟨_, _, effects, payload⟩ := sequence
    rintro ⟨⟨sequenceId, hid, rfl⟩, ⟨conditions, hconditions, rfl⟩, heffects, hpayload⟩
    refine ⟨⟨sequenceId, conditions, some effects, payload⟩,
      ⟨hid, hconditions, heffects, hpayload⟩, effects, rfl, ?_⟩
    simp only [join_eq_getD]
  · rintro ⟨after, ⟨hid, hconditions, heffects, hpayload⟩, effects, hsome, rfl⟩
    simp only [join_eq_getD]
    exact ⟨⟨_, hid, rfl⟩, ⟨_, hconditions, rfl⟩, hsome ▸ heffects, hpayload⟩

theorem reads_sequenceDef : Reads sequenceDef IsSequence := by
  intro value read
  cases value with
  | members fields =>
    simp only [IsSequence, members.injEq, exists_eq_left', standsIn_sequence_iff, Visits,
      sequenceDef, Tree.ofJson, bind_eq_ok, required_eq_ok, pure_eq_ok]
  | _ => simp [sequenceDef, Tree.ofJson, IsSequence]

theorem standsIn_reference_iff {reference : SequenceRef} :
    reference.StandsIn fields ↔
      ∃ after, Visits referenceMember? ⟨none, none⟩ fields after ∧
        ∃ sequenceId, after.sequenceId = some sequenceId ∧
          (⟨sequenceId, after.conditions.getD []⟩ : SequenceRef) = reference := by
  simp only [visits_referenceMember?_iff, fills_none_iff]
  constructor
  · obtain ⟨sequenceId, _⟩ := reference
    rintro ⟨hid, ⟨conditions, hconditions, rfl⟩, hnames⟩
    exact ⟨⟨some sequenceId, conditions⟩, ⟨hid, hconditions, hnames⟩, sequenceId, rfl, rfl⟩
  · rintro ⟨after, ⟨hid, hconditions, hnames⟩, sequenceId, hsome, rfl⟩
    exact ⟨hsome ▸ hid, ⟨_, hconditions, rfl⟩, hnames⟩

theorem isReference_members_iff {reference : SequenceRef} :
    IsReference (.members fields) reference ↔ reference.StandsIn fields :=
  ⟨fun | .object h => h, .object⟩

theorem reads_sequenceRef : Reads sequenceRef IsReference := by
  intro value read
  cases value with
  | members fields =>
    simp only [isReference_members_iff, standsIn_reference_iff, Visits, sequenceRef, Tree.ofJson,
      bind_eq_ok, required_eq_ok, pure_eq_ok]
  | array values =>
    rcases values with _ | ⟨value, _ | ⟨list, _ | ⟨_, _⟩⟩⟩
    · constructor <;> rintro ⟨⟩
    · simp only [Tree.ofJson, Tree.itemsOfJson, sequenceRef, bind_eq_ok, pure_eq_ok,
        reads_string value]
      constructor
      · rintro ⟨sequenceId, h, rfl⟩
        exact .name h
      · rintro ⟨⟩
        next sequenceId h => exact ⟨sequenceId, h, rfl⟩
    · simp only [Tree.ofJson, Tree.itemsOfJson, sequenceRef, bind_eq_ok, pure_eq_ok,
        reads_string value, reads_strings list]
      constructor
      · rintro ⟨sequenceId, h, conditions, hlist, rfl⟩
        exact .both h hlist
      · rintro ⟨⟩
        next sequenceId conditions h hlist => exact ⟨sequenceId, h, conditions, hlist, rfl⟩
    · constructor <;> rintro ⟨⟩
  | _ => constructor <;> rintro ⟨⟩

/-- A sequence has to have effects, which a reference does not have. -/
theorem not_isSequence_of_isReference {value : Json} {reference : SequenceRef}
    (h : value.IsReference reference) (sequence : SequenceDef) : ¬value.IsSequence sequence :=
  fun hsequence => sequenceRef_of_sequenceDef ((reads_sequenceDef value sequence).mpr hsequence)
    reference ((reads_sequenceRef value reference).mpr h)

/-! ### Entries -/

/-- What a decoder reads, or else what a second one does. -/
def firstOf (first second : Decoder SequenceEntry) : Decoder SequenceEntry := fun tree =>
  match first tree with
  | .ok entry => .ok entry
  | .error _ =>
    match second tree with
    | .ok entry => .ok entry
    | .error _ => .error (.shape .noSequenceForm)

/-- An entry that refers to a stored sequence. -/
def storedForm : Decoder SequenceEntry := fun tree => .stored <$> sequenceRef tree

/-- An entry with a sequence of its own. -/
def inlineForm : Decoder SequenceEntry := fun tree => .inline <$> sequenceDef tree

theorem storedForm_eq_ok_iff {value : Json} {entry : SequenceEntry} :
    storedForm (.ofJson value) = .ok entry ↔
      ∃ reference, value.IsReference reference ∧ .stored reference = entry := by
  simp only [storedForm, map_eq_ok, reads_sequenceRef value]

theorem inlineForm_eq_ok_iff {value : Json} {entry : SequenceEntry} :
    inlineForm (.ofJson value) = .ok entry ↔
      ∃ sequence, value.IsSequence sequence ∧ .inline sequence = entry := by
  simp only [inlineForm, map_eq_ok, reads_sequenceDef value]

section FirstOf

variable {first second : Decoder SequenceEntry} {tree : Tree}

theorem firstOf_eq_error_iff :
    firstOf first second tree = .error (.shape .noSequenceForm) ↔
      (∀ entry, first tree ≠ .ok entry) ∧ ∀ entry, second tree ≠ .ok entry := by
  unfold firstOf
  cases first tree <;> cases second tree <;> simp

variable (h : ∀ entry other, first tree = .ok entry → second tree ≠ .ok other)
include h

/-- Of two decoders that do not read the same trees each one reads what it reads alone. -/
theorem firstOf_eq_ok_iff {entry : SequenceEntry} :
    firstOf first second tree = .ok entry ↔ first tree = .ok entry ∨ second tree = .ok entry := by
  unfold firstOf
  cases hfirst : first tree <;> cases hsecond : second tree
  case ok.ok entry other => exact absurd hsecond (h entry other hfirst)
  all_goals simp

/-- Two decoders that do not read the same trees may be tried in any order. -/
theorem firstOf_comm : firstOf first second tree = firstOf second first tree := by
  unfold firstOf
  cases hfirst : first tree <;> cases hsecond : second tree
  case ok.ok entry other => exact absurd hsecond (h entry other hfirst)
  all_goals rfl

end FirstOf

/-- No value is read in both forms. -/
theorem inlineForm_ne_ok {value : Json} (entry other : SequenceEntry)
    (h : storedForm (.ofJson value) = .ok entry) : inlineForm (.ofJson value) ≠ .ok other := by
  intro hother
  obtain ⟨reference, hreference, -⟩ := storedForm_eq_ok_iff.mp h
  obtain ⟨sequence, hsequence, -⟩ := inlineForm_eq_ok_iff.mp hother
  exact not_isSequence_of_isReference hreference sequence hsequence

theorem sequenceEntry_eq_firstOf (value : Json) :
    sequenceEntry (.ofJson value) = firstOf storedForm inlineForm (.ofJson value) := by
  rw [sequenceEntry, toJson?_ofJson_eq_kept, firstOf, storedForm, inlineForm]
  cases sequenceRef (.ofJson value) <;> cases sequenceDef (.ofJson value) <;> rfl

/-- An entry is read as the form that its value has, with everything that stands in the value, and
a value without a form is refused. No value has both forms, and the forms can be tried in either
order. -/
theorem sequenceEntry_reads_one_form (value : Json) :
    (∀ reference, fromValue sequenceEntry value = .ok (.stored reference) ↔
      value.IsReference reference) ∧
    (∀ sequence, fromValue sequenceEntry value = .ok (.inline sequence) ↔
      value.IsSequence sequence) ∧
    (fromValue sequenceEntry value = .error (.shape .noSequenceForm) ↔
      (∀ reference, ¬value.IsReference reference) ∧ ∀ sequence, ¬value.IsSequence sequence) ∧
    (¬∃ reference sequence, value.IsReference reference ∧ value.IsSequence sequence) ∧
    fromValue sequenceEntry value = fromValue (firstOf storedForm inlineForm) value ∧
    fromValue sequenceEntry value = fromValue (firstOf inlineForm storedForm) value := by
  simp only [fromValue, sequenceEntry_eq_firstOf]
  refine ⟨fun reference => ?_, fun sequence => ?_, ?_, ?_, trivial, firstOf_comm inlineForm_ne_ok⟩
  · simp [firstOf_eq_ok_iff inlineForm_ne_ok, storedForm_eq_ok_iff, inlineForm_eq_ok_iff]
  · simp [firstOf_eq_ok_iff inlineForm_ne_ok, storedForm_eq_ok_iff, inlineForm_eq_ok_iff]
  · simp [firstOf_eq_error_iff, storedForm_eq_ok_iff, inlineForm_eq_ok_iff]
  · rintro ⟨reference, sequence, hreference, hsequence⟩
    exact not_isSequence_of_isReference hreference sequence hsequence

/-- A name with a further member beside it is no reference, and without effects it is no sequence
either. -/
example : fromValue sequenceEntry
    (.object [("sequenceId", .string "intro"), ("offset", .ofNat 100)]) =
      .error (.shape .noSequenceForm) := rfl

end Decode

end InteractionBinding
