import InteractionBinding.Proofs.Config.Resembling
/-!
# Configurations from texts and from values

A text that is a JSON value can be read as a configuration directly, in the order of the text, or by
way of its value, the objects of which are sorted and repeat no name. Both ways lead to the same
configuration, but for one difference: a text that gives a field twice is at fault, and in its value
the field stands once.

## Main definitions

* `Json.Tree.hasDistinctNames` — no object of a document repeats a name.
* `Json.Tree.IsValueOf` — the document of the value of another document.

## Main results

* `Decode.isResemblance_isValueOf`, `Decode.isResemblance_isFaithfulTo` — a document and that of its
  value resemble each other, the latter the former if names are not repeated.
* `Config.ofText_agrees_ofValue` — what is read from a text is read from its value, and conversely
  if no object repeats a name.
-/

namespace InteractionBinding

namespace Json.Tree

mutual

/-- No object of the document repeats a name. -/
def hasDistinctNames : Tree → Bool
  | .array items _ => itemsHaveDistinctNames items
  | .object entries _ => (entries.map Prod.fst).Nodup && membersHaveDistinctNames entries
  | _ => true

/-- No object of the items repeats a name. -/
def itemsHaveDistinctNames : List Tree → Bool
  | [] => true
  | item :: rest => item.hasDistinctNames && itemsHaveDistinctNames rest

/-- No object of the values of the members repeats a name. -/
def membersHaveDistinctNames : List (Option String × Tree) → Bool
  | [] => true
  | (_, value) :: rest => value.hasDistinctNames && membersHaveDistinctNames rest

end

/-- The document is that of the value of another document. -/
def IsValueOf (copy tree : Tree) : Prop :=
  ∃ value, tree.toJson? = some value ∧ copy = ofJson value

/-- The document is that of the value of another document, which repeats no name. -/
def IsFaithfulTo (copy tree : Tree) : Prop := tree.hasDistinctNames = true ∧ copy.IsValueOf tree

variable {items copies : List Tree} {entries : List (Option String × Tree)} {tree copy : Tree}

theorem toJson?_array {closed : Bool} {value : Json}
    (h : (array items closed).toJson? = some value) :
    closed = true ∧ ∃ values, itemsToJson? items = some values ∧ value = .array values := by
  rw [toJson?] at h
  split at h
  next hclosed =>
    obtain ⟨values, hvalues, rfl⟩ := Option.map_eq_some_iff.mp h
    exact ⟨hclosed, values, hvalues, rfl⟩
  next => cases h

theorem toJson?_object {closed : Bool} {value : Json}
    (h : (object entries closed).toJson? = some value) :
    closed = true ∧ ∃ fields, membersToJson? entries = some fields ∧
      value = Json.object fields := by
  rw [toJson?] at h
  split at h
  next hclosed =>
    obtain ⟨fields, hfields, rfl⟩ := Option.map_eq_some_iff.mp h
    exact ⟨hclosed, fields, hfields, rfl⟩
  next => cases h

theorem eq_array_of_toJson? {values : List Json} (h : tree.toJson? = some (.array values)) :
    ∃ items, tree = .array items true ∧ itemsToJson? items = some values := by
  cases tree with
  | array items closed =>
    obtain ⟨rfl, read, hread, heq⟩ := toJson?_array h
    obtain rfl := Json.array.inj heq
    exact ⟨items, rfl, hread⟩
  | object entries closed =>
    obtain ⟨-, fields, -, heq⟩ := toJson?_object h
    cases heq
  | _ => cases h

theorem eq_object_of_toJson? {fields : List (String × Json)}
    (h : tree.toJson? = some (.members fields)) :
    ∃ entries others, tree = .object entries true ∧ membersToJson? entries = some others ∧
      fields = (KeyMap.ofList others).toList := by
  cases tree with
  | array items closed =>
    obtain ⟨-, values, -, heq⟩ := toJson?_array h
    cases heq
  | object entries closed =>
    obtain ⟨rfl, others, hothers, heq⟩ := toJson?_object h
    exact ⟨entries, others, rfl, hothers, Json.members.inj heq⟩
  | _ => cases h

theorem membersOfJson_eq_singleton {fields : List (String × Json)} {name : String}
    (h : membersOfJson fields = [(some name, tree)]) :
    ∃ field, fields = [field] ∧ field.1 = name ∧ ofJson field.2 = tree := by
  match fields with
  | [] => cases h
  | [field] =>
    obtain ⟨hname, htree⟩ := Prod.mk.inj (List.cons.inj h).1
    exact ⟨field, rfl, Option.some.inj hname, htree⟩
  | _ :: _ :: _ => cases (List.cons.inj h).2

theorem itemsToJson?_cons_eq_some {item : Tree} {values : List Json} :
    itemsToJson? (item :: items) = some values ↔ ∃ value rest, item.toJson? = some value ∧
      itemsToJson? items = some rest ∧ values = value :: rest := by
  simp only [itemsToJson?, Option.bind_eq_bind, Option.bind_eq_some_iff]
  grind

theorem membersToJson?_cons_eq_some {entry : Option String × Tree}
    {fields : List (String × Json)} :
    membersToJson? (entry :: entries) = some fields ↔ ∃ name value rest, entry.1 = some name ∧
      entry.2.toJson? = some value ∧ membersToJson? entries = some rest ∧
      fields = (name, value) :: rest := by
  obtain ⟨name, item⟩ := entry
  simp only [membersToJson?, Option.bind_eq_bind, Option.bind_eq_some_iff]
  grind

theorem forall₂_isValueOf {values : List Json} (h : itemsToJson? items = some values) :
    List.Forall₂ (fun tree copy => copy.IsValueOf tree) items (itemsOfJson values) := by
  induction items generalizing values with
  | nil =>
    obtain rfl := Option.some.inj h
    exact .nil
  | cons item rest ih =>
    obtain ⟨head, tail, hhead, htail, rfl⟩ := itemsToJson?_cons_eq_some.mp h
    exact .cons ⟨head, hhead, rfl⟩ (ih htail)

theorem entrywise_isValueOf {fields : List (String × Json)}
    (h : membersToJson? entries = some fields) :
    Decode.Entrywise (fun tree copy => copy.IsValueOf tree) entries (membersOfJson fields) := by
  induction entries generalizing fields with
  | nil =>
    obtain rfl := Option.some.inj h
    exact .nil
  | cons entry rest ih =>
    obtain ⟨name, head, tail, hname, hhead, htail, rfl⟩ := membersToJson?_cons_eq_some.mp h
    exact .cons ⟨hname.symm, head, hhead, rfl⟩ (ih htail)

theorem membersToJson?_names {fields : List (String × Json)}
    (h : membersToJson? entries = some fields) :
    entries.map Prod.fst = fields.map fun field => some field.1 := by
  induction entries generalizing fields with
  | nil =>
    obtain rfl := Option.some.inj h
    rfl
  | cons entry rest ih =>
    obtain ⟨name, head, tail, hname, -, htail, rfl⟩ := membersToJson?_cons_eq_some.mp h
    rw [List.map_cons, List.map_cons, ih htail, hname]

/-- Without repeated names the members of the value are those of the document. -/
theorem nodup_of_hasDistinctNames {closed : Bool} {fields : List (String × Json)}
    (hnames : (object entries closed).hasDistinctNames = true)
    (h : membersToJson? entries = some fields) : (fields.map Prod.fst).Nodup := by
  rw [hasDistinctNames, Bool.and_eq_true, decide_eq_true_eq, membersToJson?_names h] at hnames
  exact List.pairwise_map.mpr
    ((List.pairwise_map.mp hnames.1).imp fun hne heq => hne (congrArg some heq))

theorem forall₂_isFaithfulTo (hnames : itemsHaveDistinctNames items = true)
    (h : List.Forall₂ (fun tree copy => copy.IsValueOf tree) items copies) :
    List.Forall₂ IsFaithfulTo copies items := by
  induction h with
  | nil => exact .nil
  | cons hitem _ ih =>
    rw [itemsHaveDistinctNames, Bool.and_eq_true] at hnames
    exact .cons ⟨hnames.1, hitem⟩ (ih hnames.2)

theorem entrywise_isFaithfulTo {others : List (Option String × Tree)}
    (hnames : membersHaveDistinctNames entries = true)
    (h : Decode.Entrywise (fun tree copy => copy.IsValueOf tree) entries others) :
    Decode.Entrywise IsFaithfulTo others entries := by
  induction h with
  | nil => exact .nil
  | @cons entry other _ _ hentry _ ih =>
    obtain ⟨name, item⟩ := entry
    rw [membersHaveDistinctNames, Bool.and_eq_true] at hnames
    exact .cons ⟨hentry.1.symm, hnames.1, hentry.2⟩ (ih hnames.2)

end Json.Tree

namespace Decode

open Json

theorem isResemblance_isValueOf : IsResemblance fun tree copy => copy.IsValueOf tree where
  value := by
    rintro tree _ ⟨value, hvalue, rfl⟩
    exact ⟨value, hvalue, rereads_of_toJson? hvalue⟩
  array := by
    rintro items closed _ ⟨value, hvalue, rfl⟩
    obtain ⟨-, values, hvalues, rfl⟩ := Tree.toJson?_array hvalue
    exact ⟨_, rfl, Tree.forall₂_isValueOf hvalues⟩
  single := by
    rintro name item closed _ ⟨value, hvalue, rfl⟩
    obtain ⟨-, fields, hfields, rfl⟩ := Tree.toJson?_object hvalue
    simp only [Tree.membersToJson?, Option.bind_eq_bind, Option.bind_eq_some_iff] at hfields
    obtain ⟨_, heq, value, hitem, rest, hrest, hfields⟩ := hfields
    obtain rfl := Option.some.inj heq
    obtain rfl := Option.some.inj hrest
    obtain rfl := Option.some.inj hfields
    exact ⟨_, rfl, value, hitem, rfl⟩
  object := by
    rintro entries closed _ ⟨value, hvalue, rfl⟩
    obtain ⟨-, fields, hfields, rfl⟩ := Tree.toJson?_object hvalue
    refine ⟨_, rfl, fun hmember hfollower hoverwrites hfollows state after h => ?_⟩
    have hvisits : Visits _ state fields after :=
      (Tree.entrywise_isValueOf hfields).visit hfollows h
    exact hvisits.ofList hfollower hoverwrites

theorem isResemblance_isFaithfulTo : IsResemblance Tree.IsFaithfulTo where
  value := by
    rintro _ tree ⟨-, value, hvalue, rfl⟩
    exact ⟨value, rereads_of_toJson? hvalue, hvalue⟩
  array := by
    rintro items closed tree ⟨hnames, value, hvalue, heq⟩
    cases value with
    | array values =>
      obtain ⟨rfl, rfl⟩ := Tree.array.inj heq
      obtain ⟨trees, rfl, hitems⟩ := Tree.eq_array_of_toJson? hvalue
      exact ⟨trees, rfl, Tree.forall₂_isFaithfulTo hnames (Tree.forall₂_isValueOf hitems)⟩
    | _ => cases heq
  single := by
    rintro name item closed tree ⟨hnames, value, hvalue, heq⟩
    cases value with
    | members fields =>
      obtain ⟨hentries, rfl⟩ := Tree.object.inj heq
      obtain ⟨entries, others, rfl, hmembers, rfl⟩ := Tree.eq_object_of_toJson? hvalue
      have hperm := KeyMap.toList_ofList_perm (Tree.nodup_of_hasDistinctNames hnames hmembers)
      obtain ⟨field, hfield, rfl, rfl⟩ := Tree.membersOfJson_eq_singleton hentries.symm
      rw [hfield] at hperm
      obtain rfl := List.perm_singleton.mp hperm.symm
      rw [Tree.hasDistinctNames, Bool.and_eq_true] at hnames
      cases Tree.entrywise_isFaithfulTo hnames.2 (Tree.entrywise_isValueOf hmembers) with
      | @cons _ entry _ _ hentry hrest =>
        cases hrest
        obtain ⟨_, other⟩ := entry
        obtain ⟨rfl, hother⟩ := hentry
        exact ⟨other, rfl, hother⟩
    | _ => cases heq
  object := by
    rintro entries closed tree ⟨hnames, value, hvalue, heq⟩
    cases value with
    | members fields =>
      obtain ⟨rfl, rfl⟩ := Tree.object.inj heq
      obtain ⟨entries, others, rfl, hmembers, rfl⟩ := Tree.eq_object_of_toJson? hvalue
      have hnodup := Tree.nodup_of_hasDistinctNames hnames hmembers
      rw [Tree.hasDistinctNames, Bool.and_eq_true] at hnames
      refine ⟨entries, rfl, fun hmember hfollower _ hfollows state after h => ?_⟩
      have hvisits : Visits _ state others after :=
        Visits.perm hmember (KeyMap.toList_ofList_perm hnodup) (KeyMap.nodup_keys _) h
      exact (Tree.entrywise_isFaithfulTo hnames.2 (Tree.entrywise_isValueOf hmembers)).visit
        hfollows hvisits
    | _ => cases heq

end Decode

namespace Config

/-- A text that is a JSON value and the value itself stand for the same configuration: what is read
from the text is read from the value, and unless the text repeats a name in an object, the one is
a configuration if and only if the other is. -/
theorem ofText_agrees_ofValue {text : String} {value : Json} (h : Json.parse? text = some value) :
    (∀ config, ofText text = .ok config → ofValue value = .ok config) ∧
      ((Json.Reading.ofText text).tree.hasDistinctNames = true →
        ((∃ config, ofText text = .ok config) ↔ ∃ config, ofValue value = .ok config)) := by
  obtain ⟨htrailing, hvalue⟩ : (Json.Reading.ofText text).trailing = false ∧
      (Json.Reading.ofText text).tree.toJson? = some value := by
    simp only [Json.parse?] at h
    split at h
    next => cases h
    next htrailing => exact ⟨Bool.eq_false_iff.mpr htrailing, h⟩
  have htext : ∀ config, ofText text = .ok config ↔
      Decode.config .text (Json.Reading.ofText text).tree = .ok config := by
    intro config
    simp [ofText, htrailing]
  have hread (config : Config) (hconfig : ofText text = .ok config) :
      ofValue value = .ok config :=
    Decode.follows_config Decode.isResemblance_isValueOf .text .value _ _ _ ⟨value, hvalue, rfl⟩
      ((htext config).mp hconfig)
  refine ⟨hread, fun hnames => ⟨fun ⟨config, hconfig⟩ => ⟨config, hread config hconfig⟩,
    fun ⟨config, hconfig⟩ => ⟨config, (htext config).mpr ?_⟩⟩⟩
  exact Decode.follows_config Decode.isResemblance_isFaithfulTo .value .text _ _ _
    ⟨hnames, value, hvalue, rfl⟩ hconfig

end Config

/-- A text with an interaction as an array and an effect with a payload, the members standing out of
the order of their names. -/
def pulseText : String :=
  "\x7b\"interactions\":[[null,\"click\"]],\"effects\":\x7b\"f\":\x7b\"ms\":null,\"key\":\"B\"\x7d\x7d\x7d"

/-- The value of the text. -/
def pulseValue : Json :=
  .members [("effects", .members [("f", .members [("key", .string "B"), ("ms", .null)])]),
    ("interactions", .array [.array [.null, .string "click"]])]

/-- The configuration that the text and the value stand for. -/
def pulseConfig : Config where
  interactions := [⟨none, .click, .empty, [], none, none, none, [], []⟩]
  effects := KeyMap.empty.insert "f" ⟨none, some "B", none, none, none, [],
    KeyMap.empty.insert "ms" .null⟩
  conditions := .empty
  sequences := .empty

theorem parse?_pulseText : Json.parse? pulseText = some pulseValue := by
  have hobject : pulseValue = Json.object [
      ("interactions", .array [.array [.null, .string "click"]]),
      ("effects", Json.object [("f", Json.object [("ms", .null), ("key", .string "B")])])] := rfl
  simp [hobject, pulseText, Json.parse?, Json.Reading.ofText, Json.Reading.readValue,
    Json.Reading.readItems, Json.Reading.readMembers, Json.Reading.readWord,
    Json.Reading.dropWord?, Json.Reading.skipBlanks, Json.Reading.isJsonBlank,
    Json.Reading.readString, Json.Reading.atDepth, Json.Reading.maxNesting, Json.Tree.toJson?,
    Json.Tree.itemsToJson?, Json.Tree.membersToJson?]

/-- The text repeats no name, so it is read because its value is, as the same configuration. -/
theorem Config.ofText_agrees_ofValue_pulse :
    Json.parse? pulseText = some pulseValue ∧
      (Json.Reading.ofText pulseText).tree.hasDistinctNames = true ∧
      Config.ofValue pulseValue = .ok pulseConfig ∧ Config.ofText pulseText = .ok pulseConfig := by
  have hnames : (Json.Reading.ofText pulseText).tree.hasDistinctNames = true := by decide +kernel
  have hvalue : Config.ofValue pulseValue = .ok pulseConfig := rfl
  obtain ⟨hread, hagree⟩ := Config.ofText_agrees_ofValue parse?_pulseText
  obtain ⟨config, hconfig⟩ := (hagree hnames).mpr ⟨pulseConfig, hvalue⟩
  obtain rfl : config = pulseConfig := Except.ok.inj ((hread config hconfig).symm.trans hvalue)
  exact ⟨parse?_pulseText, hnames, hvalue, hconfig⟩

/-- A text that gives a field twice is at fault. In its value the field stands once. -/
example : (Config.ofText "\x7b\"effects\":\x7b\x7d,\"effects\":\x7b\x7d\x7d").isOk = false ∧
    ((Json.parse? "\x7b\"effects\":\x7b\x7d,\"effects\":\x7b\x7d\x7d").map fun value =>
      (Config.ofValue value).isOk) = some true := by
  decide +kernel

end InteractionBinding
