import InteractionBinding.Config.Basic
/-!
# Layers of effects

A reference is laid over a stored effect, and overrides are laid over a payload: what the upper
layer sets wins, and what it leaves open shows through from below. Both are decided part by part, a
part being a field of an effect or a member of a payload, and a layer is nothing but what its parts
are set to. So layers form an idempotent monoid whatever rule a field is merged by
(`IsLayering.of_get?`), and a pile of layers can be merged in any grouping.

## Main definitions

* `Effect.Part`, `Effect.get?` — what an effect can set, and what it sets it to.
* `IsLayering` — the laws of layers.

## Main results

* `Effect.get?_mergedOnto` — a part of a merged effect comes from the upper effect that sets it.
* `Effect.isLayering_mergedOnto` — effects and payloads are layers.
-/

namespace InteractionBinding

/-- The laws of layers: they are merged part by part, the upper one first, and form an idempotent
monoid. -/
structure IsLayering {α κ β : Type} (merge : α → α → α) (empty : α) (get? : α → κ → Option β) :
    Prop where
  /-- A layer is what its parts are set to. -/
  ext (a b : α) : (∀ part, get? a part = get? b part) → a = b
  get?_merge (top bottom : α) (part : κ) :
    get? (merge top bottom) part =
      if (get? top part).isSome then get? top part else get? bottom part
  assoc (top middle bottom : α) : merge top (merge middle bottom) = merge (merge top middle) bottom
  empty_merge (a : α) : merge empty a = a
  merge_empty (a : α) : merge a empty = a
  merge_self (a : α) : merge a a = a
  /-- A pile of layers may be merged in groups. -/
  foldr_flatten (groups : List (List α)) :
    groups.flatten.foldr merge empty =
      (groups.map fun layers => layers.foldr merge empty).foldr merge empty

namespace IsLayering

variable {α κ β : Type} {merge : α → α → α} {empty : α}

/-- In a monoid, groups are merged to what all of their members are merged to. -/
theorem foldr_flatten_of_assoc
    (hassoc : ∀ top middle bottom,
      merge top (merge middle bottom) = merge (merge top middle) bottom)
    (hempty : ∀ a, merge empty a = a) (groups : List (List α)) :
    groups.flatten.foldr merge empty =
      (groups.map fun layers => layers.foldr merge empty).foldr merge empty := by
  have : Std.Associative merge := ⟨fun top middle bottom => (hassoc top middle bottom).symm⟩
  induction groups with
  | nil => rfl
  | cons layers groups ih =>
    rw [List.flatten_cons, List.foldr_append, ih, List.map_cons, List.foldr_cons]
    generalize (groups.map fun layers => layers.foldr merge empty).foldr merge empty = below
    calc layers.foldr merge below
      _ = layers.foldr merge (merge empty below) := by rw [hempty]
      _ = merge (layers.foldr merge empty) below := List.foldr_assoc

/-- Whatever is merged part by part, the upper layer first, obeys the laws of layers. -/
theorem of_get? {get? : α → κ → Option β}
    (hext : ∀ a b, (∀ part, get? a part = get? b part) → a = b)
    (hempty : ∀ part, get? empty part = none)
    (hmerge : ∀ top bottom part, get? (merge top bottom) part =
      (get? top part).or (get? bottom part)) :
    IsLayering merge empty get? := by
  have hassoc (top middle bottom : α) :
      merge top (merge middle bottom) = merge (merge top middle) bottom :=
    hext _ _ fun part => by simp only [hmerge, Option.or_assoc]
  have hleft (a : α) : merge empty a = a :=
    hext _ _ fun part => by rw [hmerge, hempty, Option.none_or]
  exact
    { ext := hext
      get?_merge := fun top bottom part => by
        rw [hmerge]
        cases get? top part <;> rfl
      assoc := hassoc
      empty_merge := hleft
      merge_empty := fun a => hext _ _ fun part => by rw [hmerge, hempty, Option.or_none]
      merge_self := fun a => hext _ _ fun part => by rw [hmerge, Option.or_self]
      foldr_flatten := foldr_flatten_of_assoc hassoc hleft }

end IsLayering

/-- Overrides are layers over a payload. -/
theorem KeyMap.isLayering_override {α : Type} :
    IsLayering (fun overrides base : KeyMap α => base.override overrides) empty get? :=
  .of_get? (fun _ _ => ext_get?) get?_empty fun overrides base => get?_override base overrides

namespace Effect

/-- What an effect can set. -/
inductive Part where
  | effectId
  | key
  | listContainer
  | listItemSelector
  | selector
  | conditions
  /-- The member of the payload with a name. -/
  | payload (name : String)

/-- What a part of an effect is set to. -/
inductive Setting where
  | text (value : String)
  | names (conditions : List String)
  | json (value : Json)

/-- What an effect sets a part to, if it does. A list of conditions is set when it names some. -/
def get? (effect : Effect) : Part → Option Setting
  | .effectId => effect.effectId.map .text
  | .key => effect.key.map .text
  | .listContainer => effect.listContainer.map .text
  | .listItemSelector => effect.listItemSelector.map .text
  | .selector => effect.selector.map .text
  | .conditions => if effect.conditions.isEmpty then none else some (.names effect.conditions)
  | .payload name => (effect.payload.get? name).map .json

theorem eq_of_map_text {a b : Option String} (h : a.map Setting.text = b.map Setting.text) :
    a = b :=
  Option.map_injective (fun _ _ => Setting.text.inj) h

/-- An effect is what its parts are set to. -/
theorem ext_get? {a b : Effect} (h : ∀ part, a.get? part = b.get? part) : a = b := by
  have hconditions : a.conditions = b.conditions := by
    have hnames := h .conditions
    simp only [get?, List.isEmpty_iff] at hnames
    split at hnames <;> split at hnames
    next ha hb => rw [ha, hb]
    next => cases hnames
    next => cases hnames
    next => exact Setting.names.inj (Option.some.inj hnames)
  have hpayload : a.payload = b.payload := KeyMap.ext_get? fun name =>
    Option.map_injective (fun _ _ => Setting.json.inj) (h (.payload name))
  obtain ⟨_, _, _, _, _, _, _⟩ := a
  obtain ⟨_, _, _, _, _, _, _⟩ := b
  rw [Effect.mk.injEq]
  exact ⟨eq_of_map_text (h .effectId), eq_of_map_text (h .key),
    eq_of_map_text (h .listContainer), eq_of_map_text (h .listItemSelector),
    eq_of_map_text (h .selector), hconditions, hpayload⟩

/-- A part of a merged effect comes from the upper one if that sets it, and from the lower one
otherwise: optional fields, lists of conditions and members of payloads alike. -/
theorem get?_mergedOnto (top bottom : Effect) (part : Part) :
    (top.mergedOnto bottom).get? part = (top.get? part).or (bottom.get? part) := by
  cases part with
  | conditions =>
    simp only [get?, mergedOnto]
    by_cases htop : top.conditions.isEmpty = true <;> simp [htop]
  | payload name => simp only [get?, mergedOnto, KeyMap.get?_override, Option.map_or]
  | effectId | key | listContainer | listItemSelector | selector =>
    exact Option.map_or

/-- Effects are layers, and so are their payloads. -/
theorem isLayering_mergedOnto :
    IsLayering mergedOnto empty get? ∧
      IsLayering (fun overrides base : KeyMap Json => base.override overrides) .empty
        KeyMap.get? := by
  refine ⟨.of_get? (fun _ _ => ext_get?) (fun part => ?_) get?_mergedOnto,
    KeyMap.isLayering_override⟩
  cases part <;> rfl

end Effect

end InteractionBinding
