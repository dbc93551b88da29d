import InteractionBinding.InteractionId
/-!
# Written forms of interaction ids

The written form of an id is cut at its last two separators (`cutSeparator?_eq_some_iff`). An id is
read back from its written form exactly when the cuts fall behind and before its effect id
(`decode?_encode_iff`): the effect id holds no separator and does not begin with half of one. An
effect id that begins with a colon lends it to the target, and two ids share a written form.
-/

namespace InteractionBinding.InteractionId

/-- The separator stands in a text. -/
def HasSeparator (s : List Char) : Prop := [':', ':'] <:+: s

/-- The written form is cut behind and before the effect id, and the index is within bounds. -/
structure IsDecodable (id : InteractionId) : Prop where
  undivided : ¬HasSeparator id.effectId.toList
  head : id.effectId.toList.head? ≠ some ':'
  bounded : id.index ≤ maxIndex

variable {s front rest : List Char}

/-! ### Cutting at a separator -/

theorem hasSeparator_cons {c : Char} :
    HasSeparator (c :: s) ↔ c = ':' ∧ s.head? = some ':' ∨ HasSeparator s := by
  rw [HasSeparator, HasSeparator, List.infix_cons_iff, List.cons_prefix_cons]
  refine or_congr_left (and_congr eq_comm ?_)
  cases s with
  | nil => simp
  | cons d more => simp [List.cons_prefix_cons, eq_comm]

theorem hasSeparator_reverse : HasSeparator s.reverse ↔ HasSeparator s :=
  @List.reverse_infix _ [':', ':'] s

theorem not_hasSeparator_of_not_mem (h : ':' ∉ s) : ¬HasSeparator s :=
  fun hseparator => h (hseparator.subset List.mem_cons_self)

/-- A colon behind a text makes a separator only of a colon at its end. -/
theorem hasSeparator_append_colon :
    HasSeparator (s ++ [':']) ↔ HasSeparator s ∨ s.getLast? = some ':' := by
  rw [← hasSeparator_reverse, List.reverse_append, List.reverse_singleton, List.singleton_append,
    hasSeparator_cons, hasSeparator_reverse, List.head?_reverse, or_comm]
  simp

/-- A cut falls at the first separator. -/
theorem cutSeparator?_eq_some_iff :
    cutSeparator? s = some (front, rest) ↔
      s = front ++ ':' :: ':' :: rest ∧ ¬HasSeparator (front ++ [':']) := by
  -- a colon behind the text in front begins like a separator there
  have hhead (before after : List Char) :
      (before ++ [':']).head? = (before ++ ':' :: ':' :: after).head? := by
    simp only [List.head?_append, List.head?_cons]
  constructor
  · intro h
    fun_induction cutSeparator? s generalizing front with
    | case1 => cases h
    | case2 more =>
      obtain ⟨rfl, rfl⟩ := Prod.mk.inj (Option.some.inj h)
      exact ⟨rfl, fun h => absurd h.length_le (by decide)⟩
    | case3 c more hno ih =>
      obtain ⟨⟨before, after⟩, hcut, heq⟩ := Option.map_eq_some_iff.mp h
      obtain ⟨rfl, rfl⟩ := Prod.mk.inj heq
      obtain ⟨rfl, hbefore⟩ := ih hcut
      refine ⟨rfl, fun hseparator => ?_⟩
      rw [List.cons_append, hasSeparator_cons, hhead before after] at hseparator
      obtain ⟨hc, hcolon⟩ := hseparator.resolve_right hbefore
      obtain ⟨tail, htail⟩ := List.head?_eq_some_iff.mp hcolon
      exact hno tail hc htail
  · rintro ⟨rfl, h⟩
    induction front with
    | nil => rfl
    | cons c more ih =>
      rw [List.cons_append, hasSeparator_cons, not_or] at h
      rw [List.cons_append, cutSeparator?, ih h.2]
      · rfl
      · intro tail hc htail
        refine h.1 ⟨hc, ?_⟩
        rw [hhead more rest, htail]
        rfl

/-! ### Reading an index -/

theorem parseIndex?_toDigits (n : Nat) :
    parseIndex? (Nat.toDigits 10 n) = if n ≤ maxIndex then some n else none := by
  have hdigits : ∀ c ∈ Nat.toDigits 10 n, c.isDigit = true :=
    fun c hc => Nat.isDigit_of_mem_toDigits (by decide) (by decide) hc
  have hvalue : digitsValue (Nat.toDigits 10 n) = n := by
    rw [digitsValue, ← Nat.ofDigitChars_eq_foldl, Nat.ofDigitChars_ten_toDigits]
  have hplus (rest : List Char) : Nat.toDigits 10 n ≠ '+' :: rest := fun heq =>
    absurd (hdigits '+' (heq ▸ List.mem_cons_self)) (by decide)
  have hall : (Nat.toDigits 10 n).all Char.isDigit = true := List.all_eq_true.mpr hdigits
  have hempty : (Nat.toDigits 10 n).isEmpty = false := by simp [Nat.toDigits_ne_nil]
  rw [parseIndex?]
  · simp only [hempty, hall, hvalue, Bool.not_true, Bool.or_false, Bool.false_eq_true, if_false]
  · exact fun rest heq => hplus rest heq

/-! ### The written form -/

theorem toList_encode (id : InteractionId) :
    id.encode.toList = id.target.toList ++ ':' :: ':' :: id.effectId.toList ++
      ':' :: ':' :: Nat.toDigits 10 id.index := by
  rw [encode, Nat.toString_eq_ofList_toDigits]
  simp

/-- The index stands behind the last separator. -/
theorem cutSeparator?_reverse_encode (id : InteractionId) :
    cutSeparator? id.encode.toList.reverse = some ((Nat.toDigits 10 id.index).reverse,
      id.effectId.toList.reverse ++ ':' :: ':' :: id.target.toList.reverse) := by
  have hcolon : ':' ∉ (Nat.toDigits 10 id.index).reverse := fun hmem =>
    absurd (Nat.isDigit_of_mem_toDigits (by decide) (by decide) (List.mem_reverse.mp hmem))
      (by decide : ¬ ':'.isDigit = true)
  refine cutSeparator?_eq_some_iff.mpr ⟨by simp [toList_encode], ?_⟩
  rw [hasSeparator_append_colon, not_or]
  exact ⟨not_hasSeparator_of_not_mem hcolon, fun hlast => hcolon (List.mem_of_getLast? hlast)⟩

/-- Ids with one written form have one index. -/
theorem index_eq_of_encode_eq {id other : InteractionId} (h : id.encode = other.encode) :
    id.index = other.index := by
  have hcut := cutSeparator?_reverse_encode id
  rw [h, cutSeparator?_reverse_encode other, Option.some.injEq, Prod.mk.injEq] at hcut
  have hvalue := congrArg (Nat.ofDigitChars 10 · 0) (List.reverse_inj.mp hcut.1)
  simpa only [Nat.ofDigitChars_ten_toDigits] using hvalue.symm

/-- Ids with one target and one written form are the same. -/
theorem eq_of_encode_eq {id other : InteractionId} (htarget : id.target = other.target)
    (h : id.encode = other.encode) : id = other := by
  have hcut := cutSeparator?_reverse_encode id
  rw [h, cutSeparator?_reverse_encode other, Option.some.injEq, Prod.mk.injEq, htarget] at hcut
  refine InteractionId.ext htarget ?_ (index_eq_of_encode_eq h)
  exact String.toList_inj.mp (List.reverse_inj.mp (List.append_cancel_right hcut.2)).symm

/-- Reading the written form cuts off the index, whatever it is. -/
theorem decode?_encode (id : InteractionId) :
    decode? id.encode =
      (cutSeparator? (id.effectId.toList.reverse ++ ':' :: ':' :: id.target.toList.reverse)).bind
        fun (effectId, target) => (parseIndex? (Nat.toDigits 10 id.index)).map fun index =>
          ⟨String.ofList target.reverse, String.ofList effectId.reverse, index⟩ := by
  rw [decode?, cutSeparator?_reverse_encode]
  simp only [Option.bind_eq_bind, Option.bind_some, List.reverse_reverse]
  refine congrArg (Option.bind _) (funext fun cut => ?_)
  cases parseIndex? (Nat.toDigits 10 id.index) <;> rfl

theorem decode?_encode_eq_some_iff {id : InteractionId} :
    decode? id.encode = some id ↔ id.IsDecodable := by
  have hundivided : ¬HasSeparator (id.effectId.toList.reverse ++ [':']) ↔
      ¬HasSeparator id.effectId.toList ∧ id.effectId.toList.head? ≠ some ':' := by
    rw [hasSeparator_append_colon, hasSeparator_reverse, List.getLast?_reverse, not_or]
  rw [decode?_encode, parseIndex?_toDigits]
  constructor
  · intro h
    obtain ⟨⟨effectId, target⟩, hcut, hid⟩ := Option.bind_eq_some_iff.mp h
    obtain ⟨index, hindex, heq⟩ := Option.map_eq_some_iff.mp hid
    have heffect : effectId = id.effectId.toList.reverse := by simp [← heq]
    rw [heffect] at hcut
    obtain ⟨hseparator, hhead⟩ := hundivided.mp (cutSeparator?_eq_some_iff.mp hcut).2
    exact ⟨hseparator, hhead, (Option.ite_none_right_eq_some.mp hindex).1⟩
  · intro h
    rw [cutSeparator?_eq_some_iff.mpr ⟨rfl, hundivided.mpr ⟨h.undivided, h.head⟩⟩,
      if_pos h.bounded]
    simp

/-- An id whose index is within bounds is read back from its written form exactly if its effect id
neither holds the separator nor begins with a colon; so two such ids have different written forms.
An id of which the effect id begins with a colon is written as if the colon were the end of the
target. -/
theorem decode?_encode_iff (id : InteractionId) :
    (decode? id.encode = some id ↔ id.IsDecodable) ∧
      (∀ other : InteractionId, id.IsDecodable → other.IsDecodable →
        id.encode = other.encode → id = other) ∧
      ∀ effectId, id.effectId = ":" ++ effectId →
        id.encode = encode ⟨id.target ++ ":", effectId, id.index⟩ := by
  refine ⟨decode?_encode_eq_some_iff, fun other hid hother heq => ?_, fun effectId heq => ?_⟩
  · have hread := decode?_encode_eq_some_iff.mpr hid
    rw [heq, decode?_encode_eq_some_iff.mpr hother] at hread
    exact (Option.some.inj hread).symm
  · refine String.toList_inj.mp ?_
    simp [toList_encode, heq]

end InteractionBinding.InteractionId
