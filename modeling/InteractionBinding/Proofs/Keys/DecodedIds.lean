import InteractionBinding.Proofs.Keys.Indices
import InteractionBinding.Proofs.Keys.InteractionIds
/-!
# Ids that are read from texts

A text is read as an id if it is cut into a target, an effect id and a numeral
(`decode?_written_iff`): the cuts are the last two separators, and the numeral may have a plus sign
and leading zeros. These are lost when the id is written again, so the written form is the text
exactly if the numeral is the canonical one, and the id is read from it in either case.

## Main definitions

* `InteractionId.Denotes` — the numerals of a number.
* `InteractionId.separatorCount` — how many separators are found one behind the other.
* `InteractionId.IsLastPart` — what stands behind the last separator.
-/

namespace InteractionBinding.InteractionId

open KeyTemplate (IsNumeral)

variable {s front rest numeral : List Char} {n : Nat}

/-! ### Numerals -/

/-- A numeral denotes the number whose digits it ends with. Zeros may stand before them, and one
plus sign before these. -/
inductive Denotes : List Char → Nat → Prop
  | unsigned (zeros n : Nat) : Denotes (List.replicate zeros '0' ++ Nat.toDigits 10 n) n
  | signed (zeros n : Nat) : Denotes ('+' :: (List.replicate zeros '0' ++ Nat.toDigits 10 n)) n

theorem toDigits_digit {c : Char} (h : c.isDigit = true) :
    c.toNat - '0'.toNat < 10 ∧ Nat.toDigits 10 (c.toNat - '0'.toNat) = [c] := by
  have hbounds : 48 ≤ c.toNat ∧ c.toNat ≤ 57 := Char.isDigit_iff_toNat.mp h
  have hzero : '0'.toNat = 48 := rfl
  have hlt : c.toNat - '0'.toNat < 10 := by omega
  refine ⟨hlt, ?_⟩
  rw [Nat.toDigits_of_lt_base hlt, List.cons.injEq, ← Char.toNat_inj,
    Nat.toNat_digitChar_of_lt_ten hlt]
  exact ⟨by omega, rfl⟩

/-- Digits behind those of a positive number continue them. -/
theorem toDigits_append (hn : 0 < n) (h : ∀ c ∈ s, c.isDigit = true) :
    Nat.toDigits 10 n ++ s = Nat.toDigits 10 (Nat.ofDigitChars 10 s n) := by
  induction s generalizing n with
  | nil => simp
  | cons c rest ih =>
    obtain ⟨hlt, hdigit⟩ := toDigits_digit (h c List.mem_cons_self)
    calc Nat.toDigits 10 n ++ c :: rest
        = Nat.toDigits 10 n ++ Nat.toDigits 10 (c.toNat - '0'.toNat) ++ rest := by
          rw [hdigit, List.append_assoc, List.singleton_append]
      _ = Nat.toDigits 10 (10 * n + (c.toNat - '0'.toNat)) ++ rest := by
          rw [Nat.toDigits_append_toDigits (by decide) hn hlt]
      _ = Nat.toDigits 10 (Nat.ofDigitChars 10 (c :: rest) n) := by
          rw [ih (by omega) fun d hd => h d (List.mem_cons_of_mem _ hd), Nat.ofDigitChars_cons]

/-- Behind its leading zeros, a numeral has the digits of its value. -/
theorem exists_zeros (h : IsNumeral s) :
    ∃ zeros, s = List.replicate zeros '0' ++ Nat.toDigits 10 (digitsValue s) := by
  obtain ⟨hne, hdigits⟩ := h
  rw [digitsValue, ← Nat.ofDigitChars_eq_foldl]
  induction s with
  | nil => exact absurd rfl hne
  | cons c rest ih =>
    have hrest : ∀ d ∈ rest, d.isDigit = true := fun d hd => hdigits d (List.mem_cons_of_mem _ hd)
    obtain ⟨hlt, hdigit⟩ := toDigits_digit (hdigits c List.mem_cons_self)
    rw [Nat.ofDigitChars_cons, Nat.mul_zero, Nat.zero_add]
    -- a zero in front is one of the leading ones, unless it is all that there is
    by_cases hzero : c.toNat - '0'.toNat = 0
    · rw [hzero] at hdigit ⊢
      obtain rfl : c = '0' := (List.cons.inj hdigit).1.symm
      by_cases hempty : rest = []
      · exact ⟨0, by rw [hempty]; rfl⟩
      · obtain ⟨zeros, hzeros⟩ := ih hempty hrest
        exact ⟨zeros + 1, by rw [List.replicate_succ, List.cons_append, ← hzeros]⟩
    · refine ⟨0, ?_⟩
      rw [← toDigits_append (Nat.pos_of_ne_zero hzero) hrest, hdigit]
      rfl

theorem isNumeral_zeros_append (zeros n : Nat) :
    IsNumeral (List.replicate zeros '0' ++ Nat.toDigits 10 n) where
  ne_nil := List.append_ne_nil_of_right_ne_nil _ Nat.toDigits_ne_nil
  isDigit c hc := by
    rcases List.mem_append.mp hc with hc | hc
    · rw [List.eq_of_mem_replicate hc]
      rfl
    · exact Nat.isDigit_of_mem_toDigits (by decide) (by decide) hc

theorem digitsValue_zeros_append (zeros n : Nat) :
    digitsValue (List.replicate zeros '0' ++ Nat.toDigits 10 n) = n := by
  rw [digitsValue, ← Nat.ofDigitChars_eq_foldl, Nat.ofDigitChars_append,
    Nat.ofDigitChars_replicate_zero, Nat.mul_zero, Nat.ofDigitChars_ten_toDigits]

theorem denotes_iff : Denotes numeral n ↔
    ∃ digits, IsNumeral digits ∧ digitsValue digits = n ∧
      (numeral = digits ∨ numeral = '+' :: digits) := by
  constructor
  · rintro (⟨zeros, n⟩ | ⟨zeros, n⟩)
    · exact ⟨_, isNumeral_zeros_append zeros n, digitsValue_zeros_append zeros n, .inl rfl⟩
    · exact ⟨_, isNumeral_zeros_append zeros n, digitsValue_zeros_append zeros n, .inr rfl⟩
  · rintro ⟨digits, hdigits, rfl, hnumeral⟩
    obtain ⟨zeros, hzeros⟩ := exists_zeros hdigits
    rcases hnumeral with rfl | rfl
    · have hdenotes := Denotes.unsigned zeros (digitsValue numeral)
      rwa [← hzeros] at hdenotes
    · have hdenotes := Denotes.signed zeros (digitsValue digits)
      rwa [← hzeros] at hdenotes

theorem Denotes.not_mem_colon (h : Denotes numeral n) : ':' ∉ numeral := by
  obtain ⟨digits, hdigits, -, rfl | rfl⟩ := denotes_iff.mp h
  · exact hdigits.not_mem rfl
  · exact List.not_mem_cons_of_ne_of_not_mem (by decide) (hdigits.not_mem rfl)

theorem isNumeral_iff : IsNumeral s ↔ (s.isEmpty || !s.all Char.isDigit) = false := by
  rw [Bool.or_eq_false_iff, Bool.not_eq_false', List.all_eq_true, List.isEmpty_eq_false_iff]
  exact ⟨fun h => ⟨h.ne_nil, h.isDigit⟩, fun h => ⟨h.1, h.2⟩⟩

/-- A numeral is read if it denotes a number up to the largest index. -/
theorem parseIndex?_eq_some_iff :
    parseIndex? numeral = some n ↔ Denotes numeral n ∧ n ≤ maxIndex := by
  have hread (digits : List Char) :
      (if digits.isEmpty || !digits.all Char.isDigit then none
        else if digitsValue digits ≤ maxIndex then some (digitsValue digits) else none) = some n ↔
      IsNumeral digits ∧ digitsValue digits = n ∧ n ≤ maxIndex := by
    rw [isNumeral_iff, Option.ite_none_left_eq_some, Option.ite_none_right_eq_some,
      Option.some.injEq, Bool.not_eq_true]
    exact and_congr_right fun _ => ⟨fun ⟨hle, heq⟩ => ⟨heq, heq ▸ hle⟩, fun ⟨heq, hle⟩ =>
      ⟨heq ▸ hle, heq⟩⟩
  rw [denotes_iff]
  unfold parseIndex?
  split
  next rest =>
    rw [hread]
    constructor
    · rintro ⟨hdigits, hvalue, hle⟩
      exact ⟨⟨rest, hdigits, hvalue, .inr rfl⟩, hle⟩
    · rintro ⟨⟨digits, hdigits, hvalue, rfl | heq⟩, hle⟩
      · exact absurd List.mem_cons_self (hdigits.not_mem (by decide : '+'.isDigit = false))
      · rw [(List.cons.inj heq).2]
        exact ⟨hdigits, hvalue, hle⟩
  next hplus =>
    rw [hread]
    constructor
    · rintro ⟨hdigits, hvalue, hle⟩
      exact ⟨⟨numeral, hdigits, hvalue, .inl rfl⟩, hle⟩
    · rintro ⟨⟨digits, hdigits, hvalue, rfl | heq⟩, hle⟩
      · exact ⟨hdigits, hvalue, hle⟩
      · exact absurd heq (hplus digits)

/-! ### Separators from the right -/

/-- The number of separators in a text, found from the left and one behind the other. -/
def separatorCount : List Char → Nat
  | ':' :: ':' :: rest => separatorCount rest + 1
  | _ :: rest => separatorCount rest
  | [] => 0

/-- A text stands behind the last separator of another one. -/
def IsLastPart (s last : List Char) : Prop :=
  ∃ front, s = front ++ ':' :: ':' :: last ∧ ¬HasSeparator (':' :: last)

theorem separatorCount_eq (s : List Char) :
    separatorCount s = ((cutSeparator? s).map fun cut => separatorCount cut.2 + 1).getD 0 := by
  fun_induction cutSeparator? s with
  | case1 => rfl
  | case2 rest => rfl
  | case3 c rest hno ih =>
    rw [separatorCount, ih, Option.map_map]
    · rfl
    · exact hno

theorem separatorCount_eq_zero_iff : separatorCount s = 0 ↔ cutSeparator? s = none := by
  rw [separatorCount_eq]
  cases cutSeparator? s <;> simp

/-- Read from the right, a text is cut at its last separator. -/
theorem cutSeparator?_reverse :
    cutSeparator? s.reverse = some (rest, front) ↔
      s = front.reverse ++ ':' :: ':' :: rest.reverse ∧ ¬HasSeparator (':' :: rest.reverse) := by
  rw [cutSeparator?_eq_some_iff, ← hasSeparator_reverse, List.reverse_append,
    List.reverse_singleton, List.singleton_append, List.reverse_eq_iff]
  simp

theorem isLastPart_iff {last : List Char} :
    IsLastPart s last ↔ ∃ front, cutSeparator? s.reverse = some (last.reverse, front) := by
  constructor
  · rintro ⟨front, heq, hlast⟩
    exact ⟨front.reverse, cutSeparator?_reverse.mpr (by simpa using ⟨heq, hlast⟩)⟩
  · rintro ⟨front, hcut⟩
    exact ⟨front.reverse, by simpa using cutSeparator?_reverse.mp hcut⟩

/-! ### Reading -/

/-- The written form of an id, with a numeral in the place of its index. -/
def written (id : InteractionId) (numeral : List Char) : List Char :=
  id.target.toList ++ ':' :: ':' :: id.effectId.toList ++ ':' :: ':' :: numeral

theorem encode_eq_iff {id : InteractionId} {s : String} (h : s.toList = id.written numeral) :
    id.encode = s ↔ numeral = Nat.toDigits 10 id.index := by
  rw [← String.toList_inj, toList_encode, h, written]
  simp [eq_comm]

theorem decode?_eq_some_iff_cuts {s : String} {id : InteractionId} :
    decode? s = some id ↔ ∃ numeral front effectId target,
      cutSeparator? s.toList.reverse = some (numeral, front) ∧
        cutSeparator? front = some (effectId, target) ∧
          parseIndex? numeral.reverse = some id.index ∧
            effectId = id.effectId.toList.reverse ∧ target = id.target.toList.reverse := by
  simp only [decode?, Option.bind_eq_bind, Option.bind_eq_some_iff, Prod.exists, Option.pure_def,
    Option.some.injEq]
  constructor
  · rintro ⟨numeral, front, hnumeral, effectId, target, hfront, index, hindex, rfl⟩
    exact ⟨numeral, front, effectId, target, hnumeral, hfront, hindex, by simp, by simp⟩
  · rintro ⟨numeral, front, effectId, target, hnumeral, hfront, hindex, rfl, rfl⟩
    exact ⟨numeral, front, hnumeral, _, _, hfront, id.index, hindex, by simp⟩

/-- The cut in front of an effect id falls there if the id is not divided and does not begin with a
colon. -/
theorem not_hasSeparator_effectId {id : InteractionId} :
    ¬HasSeparator (id.effectId.toList.reverse ++ [':']) ↔
      ¬HasSeparator id.effectId.toList ∧ id.effectId.toList.head? ≠ some ':' := by
  rw [hasSeparator_append_colon, hasSeparator_reverse, List.getLast?_reverse, not_or]

theorem decode?_eq_some_iff {s : String} {id : InteractionId} :
    decode? s = some id ↔ id.IsDecodable ∧
      ∃ numeral, Denotes numeral id.index ∧ s.toList = id.written numeral := by
  rw [decode?_eq_some_iff_cuts]
  constructor
  · rintro ⟨numeral, front, effectId, target, hnumeral, hfront, hindex, rfl, rfl⟩
    obtain ⟨hdenotes, hbounded⟩ := parseIndex?_eq_some_iff.mp hindex
    obtain ⟨rfl, heffect⟩ := cutSeparator?_eq_some_iff.mp hfront
    obtain ⟨hundivided, hhead⟩ := not_hasSeparator_effectId.mp heffect
    refine ⟨⟨hundivided, hhead, hbounded⟩, numeral.reverse, hdenotes, ?_⟩
    rw [(cutSeparator?_reverse.mp hnumeral).1, written]
    simp
  · rintro ⟨hid, numeral, hdenotes, hs⟩
    have hcolon : ':' ∉ numeral := hdenotes.not_mem_colon
    have hlast : ¬HasSeparator (':' :: numeral) := by
      rw [hasSeparator_cons, not_or, not_and]
      exact ⟨fun _ hhead => hcolon (List.mem_of_head? hhead), not_hasSeparator_of_not_mem hcolon⟩
    refine ⟨numeral.reverse, id.effectId.toList.reverse ++ ':' :: ':' :: id.target.toList.reverse,
      _, _, cutSeparator?_reverse.mpr ?_,
      cutSeparator?_eq_some_iff.mpr ⟨rfl, not_hasSeparator_effectId.mpr ⟨hid.undivided, hid.head⟩⟩,
      ?_, rfl, rfl⟩
    · rw [List.reverse_reverse]
      exact ⟨by simp [hs, written], hlast⟩
    · rw [List.reverse_reverse]
      exact parseIndex?_eq_some_iff.mpr ⟨hdenotes, hid.bounded⟩

theorem parseIndex?_eq_none_iff :
    parseIndex? numeral = none ↔ ∀ n ≤ maxIndex, ¬Denotes numeral n := by
  rw [Option.eq_none_iff_forall_ne_some]
  refine forall_congr' fun n => ?_
  rw [ne_eq, parseIndex?_eq_some_iff, not_and']

/-- A text with a cut has one last part. -/
theorem exists_isLastPart_iff {p : List Char → Prop}
    (h : cutSeparator? s.reverse = some (rest, front)) :
    (∃ last, IsLastPart s last ∧ p last) ↔ p rest.reverse := by
  simp only [isLastPart_iff, h, Option.some.injEq, Prod.mk.injEq]
  constructor
  · rintro ⟨last, ⟨_, hlast, -⟩, hp⟩
    rwa [hlast, List.reverse_reverse]
  · exact fun hp => ⟨rest.reverse, ⟨front, (List.reverse_reverse rest).symm, rfl⟩, hp⟩

theorem decode?_eq_none_iff {s : String} :
    decode? s = none ↔ separatorCount s.toList.reverse < 2 ∨
      ∃ last, IsLastPart s.toList last ∧ ∀ n ≤ maxIndex, ¬Denotes last n := by
  simp only [← parseIndex?_eq_none_iff, decode?]
  cases hlast : cutSeparator? s.toList.reverse with
  | none => simp [separatorCount_eq_zero_iff.mpr hlast]
  | some cut =>
    obtain ⟨numeral, front⟩ := cut
    have hcount : separatorCount s.toList.reverse = separatorCount front + 1 := by
      rw [separatorCount_eq, hlast]
      rfl
    rw [hcount, exists_isLastPart_iff hlast]
    cases hfront : cutSeparator? front with
    | none => simp [separatorCount_eq_zero_iff.mpr hfront, hfront]
    | some cut =>
      have hmany : separatorCount front ≠ 0 := by
        rw [ne_eq, separatorCount_eq_zero_iff, hfront]
        exact Option.some_ne_none cut
      have hnot : ¬separatorCount front + 1 < 2 := by omega
      cases hparse : parseIndex? numeral.reverse <;> simp [hfront, hnot, hparse]

/-- A text is read as an id exactly if it is made of the target, of an effect id that neither holds
a separator nor begins with a colon, and of a numeral of an index within bounds; it is the written
form of the id exactly if the numeral is canonical. The id is read from its written form again. A
text is read as no id exactly if it has fewer than two separators, counted from the right, or a last
part that is no numeral of an index within bounds. -/
theorem decode?_written_iff (s : String) :
    (∀ id, decode? s = some id ↔ id.IsDecodable ∧ ∃ numeral, Denotes numeral id.index ∧
      s.toList = id.target.toList ++ ':' :: ':' :: id.effectId.toList ++ ':' :: ':' :: numeral ∧
      (id.encode = s ↔ numeral = Nat.toDigits 10 id.index)) ∧
    (∀ id, decode? s = some id → decode? id.encode = some id) ∧
    (decode? s = none ↔ separatorCount s.toList.reverse < 2 ∨
      ∃ last, IsLastPart s.toList last ∧ ∀ n ≤ maxIndex, ¬Denotes last n) := by
  refine ⟨fun id => ?_, fun id hid => ?_, decode?_eq_none_iff⟩
  · rw [decode?_eq_some_iff]
    refine and_congr_right fun _ => exists_congr fun numeral => and_congr_right fun _ => ?_
    exact ⟨fun hs => ⟨hs, encode_eq_iff hs⟩, fun hs => hs.1⟩
  · exact decode?_encode_eq_some_iff.mpr (decode?_eq_some_iff.mp hid).1

theorem decode?_written_iff_fade :
    decode? "grid:::fade::+007" = some ⟨"grid:", "fade", 7⟩ ∧
      encode ⟨"grid:", "fade", 7⟩ ≠ "grid:::fade::+007" ∧
      decode? (encode ⟨"grid:", "fade", 7⟩) = some ⟨"grid:", "fade", 7⟩ := by
  have hread : decode? "grid:::fade::+007" = some ⟨"grid:", "fade", 7⟩ := by decide
  exact ⟨hread, by decide, (decode?_written_iff _).2.1 _ hread⟩

end InteractionBinding.InteractionId
