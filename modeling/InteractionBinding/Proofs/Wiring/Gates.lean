import InteractionBinding.Gate
import Mathlib.Data.List.Infix
/-!
# Composing gates

The conditions of an interaction and those of an effect are evaluated as one list. The predicates of
a list are joined to one text, so the text of a list is made of the texts of its parts
(`composes_combineQueries`, `composes_combineSelectors`), and what has no predicate leaves no trace.
On a host that takes a conjunction of queries for what it says, the gate of several lists is the
conjunction of their gates (`Gate.resolveAll_composes`).

## Main definitions

* `Composes` — predicates are combined part by part.
* `Gate.Conjunctive` — a host on which conjunctions of queries match as they read.
-/

namespace InteractionBinding

/-! ### Joining terms -/

/-- Terms joined to one text, none without terms. -/
def joinTerms (glue : String) : List String → Option String
  | [] => none
  | terms => some (glue.intercalate terms)

theorem joinTerms_of_ne_nil {terms : List String} (h : terms ≠ []) (glue : String) :
    joinTerms glue terms = some (glue.intercalate terms) := by
  cases terms with
  | nil => exact absurd rfl h
  | cons term rest => rfl

theorem joinTerms_append (glue : String) (terms terms' : List String) :
    joinTerms glue (terms ++ terms') =
      (joinTerms glue terms).merge (fun text text' => text ++ glue ++ text')
        (joinTerms glue terms') := by
  by_cases h : terms = []
  · rw [h]
    exact Option.merge_none_left.symm
  by_cases h' : terms' = []
  · rw [h', List.append_nil]
    exact Option.merge_none_right.symm
  rw [joinTerms_of_ne_nil h, joinTerms_of_ne_nil h',
    joinTerms_of_ne_nil (List.append_ne_nil_of_left_ne_nil h _),
    String.intercalate_append_of_ne_nil h h', Option.merge_some_some]

/-- Joining parts by what closes one term and opens the next one joins the terms. -/
theorem intercalate_enclosed (opening closing glue part : String) (rest : List String) :
    opening ++ (closing ++ glue ++ opening).intercalate (part :: rest) ++ closing =
      glue.intercalate ((part :: rest).map fun part => opening ++ part ++ closing) := by
  induction rest generalizing part with
  | nil => simp
  | cons next rest ih =>
    rw [List.map_cons, String.intercalate_cons_cons,
      String.intercalate_cons_of_ne_nil (fun h => List.cons_ne_nil _ _ (List.map_eq_nil_iff.mp h)),
      ← ih next]
    simp only [String.append_assoc]

/-! ### Combining predicates -/

/-- A predicate as a part of a conjunction of queries. -/
def parenthesised (predicate : String) : String := "(" ++ predicate ++ ")"

theorem combineQueries_eq (predicates : List String) :
    combineQueries predicates =
      joinTerms " and " ((nonBlank predicates).map parenthesised) := by
  rw [combineQueries]
  cases nonBlank predicates with
  | nil => rfl
  | cons part rest => exact congrArg some (intercalate_enclosed "(" ")" " and " part rest)

theorem combineSelectors_eq (predicates : List String) :
    combineSelectors predicates =
      joinTerms "" ((nonBlank predicates).map fun predicate => ":is(" ++ predicate ++ ")") := by
  rw [combineSelectors]
  cases nonBlank predicates with
  | nil => rfl
  | cons part rest => exact congrArg some (intercalate_enclosed ":is(" ")" "" part rest)

theorem nonBlank_eq_nil_iff {predicates : List String} :
    nonBlank predicates = [] ↔ ∀ predicate ∈ predicates, Text.trim predicate = "" := by
  simp [nonBlank]

/-- Predicates are combined part by part, the texts of the parts being joined by `glue`. Parts
without a predicate that is not blank do not count. -/
structure Composes (combine : List String → Option String) (glue : String) : Prop where
  append (predicates predicates' : List String) :
    combine (predicates ++ predicates') =
      (combine predicates).merge (fun text text' => text ++ glue ++ text') (combine predicates')
  neutral (before blanks after : List String) :
    (∀ predicate ∈ blanks, Text.trim predicate = "") →
      combine (before ++ blanks ++ after) = combine (before ++ after)
  eq_none_iff (predicates : List String) :
    combine predicates = none ↔ ∀ predicate ∈ predicates, Text.trim predicate = ""

namespace Composes

variable {combine : List String → Option String} {glue : String}

theorem of_terms {term : String → String}
    (h : ∀ predicates, combine predicates = joinTerms glue ((nonBlank predicates).map term)) :
    Composes combine glue where
  append predicates predicates' := by
    rw [h, h, h, nonBlank_append, List.map_append, joinTerms_append]
  neutral before blanks after hblank := by
    rw [h, h, nonBlank_append, nonBlank_append, nonBlank_append, nonBlank_eq_nil_iff.mpr hblank,
      List.append_nil]
  eq_none_iff predicates := by
    rw [h, ← nonBlank_eq_nil_iff]
    cases nonBlank predicates with
    | nil => exact iff_of_true rfl rfl
    | cons part rest => exact iff_of_false (Option.some_ne_none _) (List.cons_ne_nil _ _)

theorem flatten (h : Composes combine glue) (lists : List (List String)) :
    combine lists.flatten =
      (lists.map combine).foldr (Option.merge fun text text' => text ++ glue ++ text') none := by
  induction lists with
  | nil => exact (h.eq_none_iff []).mpr fun _ hmem => absurd hmem List.not_mem_nil
  | cons predicates lists ih =>
    rw [List.flatten_cons, h.append, ih, List.map_cons, List.foldr_cons]

end Composes

theorem composes_combineQueries : Composes combineQueries " and " := .of_terms combineQueries_eq

theorem composes_combineSelectors : Composes combineSelectors "" := .of_terms combineSelectors_eq

/-! ### Gates -/

namespace Gate

variable {table : KeyMap Condition} {state : Query → Bool}

/-- The predicates of one kind that names stand for. -/
def predicatesFor (table : KeyMap Condition) (kind : ConditionKind) (names : List String) :
    List String :=
  predicatesOf kind (names.filterMap table.get?)

theorem predicatesFor_append (table : KeyMap Condition) (kind : ConditionKind)
    (names names' : List String) :
    predicatesFor table kind (names ++ names') =
      predicatesFor table kind names ++ predicatesFor table kind names' := by
  rw [predicatesFor, List.filterMap_append, predicatesOf, List.filter_append, List.map_append]
  rfl

theorem media_resolve (table : KeyMap Condition) (state : Query → Bool) (names : List String) :
    (resolve table state names).media = combineQueries (predicatesFor table .media names) :=
  rfl

theorem container_resolve (table : KeyMap Condition) (state : Query → Bool)
    (names : List String) :
    (resolve table state names).container =
      combineQueries (predicatesFor table .container names) :=
  rfl

theorem selectorPredicate_resolve (table : KeyMap Condition) (state : Query → Bool)
    (names : List String) :
    (resolve table state names).selectorPredicate =
      combineSelectors (predicatesFor table .selector names) :=
  rfl

theorem isOpen_resolve (table : KeyMap Condition) (state : Query → Bool) (names : List String) :
    (resolve table state names).isOpen =
      ((resolve table state names).media.all (fun text => state ⟨.media, text⟩) &&
        (resolve table state names).container.all fun text => state ⟨.container, text⟩) :=
  rfl

/-- The text of several lists is made of their texts. -/
theorem combine_predicatesFor_flatten {combine : List String → Option String} {glue : String}
    (h : Composes combine glue) (table : KeyMap Condition) (kind : ConditionKind)
    (lists : List (List String)) :
    combine (predicatesFor table kind lists.flatten) =
      (lists.map fun names => combine (predicatesFor table kind names)).foldr
        (Option.merge fun text text' => text ++ glue ++ text') none := by
  have hflatten : predicatesFor table kind lists.flatten =
      (lists.map (predicatesFor table kind)).flatten := by
    induction lists with
    | nil => rfl
    | cons names lists ih =>
      rw [List.flatten_cons, predicatesFor_append, ih, List.map_cons, List.flatten_cons]
  rw [hflatten, h.flatten, List.map_map]
  rfl

/-- A name that stands for no condition, or for one with a blank predicate. -/
def IsIdle (table : KeyMap Condition) (name : String) : Prop :=
  ∀ condition, table.get? name = some condition → Text.trim condition.predicate = ""

theorem trim_eq_of_isIdle {name : String} (h : IsIdle table name) (kind : ConditionKind) :
    ∀ predicate ∈ predicatesFor table kind [name], Text.trim predicate = "" := by
  intro predicate hmem
  obtain ⟨condition, hcondition, rfl⟩ := List.mem_map.mp hmem
  obtain ⟨other, hother, hget⟩ := List.mem_filterMap.mp (List.mem_filter.mp hcondition).1
  exact h condition (List.mem_singleton.mp hother ▸ hget)

/-- An idle name does not change a gate. -/
theorem resolve_idle {name : String} (h : IsIdle table name) (state : Query → Bool)
    (before after : List String) :
    resolve table state (before ++ name :: after) = resolve table state (before ++ after) := by
  have hpredicates (kind : ConditionKind) :
      predicatesFor table kind (before ++ name :: after) =
        predicatesFor table kind before ++ predicatesFor table kind [name] ++
          predicatesFor table kind after := by
    rw [← predicatesFor_append, ← predicatesFor_append, List.append_assoc, List.singleton_append]
  have hqueries (kind : ConditionKind) :
      combineQueries (predicatesFor table kind (before ++ name :: after)) =
        combineQueries (predicatesFor table kind (before ++ after)) := by
    rw [hpredicates, composes_combineQueries.neutral _ _ _ (trim_eq_of_isIdle h kind),
      predicatesFor_append]
  have hselectors :
      combineSelectors (predicatesFor table .selector (before ++ name :: after)) =
        combineSelectors (predicatesFor table .selector (before ++ after)) := by
    rw [hpredicates, composes_combineSelectors.neutral _ _ _ (trim_eq_of_isIdle h .selector),
      predicatesFor_append]
  simp only [predicatesFor] at hqueries hselectors
  simp only [resolve, hqueries, hselectors]

/-- A host on which a combined query matches exactly if each of its parenthesised parts does. -/
def Conjunctive (state : Query → Bool) : Prop :=
  ∀ kind predicates text, combineQueries predicates = some text →
    state ⟨kind, text⟩ =
      (nonBlank predicates).all fun predicate => state ⟨kind, parenthesised predicate⟩

theorem Conjunctive.all_combineQueries (h : Conjunctive state) (kind : QueryKind)
    (predicates : List String) :
    (combineQueries predicates).all (fun text => state ⟨kind, text⟩) =
      (nonBlank predicates).all fun predicate => state ⟨kind, parenthesised predicate⟩ := by
  cases htext : combineQueries predicates with
  | none =>
    have hblank := nonBlank_eq_nil_iff.mpr ((composes_combineQueries.eq_none_iff _).mp htext)
    rw [hblank]
    rfl
  | some text => exact h kind predicates text htext

theorem Conjunctive.isOpen_append (h : Conjunctive state) (table : KeyMap Condition)
    (names names' : List String) :
    (resolve table state (names ++ names')).isOpen =
      ((resolve table state names).isOpen && (resolve table state names').isOpen) := by
  simp only [isOpen_resolve, media_resolve, container_resolve, h.all_combineQueries,
    predicatesFor_append, nonBlank_append, List.all_append]
  ac_rfl

theorem Conjunctive.isOpen_resolveAll (h : Conjunctive state) (table : KeyMap Condition)
    (lists : List (List String)) :
    (resolveAll table state lists).isOpen = (lists.map (resolve table state)).all isOpen := by
  induction lists with
  | nil => rfl
  | cons names lists ih =>
    rw [resolveAll] at ih ⊢
    rw [List.flatten_cons, h.isOpen_append, ih, List.map_cons, List.all_cons]

theorem isSome_foldr_merge (f : String → String → String) (texts : List (Option String)) :
    (texts.foldr (Option.merge f) none).isSome = texts.any Option.isSome := by
  induction texts with
  | nil => rfl
  | cons text texts ih =>
    rw [List.foldr_cons, List.any_cons, ← ih]
    cases text <;> cases texts.foldr (Option.merge f) none <;> rfl

/-- Predicates are combined part by part, and names that are unknown or have blank predicates do not
count. On a host that matches a conjunction of queries if all of its parts match, several lists of
names have an open gate exactly if each of them has one. They have a query of a kind if one of them
has, and all of their selector predicates. -/
theorem resolveAll_composes (table : KeyMap Condition) :
    Composes combineQueries " and " ∧ Composes combineSelectors "" ∧
      (∀ (state : Query → Bool) (before after : List String) (name : String), IsIdle table name →
        resolve table state (before ++ name :: after) = resolve table state (before ++ after)) ∧
      ∀ state, Conjunctive state → ∀ lists,
        let gates := lists.map (resolve table state)
        let whole := resolveAll table state lists
        whole.isOpen = gates.all isOpen ∧
          whole.media.isSome = gates.any (fun gate => gate.media.isSome) ∧
          whole.container.isSome = gates.any (fun gate => gate.container.isSome) ∧
          whole.selectorPredicate =
            (gates.map selectorPredicate).foldr (Option.merge (· ++ ·)) none := by
  refine ⟨composes_combineQueries, composes_combineSelectors,
    fun state before after name hidle => resolve_idle hidle state before after,
    fun state hstate lists => ⟨hstate.isOpen_resolveAll table lists, ?_, ?_, ?_⟩⟩
  · rw [resolveAll, media_resolve, combine_predicatesFor_flatten composes_combineQueries,
      isSome_foldr_merge, List.any_map, List.any_map]
    rfl
  · rw [resolveAll, container_resolve, combine_predicatesFor_flatten composes_combineQueries,
      isSome_foldr_merge, List.any_map, List.any_map]
    rfl
  · rw [resolveAll, selectorPredicate_resolve,
      combine_predicatesFor_flatten composes_combineSelectors, List.map_map]
    simp only [String.append_empty]
    rfl

/-! ### A screen -/

/-- A word without a character that stands between two texts is found in one of them. -/
theorem infix_append_cons_iff {word text text' : List Char} {c : Char} (h : c ∉ word) :
    word <:+: text ++ c :: text' ↔ word <:+: text ∨ word <:+: text' := by
  constructor
  · intro hinfix
    rcases List.infix_append_iff_ne_nil.mp hinfix with
      hfirst | hsecond | ⟨front, back, -, hne, rfl, -, hback⟩
    · exact .inl hfirst
    · rcases List.infix_cons_iff.mp hsecond with hstart | hsecond
      · cases word with
        | nil => exact .inl (List.nil_infix)
        | cons first rest =>
          have hfirst : first = c := (List.cons_prefix_cons.mp hstart).1
          exact absurd (hfirst ▸ List.mem_cons_self) h
      · exact .inr hsecond
    · obtain ⟨first, rest, rfl⟩ := List.exists_cons_of_ne_nil hne
      have hfirst : first = c := (List.cons_prefix_cons.mp hback).1
      exact absurd (hfirst ▸ List.mem_append_right front List.mem_cons_self) h
  · rintro (hfirst | hsecond)
    · exact List.infix_append_of_infix_left hfirst
    · exact List.infix_append_of_infix_right (List.infix_cons hsecond)

/-- The state of queries on a screen: containers are as wanted, and media queries match unless they
ask for print. -/
def onScreen (query : Query) : Bool :=
  query.kind = .container || !decide ("print".toList <:+: query.text.toList)

/-- A conjunction asks for print if one of its parts does. -/
theorem print_infix_intercalate_iff (terms : List String) :
    "print".toList <:+: (" and ".intercalate terms).toList ↔
      ∃ term ∈ terms, "print".toList <:+: term.toList := by
  induction terms with
  | nil => exact iff_of_false (by decide) (by simp)
  | cons term rest ih =>
    by_cases hrest : rest = []
    · simp [hrest]
    · have hglue : (" and ".intercalate (term :: rest)).toList =
          term.toList ++ ' ' :: ("and".toList ++ ' ' :: (" and ".intercalate rest).toList) := by
        rw [String.intercalate_cons_of_ne_nil hrest, String.toList_append, String.toList_append,
          List.append_assoc]
        rfl
      have hand : ¬"print".toList <:+: "and".toList := by decide
      rw [hglue, infix_append_cons_iff (by decide), infix_append_cons_iff (by decide),
        or_iff_right hand, ih]
      simp only [List.mem_cons, or_and_right, exists_or, exists_eq_left]

theorem conjunctive_onScreen : Conjunctive onScreen := by
  intro kind predicates text htext
  cases kind with
  | container => simp [onScreen]
  | media =>
    have hterms : (nonBlank predicates).map parenthesised ≠ [] := fun hnil => by
      rw [combineQueries_eq, hnil] at htext
      exact Option.some_ne_none _ htext.symm
    rw [combineQueries_eq, joinTerms_of_ne_nil hterms] at htext
    have hscreen (text : String) :
        onScreen ⟨.media, text⟩ = true ↔ ¬"print".toList <:+: text.toList := by simp [onScreen]
    rw [← Option.some.inj htext, Bool.eq_iff_iff, hscreen, print_infix_intercalate_iff,
      List.all_eq_true]
    simp only [hscreen, List.mem_map, not_exists, not_and, forall_exists_index, and_imp,
      forall_apply_eq_imp_iff₂]

/-- On a screen, print closes the gate of an effect that is open for its interaction. -/
theorem resolveAll_composes_print :
    let table : KeyMap Condition := .ofList [("wide", ⟨.media, "min-width: 800px"⟩),
      ("paper", ⟨.media, " print "⟩), ("blank", ⟨.container, "\t"⟩), ("on", ⟨.selector, ".on"⟩)]
    IsIdle table "blank" ∧ Conjunctive onScreen ∧
      (resolveAll table onScreen [["wide"], ["on", "paper"]]).media =
        some "(min-width: 800px) and (print)" ∧
      (resolve table onScreen ["wide"]).isOpen = true ∧
      (resolveAll table onScreen [["wide"], ["on", "paper"]]).isOpen = false ∧
      resolve table onScreen ["wide", "blank"] = resolve table onScreen ["wide"] := by
  intro table
  have hidle : IsIdle table "blank" := fun condition hget => by
    have hblank : table.get? "blank" = some ⟨.container, "\t"⟩ := by decide
    rw [← Option.some.inj (hblank.symm.trans hget)]
    decide
  obtain ⟨-, -, hignored, hgates⟩ := resolveAll_composes table
  obtain ⟨hopen, -⟩ := hgates onScreen conjunctive_onScreen [["wide"], ["on", "paper"]]
  exact ⟨hidle, conjunctive_onScreen, by decide, by decide, hopen.trans (by decide),
    hignored onScreen ["wide"] [] "blank" hidle⟩

end Gate

end InteractionBinding
