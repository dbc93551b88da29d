import InteractionBinding.Config.Basic
import InteractionBinding.Text.Blank
/-!
# Gates

A gate is what a list of condition names amounts to: one media query and one container query, each
the conjunction of the predicates of its kind, and one selector predicate that is checked later
against the element an effect lands on. Names that stand for no condition and blank predicates do
not count.
-/

namespace InteractionBinding

/-- The two kinds of queries that a host evaluates live. -/
inductive QueryKind where
  | media
  | container
deriving DecidableEq, Repr, Inhabited

def QueryKind.name : QueryKind → String
  | .media => "media"
  | .container => "container"

/-- A live query. -/
structure Query where
  kind : QueryKind
  text : String
deriving DecidableEq, Repr, Inhabited

/-- The predicates that are not blank, without blanks around them. -/
def nonBlank (predicates : List String) : List String :=
  (predicates.map Text.trim).filter fun predicate => !predicate.isEmpty

theorem nonBlank_append (predicates predicates' : List String) :
    nonBlank (predicates ++ predicates') = nonBlank predicates ++ nonBlank predicates' := by
  rw [nonBlank, List.map_append, List.filter_append]
  rfl

/-- The conjunction of query predicates, none if all of them are blank. -/
def combineQueries (predicates : List String) : Option String :=
  match nonBlank predicates with
  | [] => none
  | parts => some ("(" ++ ") and (".intercalate parts ++ ")")

/-- The conjunction of selector predicates, none if all of them are blank. -/
def combineSelectors (predicates : List String) : Option String :=
  match nonBlank predicates with
  | [] => none
  | parts => some (":is(" ++ "):is(".intercalate parts ++ ")")

/-- The combined evaluation of a list of condition names. -/
structure Gate where
  media : Option String
  container : Option String
  /-- Whether both queries match at the moment; true without queries. -/
  isOpen : Bool
  /-- What the element an effect lands on has to match. -/
  selectorPredicate : Option String
deriving DecidableEq, Repr

namespace Gate

/-- The gate without conditions. -/
def unconditional : Gate := ⟨none, none, true, none⟩

/-- The live queries that the gate depends on, the media query first. -/
def liveQueries (gate : Gate) : List Query :=
  gate.media.toList.map (⟨.media, ·⟩) ++ gate.container.toList.map (⟨.container, ·⟩)

/-- Whether the gate can change. -/
def isReactive (gate : Gate) : Bool := gate.media.isSome || gate.container.isSome

/-- The predicates of one kind among conditions. -/
def predicatesOf (kind : ConditionKind) (conditions : List Condition) : List String :=
  (conditions.filter fun condition => condition.kind = kind).map Condition.predicate

/-- The gate of a list of condition names, the queries being in the given state. -/
def resolve (table : KeyMap Condition) (state : Query → Bool) (names : List String) : Gate :=
  let known := names.filterMap table.get?
  let media := combineQueries (predicatesOf .media known)
  let container := combineQueries (predicatesOf .container known)
  { media := media
    container := container
    isOpen := media.all (fun text => state ⟨.media, text⟩) &&
      container.all (fun text => state ⟨.container, text⟩)
    selectorPredicate := combineSelectors (predicatesOf .selector known) }

/-- The gate of several lists of names at once. -/
def resolveAll (table : KeyMap Condition) (state : Query → Bool) (lists : List (List String)) :
    Gate :=
  resolve table state lists.flatten

@[simp]
theorem resolve_nil (table : KeyMap Condition) (state : Query → Bool) :
    resolve table state [] = unconditional := rfl

end Gate

end InteractionBinding
