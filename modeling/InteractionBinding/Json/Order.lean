import InteractionBinding.Json.Basic
/-!
# The order of JSON rows

Rows of values are compared position by position: texts by code points, integers by value and
everything else as equal. A row comes before the rows that it begins.
-/

namespace InteractionBinding.Json

/-- How two values of a column compare. -/
def compareCells : Json → Json → Ordering
  | .string a, .string b => compare a b
  | .number (.integer a), .number (.integer b) => compare a b
  | _, _ => .eq

/-- How two rows compare. -/
def compareRows : List Json → List Json → Ordering
  | [], [] => .eq
  | [], _ :: _ => .lt
  | _ :: _, [] => .gt
  | a :: rest, b :: others => (compareCells a b).then (compareRows rest others)

/-- Sorts rows; equal rows keep their order. -/
def sortRows (rows : List (List Json)) : List (List Json) :=
  rows.mergeSort fun a b => (compareRows a b).isLE

end InteractionBinding.Json
