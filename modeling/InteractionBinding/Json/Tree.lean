import InteractionBinding.Json.Basic
/-!
# JSON documents as they stand in a text

A `Json.Tree` keeps what a reader meets from left to right: the members of objects in their order,
repeated ones included, and the places where the text stops being JSON. A conversion that walks the
tree in this order meets a member of the wrong shape before a fault of the text behind it.

There are two degrees of soundness. `Tree.isSound` says that the text of the tree is well formed,
so that it can be passed over; `Tree.toJson?` asks in addition that its numbers are in range,
its strings are Unicode text and its containers are not nested too deeply.
-/

namespace InteractionBinding.Json

/-- A JSON document in the order of its text. -/
inductive Tree where
  | null
  | bool (value : Bool)
  | number (value : Number)
  | string (value : String)
  /-- An array; unless `closed`, the text is at fault behind the last item. -/
  | array (items : List Tree) (closed : Bool)
  /-- An object; unless `closed`, the text is at fault behind the last member. A name that is not
  Unicode text is `none`. -/
  | object (entries : List (Option String × Tree)) (closed : Bool)
  /-- Well formed text without a value: a number out of range, a string that is not Unicode text or
  a container nested too deeply. -/
  | valueless
  /-- The text is at fault here. -/
  | broken
deriving Repr, Inhabited

namespace Tree

mutual

/-- Whether the text of the tree is well formed throughout. -/
def isSound : Tree → Bool
  | .array items closed => itemsSound items && closed
  | .object entries closed => membersSound entries && closed
  | .broken => false
  | _ => true

/-- Whether the texts of all items are well formed. -/
def itemsSound : List Tree → Bool
  | [] => true
  | item :: rest => item.isSound && itemsSound rest

/-- Whether the texts of all members are well formed. -/
def membersSound : List (Option String × Tree) → Bool
  | [] => true
  | (_, value) :: rest => value.isSound && membersSound rest

end

mutual

/-- The value of a tree that has one throughout. -/
def toJson? : Tree → Option Json
  | .null => some .null
  | .bool value => some (.bool value)
  | .number value => some (.number value)
  | .string value => some (.string value)
  | .array items closed =>
    if closed then (itemsToJson? items).map .array else none
  | .object entries closed =>
    if closed then (membersToJson? entries).map Json.object else none
  | .valueless => none
  | .broken => none

/-- The values of the items. -/
def itemsToJson? : List Tree → Option (List Json)
  | [] => some []
  | item :: rest => do
    let value ← item.toJson?
    return value :: (← itemsToJson? rest)

/-- The names and values of the members. -/
def membersToJson? : List (Option String × Tree) → Option (List (String × Json))
  | [] => some []
  | (name, value) :: rest => do
    let name ← name
    let value ← value.toJson?
    return (name, value) :: (← membersToJson? rest)

end

mutual

/-- The tree of a value. -/
def ofJson : Json → Tree
  | .null => .null
  | .bool value => .bool value
  | .number value => .number value
  | .string value => .string value
  | .array items => .array (itemsOfJson items) true
  | .members fields => .object (membersOfJson fields) true

/-- The trees of the items of an array. -/
def itemsOfJson : List Json → List Tree
  | [] => []
  | item :: rest => ofJson item :: itemsOfJson rest

/-- The trees of the members of an object. -/
def membersOfJson : List (String × Json) → List (Option String × Tree)
  | [] => []
  | (name, value) :: rest => (some name, ofJson value) :: membersOfJson rest

end

end Tree

end InteractionBinding.Json
