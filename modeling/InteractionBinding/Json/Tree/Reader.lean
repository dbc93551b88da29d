import InteractionBinding.Json.Tree
/-!
# Reading JSON text

`Json.Reading.ofText` reads a text into a tree and never fails: a fault of the text becomes part of
the tree, and nothing behind it is read. Blanks are the four of JSON, control characters do not
stand in strings, and containers have values up to `maxNesting` levels of nesting.
-/

namespace InteractionBinding.Json

/-- What is read of a text: its first value, and whether something else than blanks follows it. -/
structure Reading where
  tree : Tree
  trailing : Bool

namespace Reading

/-- A container within this many others, or more, has no value. -/
def maxNesting : Nat := 127

def isJsonBlank (c : Char) : Bool := c = ' ' || c = '\n' || c = '\t' || c = '\r'

def skipBlanks (cs : List Char) : List Char := cs.dropWhile isJsonBlank

/-- The value of a hexadecimal digit. -/
def hexValue? (c : Char) : Option Nat :=
  if '0' ≤ c ∧ c ≤ '9' then some (c.toNat - '0'.toNat)
  else if 'a' ≤ c ∧ c ≤ 'f' then some (c.toNat - 'a'.toNat + 10)
  else if 'A' ≤ c ∧ c ≤ 'F' then some (c.toNat - 'A'.toNat + 10)
  else none

/-- The number written by four hexadecimal digits. -/
def hexUnit? (a b c d : Char) : Option Nat := do
  return 4096 * (← hexValue? a) + 256 * (← hexValue? b) + 16 * (← hexValue? c) + (← hexValue? d)

def isHighSurrogate (unit : Nat) : Bool := 0xD800 ≤ unit && unit ≤ 0xDBFF

def isLowSurrogate (unit : Nat) : Bool := 0xDC00 ≤ unit && unit ≤ 0xDFFF

/-- The character that stands for itself or a control character after a backslash. -/
def simpleEscape? : Char → Option Char
  | '"' => some '"'
  | '\\' => some '\\'
  | '/' => some '/'
  | 'b' => some '\x08'
  | 'f' => some '\x0c'
  | 'n' => some '\n'
  | 'r' => some '\r'
  | 't' => some '\t'
  | _ => none

/-- A low surrogate at the start of a text, written as an escape. -/
def lowSurrogate? : List Char → Option (Nat × List Char)
  | '\\' :: 'u' :: a :: b :: c :: d :: rest => do
    let unit ← hexUnit? a b c d
    if isLowSurrogate unit then return (unit, rest) else none
  | _ => none

theorem length_lt_of_lowSurrogate? {cs rest : List Char} {unit : Nat}
    (h : lowSurrogate? cs = some (unit, rest)) : rest.length < cs.length := by
  unfold lowSurrogate? at h
  split at h
  next a b c d tail =>
    obtain ⟨u, -, hu⟩ := Option.bind_eq_some_iff.mp h
    split at hu
    · obtain ⟨-, rfl⟩ := Prod.mk.inj (Option.some.inj hu)
      simp only [List.length_cons]
      omega
    · cases hu
  next => cases h

/-- Reads the rest of a string behind its opening quote. The answer is none at a fault; its text is
none when a surrogate stands alone. `done` holds the characters read so far, the last one first, or
none once a surrogate stood alone. -/
def readString (done : Option (List Char)) : List Char → Option (Option String × List Char)
  | [] => none
  | '"' :: rest => some (done.map fun cs => String.ofList cs.reverse, rest)
  | '\\' :: 'u' :: a :: b :: c :: d :: rest =>
    match hexUnit? a b c d with
    | none => none
    | some unit =>
      if isHighSurrogate unit then
        match h : lowSurrogate? rest with
        | some (low, after) =>
          have := length_lt_of_lowSurrogate? h
          let point := 0x10000 + (unit - 0xD800) * 0x400 + (low - 0xDC00)
          readString (done.map (Char.ofNat point :: ·)) after
        | none => readString none rest
      else if isLowSurrogate unit then readString none rest
      else readString (done.map (Char.ofNat unit :: ·)) rest
  | '\\' :: c :: rest =>
    match simpleEscape? c with
    | some c => readString (done.map (c :: ·)) rest
    | none => none
  | c :: rest =>
    if c.toNat < 32 || c = '\\' then none else readString (done.map (c :: ·)) rest
termination_by cs => cs.length

/-- Removes a word at the start of a text. -/
def dropWord? : List Char → List Char → Option (List Char)
  | [], cs => some cs
  | w :: word, c :: cs => if w = c then dropWord? word cs else none
  | _ :: _, [] => none

/-- Reads a literal name. -/
def readWord (word : String) (tree : Tree) (cs : List Char) : Tree × Option (List Char) :=
  match dropWord? word.toList cs with
  | some rest => (tree, some rest)
  | none => (.broken, none)

/-- Reads a number. -/
def readNumber (cs : List Char) : Tree × Option (List Char) :=
  match NumberText.read? cs with
  | none => (.broken, none)
  | some (text, rest) =>
    match text.value? with
    | some value => (.number value, some rest)
    | none => (.valueless, some rest)

/-- A container at a depth: it has no value when too many others surround it. -/
def atDepth (depth : Nat) (tree : Tree) : Tree :=
  if depth < maxNesting then tree
  else if tree.isSound then .valueless
  else .broken

mutual

/-- Reads a value within `depth` containers. The rest of the text is none behind a fault. `fuel` is
at least twice the length of the text and one more. -/
def readValue (fuel depth : Nat) (cs : List Char) : Tree × Option (List Char) :=
  match fuel with
  | 0 => (.broken, none)
  | fuel + 1 =>
    match skipBlanks cs with
    | '"' :: rest =>
      match readString (some []) rest with
      | some (some text, rest) => (.string text, some rest)
      | some (none, rest) => (.valueless, some rest)
      | none => (.broken, none)
    | '[' :: rest =>
      match skipBlanks rest with
      | ']' :: rest => (atDepth depth (.array [] true), some rest)
      | rest =>
        let (items, rest) := readItems fuel (depth + 1) rest
        (atDepth depth (.array items rest.isSome), rest)
    | '\x7b' :: rest =>
      match skipBlanks rest with
      | '\x7d' :: rest => (atDepth depth (.object [] true), some rest)
      | rest =>
        let (entries, rest) := readMembers fuel (depth + 1) rest
        (atDepth depth (.object entries rest.isSome), rest)
    | 'n' :: rest => readWord "ull" .null rest
    | 't' :: rest => readWord "rue" (.bool true) rest
    | 'f' :: rest => readWord "alse" (.bool false) rest
    | cs => readNumber cs

/-- Reads the items of an array, of which there is at least one, and its end. -/
def readItems (fuel depth : Nat) (cs : List Char) : List Tree × Option (List Char) :=
  match fuel with
  | 0 => ([], none)
  | fuel + 1 =>
    match readValue fuel depth cs with
    | (item, none) => ([item], none)
    | (item, some rest) =>
      match skipBlanks rest with
      | ']' :: rest => ([item], some rest)
      | ',' :: rest =>
        match skipBlanks rest with
        | ']' :: _ => ([item], none)
        | rest =>
          let (items, rest) := readItems fuel depth rest
          (item :: items, rest)
      | _ => ([item], none)

/-- Reads the members of an object, of which there is at least one, and its end. -/
def readMembers (fuel depth : Nat) (cs : List Char) :
    List (Option String × Tree) × Option (List Char) :=
  match fuel with
  | 0 => ([], none)
  | fuel + 1 =>
    match skipBlanks cs with
    | '"' :: rest =>
      match readString (some []) rest with
      | none => ([], none)
      | some (name, rest) =>
        match skipBlanks rest with
        | ':' :: rest =>
          match readValue fuel depth rest with
          | (value, none) => ([(name, value)], none)
          | (value, some rest) =>
            match skipBlanks rest with
            | '\x7d' :: rest => ([(name, value)], some rest)
            | ',' :: rest =>
              let (entries, rest) := readMembers fuel depth rest
              ((name, value) :: entries, rest)
            | _ => ([(name, value)], none)
        | _ => ([(name, .broken)], none)
    | _ => ([], none)

end

/-- Reads a text. -/
def ofText (text : String) : Reading :=
  let cs := text.toList
  match readValue (2 * cs.length + 1) 0 cs with
  | (tree, some rest) => ⟨tree, !(skipBlanks rest).isEmpty⟩
  | (tree, none) => ⟨tree, false⟩

end Reading

/-- The value of a JSON text. -/
def parse? (text : String) : Option Json :=
  let reading := Reading.ofText text
  if reading.trailing then none else reading.tree.toJson?

end InteractionBinding.Json
