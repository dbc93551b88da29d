import InteractionBinding.Text.Blank
/-!
# Engine options

Switches of an engine. Two of them have defaults that texts from the surroundings can change;
a text that is no truth value leaves the default as it is.
-/

namespace InteractionBinding

/-- The switches of an engine. -/
structure EngineOptions where
  /-- Treat the host as if it asked for reduced motion. -/
  forceReducedMotion : Bool
  /-- Let handlers wire keyboard listeners for triggers that have a counterpart on the keyboard. -/
  allowKeyboardTriggers : Bool
  /-- The attribute that holds the key of an element that is connected without one. -/
  keyAttribute : String
deriving DecidableEq, Repr

namespace EngineOptions

def defaultKeyAttribute : String := "data-interact-key"

/-- The options when no text changes a default. -/
def standard : EngineOptions := ⟨false, true, defaultKeyAttribute⟩

instance : Inhabited EngineOptions := ⟨standard⟩

/-- A capital letter of ASCII as a small one. -/
def lowerAscii (c : Char) : Char := c.toLower

/-- The truth value a text stands for, in any case of its letters and with blanks around it. -/
def parseFlag? (text : String) : Option Bool :=
  match (Text.trim text).map lowerAscii with
  | "1" | "true" | "yes" | "on" => some true
  | "0" | "false" | "no" | "off" | "" => some false
  | _ => none

/-- The truth value of a text that may be missing. -/
def flagOr (default : Bool) (text : Option String) : Bool := (text.bind parseFlag?).getD default

/-- The options under the texts for the first two switches, where they are given. -/
def ofTexts (forceReducedMotion allowKeyboardTriggers : Option String) : EngineOptions :=
  { standard with
    forceReducedMotion := flagOr false forceReducedMotion
    allowKeyboardTriggers := flagOr true allowKeyboardTriggers }

end EngineOptions

end InteractionBinding
