import InteractionBinding.Text.Invisible
/-!
# Quoted text

Text in double quotes for error messages: quotes, backslashes and the common control characters
have escapes of one letter, and characters that cannot be seen on their own are written by their
code points.
-/

namespace InteractionBinding.Text

/-- The form of a character within quotes. -/
def quoteChar (c : Char) : List Char :=
  match c with
  | '\x00' => ['\\', '0']
  | '\t' => ['\\', 't']
  | '\r' => ['\\', 'r']
  | '\n' => ['\\', 'n']
  | '\\' => ['\\', '\\']
  | '"' => ['\\', '"']
  | c =>
    if isInvisible c then ['\\', 'u', '\x7b'] ++ Nat.toDigits 16 c.toNat ++ ['\x7d'] else [c]

/-- The text in quotes. -/
def quote (s : String) : String :=
  "\"" ++ String.ofList (s.toList.flatMap quoteChar) ++ "\""

end InteractionBinding.Text
