import BatchedCommit.Text.Invisible

/-!
# BatchedCommit.Text.Shown

Showing a string inside a message: between quotes, with an escape for every character that
would be invisible there.
-/

namespace BatchedCommit

namespace Text

/-- How one character stands in a shown string. -/
def showChar (c : Char) : List Char :=
  match c with
  | '"' => ['\\', '"']
  | '\\' => ['\\', '\\']
  | '\x00' => ['\\', '0']
  | '\t' => ['\\', 't']
  | '\n' => ['\\', 'n']
  | '\r' => ['\\', 'r']
  | c =>
    if !isInvisible c then [c]
    else '\\' :: 'u' :: '{' :: (Nat.toDigits 16 c.toNat ++ ['}'])

/-- A string as it is shown. -/
def showString (text : List Char) : List Char := '"' :: (text.flatMap showChar ++ ['"'])

end Text

end BatchedCommit
