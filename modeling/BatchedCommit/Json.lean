/-!
# BatchedCommit.Json

JSON values and their written forms: the compact one, and the pretty one that indents by two
spaces. The members of an object are written in the order in which they stand. Strings are
escaped only where they must be: quotes, backslashes and the characters below U+0020.
-/

namespace BatchedCommit

/-- A JSON value whose numbers are integers. -/
inductive Json where
  /-- The value `null`. -/
  | null
  /-- A truth value. -/
  | bool (value : Bool)
  /-- An integer. -/
  | int (value : Int)
  /-- A string. -/
  | str (value : String)
  /-- An array. -/
  | arr (items : List Json)
  /-- An object. Names may repeat. -/
  | obj (members : List (String × Json))

namespace Json

/-! ## Strings and integers -/

/-- The lower-case hexadecimal digit of a number below 16. -/
def hexDigit (n : Nat) : Char := Nat.digitChar n

/-- How one character stands in a written string. -/
def escape (c : Char) : List Char :=
  match c with
  | '"' => ['\\', '"']
  | '\\' => ['\\', '\\']
  | '\x08' => ['\\', 'b']
  | '\t' => ['\\', 't']
  | '\n' => ['\\', 'n']
  | '\x0c' => ['\\', 'f']
  | '\r' => ['\\', 'r']
  | c =>
    if c.toNat < 0x20 then
      ['\\', 'u', '0', '0', hexDigit (c.toNat / 16), hexDigit (c.toNat % 16)]
    else [c]

/-- A string in its written form. -/
def quote (text : List Char) : List Char := '"' :: (text.flatMap escape ++ ['"'])

/-- The digits of an integer, with a sign in front where it is negative. -/
def digits (n : Int) : List Char :=
  if n < 0 then '-' :: Nat.toDigits 10 n.natAbs else Nat.toDigits 10 n.natAbs

/-! ## The compact form -/

mutual

/-- A value without any blank. -/
def compact : Json → List Char
  | null => ['n', 'u', 'l', 'l']
  | bool true => ['t', 'r', 'u', 'e']
  | bool false => ['f', 'a', 'l', 's', 'e']
  | int n => digits n
  | str text => quote text.toList
  | arr items => '[' :: (compactItems items ++ [']'])
  | obj members => '{' :: (compactMembers members ++ ['}'])

/-- Items with commas between them. -/
def compactItems : List Json → List Char
  | [] => []
  | [item] => compact item
  | item :: rest => compact item ++ ',' :: compactItems rest

/-- Members with commas between them. -/
def compactMembers : List (String × Json) → List Char
  | [] => []
  | [(name, value)] => quote name.toList ++ ':' :: compact value
  | (name, value) :: rest =>
    quote name.toList ++ ':' :: (compact value ++ ',' :: compactMembers rest)

end

/-! ## The pretty form -/

/-- A line break and the indentation of a level. -/
def lineBreak (level : Nat) : List Char := '\n' :: List.replicate (2 * level) ' '

mutual

/-- A value with one item or member a line. `level` is the depth that the value stands at. -/
def pretty (level : Nat) : Json → List Char
  | null => ['n', 'u', 'l', 'l']
  | bool true => ['t', 'r', 'u', 'e']
  | bool false => ['f', 'a', 'l', 's', 'e']
  | int n => digits n
  | str text => quote text.toList
  | arr [] => ['[', ']']
  | arr (item :: rest) =>
    '[' :: (prettyItems (level + 1) (item :: rest) ++ lineBreak level ++ [']'])
  | obj [] => ['{', '}']
  | obj (member :: rest) =>
    '{' :: (prettyMembers (level + 1) (member :: rest) ++ lineBreak level ++ ['}'])

/-- Items, each on a line of its own. -/
def prettyItems (level : Nat) : List Json → List Char
  | [] => []
  | [item] => lineBreak level ++ pretty level item
  | item :: rest => lineBreak level ++ pretty level item ++ ',' :: prettyItems level rest

/-- Members, each on a line of its own. -/
def prettyMembers (level : Nat) : List (String × Json) → List Char
  | [] => []
  | [(name, value)] =>
    lineBreak level ++ quote name.toList ++ ':' :: ' ' :: pretty level value
  | (name, value) :: rest =>
    lineBreak level ++ quote name.toList ++
      ':' :: ' ' :: (pretty level value ++ ',' :: prettyMembers level rest)

end

/-- The compact form as a string. -/
def compactText (value : Json) : String := String.ofList value.compact

/-- The pretty form as a string. -/
def prettyText (value : Json) : String := String.ofList (value.pretty 0)

end Json

end BatchedCommit
