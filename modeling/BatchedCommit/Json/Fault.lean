import BatchedCommit.Json

/-!
# BatchedCommit.Json.Fault

What can be wrong with a text that should be JSON.
-/

namespace BatchedCommit

namespace Json

/-- What is wrong with a JSON text. -/
inductive Fault where
  /-- The text ends where a value should be. -/
  | endInValue
  /-- The text ends inside an array. -/
  | endInArray
  /-- The text ends inside an object. -/
  | endInObject
  /-- The text ends inside a string. -/
  | endInString
  /-- No value begins here. -/
  | noValue
  /-- A word begins like `true`, `false` or `null` and goes on in another way. -/
  | noWord
  /-- No colon follows the name of a member. -/
  | noColon
  /-- Neither a comma nor the end follows an item. -/
  | noCommaInArray
  /-- Neither a comma nor the end follows a member. -/
  | noCommaInObject
  /-- The name of a member is not a string. -/
  | nameNotString
  /-- A comma stands before the end of an array or object. -/
  | trailingComma
  /-- Something follows the value. -/
  | trailingText
  /-- A number has no digits where it needs some, or a zero in front. -/
  | badNumber
  /-- A number is too large for a floating point number. -/
  | numberTooLarge
  /-- A backslash is followed by something that it cannot be followed by. -/
  | badEscape
  /-- A control character stands in a string. -/
  | controlCharacter
  /-- A leading surrogate is not followed by another escape. -/
  | surrogateCut
  /-- A surrogate stands alone. -/
  | surrogateAlone
  /-- Arrays and objects are nested too deeply. -/
  | tooDeep
  deriving DecidableEq

/-- The message for a reader. -/
def Fault.message : Fault → String
  | endInValue => "EOF while parsing a value"
  | endInArray => "EOF while parsing a list"
  | endInObject => "EOF while parsing an object"
  | endInString => "EOF while parsing a string"
  | noValue => "expected value"
  | noWord => "expected ident"
  | noColon => "expected `:`"
  | noCommaInArray => "expected `,` or `]`"
  | noCommaInObject => "expected `,` or `\x7d`"
  | nameNotString => "key must be a string"
  | trailingComma => "trailing comma"
  | trailingText => "trailing characters"
  | badNumber => "invalid number"
  | numberTooLarge => "number out of range"
  | badEscape => "invalid escape"
  | controlCharacter => "control character (\\u0000-\\u001F) found while parsing a string"
  | surrogateCut => "unexpected end of hex escape"
  | surrogateAlone => "lone leading surrogate in hex escape"
  | tooDeep => "recursion limit exceeded"

end Json

end BatchedCommit
