import BatchedCommit.Json.FloatText
import BatchedCommit.Json.Skip
import BatchedCommit.Settings
import BatchedCommit.Text.Shown

/-!
# BatchedCommit.Settings.Reader

Reading settings from JSON. They are the members of an object, in any order and among members
of other names, which are passed over; or the items of an array, in the order of declaration.
A setting that is not given has its default.

The text is read from its beginning to its end, and what is wrong first is reported. So a
setting given twice is reported at its name, and a value of a wrong type before the text
after it is looked at.
-/

namespace BatchedCommit

namespace Settings

/-! ## What can go wrong -/

/-- Why a text gives no settings. -/
inductive Misreading where
  /-- The text is not JSON. -/
  | malformed (fault : Json.Fault)
  /-- A value of one type stands where one of another type is expected. -/
  | wrongType (found expected : String)
  /-- A negative number stands where none is expected. -/
  | negative (magnitude : Nat) (expected : String)
  /-- A setting is given twice. -/
  | duplicate (setting : Setting)

/-- The message for a reader. -/
def Misreading.message : Misreading → String
  | malformed fault => fault.message
  | wrongType found expected => "invalid type: " ++ found ++ ", expected " ++ expected
  | negative magnitude expected =>
    "invalid value: integer `-" ++ toString magnitude ++ "`, expected " ++ expected
  | duplicate setting => "duplicate field `" ++ setting.name ++ "`"

/-- The type that the value of a setting has, in messages. -/
def expectedType : Setting → String
  | .slotCapacity => "usize"
  | .sizeFixMillis | .relocateMillis | .abortSeconds | .sweepMillis => "u64"

/-- Settings as a whole, in messages. -/
def expectedWhole : String := "struct GroupCommitConfig"

/-! ## Values of a wrong type -/

/-- A number, in messages. -/
def describeNumber : Json.Number → String
  | .natural value => "integer `" ++ toString value ++ "`"
  | .negative magnitude => "integer `-" ++ toString magnitude ++ "`"
  | .float value => "floating point `" ++ String.ofList (Json.floatText value) ++ "`"

/-- What a value is, in messages: a word, a number or a string is read for that, an array or
    an object is not looked into. -/
def describe : List Char → Except Json.Fault String
  | 'n' :: text => (Json.readWord ['u', 'l', 'l'] text).map fun _ => "null"
  | 't' :: text => (Json.readWord ['r', 'u', 'e'] text).map fun _ => "boolean `true`"
  | 'f' :: text => (Json.readWord ['a', 'l', 's', 'e'] text).map fun _ => "boolean `false`"
  | '-' :: text => (Json.readNumber true text).map fun (number, _) => describeNumber number
  | '"' :: text => (Json.readString .between [] text).map fun (content, _) =>
    "string " ++ String.ofList (Text.showString content)
  | '[' :: _ => .ok "sequence"
  | '{' :: _ => .ok "map"
  | c :: text =>
    if c.isDigit then (Json.readNumber false (c :: text)).map fun (number, _) =>
      describeNumber number
    else .error .noValue
  | [] => .error .endInValue

/-- The report of a value that is not of the expected type. -/
def misfit (expected : String) (text : List Char) : Misreading :=
  match describe text with
  | .ok found => .wrongType found expected
  | .error fault => .malformed fault

/-! ## The value of a setting -/

/-- A number that was read, as the value of a setting. -/
def valueOf (expected : String) : Json.Number → Except Misreading UInt64
  | .natural value => .ok (UInt64.ofNat value)
  | .negative magnitude => .error (.negative magnitude expected)
  | .float value => .error (.wrongType (describeNumber (.float value)) expected)

/-- Reads the value of a setting, after blanks: the value and the text after it. -/
def readValue (expected : String) (text : List Char) :
    Except Misreading (UInt64 × List Char) :=
  let text := Json.skipBlanks text
  let read (minus : Bool) (text : List Char) : Except Misreading (UInt64 × List Char) :=
    match Json.readNumber minus text with
    | .error fault => .error (.malformed fault)
    | .ok (number, rest) => (valueOf expected number).map fun value => (value, rest)
  match text with
  | [] => .error (.malformed .endInValue)
  | '-' :: rest => read true rest
  | c :: _ => if c.isDigit then read false text else .error (misfit expected text)

/-! ## Objects -/

/-- The settings that a text has given so far. -/
abbrev Given := List (Setting × UInt64)

/-- The settings that were given, and the defaults of the others. -/
def ofGiven (given : Given) : Settings :=
  ofValues fun setting => (given.lookup setting).getD setting.default

/-- The text after the quote that opens the name of the next member: the first member has no
    comma before it. -/
def openName (isFirst : Bool) (text : List Char) : Except Json.Fault (List Char) :=
  if isFirst then
    match text with
    | '"' :: rest => .ok rest
    | _ => .error .nameNotString
  else
    match text with
    | ',' :: rest =>
      match Json.skipBlanks rest with
      | '"' :: rest => .ok rest
      | '}' :: _ => .error .trailingComma
      | [] => .error .endInValue
      | _ => .error .nameNotString
    | _ => .error .noCommaInObject

/-- The text after the colon that follows a name. -/
def passColon (text : List Char) : Except Json.Fault (List Char) :=
  match Json.skipBlanks text with
  | ':' :: rest => .ok rest
  | [] => .error .endInObject
  | _ => .error .noColon

/-- Reads one member after the quote that opens its name: what is given with it, and the text
    after it. -/
def readMember (given : Given) (text : List Char) : Except Misreading (Given × List Char) :=
  match Json.readString .between [] text with
  | .error fault => .error (.malformed fault)
  | .ok (name, text) =>
    match Setting.ofName? (String.ofList name) with
    | some setting =>
      if (given.lookup setting).isSome then .error (.duplicate setting)
      else
        match passColon text with
        | .error fault => .error (.malformed fault)
        | .ok text =>
          (readValue (expectedType setting) text).map fun (value, rest) =>
            ((setting, value) :: given, rest)
    | none =>
      match (passColon text).bind (Json.skipValue .skimming) with
      | .error fault => .error (.malformed fault)
      | .ok rest => .ok (given, rest)

/-- Reads the members of an object up to its end, at most `fuel` of them. -/
def readMembers (fuel : Nat) (isFirst : Bool) (given : Given) (text : List Char) :
    Except Misreading (Given × List Char) :=
  match fuel with
  | 0 => .error (.malformed .endInObject)
  | fuel + 1 =>
    match Json.skipBlanks text with
    | [] => .error (.malformed .endInObject)
    | '}' :: rest => .ok (given, rest)
    | text =>
      match openName isFirst text with
      | .error fault => .error (.malformed fault)
      | .ok text =>
        match readMember given text with
        | .error misreading => .error misreading
        | .ok (given, rest) => readMembers fuel false given rest

/-! ## Arrays -/

/-- The text after the end of an array whose settings are all given. -/
def closeArray (text : List Char) : Except Json.Fault (List Char) :=
  match Json.skipBlanks text with
  | [] => .error .endInArray
  | ']' :: rest => .ok rest
  | ',' :: rest =>
    match Json.skipBlanks rest with
    | ']' :: _ => .error .trailingComma
    | _ => .error .trailingText
  | _ => .error .trailingText

/-- The text at which the next item begins: the first item has no comma before it. -/
def openItem (isFirst : Bool) (text : List Char) : Except Json.Fault (List Char) :=
  if isFirst then .ok text
  else
    match text with
    | ',' :: rest =>
      match Json.skipBlanks rest with
      | ']' :: _ => .error .trailingComma
      | [] => .error .endInValue
      | rest => .ok rest
    | _ => .error .noCommaInArray

/-- Reads the items of an array, for these settings, up to its end. -/
def readItems (isFirst : Bool) (given : Given) :
    List Setting → List Char → Except Misreading (Given × List Char)
  | [], text =>
    match closeArray text with
    | .error fault => .error (.malformed fault)
    | .ok rest => .ok (given, rest)
  | setting :: settings, text =>
    match Json.skipBlanks text with
    | [] => .error (.malformed .endInArray)
    | ']' :: rest => .ok (given, rest)
    | text =>
      match openItem isFirst text with
      | .error fault => .error (.malformed fault)
      | .ok text =>
        match readValue (expectedType setting) text with
        | .error misreading => .error misreading
        | .ok (value, rest) => readItems false ((setting, value) :: given) settings rest

/-! ## Settings -/

/-- Reads what a text gives, up to the end of the object or array. -/
def readGiven (text : List Char) : Except Misreading (Given × List Char) :=
  match Json.skipBlanks text with
  | '{' :: rest => readMembers (rest.length + 1) true [] rest
  | '[' :: rest => readItems true [] Setting.all rest
  | text => .error (misfit expectedWhole text)

/-- Reads settings. Nothing but blanks may follow them. -/
def read (text : List Char) : Except Misreading Settings :=
  match readGiven text with
  | .error misreading => .error misreading
  | .ok (given, rest) =>
    if (Json.skipBlanks rest).isEmpty then .ok (ofGiven given)
    else .error (.malformed .trailingText)

end Settings

end BatchedCommit
