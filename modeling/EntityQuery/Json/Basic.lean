import EntityQuery.Binary64.Decimal
import EntityQuery.Entries

/-!
# JSON values

JSON values whose objects keep the order in which their keys were inserted.

* `Number`: an integer of 64 bits, signed or unsigned, or a double.
* `Json`: values; `Json.render` is their compact text.
* `Json.isTrue`: the truth value that a value counts as.
* `Json.member`: a member of an object, null where there is none; `Json.member?` tells these apart.
-/

namespace EntityQuery

/-- A JSON number: an integer between `-2 ^ 63` and `2 ^ 64 - 1`, or a double. -/
inductive Number
  | int (n : Int)
  | double (x : Binary64)
  deriving DecidableEq, Repr

/-- The double nearest to a number. -/
def Number.toDouble : Number → Binary64
  | .int n => .ofInt n
  | .double x => x

/-- Whether a literal's integer is kept exactly: it has 64 bits, with or without a sign. -/
def Number.fits (n : Int) : Bool := -9223372036854775808 ≤ n && n < 18446744073709551616

/-- The text of a number. -/
def Number.text : Number → String
  | .int n => toString n
  | .double x => x.text

/-- A JSON value. -/
inductive Json
  | null
  | bool (b : Bool)
  | number (n : Number)
  | string (s : String)
  | array (items : List Json)
  | object (fields : List (String × Json))
  deriving Inhabited

namespace Json

/-- The integer `n` as a value. -/
def int (n : Int) : Json := .number (.int n)

/-- A count as a value. -/
def nat (n : Nat) : Json := .int n

/-- Whether a value is null. -/
def isNull : Json → Bool
  | null => true
  | _ => false

/-- The member of an object under a key, null for a missing key and for every other value. -/
def member : Json → String → Json
  | object fields, key => (Entries.find? fields key).getD null
  | _, _ => null

/-- The member of an object under a key, if there is one. -/
def member? : Json → String → Option Json
  | object fields, key => Entries.find? fields key
  | _, _ => none

/-- The text of a value that is one. -/
def text? : Json → Option String
  | string s => some s
  | _ => none

/-- The integer of a value that is one. -/
def int? : Json → Option Int
  | number (.int n) => some n
  | _ => none

/-- The items of a list; no other value has any. -/
def items : Json → List Json
  | array vs => vs
  | _ => []

/-- The members of an object; no other value has any. -/
def fields : Json → Entries Json
  | object fs => fs
  | _ => []

theorem member_eq (v : Json) (key : String) : v.member key = (v.member? key).getD null := by
  cases v <;> rfl

/-- The value a text or null stands for. -/
def ofOption (text : Option String) : Json := text.elim null string

/-- A list of texts. -/
def strings (texts : List String) : Json := .array (texts.map string)

/-- The truth value of a value: empty, zero, `"0"` and null are false. -/
def isTrue : Json → Bool
  | null => false
  | bool b => b
  | number (.int n) => n ≠ 0
  | number (.double x) => !x.isZero
  | string s => s ≠ "" && s ≠ "0"
  | array items => !items.isEmpty
  | object _ => true

/-! ## Text -/

/-- The hexadecimal digit of a number below sixteen, in lower case. -/
def hexDigit (n : Nat) : Char :=
  if n < 10 then Char.ofNat ('0'.toNat + n) else Char.ofNat ('a'.toNat + (n - 10))

/-- A character inside a quoted text. -/
def escape (c : Char) : List Char :=
  if c = '"' then ['\\', '"']
  else if c = '\\' then ['\\', '\\']
  else if c = '\n' then ['\\', 'n']
  else if c = '\r' then ['\\', 'r']
  else if c = '\t' then ['\\', 't']
  else if c.toNat = 8 then ['\\', 'b']
  else if c.toNat = 12 then ['\\', 'f']
  else if c.toNat < 32 then
    ['\\', 'u', '0', '0', hexDigit (c.toNat / 16), hexDigit (c.toNat % 16)]
  else [c]

/-- A text in quotes. -/
def quote (s : String) : String := String.ofList ('"' :: s.toList.flatMap escape ++ ['"'])

/-- The left and the right brace. -/
def braces (inner : String) : String := "\x7b" ++ inner ++ "\x7d"

mutual

/-- The compact text of a value. -/
def render : Json → String
  | null => "null"
  | bool b => if b then "true" else "false"
  | number n => n.text
  | string s => quote s
  | array items => "[" ++ String.intercalate "," (renderItems items) ++ "]"
  | object fields => braces (String.intercalate "," (renderFields fields))

/-- The texts of the items of a list. -/
def renderItems : List Json → List String
  | [] => []
  | item :: rest => item.render :: renderItems rest

/-- The texts of the members of an object. -/
def renderFields : List (String × Json) → List String
  | [] => []
  | (key, value) :: rest => (quote key ++ ":" ++ value.render) :: renderFields rest

end

end Json

end EntityQuery
