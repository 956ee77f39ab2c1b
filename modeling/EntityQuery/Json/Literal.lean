import EntityQuery.Json.Basic

/-!
# JSON texts

A JSON text as it is written, before it is read as a value: repeated keys are kept, and a number or
a text that denotes no value is still well formed.

* `Literal.parse?`: reads a text by the JSON grammar.
* `Literal.value?`: the value a literal denotes, with a bound on its nesting; of a repeated key the
  last value counts, at the first place.
* `Json.parse?`: reads a text as a value.
* `Json.toLiteral`: a value as it is written.
-/

namespace EntityQuery

/-- A JSON text as it is written. A number is missing when it is too large, a string when it holds
half of a surrogate pair. -/
inductive Literal
  | null
  | bool (b : Bool)
  | number (n : Option Number)
  | string (s : Option String)
  | array (items : List Literal)
  | object (fields : List (Option String × Literal))
  deriving Inhabited

namespace Literal

/-! ## Grammar -/

/-- Characters between tokens. -/
def isSpace (c : Char) : Bool := c = ' ' || c = '\n' || c = '\t' || c = '\r'

/-- Drops the spaces in front. -/
def skip (cs : List Char) : List Char := cs.dropWhile isSpace

/-- The value of a decimal digit text. -/
def digitsValue (cs : List Char) : Nat := cs.foldl (fun n c => 10 * n + (c.toNat - '0'.toNat)) 0

/-- Splits off the digits in front. -/
def splitDigits (cs : List Char) : List Char × List Char :=
  (cs.takeWhile Char.isDigit, cs.dropWhile Char.isDigit)

/-- The digits after a point, none where there is no point. -/
def readFraction : List Char → Option (List Char × List Char)
  | '.' :: cs =>
    match splitDigits cs with
    | ([], _) => none
    | (ds, rest) => some (ds, rest)
  | cs => some ([], cs)

/-- The exponent after its mark, `none` inside where there is no mark. -/
def readExponent : List Char → Option (Option Int × List Char)
  | c :: cs =>
    if c = 'e' ∨ c = 'E' then
      let (neg, cs) :=
        match cs with
        | '-' :: rest => (true, rest)
        | '+' :: rest => (false, rest)
        | rest => (false, rest)
      match splitDigits cs with
      | ([], _) => none
      | (ds, rest) =>
        let n : Int := digitsValue ds
        some (some (if neg then -n else n), rest)
    else some (none, c :: cs)
  | [] => some (none, [])

/-- The number that sign, digits, fraction and exponent denote: an integer when it is written as
one, is no negative zero and fits, else the nearest double, if that is finite. -/
def numberOf (neg : Bool) (whole fraction : List Char) (exponent : Option Int) : Option Number :=
  let n : Int := if neg then -(digitsValue whole : Int) else digitsValue whole
  if fraction.isEmpty && exponent.isNone && !(neg && n == 0) && Number.fits n then some (.int n)
  else
    let x := Binary64.ofDecimal neg (digitsValue (whole ++ fraction))
      (exponent.getD 0 - fraction.length)
    if x.isFinite then some (.double x) else none

/-- Reads a number. -/
def readNumber (cs : List Char) : Option (Option Number × List Char) := do
  let (neg, cs) :=
    match cs with
    | '-' :: rest => (true, rest)
    | rest => (false, rest)
  let (whole, cs) := splitDigits cs
  if whole.isEmpty then none
  else if whole.head? = some '0' ∧ 1 < whole.length then none
  else do
    let (fraction, cs) ← readFraction cs
    let (exponent, cs) ← readExponent cs
    return (numberOf neg whole fraction exponent, cs)

/-- The value of a hexadecimal digit. -/
def hexValue? (c : Char) : Option Nat :=
  if c.isDigit then some (c.toNat - '0'.toNat)
  else if 'a' ≤ c ∧ c ≤ 'f' then some (c.toNat - 'a'.toNat + 10)
  else if 'A' ≤ c ∧ c ≤ 'F' then some (c.toNat - 'A'.toNat + 10)
  else none

/-- One unit of a string: a character, or a code of sixteen bits that was written with `\u`. -/
inductive Unit16
  | char (c : Char)
  | code (n : Nat)

/-- Joins pairs of surrogate codes; a code that is half of a pair denotes nothing. -/
def joinUnits : List Unit16 → Option (List Char)
  | [] => some []
  | .char c :: rest => (joinUnits rest).map (c :: ·)
  | .code hi :: .code lo :: rest =>
    if 0xD800 ≤ hi ∧ hi < 0xDC00 then
      if 0xDC00 ≤ lo ∧ lo < 0xE000 then
        (joinUnits rest).map
          (Char.ofNat (0x10000 + (hi - 0xD800) * 0x400 + (lo - 0xDC00)) :: ·)
      else none
    else if 0xDC00 ≤ hi ∧ hi < 0xE000 then none
    else (joinUnits (.code lo :: rest)).map (Char.ofNat hi :: ·)
  | .code n :: rest =>
    if 0xD800 ≤ n ∧ n < 0xE000 then none else (joinUnits rest).map (Char.ofNat n :: ·)

/-- The units of a string up to its closing quote, and what follows it. -/
def readUnits : List Char → Option (List Unit16 × List Char)
  | [] => none
  | '"' :: rest => some ([], rest)
  | '\\' :: 'u' :: a :: b :: c :: d :: rest => do
    let n := (← hexValue? a) * 4096 + (← hexValue? b) * 256 + (← hexValue? c) * 16 + (← hexValue? d)
    let (units, rest) ← readUnits rest
    return (.code n :: units, rest)
  | '\\' :: e :: rest => do
    let c ←
      if e = '"' ∨ e = '\\' ∨ e = '/' then some e
      else if e = 'b' then some (Char.ofNat 8)
      else if e = 'f' then some (Char.ofNat 12)
      else if e = 'n' then some '\n'
      else if e = 'r' then some '\r'
      else if e = 't' then some '\t'
      else none
    let (units, rest) ← readUnits rest
    return (.char c :: units, rest)
  | c :: rest =>
    if c.toNat < 32 ∨ c = '\\' then none
    else do
      let (units, rest) ← readUnits rest
      return (.char c :: units, rest)

/-- Reads a string after its opening quote. -/
def readString (cs : List Char) : Option (Option String × List Char) := do
  let (units, rest) ← readUnits cs
  return ((joinUnits units).map String.ofList, rest)

mutual

/-- Reads a value, each step taking one from `fuel`. -/
def read : Nat → List Char → Option (Literal × List Char)
  | 0, _ => none
  | fuel + 1, cs =>
    match skip cs with
    | 'n' :: 'u' :: 'l' :: 'l' :: rest => some (.null, rest)
    | 't' :: 'r' :: 'u' :: 'e' :: rest => some (.bool true, rest)
    | 'f' :: 'a' :: 'l' :: 's' :: 'e' :: rest => some (.bool false, rest)
    | '"' :: rest => (readString rest).map fun (s, rest) => (.string s, rest)
    | '[' :: rest =>
      match skip rest with
      | ']' :: rest => some (.array [], rest)
      | rest => (readItems fuel rest).map fun (items, rest) => (.array items, rest)
    | '\x7b' :: rest =>
      match skip rest with
      | '\x7d' :: rest => some (.object [], rest)
      | rest => (readFields fuel rest).map fun (fields, rest) => (.object fields, rest)
    | cs => (readNumber cs).map fun (n, rest) => (.number n, rest)

/-- Reads the items of a list up to its closing bracket. -/
def readItems : Nat → List Char → Option (List Literal × List Char)
  | 0, _ => none
  | fuel + 1, cs => do
    let (item, rest) ← read fuel cs
    match skip rest with
    | ',' :: rest =>
      let (items, rest) ← readItems fuel rest
      return (item :: items, rest)
    | ']' :: rest => return ([item], rest)
    | _ => none

/-- Reads the members of an object up to its closing brace. -/
def readFields : Nat → List Char → Option (List (Option String × Literal) × List Char)
  | 0, _ => none
  | fuel + 1, cs =>
    match skip cs with
    | '"' :: rest => do
      let (key, rest) ← readString rest
      match skip rest with
      | ':' :: rest =>
        let (value, rest) ← read fuel rest
        match skip rest with
        | ',' :: rest =>
          let (fields, rest) ← readFields fuel rest
          return ((key, value) :: fields, rest)
        | '\x7d' :: rest => return ([(key, value)], rest)
        | _ => none
      | _ => none
    | _ => none

end

/-- Reads a whole text by the JSON grammar. Each step consumes a character, so the length is
fuel enough. -/
def parse? (text : String) : Option Literal := do
  let cs := text.toList
  let (literal, rest) ← read (2 * cs.length + 2) cs
  if (skip rest).isEmpty then some literal else none

/-! ## Values -/

/-- How deep lists and objects may nest in a decoded text. -/
def maxDepth : Nat := 127

mutual

/-- The value a literal denotes, if its lists and objects nest at most `depth` deep. -/
def value? (depth : Nat) : Literal → Option Json
  | .null => some .null
  | .bool b => some (.bool b)
  | .number n => n.map .number
  | .string s => s.map .string
  | .array items =>
    match depth with
    | 0 => none
    | depth + 1 => (values? depth items).map .array
  | .object fields =>
    match depth with
    | 0 => none
    | depth + 1 => (members? depth fields).map fun pairs => .object (Entries.ofPairs pairs)

/-- The values of a list of literals. -/
def values? (depth : Nat) : List Literal → Option (List Json)
  | [] => some []
  | item :: rest => do
    let value ← item.value? depth
    let values ← values? depth rest
    return value :: values

/-- The members of an object as they are written. -/
def members? (depth : Nat) : List (Option String × Literal) → Option (List (String × Json))
  | [] => some []
  | (key, literal) :: rest => do
    let key ← key
    let value ← literal.value? depth
    let members ← members? depth rest
    return (key, value) :: members

end

end Literal

/-- Reads a text as a value. -/
def Json.parse? (text : String) : Option Json := do
  let literal ← Literal.parse? text
  literal.value? Literal.maxDepth

mutual

/-- A value as it is written. -/
def Json.toLiteral : Json → Literal
  | .null => .null
  | .bool b => .bool b
  | .number n => .number (some n)
  | .string s => .string (some s)
  | .array items => .array (Json.toLiterals items)
  | .object fields => .object (Json.toMembers fields)

/-- The items of a list as they are written. -/
def Json.toLiterals : List Json → List Literal
  | [] => []
  | item :: rest => item.toLiteral :: Json.toLiterals rest

/-- The members of an object as they are written. -/
def Json.toMembers : List (String × Json) → List (Option String × Literal)
  | [] => []
  | (key, value) :: rest => (some key, value.toLiteral) :: Json.toMembers rest

end

end EntityQuery
