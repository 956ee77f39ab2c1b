import EntityQuery.Json.Basic

/-!
# Contexts

What a request hands to every callback: named values and one extension of the application's own.

* `Context.withValue`: sets a value.
* `Context.withExtension`: sets the extension; the last one counts.
-/

namespace EntityQuery

/-- A value of the application's own. -/
inductive Extension
  | text (s : String)
  | integer (n : Int)
  deriving DecidableEq, Repr

/-- The text of an extension that is one. -/
def Extension.text? : Extension → Option String
  | text s => some s
  | integer _ => none

/-- The integer of an extension that is one. -/
def Extension.integer? : Extension → Option Int
  | text _ => none
  | integer n => some n

/-- What a request hands to every callback. -/
structure Context where
  values : Entries Json := []
  extension? : Option Extension := none

namespace Context

/-- Sets a value. -/
def withValue (c : Context) (key : String) (value : Json) : Context :=
  { c with values := Entries.insert c.values key value }

/-- Sets the extension. -/
def withExtension (c : Context) (e : Extension) : Context := { c with extension? := some e }

/-- The value under a key. -/
def get? (c : Context) (key : String) : Option Json := Entries.find? c.values key

end Context

end EntityQuery
