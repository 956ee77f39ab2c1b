import EntityQuery.Failure.Basic

/-!
# Masking

What a client sees of a failure. The message of an unsafe failure is masked, unless a debug flag
asks for it; a rethrow flag hands a failure back to the program instead of showing it.

* `DebugFlags`: the flags, as bits.
* `Masking.format`: a failure as the client sees it, or the failure itself when it is handed back.
* `Masking.formatAll`: a list of failures; the first one that is handed back ends it.
* **`Masking.shown_of_unsafe`**: without flags, an unsafe failure shows none of its message.
-/

namespace EntityQuery

/-- How much detail a client sees, as bits. -/
structure DebugFlags where
  bits : UInt8
  deriving DecidableEq, Repr

namespace DebugFlags

/-- No flag. -/
def none : DebugFlags := ⟨0⟩

/-- Shows the real message of an unsafe failure beside the mask. -/
def debugMessage : DebugFlags := ⟨1⟩

/-- Shows where a failure was made, where that is known. -/
def trace : DebugFlags := ⟨2⟩

/-- Hands internal failures back. -/
def rethrowInternal : DebugFlags := ⟨4⟩

/-- Hands unsafe failures back. -/
def rethrowUnsafe : DebugFlags := ⟨8⟩

/-- Keeps the bits that have a meaning. -/
def ofBits (bits : UInt8) : DebugFlags := ⟨bits &&& 15⟩

/-- Whether every flag of `other` is set. -/
def contains (flags other : DebugFlags) : Bool := flags.bits &&& other.bits == other.bits

/-- The flags of both. -/
def union (flags other : DebugFlags) : DebugFlags := ⟨flags.bits ||| other.bits⟩

end DebugFlags

/-- How failures are shown to a client. -/
structure Masking where
  flags : DebugFlags := .none
  /-- The mask of this request, if it has one of its own. -/
  mask? : Option String := none

namespace Masking

/-- The mask that is used where nothing else is set. -/
def standardMask : String := "Internal server error"

/-- Whether a failure is handed back instead of shown. -/
def rethrows (m : Masking) (f : Failure) : Bool :=
  (m.flags.contains .rethrowInternal && f.category = .internal) ||
    (m.flags.contains .rethrowUnsafe && !f.safe)

/-- The message that the client reads. -/
def message (m : Masking) (mask : String) (f : Failure) : String :=
  if f.safe then f.message else m.mask?.getD mask

/-- What the client sees of a failure that is not handed back. -/
def shown (m : Masking) (mask : String) (f : Failure) : Json :=
  .object <|
    (if m.flags.contains .debugMessage && !f.safe then [("debugMessage", .string f.message)]
      else []) ++
    [("message", .string (m.message mask f))] ++
    (if f.locations.isEmpty then [] else [("location", .array (f.locations.map Location.toJson))]) ++
    [("meta", .object (Entries.insert f.info "category" (.string f.category.text)))]

/-- A failure as the client sees it, or the failure itself when it is handed back. The `mask` is
used where the request has none. -/
def format (m : Masking) (mask : String) (f : Failure) : Except Failure Json :=
  if m.rethrows f then .error f else .ok (m.shown mask f)

/-- A list of failures as the client sees it; the first one that is handed back ends it. -/
def formatAll (m : Masking) (mask : String) : List Failure → Except Failure (List Json)
  | [] => .ok []
  | f :: rest => do
    let first ← m.format mask f
    let others ← m.formatAll mask rest
    return first :: others

/-- Without the debug flag, what is shown of an unsafe failure does not depend on its message or
on its causes. -/
theorem shown_of_unsafe {m : Masking} (hm : m.flags.contains .debugMessage = false) (mask : String)
    {f : Failure} (hf : f.safe = false) (message : String) (causes : List Cause) :
    m.shown mask { f with message, causes } = m.shown mask f := by
  simp [shown, Masking.message, hm, hf]

end Masking

end EntityQuery
