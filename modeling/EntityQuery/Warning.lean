/-!
# Warnings

A channel for diagnostics that never fail an operation. A warning belongs to one or more topics, and
topics can be suppressed.

* `Topics`: a set of topics.
* `Channel`: what is suppressed, what has been delivered, and where warnings go.
* `Channel.warn`: delivers a warning unless one of its topics is suppressed.
* `Channel.warnOnce`: the same, and only if none of its topics was delivered before.
-/

namespace EntityQuery

/-- What a warning is about. -/
inductive Topic
  /-- Questionable configuration. -/
  | config
  /-- A scan of a schema that is loaded on demand. -/
  | fullSchemaScan
  /-- An outdated configuration option. -/
  | configDeprecation
  /-- A loader answered with something that is no type. -/
  | notAType
  /-- A query uses something deprecated. -/
  | deprecatedUsage
  deriving DecidableEq, Repr

/-- Every topic. -/
def Topic.all : List Topic := [config, fullSchemaScan, configDeprecation, notAType, deprecatedUsage]

/-- A set of topics. -/
structure Topics where
  config : Bool := false
  fullSchemaScan : Bool := false
  configDeprecation : Bool := false
  notAType : Bool := false
  deprecatedUsage : Bool := false
  deriving DecidableEq, Repr

namespace Topics

/-- No topic. -/
def empty : Topics := {}

/-- Every topic. -/
def all : Topics := ⟨true, true, true, true, true⟩

/-- Whether a topic belongs to the set. -/
def has (ts : Topics) : Topic → Bool
  | .config => ts.config
  | .fullSchemaScan => ts.fullSchemaScan
  | .configDeprecation => ts.configDeprecation
  | .notAType => ts.notAType
  | .deprecatedUsage => ts.deprecatedUsage

/-- The set whose members a test picks. -/
def ofTest (p : Topic → Bool) : Topics :=
  ⟨p .config, p .fullSchemaScan, p .configDeprecation, p .notAType, p .deprecatedUsage⟩

/-- The set of one topic. -/
def single (t : Topic) : Topics := ofTest fun u => u = t

/-- The topics of both sets. -/
def union (a b : Topics) : Topics := ofTest fun t => a.has t || b.has t

/-- The topics of the first set that are not in the second. -/
def diff (a b : Topics) : Topics := ofTest fun t => a.has t && !b.has t

/-- Whether two sets share a topic. -/
def meets (a b : Topics) : Bool :=
  (a.config && b.config) || (a.fullSchemaScan && b.fullSchemaScan) ||
    (a.configDeprecation && b.configDeprecation) || (a.notAType && b.notAType) ||
    (a.deprecatedUsage && b.deprecatedUsage)

/-- The set as bits. -/
def bits (ts : Topics) : Nat :=
  4 * ts.config.toNat + 8 * ts.fullSchemaScan.toNat + 16 * ts.configDeprecation.toNat +
    32 * ts.notAType.toNat + 64 * ts.deprecatedUsage.toNat

/-- The name of a topic, and the bits of any other set. -/
def text (ts : Topics) : String :=
  if ts = single .config then "config"
  else if ts = single .fullSchemaScan then "full_schema_scan"
  else if ts = single .configDeprecation then "config_deprecation"
  else if ts = single .notAType then "not_a_type"
  else if ts = single .deprecatedUsage then "deprecated_usage"
  else "warning(" ++ toString ts.bits ++ ")"

/-- The topic of a name. -/
def topic? (name : String) : Option Topic := Topic.all.find? fun t => (single t).text = name

@[simp] theorem has_ofTest (p : Topic → Bool) (t : Topic) : (ofTest p).has t = p t := by
  cases t <;> rfl

theorem ext_has {a b : Topics} (h : ∀ t, a.has t = b.has t) : a = b := by
  cases a; cases b
  have := h .config; have := h .fullSchemaScan; have := h .configDeprecation
  have := h .notAType; have := h .deprecatedUsage
  simp_all [has]

theorem meets_iff (a b : Topics) : a.meets b = true ↔ ∃ t, a.has t = true ∧ b.has t = true := by
  constructor
  · intro h
    simp only [meets, Bool.or_eq_true, Bool.and_eq_true] at h
    rcases h with (((h | h) | h) | h) | h
    · exact ⟨.config, h⟩
    · exact ⟨.fullSchemaScan, h⟩
    · exact ⟨.configDeprecation, h⟩
    · exact ⟨.notAType, h⟩
    · exact ⟨.deprecatedUsage, h⟩
  · rintro ⟨t, ha, hb⟩
    cases t <;> simp_all [meets, has]

end Topics

/-- A warning: what it is about, and its wording. -/
structure Warning where
  topics : Topics
  message : String
  deriving DecidableEq, Repr

/-- A channel for warnings, with the handler that they go to. -/
structure Channel (handler : Type) where
  suppressed : Topics := .empty
  /-- The topics of the warnings that were delivered. -/
  warned : Topics := .empty
  /-- Where warnings go; without a handler they are dropped. -/
  handler? : Option handler := none
  /-- The warnings that reached a handler, the latest first. -/
  delivered : List (handler × Warning) := []

namespace Channel

variable {handler : Type}

/-- Installs or removes the handler. -/
def setHandler (c : Channel handler) (h : Option handler) : Channel handler :=
  { c with handler? := h }

/-- Suppresses topics. -/
def suppress (c : Channel handler) (ts : Topics) : Channel handler :=
  { c with suppressed := c.suppressed.union ts }

/-- Lets topics through again. -/
def enable (c : Channel handler) (ts : Topics) : Channel handler :=
  { c with suppressed := c.suppressed.diff ts }

/-- Hands a warning to the handler and notes its topics. -/
def deliver (c : Channel handler) (w : Warning) : Channel handler :=
  { c with
    warned := c.warned.union w.topics
    delivered :=
      match c.handler? with
      | some h => (h, w) :: c.delivered
      | none => c.delivered }

/-- Delivers a warning unless one of its topics is suppressed. -/
def warn (c : Channel handler) (w : Warning) : Channel handler :=
  if w.topics.meets c.suppressed then c else c.deliver w

/-- Delivers a warning unless one of its topics is suppressed or was delivered before. -/
def warnOnce (c : Channel handler) (w : Warning) : Channel handler :=
  if w.topics.meets c.suppressed || w.topics.meets c.warned then c else c.deliver w

end Channel

end EntityQuery
