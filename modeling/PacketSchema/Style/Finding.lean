import PacketSchema.Position

/-! What is reported about the style of a schema text, and the wording of each report. -/

namespace PacketSchema

inductive Severity where
  | error
  | warning
deriving DecidableEq, Repr

def Severity.word : Severity → String
  | error => "error"
  | warning => "warning"

inductive Rule where
  | tabsOnly
  | depth (expected found : Nat)
  | oneStatement (semicolons : Nat)
  | trailingBlank
  /-- Variants that are declared before a field do not have it. -/
  | lateField (field struct : String)
deriving DecidableEq, Repr

namespace Rule

def id : Rule → String
  | tabsOnly => "indentation-tabs-only"
  | depth _ _ => "indentation-depth"
  | oneStatement _ => "one-statement-per-line"
  | trailingBlank => "no-trailing-whitespace"
  | lateField _ _ => "field-after-variant"

def severity : Rule → Severity
  | tabsOnly | depth _ _ => .error
  | oneStatement _ | trailingBlank | lateField _ _ => .warning

def message : Rule → String
  | tabsOnly => "indentation must use tabs only (no spaces)"
  | depth expected found => s!"expected {expected} tab(s) at depth {expected} (found {found})"
  | oneStatement semicolons => s!"one statement per line (found {semicolons} semicolons)"
  | trailingBlank => "trailing whitespace not allowed"
  | lateField field struct =>
    s!"field `{field}` added to `{struct}` after its first variant; " ++
      "existing variants do not inherit it"

end Rule

structure Finding where
  place : Place
  rule : Rule
deriving DecidableEq, Repr

namespace Finding

def severity (f : Finding) : Severity := f.rule.severity

def message (f : Finding) : String := f.rule.message

end Finding

end PacketSchema
