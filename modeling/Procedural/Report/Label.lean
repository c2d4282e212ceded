import Procedural.Diagnostic

/-! # Labels of a report

A diagnostic is reported against a file with **labels** on the stretches of source that it is about:
a primary one on the place it is blamed on, and a secondary one on the earlier declaration when a
name is declared twice. -/

namespace Procedural

/-- How much a label matters. -/
inductive Emphasis where
  /-- The place a problem is blamed on. -/
  | primary
  /-- A place that helps to understand the problem. -/
  | secondary
deriving DecidableEq, Repr, Inhabited

/-- A stretch of source with a remark. -/
structure Label where
  /-- How much it matters. -/
  emphasis : Emphasis
  /-- The number of the file. -/
  file : Nat
  /-- The stretch of source. -/
  span : Span
  /-- The remark. -/
  remark : String
deriving DecidableEq, Repr, Inhabited

/-- A diagnostic prepared for a reader. -/
structure Report where
  /-- The code of the problem. -/
  code : String
  /-- The message of the problem. -/
  message : String
  /-- The labels, in order of importance. -/
  labels : List Label
deriving DecidableEq, Repr, Inhabited

/-- The label on the place a diagnostic is blamed on. -/
def Diagnostic.primaryLabel? (file : Nat) (d : Diagnostic) : Option Label :=
  d.span.map fun s => ⟨.primary, file, s, d.code⟩

/-- The label on the earlier declaration of a name that is declared twice. -/
def Diagnostic.secondaryLabel? (file : Nat) (d : Diagnostic) : Option Label :=
  match d.problem with
  | .duplicateDeclaration _ previous => some ⟨.secondary, file, previous, "first declared here"⟩
  | _ => none

/-- The report of a diagnostic about the file with number `file`. -/
def Diagnostic.toReport (file : Nat) (d : Diagnostic) : Report :=
  ⟨d.code, d.message, (d.primaryLabel? file).toList ++ (d.secondaryLabel? file).toList⟩

end Procedural
