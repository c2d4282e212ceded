import Procedural.Span
import Procedural.Ty.Text

/-! # Diagnostics

A **diagnostic** says what is wrong and where. Each `Problem` has a code that names its kind and a
message for the reader; a `Log` is the list of diagnostics reported so far, oldest first. -/

namespace Procedural

/-- What can be wrong with a program. -/
inductive Problem where
  /-- A continue statement outside every loop. -/
  | continueNotInLoop
  /-- A break statement outside every loop. -/
  | breakNotInLoop
  /-- A construct that needs a number found something else. -/
  | nonArithmeticOperand (construct : String) (found : Ty)
  /-- A construct that needs a truth value found something else. -/
  | nonBooleanOperand (construct : String) (found : Ty)
  /-- A name declared again in the scope that declares it at `previous`. -/
  | duplicateDeclaration (name : String) (previous : Span)
  /-- A name that is declared nowhere in sight. -/
  | undeclaredIdentifier (name : String)
  /-- A call of something that is not a function. -/
  | notCallable (name : String)
  /-- A function used as if it were a variable. -/
  | notAVariable (name : String)
  /-- A value that may not be stored where `expected` is declared. -/
  | typeMismatch (construct : String) (expected found : Ty)
  /-- A call with too few or too many arguments. -/
  | wrongArgumentCount (callee : String) (expected found : Nat)
  /-- A return statement outside every function. -/
  | returnOutsideFunction
  /-- A return statement without a value in a function that must return one. -/
  | missingReturnValue (expected : Ty)
  /-- A return statement with a value in a procedure. -/
  | unexpectedReturnValue
deriving DecidableEq, Repr, Inhabited

namespace Problem

/-- The code that names the kind of problem. -/
def code : Problem → String
  | continueNotInLoop => "continue_not_in_loop"
  | breakNotInLoop => "break_not_in_loop"
  | nonArithmeticOperand _ _ => "non_arithmetic_operand"
  | nonBooleanOperand _ _ => "non_boolean_operand"
  | duplicateDeclaration _ _ => "duplicate_declaration"
  | undeclaredIdentifier _ => "undeclared_identifier"
  | notCallable _ => "not_callable"
  | notAVariable _ => "not_a_variable"
  | typeMismatch _ _ _ => "type_mismatch"
  | wrongArgumentCount _ _ _ => "wrong_argument_count"
  | returnOutsideFunction => "return_outside_function"
  | missingReturnValue _ => "missing_return_value"
  | unexpectedReturnValue => "unexpected_return_value"

/-- A name or construct as messages quote it. -/
def quoted (s : String) : String := "'" ++ s ++ "'"

/-- The message for the reader. -/
def message : Problem → String
  | continueNotInLoop => "continue statement is not inside a loop"
  | breakNotInLoop => "break statement is not inside a loop"
  | nonArithmeticOperand c found =>
    quoted c ++ " requires an arithmetic operand, found " ++ found.text
  | nonBooleanOperand c found => quoted c ++ " requires a boolean operand, found " ++ found.text
  | duplicateDeclaration x _ => quoted x ++ " is already declared in this scope"
  | undeclaredIdentifier x => "undeclared identifier " ++ quoted x
  | notCallable x => quoted x ++ " is not a function"
  | notAVariable x => quoted x ++ " is a function, not a variable"
  | typeMismatch c expected found =>
    "type mismatch in " ++ c ++ ": expected " ++ expected.text ++ ", found " ++ found.text
  | wrongArgumentCount f expected found =>
    quoted f ++ " expects " ++ toString expected ++ " argument(s), found " ++ toString found
  | returnOutsideFunction => "return statement is not inside a function"
  | missingReturnValue expected => "function returning " ++ expected.text ++ " must return a value"
  | unexpectedReturnValue => "procedure cannot return a value"

end Problem

/-- A problem and the place it is blamed on, if there is one. -/
structure Diagnostic where
  /-- What is wrong. -/
  problem : Problem
  /-- The place. -/
  span : Option Span
deriving DecidableEq, Repr, Inhabited

namespace Diagnostic

/-- The code of the problem. -/
def code (d : Diagnostic) : String := d.problem.code

/-- The message of the problem. -/
def message (d : Diagnostic) : String := d.problem.message

end Diagnostic

/-- The diagnostics reported so far, oldest first. -/
abbrev Log := List Diagnostic

namespace Log

/-- The log with one more report. -/
def report (log : Log) (d : Diagnostic) : Log := log ++ [d]

/-- How many reports have the given code. -/
def count (log : Log) (code : String) : Nat := log.countP (·.code == code)

/-- The codes of all reports, oldest first. -/
def codes (log : Log) : List String := log.map Diagnostic.code

end Log

end Procedural
