import Procedural.Proofs.Analysis.Run

/-! # Checks of operands only add to the log

Every check of operands keeps what has been reported, also where an operand has no type and the
check ends in a fault. A check that ends with no more reports than it began with is therefore one in
which nothing was reported. -/

namespace Procedural

/-- Reading a recorded type only adds to the log. -/
theorem grows_resolved (e : Expr) : Grows e.resolved :=
  .of_log_eq fun _ _ _ h => congrArg Context.log (of_resolved_ok h).2

/-- A demand only adds to the log. -/
theorem grows_require (e : Expr) (d : Demand) : Grows (e.require d) := by
  refine .bind (grows_resolved e) fun found => ?_
  split
  · exact .pure _
  · split
    · exact .pure _
    · exact .bind (grows_report ..) fun _ => .pure _

/-- A demand on two operands only adds to the log. -/
theorem grows_requireBoth (d : Demand) (l r : Expr) : Grows (requireBoth d l r) :=
  .bind (grows_require l d) fun _ => .bind (grows_require r d) fun _ => .pure _

/-- Checking a binary operator only adds to the log. -/
theorem grows_checkBinary (op : BinaryOp) (l r : Expr) : Grows (checkBinary op l r) := by
  cases op with
  | arith op =>
    exact .bind (grows_requireBoth ..) fun ⟨⟨_, l⟩, _, r⟩ =>
      .bind (grows_resolved l) fun _ => .bind (grows_resolved r) fun _ => .pure _
  | order op => exact .bind (grows_requireBoth ..) fun ⟨⟨_, l⟩, _, r⟩ => .pure _
  | equality op =>
    refine .bind (grows_resolved l) fun left => .bind (grows_resolved r) fun right => ?_
    split
    · exact .pure _
    · exact .bind (grows_require ..) fun ⟨_, r⟩ => .pure _
  | logic op => exact .bind (grows_requireBoth ..) fun ⟨⟨_, l⟩, _, r⟩ => .pure _

/-- Checking a unary operator only adds to the log. -/
theorem grows_checkUnary (op : UnaryOp) (e : Expr) : Grows (checkUnary op e) := by
  cases op with
  | neg => exact .bind (grows_require ..) fun ⟨_, e⟩ => .bind (grows_resolved e) fun _ => .pure _
  | not => exact .bind (grows_require ..) fun ⟨_, e⟩ => .pure _

/-- What becomes of a resolved name that has to stand for a value keeps the log. -/
theorem grows_ofEntity {α : Type} {a a' : α} {p : Problem} {s : Option Span} {k : Entity → Check α}
    (hk : ∀ e, Grows (k e)) : ∀ o : Option Entity,
    Grows (match o with
      | none => pure a
      | some e => if e.isValue then k e else report p s >>= fun _ => pure a')
  | none => .pure _
  | some e => by
    show Grows (if e.isValue then _ else _)
    split
    · exact hk e
    · exact .bind (grows_report ..) fun _ => .pure _

/-- Checking arguments only adds to the log. -/
theorem grows_requireArgs (f : String) (i : Nat) (es : List Expr) (ts : List Ty) :
    Grows (requireArgs f i es ts) := by
  induction es generalizing i ts with
  | nil => exact .pure _
  | cons e es ih =>
    cases ts with
    | nil => exact .pure _
    | cons t ts =>
      exact .bind (grows_require ..) fun ⟨_, e⟩ => .bind (ih (i + 1) ts) fun _ => .pure _

/-- Checking a call only adds to the log. -/
theorem grows_checkCall (f : String) (s : Span) (o : Option Entity) (args : List Expr) :
    Grows (checkCall f s o args) := by
  unfold checkCall
  split
  · exact .pure _
  · split
    · exact .bind (grows_requireArgs ..) fun _ => .pure _
    · exact .bind (grows_report ..) fun _ => .pure _
  · exact .bind (grows_report ..) fun _ => .pure _

end Procedural
