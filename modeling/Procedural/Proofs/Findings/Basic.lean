import Procedural.Proofs.Analysis.Env
import Procedural.Proofs.Analysis.Erasure

/-! # What can be found without types

Most of what an analysis reports has nothing to do with the types of values: names that are not
declared or are declared twice, names used as what they are not, calls with the wrong number of
arguments, jumps and returns in the wrong place. The **findings** of a tree are these reports, as a
function of the tree and of its **surroundings**, which are everything of a context but its log.

* `Problem.kind`: what a problem is about; findings are the reports that are not about types.
* `Frame.offer`, `Frame.refusals`: a frame keeps the first declaration of a name and refuses others.
* `Stmt.findings`, `Expr.findings`: the findings of trees.
* `Stmt.findings_bare`: the types recorded in a tree do not matter. -/

namespace Procedural

/-! ## Kinds of problems -/

/-- What problems are about. -/
inductive ProblemKind where
  /-- A value has the wrong type. -/
  | typing
  /-- A name is used, but does not stand for what it is used as. -/
  | misuse
  /-- A name is declared again. -/
  | duplicate
  /-- A jump or a return stands in the wrong place. -/
  | control
deriving DecidableEq, Repr, Inhabited

/-- What a problem is about. -/
def Problem.kind : Problem → ProblemKind
  | nonArithmeticOperand _ _ | nonBooleanOperand _ _ | typeMismatch _ _ _ => .typing
  | undeclaredIdentifier _ | notCallable _ | notAVariable _ | wrongArgumentCount _ _ _ => .misuse
  | duplicateDeclaration _ _ => .duplicate
  | breakNotInLoop | continueNotInLoop | returnOutsideFunction | unexpectedReturnValue
  | missingReturnValue _ => .control

/-- Demands complain about types only. -/
@[simp] theorem Demand.kind_problem (d : Demand) (t : Ty) : (d.problem t).kind = .typing := by
  cases d <;> rfl

/-- Jumps complain about their place only. -/
@[simp] theorem Jump.kind_problem (j : Jump) : j.problem.kind = .control := by
  cases j <;> rfl

namespace Log

/-- All reports are of one kind. -/
def AllOf (k : ProblemKind) (log : Log) : Prop := ∀ d ∈ log, d.problem.kind = k

/-- The reports of one kind. -/
def ofKind (k : ProblemKind) (log : Log) : Log := log.filter fun d => d.problem.kind = k

/-- The reports that are not about the types of values. -/
def untyped (log : Log) : Log := log.filter fun d => d.problem.kind ≠ .typing

variable {k k' : ProblemKind} {log log' : Log}

/-- The empty log has reports of any one kind. -/
theorem allOf_nil : AllOf k [] := List.forall_mem_nil _

/-- A single report is of its own kind. -/
theorem allOf_singleton {d : Diagnostic} (h : d.problem.kind = k) : AllOf k [d] :=
  List.forall_mem_singleton.2 h

/-- Two logs of one kind are of that kind together. -/
theorem AllOf.append (h : log.AllOf k) (h' : log'.AllOf k) : AllOf k (log ++ log') :=
  List.forall_mem_append.2 ⟨h, h'⟩

/-- Picking the reports of one kind goes log by log. -/
@[simp] theorem ofKind_append (k : ProblemKind) (log log' : Log) :
    ofKind k (log ++ log') = log.ofKind k ++ log'.ofKind k := List.filter_append _ _

/-- A log of one kind keeps all its reports when that kind is picked. -/
theorem AllOf.ofKind_self (h : log.AllOf k) : log.ofKind k = log :=
  List.filter_eq_self.2 fun d hd => decide_eq_true (h d hd)

/-- A log of one kind keeps none of its reports when another kind is picked. -/
theorem AllOf.ofKind_ne (h : log.AllOf k) (hne : k ≠ k') : log.ofKind k' = [] :=
  List.filter_eq_nil_iff.2 fun d hd => by simp [h d hd, hne]

/-- Leaving out the reports about types goes log by log. -/
@[simp] theorem untyped_append (log log' : Log) :
    untyped (log ++ log') = log.untyped ++ log'.untyped := List.filter_append _ _

/-- None of the reports of another kind is lost. -/
theorem ofKind_untyped (hk : k ≠ .typing) (log : Log) : log.untyped.ofKind k = log.ofKind k := by
  rw [ofKind, untyped, List.filter_filter]
  congr
  funext d
  by_cases h : d.problem.kind = k
  · simp [h, hk]
  · simp [h]

end Log

/-! ## Frames with several declarations -/

namespace Frame

/-- The frame with one more binding, unless it declares the name already. -/
def offer (f : Frame) (b : Binding) : Frame := if (f.lookup b.1).isSome then f else b :: f

/-- The frame with several more bindings, first to last. -/
def offerAll (f : Frame) (bs : List Binding) : Frame := bs.foldl offer f

/-- What is reported when the binding is added to the frame. -/
def refusal (f : Frame) (b : Binding) : Log :=
  match f.lookup b.1 with
  | some old => [⟨.duplicateDeclaration b.1 old.span, some b.2.span⟩]
  | none => []

/-- What is reported when several bindings are added, first to last. -/
def refusals (f : Frame) : List Binding → Log
  | [] => []
  | b :: bs => f.refusal b ++ refusals (f.offer b) bs

/-- A frame that is offered two lists is offered one and then the other. -/
theorem offerAll_append (f : Frame) (bs bs' : List Binding) :
    f.offerAll (bs ++ bs') = (f.offerAll bs).offerAll bs' := List.foldl_append

/-- A frame that is offered two lists refuses of the second what it refuses after the first. -/
theorem refusals_append (f : Frame) (bs bs' : List Binding) :
    f.refusals (bs ++ bs') = f.refusals bs ++ (f.offerAll bs).refusals bs' := by
  induction bs generalizing f with
  | nil => rfl
  | cons b bs ih => simp [refusals, ih, offerAll]

end Frame

/-! ## Surroundings -/

/-- Everything of a context but its log: what a tree is analyzed in. -/
structure Surroundings where
  /-- The declarations in force. -/
  scopes : Scopes
  /-- How many loops enclose the current statement within its function. -/
  loops : Nat
  /-- The result type of the enclosing function. -/
  returns : Option Ty

/-- The surroundings that a context stands for. -/
def Context.surroundings (ctx : Context) : Surroundings := ⟨ctx.scopes, ctx.loops, ctx.returns⟩

/-- Replacing the innermost frame by itself changes nothing. -/
theorem Scopes.withInnermost_innermost (s : Scopes) : s.withInnermost s.innermost = s := by
  obtain ⟨globals, locals⟩ := s
  cases locals <;> rfl

/-- Of two replacements of the innermost frame, the later one counts. -/
theorem Scopes.withInnermost_withInnermost (s : Scopes) (f g : Frame) :
    (s.withInnermost f).withInnermost g = s.withInnermost g := by
  obtain ⟨globals, locals⟩ := s
  cases locals <;> rfl

namespace Surroundings

/-- What a program is analyzed in: no declarations, no loop and no function. -/
def initial : Surroundings := ⟨.empty, 0, none⟩

/-- The innermost frame. -/
def frame (σ : Surroundings) : Frame := σ.scopes.innermost

/-- A new scope. -/
def push (σ : Surroundings) : Surroundings := { σ with scopes := σ.scopes.push }

/-- One loop deeper. -/
def inside (σ : Surroundings) : Surroundings := { σ with loops := σ.loops + 1 }

/-- The body of a function. -/
def enter (σ : Surroundings) (result : Ty) : Surroundings :=
  { σ with returns := some result, loops := 0 }

/-- The surroundings are inside a loop of the function. -/
def looped (σ : Surroundings) : Bool := 0 < σ.loops

/-- The surroundings with more bindings in the innermost frame, as far as it takes them. -/
def offerAll (σ : Surroundings) (bs : List Binding) : Surroundings :=
  { σ with scopes := σ.scopes.withInnermost (σ.frame.offerAll bs) }

/-- What is reported when the bindings are added. -/
def refusals (σ : Surroundings) (bs : List Binding) : Log := σ.frame.refusals bs

/-- No bindings, no change. -/
@[simp] theorem offerAll_nil (σ : Surroundings) : σ.offerAll [] = σ :=
  congrArg (Surroundings.mk · σ.loops σ.returns) σ.scopes.withInnermost_innermost

/-- The innermost frame is the one that takes the bindings. -/
@[simp] theorem frame_offerAll (σ : Surroundings) (bs : List Binding) :
    (σ.offerAll bs).frame = σ.frame.offerAll bs := Scopes.innermost_withInnermost ..

/-- Surroundings that are offered two lists are offered one and then the other. -/
theorem offerAll_append (σ : Surroundings) (bs bs' : List Binding) :
    σ.offerAll (bs ++ bs') = (σ.offerAll bs).offerAll bs' := by
  show _ = Surroundings.mk ((σ.scopes.withInnermost _).withInnermost _) _ _
  rw [frame_offerAll, Scopes.withInnermost_withInnermost, ← Frame.offerAll_append]
  rfl

/-- Surroundings that are offered two lists refuse of the second what they refuse after the first.
-/
theorem refusals_append (σ : Surroundings) (bs bs' : List Binding) :
    σ.refusals (bs ++ bs') = σ.refusals bs ++ (σ.offerAll bs).refusals bs' := by
  rw [refusals, Frame.refusals_append, refusals, refusals, frame_offerAll]

end Surroundings

/-! ## Findings about expressions -/

/-- What is found about a name that has to be declared. -/
def Scopes.unresolved (s : Scopes) (x : String) (sp : Span) : Log :=
  match s.lookup x with
  | some _ => []
  | none => [⟨.undeclaredIdentifier x, some sp⟩]

/-- What is found about a declared name that has to stand for a value. -/
def Scopes.valueless (s : Scopes) (x : String) (sp : Span) : Log :=
  match s.lookup x with
  | some e => if e.isValue then [] else [⟨.notAVariable x, some sp⟩]
  | none => []

/-- What is found about a declared name that is called with `n` arguments. -/
def Scopes.uncallable (s : Scopes) (f : String) (n : Nat) (sp : Span) : Log :=
  match s.lookup f with
  | none => []
  | some ⟨_, .fn params _, _⟩ =>
    if params.length = n then [] else [⟨.wrongArgumentCount f params.length n, some sp⟩]
  | some _ => [⟨.notCallable f, some sp⟩]

mutual

/-- What can be found about an expression. -/
def Expr.findings (s : Scopes) : Expr → Log
  | .lit _ _ => []
  | .ident n x => s.unresolved x n.span ++ s.valueless x n.span
  | .binary _ _ l r => l.findings s ++ r.findings s
  | .unary _ _ e => e.findings s
  | .call _ c => c.findings s

/-- What can be found about a call. -/
def Call.findings (s : Scopes) : Call → Log
  | ⟨f, args, sp⟩ =>
    s.unresolved f sp ++ (Expr.findingsAll s args ++ s.uncallable f args.length sp)

/-- What can be found about the expressions of a list. -/
def Expr.findingsAll (s : Scopes) : List Expr → Log
  | [] => []
  | e :: es => e.findings s ++ Expr.findingsAll s es

end

/-- What can be found about an expression that may be missing. -/
def Expr.findingsOpt (s : Scopes) : Option Expr → Log
  | none => []
  | some e => e.findings s

/-! ## Findings about statements -/

/-- What is wrong with a return, with a value or without one, where the enclosing function has the
given result type. -/
def returnProblem? : Option Ty → Bool → Option Problem
  | none, _ => some .returnOutsideFunction
  | some .void, true => some .unexpectedReturnValue
  | some .void, false => none
  | some _, true => none
  | some t, false => some (.missingReturnValue t)

/-- In a function with a result, a return is wrong exactly if it has no value. -/
theorem returnProblem?_function {t : Ty} (ht : t ≠ .void) (valued : Bool) :
    returnProblem? (some t) valued = if valued then none else some (.missingReturnValue t) := by
  cases t <;> cases valued <;> simp_all [returnProblem?]

mutual

/-- What can be found about a statement of a sequence whose functions have been declared. -/
def Stmt.findings (σ : Surroundings) : Stmt → Log
  | .var _ d => Expr.findingsOpt σ.scopes d.init ++ σ.refusals [d.binding]
  | .func _ f ⟨body, _⟩ =>
    let params := f.params.map Param.binding
    let τ := (σ.enter f.result).push
    let υ := τ.offerAll params
    τ.refusals params ++ (υ.refusals (functionBindings body) ++
      Stmt.findingsAll (υ.offerAll (functionBindings body)) body)
  | .assign s x e =>
    σ.scopes.unresolved x s ++ (e.findings σ.scopes ++ σ.scopes.valueless x s)
  | .call _ c => c.findings σ.scopes
  | .after _ e c => e.findings σ.scopes ++ c.findings σ.scopes
  | .block _ b => b.findings σ
  | .ifChain _ arms o => Arm.findingsAll σ arms ++ Block.findingsOpt σ o
  | .whileLoop _ e b => e.findings σ.scopes ++ b.findings σ.inside
  | .forLoop _ i e u b =>
    let τ := σ.push.offerAll (sequenceBindings i.toList)
    Stmt.findingsOpt σ.push i ++
      (Expr.findingsOpt τ.scopes e ++ (b.findings τ.inside ++ Stmt.findingsOpt τ u))
  | .jump s j => if σ.looped then [] else [⟨j.problem, some s⟩]
  | .ret s e =>
    Expr.findingsOpt σ.scopes e ++
      ((returnProblem? σ.returns e.isSome).map (⟨·, some s⟩)).toList

/-- What can be found about the initializer or step of a loop, which declares its own function. -/
def Stmt.findingsOpt (σ : Surroundings) : Option Stmt → Log
  | none => []
  | some s => σ.refusals (functionBindings [s]) ++ s.findings (σ.offerAll (functionBindings [s]))

/-- What can be found about the statements of a sequence whose functions have been declared. -/
def Stmt.findingsAll (σ : Surroundings) : List Stmt → Log
  | [] => []
  | s :: ss => s.findings σ ++ Stmt.findingsAll (σ.offerAll s.bindings) ss

/-- What can be found about a block. -/
def Block.findings (σ : Surroundings) : Block → Log
  | ⟨ss, _⟩ =>
    σ.push.refusals (functionBindings ss) ++
      Stmt.findingsAll (σ.push.offerAll (functionBindings ss)) ss

/-- What can be found about a block that may be missing. -/
def Block.findingsOpt (σ : Surroundings) : Option Block → Log
  | none => []
  | some b => b.findings σ

/-- What can be found about conditional arms. -/
def Arm.findingsAll (σ : Surroundings) : List Arm → Log
  | [] => []
  | ⟨e, b⟩ :: arms => e.findings σ.scopes ++ (b.findings σ ++ Arm.findingsAll σ arms)

end

/-- What can be found about a sequence: its functions are declared first. -/
def Stmt.findingsSeq (σ : Surroundings) (ss : List Stmt) : Log :=
  σ.refusals (functionBindings ss) ++ Stmt.findingsAll (σ.offerAll (functionBindings ss)) ss

/-- What can be found about a program. -/
def Program.findings (p : Program) : Log := Stmt.findingsSeq .initial p.stmts

/-- A block is a sequence of its own scope. -/
theorem Block.findings_eq (σ : Surroundings) (b : Block) :
    b.findings σ = Stmt.findingsSeq σ.push b.stmts := by
  cases b
  rfl

/-- The parameters of a function share the frame of its body. -/
theorem Stmt.findings_func (σ : Surroundings) (s : Span) (f : FuncHeader) (b : Block) :
    (Stmt.func s f b).findings σ =
      (σ.enter f.result).push.refusals (f.params.map Param.binding) ++
        Stmt.findingsSeq ((σ.enter f.result).push.offerAll (f.params.map Param.binding))
          b.stmts := by
  cases b
  rfl

/-- The arms of a conditional are searched first to last, each condition before its block. -/
theorem Arm.findingsAll_cons (σ : Surroundings) (a : Arm) (arms : List Arm) :
    Arm.findingsAll σ (a :: arms) =
      a.cond.findings σ.scopes ++ (a.body.findings σ ++ Arm.findingsAll σ arms) := by
  cases a
  rfl

/-- A loop clause is like a sequence of that statement. -/
theorem Stmt.findingsOpt_eq (σ : Surroundings) (o : Option Stmt) :
    Stmt.findingsOpt σ o = Stmt.findingsSeq σ o.toList := by
  cases o with
  | none => rfl
  | some s => simp [findingsOpt, findingsSeq, findingsAll]

/-! ## What kinds of problems are found where -/

/-- What a frame refuses is reported as declared twice. -/
theorem Frame.allOf_refusals (f : Frame) (bs : List Binding) :
    (f.refusals bs).AllOf .duplicate := by
  induction bs generalizing f with
  | nil => exact Log.allOf_nil
  | cons b bs ih =>
    refine .append ?_ (ih _)
    rw [refusal]
    cases f.lookup b.1 with
    | none => exact Log.allOf_nil
    | some old => exact Log.allOf_singleton rfl

/-- What the innermost frame refuses is reported as declared twice. -/
theorem Surroundings.allOf_refusals (σ : Surroundings) (bs : List Binding) :
    (σ.refusals bs).AllOf .duplicate := σ.frame.allOf_refusals bs

/-- A name without a declaration is reported as misused. -/
theorem Scopes.allOf_unresolved (s : Scopes) (x : String) (sp : Span) :
    (s.unresolved x sp).AllOf .misuse := by
  rw [unresolved]
  cases s.lookup x with
  | none => exact Log.allOf_singleton rfl
  | some e => exact Log.allOf_nil

/-- A function in the place of a value is reported as misused. -/
theorem Scopes.allOf_valueless (s : Scopes) (x : String) (sp : Span) :
    (s.valueless x sp).AllOf .misuse := by
  rw [valueless]
  cases s.lookup x with
  | none => exact Log.allOf_nil
  | some e =>
    show Log.AllOf _ (if e.isValue then _ else _)
    split
    · exact Log.allOf_nil
    · exact Log.allOf_singleton rfl

/-- A call that the declaration does not fit is reported as misuse. -/
theorem Scopes.allOf_uncallable (s : Scopes) (f : String) (n : Nat) (sp : Span) :
    (s.uncallable f n sp).AllOf .misuse := by
  rw [uncallable]
  split
  · exact Log.allOf_nil
  · split
    · exact Log.allOf_nil
    · exact Log.allOf_singleton rfl
  · exact Log.allOf_singleton rfl

mutual

/-- What can be found about an expression is that names in it are misused. -/
theorem Expr.allOf_findings (s : Scopes) : ∀ e : Expr, (e.findings s).AllOf .misuse
  | .lit _ _ => Log.allOf_nil
  | .ident n x => (s.allOf_unresolved x n.span).append (s.allOf_valueless x n.span)
  | .binary _ _ l r => (Expr.allOf_findings s l).append (Expr.allOf_findings s r)
  | .unary _ _ e => Expr.allOf_findings s e
  | .call _ c => Call.allOf_findings s c

/-- Findings about calls are about misused names. -/
theorem Call.allOf_findings (s : Scopes) : ∀ c : Call, (c.findings s).AllOf .misuse
  | ⟨f, args, sp⟩ => (s.allOf_unresolved f sp).append <|
    (Expr.allOf_findingsAll s args).append (s.allOf_uncallable f args.length sp)

/-- Findings about lists of expressions are about misused names. -/
theorem Expr.allOf_findingsAll (s : Scopes) : ∀ es : List Expr,
    (Expr.findingsAll s es).AllOf .misuse
  | [] => Log.allOf_nil
  | e :: es => (Expr.allOf_findings s e).append (Expr.allOf_findingsAll s es)

end

/-- Findings about an optional expression are about misused names. -/
theorem Expr.allOf_findingsOpt (s : Scopes) (o : Option Expr) :
    (Expr.findingsOpt s o).AllOf .misuse := by
  cases o with
  | none => exact Log.allOf_nil
  | some e => exact e.allOf_findings s

section

variable {k : ProblemKind}

/-- Refused declarations give no report of another kind. -/
@[simp] theorem Surroundings.ofKind_refusals (hk : .duplicate ≠ k) (σ : Surroundings)
    (bs : List Binding) : (σ.refusals bs).ofKind k = [] := (σ.allOf_refusals bs).ofKind_ne hk

/-- Expressions give no finding of a kind other than misuse. -/
@[simp] theorem Expr.ofKind_findings (hk : .misuse ≠ k) (s : Scopes) (e : Expr) :
    (e.findings s).ofKind k = [] := (e.allOf_findings s).ofKind_ne hk

/-- Calls give no finding of a kind other than misuse. -/
@[simp] theorem Call.ofKind_findings (hk : .misuse ≠ k) (s : Scopes) (c : Call) :
    (c.findings s).ofKind k = [] := (c.allOf_findings s).ofKind_ne hk

/-- Optional expressions give no finding of a kind other than misuse. -/
@[simp] theorem Expr.ofKind_findingsOpt (hk : .misuse ≠ k) (s : Scopes) (o : Option Expr) :
    (Expr.findingsOpt s o).ofKind k = [] := (Expr.allOf_findingsOpt s o).ofKind_ne hk

/-- Names without a declaration give no report of another kind. -/
@[simp] theorem Scopes.ofKind_unresolved (hk : .misuse ≠ k) (s : Scopes) (x : String)
    (sp : Span) : (s.unresolved x sp).ofKind k = [] := (s.allOf_unresolved x sp).ofKind_ne hk

/-- Functions in the place of values give no report of another kind. -/
@[simp] theorem Scopes.ofKind_valueless (hk : .misuse ≠ k) (s : Scopes) (x : String)
    (sp : Span) : (s.valueless x sp).ofKind k = [] := (s.allOf_valueless x sp).ofKind_ne hk

end

/-- All that is found about a jump is its place. -/
theorem allOf_jump (σ : Surroundings) (s : Span) (j : Jump) :
    ((Stmt.jump s j).findings σ).AllOf .control := by
  rw [Stmt.findings]
  split
  · exact Log.allOf_nil
  · exact Log.allOf_singleton j.kind_problem

/-- What is wrong with a return, if anything, is its place. -/
theorem allOf_returnProblem? (r : Option Ty) (valued : Bool) (s : Span) :
    Log.AllOf .control ((returnProblem? r valued).map (⟨·, some s⟩)).toList := by
  unfold returnProblem?
  split <;> first | exact Log.allOf_nil | exact Log.allOf_singleton rfl

/-! ## Recorded types do not matter -/

/-- Erasing types keeps the number of expressions. -/
theorem Expr.length_bareAll (es : List Expr) : (Expr.bareAll es).length = es.length := by
  induction es with
  | nil => rfl
  | cons e es ih => exact congrArg (· + 1) ih

mutual

/-- The types recorded in an expression do not matter for what is found about it. -/
theorem Expr.findings_bare (s : Scopes) : ∀ e : Expr, e.bare.findings s = e.findings s
  | .lit _ _ | .ident _ _ => rfl
  | .binary _ _ l r => by
    rw [Expr.bare, Expr.findings, Expr.findings, Expr.findings_bare s l, Expr.findings_bare s r]
  | .unary _ _ e => by rw [Expr.bare, Expr.findings, Expr.findings, Expr.findings_bare s e]
  | .call _ c => by rw [Expr.bare, Expr.findings, Expr.findings, Call.findings_bare s c]

/-- The types recorded in a call do not matter for what is found about it. -/
theorem Call.findings_bare (s : Scopes) : ∀ c : Call, c.bare.findings s = c.findings s
  | ⟨_, args, _⟩ => by
    rw [Call.bare, Call.findings, Call.findings, Expr.findingsAll_bareAll s args,
      Expr.length_bareAll]

/-- The types recorded in a list of expressions do not matter for what is found about it. -/
theorem Expr.findingsAll_bareAll (s : Scopes) :
    ∀ es : List Expr, Expr.findingsAll s (Expr.bareAll es) = Expr.findingsAll s es
  | [] => rfl
  | e :: es => by
    rw [Expr.bareAll, Expr.findingsAll, Expr.findingsAll, Expr.findings_bare s e,
      Expr.findingsAll_bareAll s es]

end

/-- The types recorded in an optional expression do not matter for what is found about it. -/
theorem Expr.findingsOpt_bare (s : Scopes) (o : Option Expr) :
    Expr.findingsOpt s (o.map Expr.bare) = Expr.findingsOpt s o := by
  cases o with
  | none => rfl
  | some e => exact e.findings_bare s

/-- A statement declares the same bindings without its types. -/
theorem Stmt.bindings_bare (s : Stmt) : s.bare.bindings = s.bindings := by
  cases s <;> rfl

/-- The initializer or step of a loop declares the same bindings without its types. -/
theorem sequenceBindings_toList_bareOpt (o : Option Stmt) :
    sequenceBindings (Stmt.bareOpt o).toList = sequenceBindings o.toList := by
  cases o with
  | none => rfl
  | some s => cases s <;> rfl

mutual

/-- The types recorded in a statement do not matter for what is found about it. -/
theorem Stmt.findings_bare : ∀ (σ : Surroundings) (s : Stmt), s.bare.findings σ = s.findings σ
  | σ, .var _ d => by
    rw [Stmt.bare, Stmt.findings, Stmt.findings, VarDecl.bare, Expr.findingsOpt_bare]
    rfl
  | σ, .func _ f ⟨body, _⟩ => by
    simp only [Stmt.bare, Block.bare, Stmt.findings, functionBindings_bareAll,
      Stmt.findingsAll_bareAll _ body]
  | σ, .assign _ _ e => by rw [Stmt.bare, Stmt.findings, Stmt.findings, Expr.findings_bare]
  | σ, .call _ c => by rw [Stmt.bare, Stmt.findings, Stmt.findings, Call.findings_bare]
  | σ, .after _ e c => by
    rw [Stmt.bare, Stmt.findings, Stmt.findings, Expr.findings_bare, Call.findings_bare]
  | σ, .block _ b => by rw [Stmt.bare, Stmt.findings, Stmt.findings, Block.findings_bare σ b]
  | σ, .ifChain _ arms o => by
    rw [Stmt.bare, Stmt.findings, Stmt.findings, Arm.findingsAll_bareAll σ arms,
      Block.findingsOpt_bareOpt σ o]
  | σ, .whileLoop _ e b => by
    rw [Stmt.bare, Stmt.findings, Stmt.findings, Expr.findings_bare, Block.findings_bare _ b]
  | σ, .forLoop _ i e u b => by
    rw [Stmt.bare, Stmt.findings, Stmt.findings, sequenceBindings_toList_bareOpt,
      Stmt.findingsOpt_bareOpt _ i, Stmt.findingsOpt_bareOpt _ u, Expr.findingsOpt_bare,
      Block.findings_bare _ b]
  | _, .jump _ _ => rfl
  | σ, .ret _ e => by
    rw [Stmt.bare, Stmt.findings, Stmt.findings, Expr.findingsOpt_bare, Option.isSome_map]

/-- The types recorded in the initializer or step of a loop do not matter. -/
theorem Stmt.findingsOpt_bareOpt : ∀ (σ : Surroundings) (o : Option Stmt),
    Stmt.findingsOpt σ (Stmt.bareOpt o) = Stmt.findingsOpt σ o
  | _, none => rfl
  | σ, some s => by
    have hhead : functionBindings [s.bare] = functionBindings [s] := functionBindings_bareAll [s]
    rw [Stmt.bareOpt, Stmt.findingsOpt, Stmt.findingsOpt, hhead, Stmt.findings_bare _ s]

/-- The types recorded in a list of statements do not matter. -/
theorem Stmt.findingsAll_bareAll : ∀ (σ : Surroundings) (ss : List Stmt),
    Stmt.findingsAll σ (Stmt.bareAll ss) = Stmt.findingsAll σ ss
  | _, [] => rfl
  | σ, s :: ss => by
    rw [Stmt.bareAll, Stmt.findingsAll, Stmt.findingsAll, Stmt.findings_bare σ s,
      Stmt.bindings_bare, Stmt.findingsAll_bareAll _ ss]

/-- The types recorded in a block do not matter. -/
theorem Block.findings_bare : ∀ (σ : Surroundings) (b : Block), b.bare.findings σ = b.findings σ
  | σ, ⟨ss, _⟩ => by
    rw [Block.bare, Block.findings, Block.findings, functionBindings_bareAll,
      Stmt.findingsAll_bareAll _ ss]

/-- The types recorded in an optional block do not matter. -/
theorem Block.findingsOpt_bareOpt : ∀ (σ : Surroundings) (o : Option Block),
    Block.findingsOpt σ (Block.bareOpt o) = Block.findingsOpt σ o
  | _, none => rfl
  | σ, some b => Block.findings_bare σ b

/-- The types recorded in the arms of a conditional do not matter. -/
theorem Arm.findingsAll_bareAll : ∀ (σ : Surroundings) (arms : List Arm),
    Arm.findingsAll σ (Arm.bareAll arms) = Arm.findingsAll σ arms
  | _, [] => rfl
  | σ, ⟨e, b⟩ :: arms => by
    rw [Arm.bareAll, Arm.findingsAll, Arm.findingsAll, Expr.findings_bare, Block.findings_bare σ b,
      Arm.findingsAll_bareAll σ arms]

end

/-- What can be found about a program depends on its bare form alone. -/
theorem Program.findings_eq_of_bare {p q : Program} (h : p.bare = q.bare) :
    p.findings = q.findings := by
  have hbare : ∀ r : Program, r.bare.findings = r.findings := by
    intro r
    show Stmt.findingsSeq _ (Stmt.bareAll r.stmts) = Stmt.findingsSeq _ r.stmts
    rw [Stmt.findingsSeq, Stmt.findingsSeq, functionBindings_bareAll, Stmt.findingsAll_bareAll]
  rw [← hbare p, h, hbare q]

end Procedural
