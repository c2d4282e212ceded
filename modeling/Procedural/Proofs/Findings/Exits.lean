import Procedural.Proofs.Findings.Analysis

/-! # Jumps and returns in the wrong place

Which jumps and returns an analysis complains about can be read off the tree. The **exits** of a
tree are its jumps and returns, each with the bodies of loops and functions around it; whether
something is wrong with an exit depends on these bodies alone. The analysis keeps a count of loops
and a result type instead, which it saves and restores at functions and loops. -/

namespace Procedural

/-! ## Exits -/

/-- Bodies that decide what an exit inside them does. -/
inductive Enclosure where
  /-- The body of a loop. -/
  | loopBody
  /-- The body of a function with the given result type. -/
  | functionBody (result : Ty)
deriving DecidableEq, Repr, Inhabited

namespace Enclosure

/-- The body is that of a loop. -/
def isLoopBody : Enclosure → Bool
  | loopBody => true
  | functionBody _ => false

/-- The result type, of the body of a function. -/
def result? : Enclosure → Option Ty
  | loopBody => none
  | functionBody t => some t

/-- Among the bodies around a place, innermost first, that of a loop comes before any function's. -/
def looped (around : List Enclosure) : Bool :=
  (around.takeWhile fun b => b.result?.isNone).any isLoopBody

/-- The result type of the innermost function around a place. -/
def returns (around : List Enclosure) : Option Ty := around.findSome? result?

end Enclosure

/-- What leaves a body. -/
inductive ExitKind where
  /-- A jump. -/
  | jump (jump : Jump)
  /-- A return, with a value or without one. -/
  | ret (valued : Bool)
deriving DecidableEq, Repr, Inhabited

/-- A jump or a return in a tree. -/
structure Exit where
  /-- What it is. -/
  kind : ExitKind
  /-- Where it stands. -/
  span : Span
  /-- The bodies of loops and functions around it, innermost first. -/
  around : List Enclosure
deriving DecidableEq, Repr, Inhabited

namespace Exit

/-- What is wrong with an exit: a jump has to stand in the body of a loop of its function, and a
return in a function that returns a value if and only if the return has one. -/
def problem? (x : Exit) : Option Problem :=
  match x.kind with
  | .jump j => if Enclosure.looped x.around then none else some j.problem
  | .ret valued => returnProblem? (Enclosure.returns x.around) valued

/-- The report about an exit, if something is wrong with it. -/
def report? (x : Exit) : Option Diagnostic := x.problem?.map (⟨·, some x.span⟩)

end Exit

mutual

/-- The exits in a statement, in the order of the text, but with the step of a loop after its
body. -/
def Stmt.exits (around : List Enclosure) : Stmt → List Exit
  | .func _ f b => b.exits (.functionBody f.result :: around)
  | .block _ b => b.exits around
  | .ifChain _ arms o => Arm.exitsAll around arms ++ Block.exitsOpt around o
  | .whileLoop _ _ b => b.exits (.loopBody :: around)
  | .forLoop _ i _ u b =>
    Stmt.exitsOpt around i ++ (b.exits (.loopBody :: around) ++ Stmt.exitsOpt around u)
  | .jump s j => [⟨.jump j, s, around⟩]
  | .ret s e => [⟨.ret e.isSome, s, around⟩]
  | _ => []

/-- The exits in the initializer or step of a loop. -/
def Stmt.exitsOpt (around : List Enclosure) : Option Stmt → List Exit
  | none => []
  | some s => s.exits around

/-- The exits in the statements of a list. -/
def Stmt.exitsAll (around : List Enclosure) : List Stmt → List Exit
  | [] => []
  | s :: ss => s.exits around ++ Stmt.exitsAll around ss

/-- The exits in a block. -/
def Block.exits (around : List Enclosure) : Block → List Exit
  | ⟨ss, _⟩ => Stmt.exitsAll around ss

/-- The exits in a block that may be missing. -/
def Block.exitsOpt (around : List Enclosure) : Option Block → List Exit
  | none => []
  | some b => b.exits around

/-- The exits in conditional arms. -/
def Arm.exitsAll (around : List Enclosure) : List Arm → List Exit
  | [] => []
  | ⟨_, b⟩ :: arms => b.exits around ++ Arm.exitsAll around arms

end

/-- The exits in a program. -/
def Program.exits (p : Program) : List Exit := Stmt.exitsAll [] p.stmts

/-! ## Control reports are about exits -/

/-- The loop count and the result type are those of a place with these bodies around it. -/
structure Surroundings.Inside (σ : Surroundings) (around : List Enclosure) : Prop where
  /-- The place is in a loop of its function. -/
  looped : σ.looped = Enclosure.looped around
  /-- The result type is that of the innermost function. -/
  returns : σ.returns = Enclosure.returns around

namespace Surroundings.Inside

variable {σ : Surroundings} {around : List Enclosure}

/-- A program is inside of nothing. -/
theorem initial : Surroundings.initial.Inside [] := ⟨rfl, rfl⟩

/-- A scope is inside of what is around it. -/
theorem push (h : σ.Inside around) : σ.push.Inside around := ⟨h.looped, h.returns⟩

/-- Declarations do not change what is around. -/
theorem offerAll (h : σ.Inside around) (bs : List Binding) : (σ.offerAll bs).Inside around :=
  ⟨h.looped, h.returns⟩

/-- In the body of a loop it does not matter what is around the loop. -/
theorem inside (h : σ.Inside around) : σ.inside.Inside (.loopBody :: around) :=
  ⟨decide_eq_true (Nat.succ_pos _), h.returns⟩

/-- In the body of a function no loop around the function counts. -/
theorem enter (σ : Surroundings) (around : List Enclosure) (t : Ty) :
    (σ.enter t).Inside (.functionBody t :: around) := ⟨rfl, rfl⟩

end Surroundings.Inside

variable {σ : Surroundings} {around : List Enclosure}

/-- The control report about a jump is that about the exit it is. -/
theorem control_jump (h : σ.Inside around) (s : Span) (j : Jump) :
    ((Stmt.jump s j).findings σ).ofKind .control =
      [⟨.jump j, s, around⟩].filterMap Exit.report? := by
  rw [(allOf_jump σ s j).ofKind_self, Stmt.findings, h.looped, List.filterMap_cons, Exit.report?,
    Exit.problem?]
  cases Enclosure.looped around <;> rfl

/-- The control report about a return is that about the exit it is. -/
theorem control_ret (h : σ.Inside around) (s : Span) (e : Option Expr) :
    ((Stmt.ret s e).findings σ).ofKind .control =
      [⟨.ret e.isSome, s, around⟩].filterMap Exit.report? := by
  have hreport : (Exit.mk (.ret e.isSome) s around).report? =
      (returnProblem? (Enclosure.returns around) e.isSome).map (⟨·, some s⟩) := rfl
  rw [Stmt.findings, Log.ofKind_append, Expr.ofKind_findingsOpt (by decide),
    (allOf_returnProblem? _ _ s).ofKind_self, h.returns, List.filterMap_cons, hreport]
  cases returnProblem? (Enclosure.returns around) e.isSome <;> rfl

mutual

/-- What is found about jumps and returns in a statement can be read off its exits. -/
theorem Stmt.control_findings : ∀ {σ around}, Surroundings.Inside σ around → ∀ s : Stmt,
    (s.findings σ).ofKind .control = (s.exits around).filterMap Exit.report?
  | _, _, _, .var _ _ | _, _, _, .assign _ _ _ | _, _, _, .call _ _ | _, _, _, .after _ _ _ => by
    simp [Stmt.findings, Stmt.exits]
  | σ, around, _, .func _ f ⟨ss, _⟩ => by
    -- the body of a function starts over, whatever is around the function
    have hbody := ((Surroundings.Inside.enter σ around f.result).push.offerAll
      (f.params.map Param.binding)).offerAll (functionBindings ss)
    simp [Stmt.findings, Stmt.exits, Block.exits, Stmt.control_findingsAll hbody ss]
  | _, _, h, .block _ b => Block.control_findings h b
  | _, _, h, .ifChain _ arms o => by
    simp [Stmt.findings, Stmt.exits, Arm.control_findingsAll h arms,
      Block.control_findingsOpt h o]
  | _, _, h, .whileLoop _ e b => by
    simp [Stmt.findings, Stmt.exits, Block.control_findings h.inside b]
  | _, _, h, .forLoop _ i e u b => by
    have hclauses := h.push.offerAll (sequenceBindings i.toList)
    simp [Stmt.findings, Stmt.exits, Stmt.control_findingsOpt h.push i,
      Block.control_findings hclauses.inside b, Stmt.control_findingsOpt hclauses u]
  | _, _, h, .jump s j => control_jump h s j
  | _, _, h, .ret s e => control_ret h s e

/-- The control reports about the initializer or step of a loop are those about its exits. -/
theorem Stmt.control_findingsOpt : ∀ {σ around}, Surroundings.Inside σ around →
    ∀ o : Option Stmt,
    (Stmt.findingsOpt σ o).ofKind .control = (Stmt.exitsOpt around o).filterMap Exit.report?
  | _, _, _, none => rfl
  | _, _, h, some s => by
    simp [Stmt.findingsOpt, Stmt.exitsOpt, Stmt.control_findings (h.offerAll _) s]

/-- The control reports about a list of statements are those about its exits. -/
theorem Stmt.control_findingsAll : ∀ {σ around}, Surroundings.Inside σ around →
    ∀ ss : List Stmt,
    (Stmt.findingsAll σ ss).ofKind .control = (Stmt.exitsAll around ss).filterMap Exit.report?
  | _, _, _, [] => rfl
  | _, _, h, s :: ss => by
    simp [Stmt.findingsAll, Stmt.exitsAll, Stmt.control_findings h s,
      Stmt.control_findingsAll (h.offerAll _) ss]

/-- The control reports about a block are those about its exits. -/
theorem Block.control_findings : ∀ {σ around}, Surroundings.Inside σ around → ∀ b : Block,
    (b.findings σ).ofKind .control = (b.exits around).filterMap Exit.report?
  | _, _, h, ⟨ss, _⟩ => by
    simp [Block.findings, Block.exits, Stmt.control_findingsAll (h.push.offerAll _) ss]

/-- The control reports about an optional block are those about its exits. -/
theorem Block.control_findingsOpt : ∀ {σ around}, Surroundings.Inside σ around →
    ∀ o : Option Block,
    (Block.findingsOpt σ o).ofKind .control = (Block.exitsOpt around o).filterMap Exit.report?
  | _, _, _, none => rfl
  | _, _, h, some b => Block.control_findings h b

/-- The control reports about conditional arms are those about their exits. -/
theorem Arm.control_findingsAll : ∀ {σ around}, Surroundings.Inside σ around →
    ∀ arms : List Arm,
    (Arm.findingsAll σ arms).ofKind .control = (Arm.exitsAll around arms).filterMap Exit.report?
  | _, _, _, [] => rfl
  | _, _, h, ⟨e, b⟩ :: arms => by
    simp [Arm.findingsAll, Arm.exitsAll, Block.control_findings h b,
      Arm.control_findingsAll h arms]

end

/-- The reports about jumps and returns in the wrong place are those about the exits of the program,
one for each exit that stands in the wrong place, in the order of the exits. -/
theorem Program.analysis_control (p : Program) :
    ∃ q log, p.analysis = .ok ⟨q, log⟩ ∧
      log.ofKind .control = p.exits.filterMap Exit.report? := by
  obtain ⟨q, log, hp, hlog, -⟩ := p.analysis_findings
  refine ⟨q, log, hp, ?_⟩
  rw [← Log.ofKind_untyped (by decide), hlog, Program.findings, Stmt.findingsSeq,
    Log.ofKind_append, Surroundings.ofKind_refusals (by decide), List.nil_append,
    Stmt.control_findingsAll (Surroundings.Inside.initial.offerAll _), Program.exits]

/-- A function in a loop is not in the loop. -/
example (s t u v w : Span) (e : Expr) (x : String) :
    (Program.exits ⟨[.whileLoop s e ⟨[.func t ⟨x, [], .void, t⟩ ⟨[.jump u .breakOut], v⟩,
      .jump w .breakOut], v⟩]⟩).filterMap Exit.report? = [⟨.breakNotInLoop, some u⟩] := rfl

end Procedural
