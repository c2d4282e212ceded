import Procedural.Proofs.Semantics.Run
import Procedural.Proofs.Syntax.Bare

/-! # Laws of behaviours

Equations between behaviours, for what does nothing, for what never gets through, and for loops
whose test fails at once; and evaluation does not see the types that are recorded. -/

namespace Procedural

open Semantics

namespace Semantics

/-- Doing nothing first changes nothing. -/
@[simp] theorem done_andThen (A : Behaviour) : andThen done A = A := by
  funext m o m'
  apply propext
  constructor
  · rintro (⟨m₁, ⟨-, rfl⟩, h⟩ | ⟨ho, h, -⟩)
    · exact h
    · exact absurd h ho
  · intro h
    exact .inl ⟨m, ⟨rfl, rfl⟩, h⟩

/-- Doing nothing afterwards changes nothing. -/
@[simp] theorem andThen_done (A : Behaviour) : andThen A done = A := by
  funext m o m'
  apply propext
  constructor
  · rintro (⟨m₁, h, rfl, rfl⟩ | ⟨-, h⟩)
    · exact h
    · exact h
  · intro h
    by_cases ho : o = .normal
    · subst ho
      exact .inl ⟨m', h, rfl, rfl⟩
    · exact .inr ⟨ho, h⟩

/-- The behaviour never gets through. -/
def NeverNormal (A : Behaviour) : Prop := ∀ m m', ¬A m .normal m'

/-- What comes after something that never gets through is not reached. -/
theorem NeverNormal.andThen {A : Behaviour} (hA : NeverNormal A) (B : Behaviour) :
    andThen A B = A := by
  funext m o m'
  apply propext
  constructor
  · rintro (⟨m₁, h, -⟩ | ⟨-, h⟩)
    · exact absurd h (hA m m₁)
    · exact h
  · intro h
    -- every outcome of `A` is one that `B` does not follow
    refine .inr ⟨?_, h⟩
    rintro rfl
    exact hA m m' h

/-- Doing nothing in a frame of its own does nothing. -/
@[simp] theorem inFrame_done : inFrame done = done := by
  funext m o m'
  apply propext
  constructor
  · rintro ⟨m₁, ⟨rfl, rfl⟩, rfl⟩
    exact ⟨rfl, State.pop_push m⟩
  · rintro ⟨rfl, rfl⟩
    exact ⟨m'.push, ⟨rfl, rfl⟩, rfl⟩

/-- A loop whose test fails at once has no rounds. -/
@[simp] theorem rounds_false (body step : Behaviour) : Rounds (pure false) body step = done := by
  funext m o m'
  apply propext
  constructor
  · intro h
    cases h with
    | stops h =>
      cases h
      exact ⟨rfl, rfl⟩
    | testFails h | breaks h _ | leaves h _ _ | stepLeaves h _ _ _ _ | again h _ _ _ _ => nomatch h
  · rintro ⟨rfl, rfl⟩
    exact .stops rfl

/-- What follows an evaluation without effect runs on its value. -/
@[simp] theorem evaluating_pure {α : Type} (a : α) (k : α → Behaviour) :
    evaluating (pure a) k = k a := rfl

end Semantics

variable {I : Interp}

/-! ## Recorded types -/

mutual

/-- An expression evaluates as its bare form does. -/
theorem Expr.eval_bare : ∀ e : Expr, e.bare.eval I = e.eval I
  | .lit _ _ | .ident _ _ => rfl
  | .binary _ op l r => by
    rw [Expr.bare, Expr.eval, Expr.eval, Expr.eval_bare l, Expr.eval_bare r]
  | .unary _ op e => by rw [Expr.bare, Expr.eval, Expr.eval, Expr.eval_bare e]
  | .call _ c => by rw [Expr.bare, Expr.eval, Expr.eval, Call.eval_bare c]

/-- A call evaluates as its bare form does. -/
theorem Call.eval_bare : ∀ c : Call, c.bare.eval I = c.eval I
  | ⟨_, args, _⟩ => by rw [Call.bare, Call.eval, Call.eval, evalAll_bareAll args]

/-- Expressions evaluate in order as their bare forms do. -/
theorem evalAll_bareAll : ∀ es : List Expr, evalAll I (Expr.bareAll es) = evalAll I es
  | [] => rfl
  | e :: es => by rw [Expr.bareAll, evalAll, evalAll, Expr.eval_bare e, evalAll_bareAll es]

end

/-- Expressions that differ in recorded types only evaluate alike. -/
theorem Expr.eval_eq_of_bare {e e' : Expr} (h : e'.bare = e.bare) : e'.eval I = e.eval I := by
  rw [← Expr.eval_bare e', h, Expr.eval_bare e]

/-! ## Sequences -/

/-- Jumps and returns never get through. -/
theorem neverNormal_of_isTerminator {s : Stmt} (h : s.isTerminator = true) :
    NeverNormal (s.run I) := by
  cases s with
  | jump sp j =>
    rintro m m' ⟨hj, -⟩
    nomatch hj
  | ret sp o =>
    cases o with
    | none =>
      rintro m m' ⟨hr, -⟩
      nomatch hr
    | some e =>
      intro m m' hrun
      -- the value fails, or it is returned
      change evaluating (e.eval I) _ m .normal m' at hrun
      unfold evaluating at hrun
      split at hrun
      · nomatch hrun.1
      · nomatch hrun.1
      · exact hrun
  | _ => nomatch h

/-- An empty block does nothing. -/
theorem run_of_isEmptyBlock {s : Stmt} (h : s.isEmptyBlock = true) : s.run I = done := by
  cases s with
  | block sp b =>
    obtain ⟨ss, t⟩ := b
    obtain rfl : ss = [] := List.isEmpty_iff.1 h
    rw [Stmt.run, Block.run, runAll, inFrame_done]
  | _ => nomatch h

end Procedural
