import Procedural.Proofs.Analysis.Complete
import Procedural.Proofs.Analysis.Erasure
import Procedural.Proofs.Analysis.Sound.Stmt
import Procedural.Proofs.Simplify.WellFormed

/-! # Analysis and the rules of the language

A program in which all declared types are known is analyzed without reports exactly when the rules
derive it. The analysis then gives the one annotated program that differs from it in types only, and
simplifying that gives a program which is annotated again. -/

namespace Procedural

open Rules

/-! ## Analysis in a fresh context -/

/-- Bindings do not change the depth of the scopes. -/
@[simp] theorem Context.depth_bindAll (ctx : Context) (bs : List Binding) :
    (ctx.bindAll bs).scopes.depth = ctx.scopes.depth := by
  induction bs generalizing ctx with
  | nil => rfl
  | cons b bs ih => exact (ih (ctx.bind b)).trans (Scopes.depth_withInnermost ..)

/-- An analysis without reports analyzes the sequence of the program without reports. -/
theorem Program.analyzeSequence_of_analysis {p q : Program} (h : p.analysis = .ok ⟨q, []⟩) :
    ∃ c, analyzeSequence p.stmts .initial = .ok q.stmts c ∧ c.log = [] := by
  unfold Program.analysis at h
  split at h
  · nomatch h
  · rename_i q' c hrun
    split at h
    · nomatch h
    · split at h
      · nomatch h
      · obtain ⟨rfl, hlog⟩ := Analysis.mk.inj (Except.ok.inj h)
        obtain ⟨ss, c', hseq, hend⟩ := of_bind_ok hrun
        cases hend
        exact ⟨c, hseq, hlog⟩

/-- A program whose sequence is analyzed without reports is analyzed without reports. -/
theorem Program.analysis_of_analyzeSequence {p q : Program} {bs : List Binding}
    (h : analyzeSequence p.stmts .initial = .ok q.stmts (Context.initial.bindAll bs)) :
    p.analysis = .ok ⟨q, []⟩ := by
  have hrun : p.analyze .initial = .ok q (Context.initial.bindAll bs) := (bind_of_ok h).trans rfl
  have hdepth : (Context.initial.bindAll bs).scopes.depth = 1 := Context.depth_bindAll ..
  have hloop : (Context.initial.bindAll bs).isInLoop = false := by
    rw [Context.isInLoop, Context.loops_bindAll]
    rfl
  rw [Program.analysis, hrun]
  simp only [hdepth, hloop, Context.log_bindAll]
  rfl

/-! ## The two directions -/

/-- A program that is analyzed without reports obeys the rules, and what the analysis gives is
annotated and differs from it in types only. -/
theorem Program.analysis_sound {p q : Program} (hp : p.DeclaresKnown)
    (h : p.analysis = .ok ⟨q, []⟩) : p.WellFormed ∧ q.Annotated ∧ q.bare = p.bare := by
  obtain ⟨c, hseq, hlog⟩ := analyzeSequence_of_analysis h
  have hquiet : c.log.length ≤ Context.initial.log.length := by
    rw [hlog]
    exact Nat.zero_le _
  obtain ⟨-, hbare, hplain, hnoted⟩ := analyzeSequence_sound
    (fun s hs => soundlyAnalyzed s (hp.stmt s hs)) .initial hseq hquiet
  exact ⟨hplain, hnoted, congrArg Program.mk hbare⟩

/-- A program that obeys the rules is analyzed without reports. -/
theorem Program.WellFormed.analysis {p : Program} (h : p.WellFormed) :
    ∃ q, p.analysis = .ok ⟨q, []⟩ := by
  have hseq : SeqOk anyNote Context.initial.env p.stmts := h
  obtain ⟨ss, hseq, -⟩ := analyzeSequence_complete (fun s _ => completelyAnalyzed s) hseq
  exact ⟨⟨ss⟩, analysis_of_analyzeSequence hseq⟩

/-- An annotated program is analyzed without reports and without changes. -/
theorem Program.Annotated.analysis {p : Program} (h : p.Annotated) : p.analysis = .ok ⟨p, []⟩ := by
  have hseq : SeqOk typedNote Context.initial.env p.stmts := h
  obtain ⟨ss, hseq, hsame⟩ := analyzeSequence_complete (fun s _ => completelyAnalyzed s) hseq
  -- every type is recorded already, so nothing is written
  rw [hsame recordsType_typedNote] at hseq
  exact analysis_of_analyzeSequence hseq

/-- There is at most one annotated program with a given bare form. -/
theorem Program.Annotated.unique {p q : Program} (hp : p.Annotated) (hq : q.Annotated)
    (h : p.bare = q.bare) : p = q := by
  -- both are what the analysis makes of their common bare form
  have hrun : p.analysis = q.analysis := by
    rw [← Program.analysis_bare p, h, Program.analysis_bare]
  rw [hp.analysis, hq.analysis] at hrun
  cases hrun
  rfl

/-! ## Main results -/

/-- A program of known declared types is analyzed without reports exactly when it obeys the rules.
The analysis then leaves it as it is except for types, and gives every expression node the type that
the rules give to the expression. There is one such type (`HasType.unique`), so this is the only
way to do so. -/
theorem Program.analysis_iff_wellFormed {p : Program} (hp : p.DeclaresKnown) :
    ((∃ q, p.analysis = .ok ⟨q, []⟩) ↔ p.WellFormed) ∧
      ∀ q, p.analysis = .ok ⟨q, []⟩ → q.bare = p.bare ∧ q.Annotated ∧
        ∀ q' : Program, q'.bare = p.bare → q'.Annotated → q' = q := by
  refine ⟨⟨?_, Program.WellFormed.analysis⟩, fun q h => ?_⟩
  · rintro ⟨q, h⟩
    exact (Program.analysis_sound hp h).1
  · obtain ⟨-, hnoted, hbare⟩ := Program.analysis_sound hp h
    exact ⟨hbare, hnoted, fun q' hbare' hnoted' => hnoted'.unique hnoted (hbare'.trans hbare.symm)⟩

/-- A program that counts once: `real sum = 1; while (1 < 2) { sum = sum + 1; break; sum = 0; }`,
with types recorded as `t` has it. -/
def countOnce (t : Ty → Option Ty) : Program :=
  let s : Span := ⟨0, 0⟩
  let one : Expr := .lit ⟨s, t .int⟩ (.int 1)
  let less : Expr := .binary ⟨s, t .bool⟩ (.order .lt) one (.lit ⟨s, t .int⟩ (.int 2))
  let next : Expr := .binary ⟨s, t .real⟩ (.arith .add) (.ident ⟨s, t .real⟩ "sum") one
  ⟨[.var s ⟨"sum", .real, some one, s⟩,
    .whileLoop s less ⟨[.assign s "sum" next, .jump s .breakOut,
      .assign s "sum" (.lit ⟨s, t .int⟩ (.int 0))], s⟩]⟩

/-- The types that the program declares are known. -/
theorem declaresKnown_countOnce : (countOnce fun _ => none).DeclaresKnown := by
  have hnone : ∀ t ∈ ([] : List Ty), t.Known := List.forall_mem_nil _
  refine Program.declaresKnown_iff.2
    (List.forall_mem_cons.2 ⟨?_, List.forall_mem_cons.2 ⟨?_, List.forall_mem_nil _⟩⟩)
  · exact Stmt.declaresKnown_of_leaf rfl (List.forall_mem_cons.2 ⟨rfl, hnone⟩)
  · refine Stmt.declaresKnown_iff.2 ⟨hnone, ?_⟩
    exact List.forall_mem_cons.2 ⟨Stmt.declaresKnown_of_leaf rfl hnone,
      List.forall_mem_cons.2 ⟨Stmt.declaresKnown_of_leaf rfl hnone,
      List.forall_mem_cons.2 ⟨Stmt.declaresKnown_of_leaf rfl hnone, List.forall_mem_nil _⟩⟩⟩

/-- The analysis finds all types and reports nothing. -/
theorem analysis_countOnce : (countOnce fun _ => none).analysis = .ok ⟨countOnce some, []⟩ := rfl

/-- The rules derive a program because its analysis reports nothing. -/
theorem wellFormed_countOnce :
    (countOnce fun _ => none).WellFormed ∧ (countOnce some).Annotated :=
  have h := Program.analysis_iff_wellFormed declaresKnown_countOnce
  ⟨h.1.1 ⟨_, analysis_countOnce⟩, (h.2 _ analysis_countOnce).2.1⟩

/-- Simplifying what an analysis without reports gives yields a program that is analyzed without
reports and without changes. -/
theorem Program.analysis_simplify {p q : Program} (hp : p.DeclaresKnown)
    (h : p.analysis = .ok ⟨q, []⟩) (cut : Bool) :
    (q.simplify cut).analysis = .ok ⟨q.simplify cut, []⟩ :=
  ((Program.analysis_sound hp h).2.1.simplify cut).analysis

/-- The simplified program is analyzed without reports and changes. -/
theorem analysis_simplify_countOnce :
    ((countOnce some).simplify true).analysis = .ok ⟨(countOnce some).simplify true, []⟩ :=
  Program.analysis_simplify declaresKnown_countOnce analysis_countOnce true

end Procedural
