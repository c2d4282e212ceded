import Procedural.Proofs.Guarded.Sound
import Procedural.Proofs.Simplify.Meaning
import Procedural.Proofs.Simplify.NormalForm

/-! # What compilation gives

Compilation never stops at a fault: it rejects a program exactly when the analysis reports
something, with all that was reported, and otherwise gives the annotated program, simplified if the
options say so (`Program.compile_eq_ok_iff`, `Program.compile_eq_error_iff`). Where all declared
types are known, the programs that compile are the well-formed ones, and what they compile to is
annotated: compiling it again finds nothing and changes nothing, it runs as the annotated program
does, and its guarded runs are without misuse (`Program.compile_sound`). -/

namespace Procedural

open Rules Semantics Guarded

variable {o : Options} {p q r : Program} {log : Log}

/-! ## Accepted and rejected programs -/

/-- Compilation as one equation: what the analysis reports decides. -/
theorem Program.compile_of_analysis (h : p.analysis = .ok ⟨q, log⟩) (o : Options) :
    p.compile o = if log = [] then .ok (q.optimize o) else .error (.rejected log) := by
  rw [Program.compile, h]
  cases log <;> rfl

/-- Compilation succeeds exactly when nothing is reported, and gives the annotated program,
simplified as the options say. -/
theorem Program.compile_eq_ok_iff :
    p.compile o = .ok r ↔ ∃ q, p.analysis = .ok ⟨q, []⟩ ∧ r = q.optimize o := by
  obtain ⟨q, c, -, hok⟩ := p.analysis_ok
  rw [compile_of_analysis hok]
  constructor
  · intro h
    split at h
    · rename_i hlog
      rw [hlog] at hok
      exact ⟨q, hok, (Except.ok.inj h).symm⟩
    · nomatch h
  · rintro ⟨q', hok', rfl⟩
    rw [hok] at hok'
    obtain ⟨rfl, hlog⟩ := Analysis.mk.inj (Except.ok.inj hok')
    rw [if_pos hlog]

/-- Compilation fails exactly when something is reported, and then with all that was reported; it
never stops at a fault of the analysis. -/
theorem Program.compile_eq_error_iff {e : CompileError} :
    p.compile o = .error e ↔ ∃ q log, p.analysis = .ok ⟨q, log⟩ ∧ log ≠ [] ∧ e = .rejected log := by
  obtain ⟨q, c, -, hok⟩ := p.analysis_ok
  rw [compile_of_analysis hok]
  constructor
  · intro h
    split at h
    · nomatch h
    · rename_i hlog
      exact ⟨q, c.log, hok, hlog, (Except.error.inj h).symm⟩
  · rintro ⟨q', log, hok', hlog, rfl⟩
    rw [hok] at hok'
    obtain ⟨-, rfl⟩ := Analysis.mk.inj (Except.ok.inj hok')
    rw [if_neg hlog]

example : (countOnce fun _ => none).compile {} = .ok ((countOnce some).simplify true) := rfl

/-- Of the programs of known declared types the well-formed ones compile. -/
theorem Program.compiles_iff_wellFormed (hp : p.DeclaresKnown) (o : Options) :
    (∃ r, p.compile o = .ok r) ↔ p.WellFormed := by
  constructor
  · rintro ⟨r, hr⟩
    obtain ⟨q, hok, -⟩ := compile_eq_ok_iff.1 hr
    exact (Program.analysis_sound hp hok).1
  · intro h
    obtain ⟨q, hok⟩ := h.analysis
    exact ⟨q.optimize o, compile_eq_ok_iff.2 ⟨q, hok, rfl⟩⟩

/-! ## Declared types -/

/-- The types that a statement declares are not among the types found. -/
theorem Stmt.declaredTypes_bare (s : Stmt) : s.bare.declaredTypes = s.declaredTypes := by
  cases s <;> rfl

/-- The statements of a bare block are the bare statements of the block. -/
theorem Block.stmts_bare (b : Block) : b.bare.stmts = b.stmts.map Stmt.bare := by
  obtain ⟨ss, s⟩ := b
  exact Stmt.bareAll_eq_map ss

/-- The blocks of bare arms are the bare blocks of the arms. -/
theorem Arm.bodies_bareAll (arms : List Arm) :
    (Arm.bareAll arms).map (·.body) = (arms.map (·.body)).map Block.bare := by
  induction arms with
  | nil => rfl
  | cons a arms ih =>
    obtain ⟨e, b⟩ := a
    simp only [Arm.bareAll, List.map_cons, ih]

/-- The statements directly inside a bare statement are the bare forms of those directly inside the
statement. -/
theorem Stmt.children_bare (s : Stmt) : s.bare.children = s.children.map Stmt.bare := by
  have hblocks : s.bare.blocks = s.blocks.map Block.bare := by
    cases s with
    | ifChain sp arms o =>
      cases o <;> simp [Stmt.bare, Stmt.blocks, Arm.bodies_bareAll, Block.bareOpt]
    | _ => rfl
  have hclauses : s.bare.clauses = s.clauses.map Stmt.bare := by
    cases s with
    | forLoop sp i e u b => cases i <;> cases u <;> rfl
    | _ => rfl
  rw [Stmt.children, hclauses, hblocks, List.flatMap_map, Stmt.children, List.map_append,
    List.map_flatMap]
  simp only [Block.stmts_bare]

/-- Whether declared types are known does not depend on the types found. -/
theorem Stmt.declaresKnown_bare (s : Stmt) : s.bare.DeclaresKnown ↔ s.DeclaresKnown := by
  induction s using Stmt.induct with
  | step s ih =>
    rw [declaresKnown_iff, declaredTypes_bare, children_bare, List.forall_mem_map,
      forall₂_congr ih, ← declaresKnown_iff]

/-- Programs that differ in the types found only declare known types alike. -/
theorem Program.DeclaresKnown.of_bare (hp : p.DeclaresKnown) (h : q.bare = p.bare) :
    q.DeclaresKnown := by
  have hbare (x : Program) : x.bare.DeclaresKnown ↔ x.DeclaresKnown := by
    rw [Program.declaresKnown_iff, Program.bare, Stmt.bareAll_eq_map, List.forall_mem_map,
      Program.declaresKnown_iff]
    exact forall₂_congr fun s _ => s.declaresKnown_bare
  rw [← hbare, h, hbare]
  exact hp

/-- A simplified statement declares the types that the statement declares itself. -/
theorem Stmt.declaredTypes_simplify (cut : Bool) (s : Stmt) :
    (s.simplify cut).declaredTypes = s.declaredTypes := by
  refine kept_simplify (a := []) (fun s hs => ?_) (fun s hs => ?_) s
  · cases s <;> first | rfl | nomatch hs
  · cases s <;> first | rfl | nomatch hs

/-- Simplifying a program brings in no declared types. -/
theorem Program.DeclaresKnown.simplify (hp : p.DeclaresKnown) (cut : Bool) :
    (p.simplify cut).DeclaresKnown := by
  intro x hx
  obtain ⟨y, hy, rfl⟩ := exists_contains_of_simplify hx
  rw [Stmt.declaredTypes_simplify]
  exact hp y hy

/-! ## What the result is good for -/

/-- What simplifying a program keeps is kept by the options, whether they ask for it or not. -/
theorem Program.optimize_elim {P : Program → Prop} (hp : P p)
    (hsimplify : ∀ cut, P (p.simplify cut)) (o : Options) : P (p.optimize o) := by
  unfold Program.optimize
  split
  · exact hsimplify o.cutDeadCode
  · exact hp

/-- What a program of known declared types compiles to is annotated, so that compiling it again
without simplifying changes nothing. It runs as the annotated program `q` does that the analysis
gives, with every interpretation, and its guarded runs are without misuse and through if they come
to an end. -/
theorem Program.compile_sound (hp : p.DeclaresKnown) (h : p.compile o = .ok r) :
    r.Annotated ∧ (∀ cut, r.compile ⟨false, cut⟩ = .ok r) ∧
      (∃ q, p.analysis = .ok ⟨q, []⟩ ∧ ∀ I, SameRuns (runAll I r.stmts) (runAll I q.stmts)) ∧
      ∀ H : Host, H.Conforms → ∀ n m,
        Safely (execSequence H n r.stmts) m fun outcome _ => outcome = .normal := by
  obtain ⟨q, hok, rfl⟩ := compile_eq_ok_iff.1 h
  obtain ⟨-, hnoted, hbare⟩ := Program.analysis_sound hp hok
  have hq : q.DeclaresKnown := hp.of_bare hbare
  -- each of these is kept by simplification, so it holds whatever the options say
  have hannotated : (q.optimize o).Annotated :=
    optimize_elim hnoted (fun cut => hnoted.simplify cut) o
  have hknown : (q.optimize o).DeclaresKnown := optimize_elim hq hq.simplify o
  have hruns (I : Interp) : SameRuns (runAll I (q.optimize o).stmts) (runAll I q.stmts) :=
    optimize_elim (P := fun x => SameRuns (runAll I x.stmts) (runAll I q.stmts))
      (sameRuns_of_eq rfl)
      (fun cut => (sameRuns_simplify allowsTyped_typedNote hnoted I cut).1) o
  refine ⟨hannotated, fun cut => ?_, ⟨q, hok, hruns⟩, fun H hH n m => ?_⟩
  · exact compile_eq_ok_iff.2 ⟨_, hannotated.analysis, rfl⟩
  · exact Program.runs_through hH hknown hannotated.analysis n m

end Procedural
