import Procedural.Proofs.Analysis.Program
import Procedural.Proofs.Folding.Meaning
import Procedural.Proofs.Rules.Inside
import Procedural.Proofs.Semantics.Laws

/-! # Simplification keeps runs

A simplified statement runs as the statement does: its runs come to the same outcomes in the same
states with the same traces, and they end if and only if the statement's runs end. What goes is
never reached or does nothing, and what is left is moved to where it runs in the same frames. -/

namespace Procedural

open Semantics Rules

variable {M : Note → Ty → Prop} {I : Interp} {cut : Bool}

/-! ## Tidy sequences -/

/-- Empty blocks do nothing. -/
theorem runAll_dropEmpty (ss : List Stmt) : runAll I (dropEmpty ss) = runAll I ss := by
  induction ss with
  | nil => rfl
  | cons s ss ih =>
    rw [dropEmpty_cons]
    split
    · rename_i he
      rw [ih, runAll, run_of_isEmptyBlock he, done_andThen]
    · rw [runAll, runAll, ih]

/-- A dead tail is not reached. -/
theorem runAll_cutTail (ss : List Stmt) : runAll I (cutTail ss) = runAll I ss := by
  induction ss with
  | nil => rfl
  | cons s ss ih =>
    rw [cutTail_cons]
    split
    · -- whether the tail is kept or not, it is not reached
      rename_i hterm
      have hnever := neverNormal_of_isTerminator (I := I) hterm
      split
      · rfl
      · rw [runAll, runAll, runAll, hnever.andThen, hnever.andThen]
    · rw [runAll, runAll, ih]

/-- Tidying a sequence keeps how it runs, as nothing runs after a jump or a return. -/
theorem runAll_tidy (ss : List Stmt) : runAll I (tidy cut ss) = runAll I ss := by
  rw [tidy_eq, runAll_dropEmpty]
  cases cut with
  | false => rfl
  | true => exact runAll_cutTail ss

/-! ## Conditional statements -/

/-- Arms that cannot be chosen are not run. -/
theorem runArms_choosable (arms : List Arm) (o : Option Block) :
    runArms I (choosable arms o).1 (runBlockOpt I (choosable arms o).2) =
      runArms I arms (runBlockOpt I o) := by
  induction arms with
  | nil => rfl
  | cons a arms ih =>
    obtain ⟨e, b⟩ := a
    rw [choosable, runArms]
    cases hc : e.bool? with
    | none => rw [runArms, ih]
    | some c =>
      rw [test_of_bool? hc, evaluating_pure]
      cases c with
      | true =>
        -- the arms after this one are not reached on either side
        rw [runArms, test_of_bool? hc, evaluating_pure]
        rfl
      | false => exact ih

/-- The statement for what is left to choose from runs the arms in order. -/
theorem run_chosen (s : Span) (arms : List Arm) (o : Option Block) :
    (chosen s arms o).run I = runArms I arms (runBlockOpt I o) := by
  cases arms with
  | nil =>
    cases o with
    | none => exact inFrame_done
    | some b => rfl
  | cons a arms =>
    obtain ⟨e, b⟩ := a
    rw [chosen]
    split
    · rename_i hc
      rw [runArms, test_of_bool? hc, evaluating_pure]
      rfl
    · rfl

/-- Arms run alike if their conditions come to the same and their blocks run alike. -/
theorem runArms_map {f : Arm → Arm} {arms : List Arm} {otherwise : Behaviour}
    (hcond : ∀ a ∈ arms, (f a).cond.test I = a.cond.test I)
    (hbody : ∀ a ∈ arms, (f a).body.run I = a.body.run I) :
    runArms I (arms.map f) otherwise = runArms I arms otherwise := by
  induction arms with
  | nil => rfl
  | cons a arms ih =>
    obtain ⟨hcond, hconds⟩ := List.forall_mem_cons.1 hcond
    obtain ⟨hbody, hbodies⟩ := List.forall_mem_cons.1 hbody
    -- `f` is applied to whole arms, and the equation for `runArms` asks for their parts
    have hcons : ∀ a : Arm, ∀ arms, runArms I (a :: arms) otherwise =
        evaluating (a.cond.test I) fun c => if c then a.body.run I else runArms I arms otherwise :=
      fun ⟨_, _⟩ _ => rfl
    rw [List.map_cons, hcons, hcons, hcond, hbody, ih hconds hbodies]

/-- A conditional statement runs as before when it is simplified, if folded conditions come to the
same and simplified blocks run alike. -/
theorem run_simplify_ifChain {s : Span} {arms : List Arm} {o : Option Block}
    (hcond : ∀ a ∈ arms, a.foldCond.cond.test I = a.cond.test I)
    (hbody : ∀ a ∈ arms, (a.body.simplify cut).run I = a.body.run I)
    (helse : ∀ b ∈ o, (b.simplify cut).run I = b.run I) :
    ((Stmt.ifChain s arms o).simplify cut).run I = (Stmt.ifChain s arms o).run I := by
  -- what is left to choose from is among what was there, so its blocks run as before
  obtain ⟨hsub, hsubo⟩ := choosable_subset (arms.map Arm.foldCond) o
  have hleft : ∀ a ∈ (choosable (arms.map Arm.foldCond) o).1,
      (a.simplifyBody cut).body.run I = a.body.run I := by
    intro a ha
    obtain ⟨a', ha', rfl⟩ := List.mem_map.1 (hsub ha)
    exact hbody a' ha'
  have hopt : runBlockOpt I ((choosable (arms.map Arm.foldCond) o).2.map (Block.simplify cut)) =
      runBlockOpt I (choosable (arms.map Arm.foldCond) o).2 := by
    cases hd : (choosable (arms.map Arm.foldCond) o).2 with
    | none => rfl
    | some b =>
      rw [hd] at hsubo
      exact helse b (Option.mem_toList.1 (hsubo (List.mem_singleton.2 rfl)))
  calc
    ((Stmt.ifChain s arms o).simplify cut).run I
      = runArms I ((choosable (arms.map Arm.foldCond) o).1.map (Arm.simplifyBody cut))
          (runBlockOpt I ((choosable (arms.map Arm.foldCond) o).2.map (Block.simplify cut))) := by
        rw [simplify_ifChain, run_chosen]
    _ = runArms I (choosable (arms.map Arm.foldCond) o).1
          (runBlockOpt I (choosable (arms.map Arm.foldCond) o).2) := by
        rw [hopt]
        exact runArms_map (fun _ _ => rfl) hleft
    _ = runArms I (arms.map Arm.foldCond) (runBlockOpt I o) := runArms_choosable ..
    _ = (Stmt.ifChain s arms o).run I := by
        rw [runArms_map hcond fun _ _ => rfl, Stmt.run]

/-! ## Loops -/

/-- A loop whose test fails at once does nothing. -/
theorem run_roundsWhile (s : Span) (e : Expr) (b : Block) :
    (roundsWhile s e b).run I = (Stmt.whileLoop s e b).run I := by
  rw [roundsWhile]
  split
  · rename_i hfalse
    rw [Stmt.run, Stmt.run, test_of_bool? hfalse, rounds_false]
    exact inFrame_done
  · rfl

/-- An optional statement runs as the list of it. -/
theorem runAll_toList (o : Option Stmt) : runAll I o.toList = runStmtOpt I o := by
  cases o with
  | none => rfl
  | some s => exact andThen_done _

/-- A test that is a literal and fails comes to that. -/
theorem testOpt_of_bool? {o : Option Expr} (h : o.bind Expr.bool? = some false) :
    testOpt I o = pure false := by
  obtain ⟨e, rfl, he⟩ := Option.bind_eq_some_iff.1 h
  exact test_of_bool? he

/-- A loop whose test fails at once only runs its initializer, in a frame of its own. -/
theorem run_roundsFor (s : Span) (i : Option Stmt) (e : Option Expr) (u : Option Stmt) (b : Block) :
    (roundsFor s i e u b).run I = (Stmt.forLoop s i e u b).run I := by
  rw [roundsFor]
  split
  · rename_i hfalse
    rw [Stmt.run, Stmt.run, testOpt_of_bool? hfalse, rounds_false, andThen_done, Block.run,
      runAll_toList]
  · rfl

/-! ## Statements -/

/-- Wherever the rules derive the statement, its simplified form runs as it does. -/
def RunsKept (M : Note → Ty → Prop) (I : Interp) (cut : Bool) (s : Stmt) : Prop :=
  ∀ Γ, Ok M Γ s → (s.simplify cut).run I = s.run I

/-- Statements that each run as before run one after the other as before. -/
theorem runAll_map_simplify {Γ : Env} {ss : List Stmt} (hkept : ∀ s ∈ ss, RunsKept M I cut s)
    (h : AllOk M Γ ss) : runAll I (ss.map (Stmt.simplify cut)) = runAll I ss := by
  induction ss generalizing Γ with
  | nil => rfl
  | cons s ss ih =>
    obtain - | ⟨hs, hss⟩ := h
    obtain ⟨hs_kept, hkept⟩ := List.forall_mem_cons.1 hkept
    rw [List.map_cons, runAll, runAll, hs_kept Γ hs, ih hkept hss]

/-- A simplified sequence runs as the sequence does. -/
theorem runAll_tidy_simplify {Γ : Env} {ss : List Stmt} (hkept : ∀ s ∈ ss, RunsKept M I cut s)
    (h : SeqOk M Γ ss) : runAll I (tidy cut (ss.map (Stmt.simplify cut))) = runAll I ss := by
  obtain ⟨-, hall⟩ := h
  rw [runAll_tidy, runAll_map_simplify hkept hall]

/-- A block runs as before if its statements do. -/
theorem run_simplifyBlock {Γ : Env} {b : Block} (hkept : ∀ s ∈ b.stmts, RunsKept M I cut s)
    (h : SeqOk M Γ b.stmts) : (b.simplify cut).run I = b.run I := by
  obtain ⟨ss, s⟩ := b
  rw [Block.simplify, simplifyAll_eq_map, Block.run, Block.run, runAll_tidy_simplify hkept h]

/-- The initializer or step of a loop runs alike when it is simplified. -/
theorem run_simplifyOpt {Γ : Env} {o : Option Stmt} (hkept : ∀ s ∈ o, RunsKept M I cut s)
    (h : SeqOk M Γ o.toList) : runStmtOpt I (o.map (Stmt.simplify cut)) = runStmtOpt I o := by
  cases o with
  | none => rfl
  | some s =>
    obtain ⟨-, - | ⟨hs, -⟩⟩ := h
    exact hkept s rfl _ hs

/-- Folding the initializer of a well-typed declaration keeps how it runs. -/
theorem run_foldVar (hM : AllowsTyped M) {Γ : Names} {d : VarDecl}
    (h : ∀ e ∈ d.init, FitsIn M Γ e d.ty) : d.fold.run I = d.run I := by
  obtain ⟨x, t, o, s⟩ := d
  cases o with
  | none => rfl
  | some e =>
    show (do declareVar x t (← e.fold.eval I)) = _
    rw [(h e rfl).eval_fold hM]
    rfl

/-- Folding a well-typed optional condition keeps what it is tested to be. -/
theorem testOpt_fold (hM : AllowsTyped M) {Γ : Names} {o : Option Expr}
    (h : ∀ e ∈ o, HasType M Γ e .bool) : testOpt I (o.map Expr.fold) = testOpt I o := by
  cases o with
  | none => rfl
  | some e => exact test_fold hM (h e rfl)

/-- A well-formed statement runs as before when it is simplified. -/
theorem runsKept (hM : AllowsTyped M) (s : Stmt) : RunsKept M I cut s := by
  induction s using Stmt.induct with
  | step s ih =>
    have hblock : ∀ b ∈ s.blocks, ∀ x ∈ b.stmts, RunsKept M I cut x := by
      intro b hb x hx
      exact ih x (Stmt.mem_children_of_block hb hx)
    intro Γ h
    -- one rule for each kind of statement; the typing it gives is what folding needs
    cases h with
    | var hinit _ => rw [Stmt.simplify, Stmt.run, Stmt.run, run_foldVar hM hinit]
    | func _ _ => rfl
    | assign _ he => rw [Stmt.simplify, Stmt.run, Stmt.run, he.eval_fold hM]
    | call hc => rw [Stmt.simplify, Stmt.run, Stmt.run, eval_foldCall hM hc]
    | after he _ hc =>
      obtain ⟨-, -, hargs⟩ := hc
      rw [Stmt.simplify, Call.fold, Stmt.run, Stmt.run, eval_fold hM he, evalAll_foldAll hM hargs]
    | block hb =>
      rw [Stmt.simplify, Stmt.run, Stmt.run, run_simplifyBlock (hblock _ List.mem_cons_self) hb]
    | ifChain hcond harms ho =>
      refine run_simplify_ifChain (fun a ha => ?_) (fun a ha => ?_) (fun b hb => ?_)
      · exact test_fold hM (hcond a ha)
      · exact run_simplifyBlock (hblock _ (Stmt.mem_blocks_of_arm ha)) (harms a ha)
      · exact run_simplifyBlock (hblock b (Stmt.mem_blocks_of_else hb)) (ho b hb)
    | @whileLoop _ s e b he hb =>
      rw [Stmt.simplify, run_roundsWhile, Stmt.run, Stmt.run, test_fold hM he,
        run_simplifyBlock (hblock _ List.mem_cons_self) hb]
    | @forLoop _ s i e u b hi he hb hu =>
      have hinit := run_simplifyOpt (fun x hx => ih x (Stmt.mem_children_of_init hx)) hi
      have hstep := run_simplifyOpt (fun x hx => ih x (Stmt.mem_children_of_step hx)) hu
      rw [Stmt.simplify, run_roundsFor, Stmt.run, Stmt.run, simplifyStmtOpt_eq_map,
        simplifyStmtOpt_eq_map, hinit, hstep, testOpt_fold hM he,
        run_simplifyBlock (hblock _ List.mem_cons_self) hb]
    | jump _ => rfl
    | retValue _ _ he =>
      rw [Stmt.simplify, Stmt.run, Stmt.run, Option.map_some, runReturn, runReturn, he.eval_fold hM]
    | retNone _ => rfl

/-! ## Programs -/

/-- The two behaviours come to the same outcomes in the same states, from every state. -/
def SameRuns (A B : Behaviour) : Prop := ∀ m o m', A m o m' ↔ B m o m'

/-- Equal behaviours have the same runs. -/
theorem sameRuns_of_eq {A B : Behaviour} (h : A = B) : SameRuns A B :=
  fun _ _ _ => h ▸ Iff.rfl

/-- Every part of a well-formed program runs as before when it is simplified. -/
theorem sameRuns_simplify (hM : AllowsTyped M) {Γ : Env} {p : Program} (h : SeqOk M Γ p.stmts)
    (I : Interp) (cut : Bool) :
    SameRuns (runAll I (p.simplify cut).stmts) (runAll I p.stmts) ∧
      ∀ x, p.Contains x → SameRuns ((x.simplify cut).run I) (x.run I) ∧
        ∀ b ∈ x.blocks, SameRuns ((b.simplify cut).run I) (b.run I) ∧
          SameRuns (runAll I (b.simplify cut).stmts) (runAll I b.stmts) := by
  have hkept : ∀ ss : List Stmt, ∀ s ∈ ss, RunsKept M I cut s := fun _ s _ => runsKept hM s
  refine ⟨sameRuns_of_eq ?_, fun x hx => ?_⟩
  · rw [Program.simplify, simplifyAll_eq_map, runAll_tidy_simplify (hkept _) h]
  · obtain ⟨Γ', hok⟩ := h.contains hx
    refine ⟨sameRuns_of_eq (runsKept hM x Γ' hok), fun b hb => ?_⟩
    obtain ⟨_, hseq⟩ := hok.of_mem_blocks b hb
    refine ⟨sameRuns_of_eq (run_simplifyBlock (hkept _) hseq), sameRuns_of_eq ?_⟩
    rw [stmts_simplify, runAll_tidy_simplify (hkept _) hseq]

/-- A program that is analyzed without reports runs as before when it is simplified, and so does
each statement, block and function body in it, which runs in the frame of the parameters. This holds
of the program as it was and with its types found. -/
theorem Program.runs_simplify {p q r : Program} (hp : p.DeclaresKnown)
    (h : p.analysis = .ok ⟨q, []⟩) (hr : r = p ∨ r = q) (I : Interp) (cut : Bool) :
    SameRuns (runAll I (r.simplify cut).stmts) (runAll I r.stmts) ∧
      ∀ x, r.Contains x → SameRuns ((x.simplify cut).run I) (x.run I) ∧
        ∀ b ∈ x.blocks, SameRuns ((b.simplify cut).run I) (b.run I) ∧
          SameRuns (runAll I (b.simplify cut).stmts) (runAll I b.stmts) := by
  obtain ⟨hwell, hnoted, -⟩ := Program.analysis_sound hp h
  rcases hr with rfl | rfl
  · exact sameRuns_simplify allowsTyped_anyNote hwell I cut
  · exact sameRuns_simplify allowsTyped_typedNote hnoted I cut

/-- An interpretation in which nothing that is left open happens to any effect. -/
def idle : Interp where
  call _ _ store := .returned .unit store
  schedule _ _ _ store := store
  undefined _ _ _ := .error .never
  undefinedNeg _ := .error .never
  initial _ := .unit

/-- A run of the program and a run of its simplified form end in the same state. -/
theorem runs_simplify_countOnce :
    ∃ m, runAll idle (countOnce some).stmts ⟨[fun _ => none], []⟩ .normal m ∧
      runAll idle ((countOnce some).simplify true).stmts ⟨[fun _ => none], []⟩ .normal m := by
  have h := Program.runs_simplify declaresKnown_countOnce analysis_countOnce (.inr rfl) idle true
  have hrun : ∃ m, runAll idle (countOnce some).stmts ⟨[fun _ => none], []⟩ .normal m := by
    -- the body adds to the variable and then leaves the loop
    exact ⟨_, .inl ⟨_, ⟨rfl, rfl⟩, .inl ⟨_, .breaks rfl
      ⟨_, .inl ⟨_, ⟨rfl, rfl⟩, .inr ⟨nofun, rfl, rfl⟩⟩, rfl⟩, rfl, rfl⟩⟩⟩
  obtain ⟨m, hm⟩ := hrun
  exact ⟨m, hm, (h.1 _ _ _).2 hm⟩

end Procedural
