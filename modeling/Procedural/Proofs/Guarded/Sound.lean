import Procedural.Proofs.Analysis.Program
import Procedural.Proofs.Guarded.Settles

/-! # What is analyzed without reports runs without misuse

If the analysis of a statement among names of known types reports nothing, the analyzed statement
`Runs` with the declarations that the analysis has made. The proof follows the recursion of the
analysis, with the declarations that each part of it `Settles`. -/

namespace Procedural.Guarded

open Rules

variable {α : Type} {act : Check α} {Γ : Env} {ds : List Decl} {H : Host} {s s' : Stmt}

/-! ## What is settled of statements and sequences -/

/-- The analyzed statement declares the same function as before, and it runs with `ds`. -/
def RunsAs (H : Host) (s : Stmt) (Γ : Env) (s' : Stmt) (ds : List Decl) : Prop :=
  s'.header? = s.header? ∧ ∀ n, Runs Γ (s'.exec H n) ds

/-- The analyzed sequence declares the same functions as before, and it runs with `ds`. -/
def AllRunAs (H : Host) (ss : List Stmt) (Γ : Env) (ss' : List Stmt) (ds : List Decl) : Prop :=
  ss'.filterMap Stmt.header? = ss.filterMap Stmt.header? ∧ ∀ n, Runs Γ (execAll H n ss') ds

/-- A statement without a declaration that leaves the store as it is. -/
theorem RunsAs.of_stays (hheader : s'.header? = s.header?) (hds : ds = [])
    (h : ∀ n, Stays Γ (s'.exec H n)) : RunsAs H s Γ s' ds := by
  subst hds
  exact ⟨hheader, fun n => (h n).runs⟩

/-- Functions that are declared before the analysis are declared before the run. Here `parts` are
the analyzed statements that stand for `ss`, and `run` runs them. -/
theorem settles_hoisted (parts : α → List Stmt) (run : ℕ → α → Run Outcome) {ss : List Stmt}
    (hss : ∀ s ∈ ss, s.DeclaresKnown)
    (h : Settles act fun Γ a ds => (parts a).filterMap Stmt.header? = ss.filterMap Stmt.header? ∧
      ∀ n, Runs Γ (run n a) ds) :
    Settles (declareAll (functionBindings ss) >>= fun _ => act) fun Γ a ds =>
      ∀ n, Runs Γ (hoist (parts a) >>= fun _ => run n a) ds := by
  refine (settles_declareAll (known_functionBindings hss)).bind fun _ => h.mono ?_
  rintro _ a ds ⟨hheaders, hrun⟩ Γ _ rfl rfl n
  -- the run declares the headers of the analyzed statements, which are those of `ss`
  have hfunctions : functions ss = functions (parts a) := by
    rw [functions, functions, hheaders]
  have hruns := hrun n
  rw [map_decl_functionBindings, hfunctions] at hruns ⊢
  exact hruns.hoist

/-- A sequence runs without misuse if its statements do. -/
theorem settles_sequence {ss : List Stmt} (hss : ∀ s ∈ ss, s.DeclaresKnown)
    (h : Settles (analyzeAllIn ss) (AllRunAs H ss)) :
    Settles (analyzeSequence ss) fun Γ ss' ds => ∀ n, Runs Γ (execSequence H n ss') ds :=
  settles_hoisted id (fun n ss => execAll H n ss) hss h

/-- A statement by itself declares its function first. -/
theorem settles_alone (hs : s.DeclaresKnown) (h : Settles (s.analyzeIn true) (RunsAs H s)) :
    Settles s.analyze fun Γ s' ds => ∀ n, Runs Γ (s'.execAlone H n) ds := by
  rw [Stmt.analyze, analyzeIn_false]
  refine settles_hoisted (fun s => [s]) (fun n s => s.exec H n) (List.forall_mem_singleton.2 hs)
    (h.mono ?_)
  rintro Γ s' ds ⟨hheader, hrun⟩
  rw [List.filterMap_cons, List.filterMap_cons, hheader]
  exact ⟨rfl, hrun⟩

/-- The body of a function is run in a frame with its parameters. -/
theorem settles_body {f : FuncHeader} {body : List Stmt}
    (hparams : ∀ b ∈ f.params.map Param.binding, b.2.ty.Known)
    (hbody : ∀ s ∈ body, s.DeclaresKnown) (h : Settles (analyzeAllIn body) (AllRunAs H body)) :
    Settles (inFunction f.result (inScope (do
      declareAll (f.params.map Param.binding)
      analyzeSequence body))) fun Γ body' ds => ds = [] ∧
        ∃ ds', ∀ n, Runs ((Γ.enter f.result).push.declareAll (parameters f))
          (execSequence H n body') ds' := by
  have hends := ((ends_declareAll (f.params.map Param.binding)).bind fun _ _ =>
    ends_analyzeSequence body).inScope
  have hscope : Settles (declareAll (f.params.map Param.binding) >>= fun _ => analyzeSequence body)
      fun Γ body' _ => ∃ ds', ∀ n, Runs (Γ.declareAll (parameters f))
        (execSequence H n body') ds' := by
    refine (settles_declareAll hparams).bind fun _ => (settles_sequence hbody h).mono ?_
    rintro _ body' ds hrun Γ _ rfl rfl
    rw [map_decl_params] at hrun
    exact ⟨ds, hrun⟩
  refine ((hscope.inScope hends).inFunction (hends.inFunction f.result)).mono ?_
  rintro Γ body' _ ⟨hds, _, -, _, hrun⟩
  exact ⟨hds, hrun⟩

/-! ## Statements -/

mutual

/-- A statement that is analyzed without reports runs without misuse. -/
theorem settles_stmt (hH : H.Conforms) : ∀ s : Stmt, s.DeclaresKnown →
    Settles (s.analyzeIn true) (RunsAs H s)
  | .var _ _, h =>
    (settles_var hH (h.self _ List.mem_cons_self)).bind_pure fun _ _ _ hd => ⟨rfl, fun _ => hd⟩
  | .func s f ⟨body, _⟩, h => by
      have hbody : ∀ x ∈ body, x.DeclaresKnown := h.block List.mem_cons_self
      refine (settles_body (known_paramBindings h) hbody (settles_stmts hH body hbody)).bind_pure ?_
      exact fun Γ body' ds hds => .of_stays rfl hds.1 fun _ => .normal
  | .assign s x e, _ =>
    (settles_assign x e s).bind_pure fun _ _ _ ⟨hds, _, hx, he⟩ =>
      .of_stays rfl hds fun _ => .assign hH hx he
  | .call _ c, _ =>
    (settles_call c).bind_pure fun _ _ _ ⟨hds, hc⟩ => .of_stays rfl hds fun _ => .call hH hc
  | .after _ e c, _ =>
    (settles_analyzeFor e _).silent_bind fun _ => (settles_call c).bind_pure
      fun _ _ _ ⟨hds, hc⟩ ⟨_, he, hadmits⟩ => .of_stays rfl hds fun _ =>
        .after hH he (Demand.admits_arithmetic.1 hadmits) hc
  | .block _ b, h => by
      exact (settles_block hH b (h.block List.mem_cons_self)).bind_pure
        fun _ _ _ ⟨hds, hb⟩ => .of_stays rfl hds hb
  | .ifChain _ arms o, h => by
      have harms := settles_arms hH arms fun a ha => h.block (Stmt.mem_blocks_of_arm ha)
      have ho := settles_blockOpt hH o fun b hb => h.block (Stmt.mem_blocks_of_else hb)
      refine harms.silent_bind fun arms' => ho.bind_pure ?_
      rintro Γ o' ds ⟨hds, ho⟩ harms
      refine .of_stays rfl hds fun n => .arms hH (fun a ha => ?_) (ho n)
      exact ⟨(harms a ha).1, (harms a ha).2 n⟩
  | .whileLoop _ e b, h => by
      have hb := settles_block hH b (h.block List.mem_cons_self)
      have hbody := hb.inLoop (ends_analyzeBlock b).inLoop
      refine (settles_condition e _).silent_bind fun e' => hbody.bind_pure ?_
      rintro Γ b' ds ⟨hds, _, -, hb⟩ he
      refine .of_stays rfl hds fun n => ?_
      exact .rounds (fun m hm => safely_holds hH he hm) (hb n) .normal n
  | .forLoop s i e u b, h => by
      have hb := settles_block hH b (h.block List.mem_cons_self)
      have hbody := hb.inLoop (ends_analyzeBlock b).inLoop
      have hi := settles_clause hH i fun x hx => h.child (Stmt.mem_children_of_init hx)
      have hu := settles_clause hH u fun x hx => h.child (Stmt.mem_children_of_step hx)
      have hclauses : Settles (analyzeClauses s i e u b) fun Γ s' _ =>
          s'.header? = none ∧ ∀ n, Stays Γ (s'.exec H n) := by
        refine hi.bind fun i' => (settles_conditionOpt e _).silent_bind fun e' =>
          hbody.silent_bind fun b' => hu.bind_pure ?_
        rintro _ u' ds' hu ⟨_, -, hb⟩ he Γ ds rfl hi
        -- the rounds stay, because a round of the step has a frame of its own
        refine ⟨rfl, fun n => Runs.inFrame ((hi n).andThen (Stays.runs ?_))⟩
        exact .rounds (safely_holdsOpt hH he) (hb n) (hu n).inFrame n
      refine (hclauses.inScope (ends_analyzeStmt (.forLoop s i e u b))).mono ?_
      rintro Γ s' ds ⟨hds, _, hheader, hs⟩
      exact .of_stays hheader hds fun n => (hs n).of_push
  | .jump s j, _ =>
    (settles_jump j s).bind_pure fun _ _ _ ⟨hds, hloop⟩ => .of_stays rfl hds fun _ => .pure hloop
  | .ret s o, _ =>
    (settles_return hH o s).bind_pure fun _ _ _ ⟨hds, ho⟩ => .of_stays rfl hds fun _ => ho

/-- The initializer and the step of a loop are run like statements by themselves. -/
theorem settles_clause (hH : H.Conforms) : ∀ o : Option Stmt, (∀ s ∈ o, s.DeclaresKnown) →
    Settles (analyzeStmtOpt o) fun Γ o' ds => ∀ n, Runs Γ (execClause H n o') ds
  | none, _ => .pure fun _ _ => Stays.normal.runs
  | some s, h =>
    (settles_alone (h s rfl) (settles_stmt hH s (h s rfl))).bind_pure fun _ _ _ hs => hs

/-- The statements of a list that is analyzed without reports run without misuse. -/
theorem settles_stmts (hH : H.Conforms) : ∀ ss : List Stmt, (∀ s ∈ ss, s.DeclaresKnown) →
    Settles (analyzeAllIn ss) (AllRunAs H ss)
  | [], _ => .pure fun _ => ⟨rfl, fun _ => Stays.normal.runs⟩
  | s :: ss, h => by
      obtain ⟨hs, hss⟩ := List.forall_mem_cons.1 h
      refine (settles_stmt hH s hs).bind fun s' => (settles_stmts hH ss hss).bind_pure ?_
      rintro _ ss' ds' ⟨hheaders, hss⟩ Γ ds rfl ⟨hheader, hs⟩
      refine ⟨?_, fun n => (hs n).andThen (hss n)⟩
      rw [List.filterMap_cons, List.filterMap_cons, hheader, hheaders]

/-- A block that is analyzed without reports runs without misuse and keeps the store. -/
theorem settles_block (hH : H.Conforms) : ∀ b : Block, (∀ s ∈ b.stmts, s.DeclaresKnown) →
    Settles b.analyze fun Γ b' ds => ds = [] ∧ ∀ n, Stays Γ (b'.exec H n)
  | ⟨ss, _⟩, h => by
      have hseq := settles_sequence h (settles_stmts hH ss h)
      refine (hseq.inScope (ends_analyzeSequence ss).inScope).bind_pure ?_
      rintro Γ ss' _ ⟨hds, _, hrun⟩
      exact ⟨hds, fun n => (hrun n).inFrame.of_push⟩

/-- An optional block that is analyzed without reports runs without misuse. -/
theorem settles_blockOpt (hH : H.Conforms) : ∀ o : Option Block,
    (∀ b ∈ o, ∀ s ∈ b.stmts, s.DeclaresKnown) →
    Settles (analyzeBlockOpt o) fun Γ o' ds => ds = [] ∧ ∀ n, Stays Γ (execBlockOpt H n o')
  | none, _ => .pure fun _ => ⟨rfl, fun _ => .normal⟩
  | some b, h => (settles_block hH b (h b rfl)).bind_pure fun _ _ _ hb => hb

/-- Conditional arms that are analyzed without reports test truth values and run without misuse. -/
theorem settles_arms (hH : H.Conforms) : ∀ arms : List Arm,
    (∀ a ∈ arms, ∀ s ∈ a.body.stmts, s.DeclaresKnown) →
    Settles (analyzeArms arms) fun Γ arms' ds => ds = [] ∧
      ∀ a ∈ arms', HasType typedNote Γ.names a.cond .bool ∧ ∀ n, Stays Γ (a.body.exec H n)
  | [], _ => .pure fun _ => ⟨rfl, List.forall_mem_nil _⟩
  | ⟨e, b⟩ :: arms, h => by
      obtain ⟨hb, harms⟩ := List.forall_mem_cons.1 h
      refine (settles_condition e _).silent_bind fun e' =>
        (settles_block hH b hb).silent_bind fun b' => (settles_arms hH arms harms).bind_pure ?_
      rintro Γ arms' ds ⟨hds, harms⟩ hb he
      exact ⟨hds, List.forall_mem_cons.2 ⟨⟨he, hb⟩, harms⟩⟩

end

/-- The analysis of a function declaration settles that the body runs where the function and its
parameters are in force. -/
theorem settles_func (hH : H.Conforms) (declared : Bool) {sp : Span} {f : FuncHeader} {b : Block}
    (h : (Stmt.func sp f b).DeclaresKnown) :
    Settles ((Stmt.func sp f b).analyzeIn declared) fun Γ s' ds => ∃ b', s' = .func sp f b' ∧
      ∃ ds', ∀ n, Runs (((Γ.declareAll ds).enter f.result).push.declareAll (parameters f))
        (execSequence H n b'.stmts) ds' := by
  obtain ⟨body, t⟩ := b
  have hbody : ∀ x ∈ body, x.DeclaresKnown := h.block List.mem_cons_self
  -- the body is analyzed alike, whether the function was declared with the sequence or is alone
  have hin : Settles ((Stmt.func sp f ⟨body, t⟩).analyzeIn true) fun Γ s' ds => ds = [] ∧
      ∃ b', s' = .func sp f b' ∧ ∃ ds', ∀ n, Runs
        ((Γ.enter f.result).push.declareAll (parameters f)) (execSequence H n b'.stmts) ds' :=
    (settles_body (known_paramBindings h) hbody (settles_stmts hH body hbody)).bind_pure
      fun _ body' _ ⟨hds, hrun⟩ => ⟨hds, ⟨body', t⟩, rfl, hrun⟩
  cases declared with
  | true =>
    refine hin.mono ?_
    rintro Γ s' _ ⟨rfl, hrun⟩
    exact hrun
  | false =>
    rw [analyzeIn_false]
    have hfunction := known_functionBindings (List.forall_mem_singleton.2 h)
    refine (settles_declareAll hfunction).bind fun _ => hin.mono ?_
    rintro _ s' _ ⟨rfl, hrun⟩ Γ ds rfl -
    rw [List.append_nil]
    exact hrun

/-- A program that is analyzed without reports runs without misuse. -/
theorem settles_program (hH : H.Conforms) {p : Program} (hp : p.DeclaresKnown) :
    Settles p.analyze fun Γ q ds => ∀ n, Runs Γ (execSequence H n q.stmts) ds :=
  (settles_sequence hp.stmt (settles_stmts hH p.stmts hp.stmt)).bind_pure fun _ _ _ hss => hss

/-- What is settled holds of an analysis without reports. -/
theorem Settles.of_quiet {Q : Env → α → List Decl → Prop} (h : Settles act Q) {ctx c : Context}
    {a : α} (hctx : ctx.env.names.Known) (hrun : act ctx = .ok a c) (hlog : c.log = ctx.log) :
    ∃ ds, c.env = ctx.env.declareAll ds ∧ Q ctx.env a ds :=
  (h hctx hrun).2 (Nat.le_of_eq (congrArg List.length hlog))

end Guarded

/-! ## Main results -/

open Guarded Rules

/-- If the names in force and the declarations in a tree have known types and the analysis reports
nothing, then a guarded run of what the analysis gives is without misuse, whatever store with values
of the declared types it starts from: of a statement, of the body of a function and of a program.
It comes to an outcome that makes sense there, or it does not come to an end because an operation
or a call has no result or because there is no fuel for a loop. -/
theorem analysis_runs_safely {H : Host} (hH : H.Conforms) {ctx : Context}
    (hctx : ctx.env.names.Known) :
    (∀ (s s' : Stmt) (c : Context), s.DeclaresKnown → s.analyze ctx = .ok s' c →
      c.log = ctx.log → ∃ ds, c.env = ctx.env.declareAll ds ∧
        ∀ n, Runs ctx.env (s'.execAlone H n) ds) ∧
    (∀ (declared : Bool) (sp : Span) (f : FuncHeader) (b : Block) (s' : Stmt) (c : Context),
      (Stmt.func sp f b).DeclaresKnown → (Stmt.func sp f b).analyzeIn declared ctx = .ok s' c →
      c.log = ctx.log → ∃ b', s' = .func sp f b' ∧
        ∃ ds, ∀ n, Runs ((c.env.enter f.result).push.declareAll (parameters f))
          (execSequence H n b'.stmts) ds) ∧
    ∀ (p q : Program) (c : Context), p.DeclaresKnown → p.analyze ctx = .ok q c →
      c.log = ctx.log → ∃ ds, c.env = ctx.env.declareAll ds ∧
        ∀ n, Runs ctx.env (execSequence H n q.stmts) ds := by
  refine ⟨fun s s' c hs hrun hlog => ?_, fun declared sp f b s' c hf hrun hlog => ?_,
    fun p q c hp hrun hlog => ?_⟩
  · exact (settles_alone hs (settles_stmt hH s hs)).of_quiet hctx hrun hlog
  · obtain ⟨ds, henv, hbody⟩ := (settles_func hH declared hf).of_quiet hctx hrun hlog
    rw [henv]
    exact hbody
  · exact (settles_program hH hp).of_quiet hctx hrun hlog

/-- A program whose analysis reports nothing is without misuse from every store, and if its run
comes to an end, then it is through. -/
theorem Program.runs_through {H : Host} (hH : H.Conforms) {p q : Program} (hp : p.DeclaresKnown)
    (h : p.analysis = .ok ⟨q, []⟩) (n : ℕ) (m : Store) :
    Safely (execSequence H n q.stmts) m fun o _ => o = .normal := by
  obtain ⟨q', c, hrun, hanalysis⟩ := p.analysis_ok
  rw [h] at hanalysis
  obtain ⟨rfl, hempty⟩ := Analysis.mk.inj (Except.ok.inj hanalysis)
  have hinitial : Context.initial.env.names.Known := Names.Known.empty
  obtain ⟨ds, -, hruns⟩ := (settles_program hH hp).of_quiet hinitial hrun hempty.symm
  have hm : m.Models Context.initial.env.names := fun _ _ h => nomatch h
  exact (hruns n hm).mono fun o _ ho => Outcome.allowed_initial.1 ho.1.2

namespace Guarded

/-- Some value of a type, if the type is known. -/
def Value.some? : Ty → Option Value
  | .int => some (.lit (.int 0))
  | .real => some (.lit (.real 0))
  | .bool => some (.ofBool false)
  | .char => some (.lit (.char 'a'))
  | .str => some (.lit (.str ""))
  | .void => some .unit
  | .fn ps r => some (.func ps r 0)
  | .error => none

/-- The value of a type is of that type. -/
theorem Value.ty_of_some? {t : Ty} {v : Value} (h : some? t = some v) : v.ty = t := by
  cases t <;> cases h <;> rfl

/-- There is a value of each known type. -/
theorem Value.some?_of_known {t : Ty} (h : t.Known) : ∃ v, some? t = some v := by
  cases t <;> first | exact ⟨_, rfl⟩ | nomatch h

/-- The host whose calls yield some value of the result type and change nothing. What has no result
halts the run. -/
def plainHost : Host where
  call i m := (Value.some? i.target.result).map (·, m)
  schedule _ _ m := m
  undefined _ _ _ := none
  undefinedNeg _ := none
  initial d _ := (Value.some? d.ty).getD .unit

/-- The host that yields some value of the type in question conforms. -/
theorem conforms_plainHost : plainHost.Conforms where
  call i m v m' _ h := by
    obtain ⟨w, hw, hv⟩ := Option.map_eq_some_iff.1 h
    obtain ⟨rfl, rfl⟩ := Prod.mk.inj hv
    exact ⟨Value.ty_of_some? hw, .refl m⟩
  schedule _ _ m := .refl m
  undefined _ _ _ _ h := nomatch h
  undefinedNeg _ _ h := nomatch h
  initial d _ hd := by
    obtain ⟨v, hv⟩ := Value.some?_of_known hd
    show ((Value.some? d.ty).getD .unit).ty = d.ty
    rw [hv]
    exact Value.ty_of_some? hv

end Guarded

/-- The loop `for (int i = 0; i < 2; i = i + 1) { continue; }`, with types recorded as `t` has
it. -/
def countUp (t : Ty → Option Ty) : Stmt :=
  let s : Span := ⟨0, 0⟩
  let i : Expr := .ident ⟨s, t .int⟩ "i"
  let number (v : Int64) : Expr := .lit ⟨s, t .int⟩ (.int v)
  .forLoop s (some (.var s ⟨"i", .int, some (number 0), s⟩))
    (some (.binary ⟨s, t .bool⟩ (.order .lt) i (number 2)))
    (some (.assign s "i" (.binary ⟨s, t .int⟩ (.arith .add) i (number 1))))
    ⟨[.jump s .continueNext], s⟩

/-- The loop declares a variable of a known type. -/
theorem declaresKnown_countUp : (countUp fun _ => none).DeclaresKnown := by
  have hnone : ∀ t ∈ ([] : List Ty), t.Known := List.forall_mem_nil _
  refine Stmt.declaresKnown_iff.2 ⟨hnone, ?_⟩
  -- the initializer, the step and the body
  refine List.forall_mem_cons.2 ⟨?_, List.forall_mem_cons.2 ⟨?_, List.forall_mem_singleton.2 ?_⟩⟩
  · exact Stmt.declaresKnown_of_leaf rfl (List.forall_mem_singleton.2 rfl)
  · exact Stmt.declaresKnown_of_leaf rfl hnone
  · exact Stmt.declaresKnown_of_leaf rfl hnone

/-- With fuel for two rounds and the last test the loop is through. -/
example : ∃ m, (countUp some).execAlone plainHost 3 [] = .ok .normal m := ⟨_, rfl⟩

/-- What the declaration of the function `twice` says before the body: `real twice(int n)`. -/
def twiceHeader : FuncHeader := ⟨"twice", [⟨"n", .int, ⟨0, 0⟩⟩], .real, ⟨0, 0⟩⟩

/-- The body `{ n = n + n; return n; }`, whose result is widened, with types recorded as `t` has
it. -/
def twiceBody (t : Ty → Option Ty) : Block :=
  let s : Span := ⟨0, 0⟩
  let n : Expr := .ident ⟨s, t .int⟩ "n"
  ⟨[.assign s "n" (.binary ⟨s, t .int⟩ (.arith .add) n n), .ret s (some n)], s⟩

/-- The declaration of the function `twice`. -/
def twice (t : Ty → Option Ty) : Stmt := .func ⟨0, 0⟩ twiceHeader (twiceBody t)

/-- The function has a known result and a known parameter. -/
theorem declaresKnown_twice : (twice fun _ => none).DeclaresKnown := by
  have hnone : ∀ t ∈ ([] : List Ty), t.Known := List.forall_mem_nil _
  refine Stmt.declaresKnown_iff.2 ⟨?_, ?_⟩
  · exact List.forall_mem_cons.2 ⟨rfl, List.forall_mem_singleton.2 rfl⟩
  · exact List.forall_mem_cons.2 ⟨Stmt.declaresKnown_of_leaf rfl hnone,
      List.forall_mem_singleton.2 (Stmt.declaresKnown_of_leaf rfl hnone)⟩

/-- A loop, a function and a program that are analyzed without reports, and their runs. -/
theorem runs_safely_countUp : (plainHost.Conforms ∧ Context.initial.env.names.Known) ∧
    (∃ ds, ∀ n, Runs .initial ((countUp some).execAlone plainHost n) ds) ∧
    (∃ (c : Context) (ds : List Decl), (twice fun _ => none).analyze .initial = .ok (twice some) c ∧
      ∀ n, Runs ((c.env.enter .real).push.declareAll (parameters twiceHeader))
        (execSequence plainHost n (twiceBody some).stmts) ds) ∧
    ∃ ds, ∀ n, Runs .initial (execSequence plainHost n (countOnce some).stmts) ds := by
  have hctx : Context.initial.env.names.Known := Names.Known.empty
  obtain ⟨hstmt, hfunc, hprogram⟩ := analysis_runs_safely conforms_plainHost hctx
  obtain ⟨ds, -, hloop⟩ := hstmt _ (countUp some) .initial declaresKnown_countUp rfl rfl
  obtain ⟨b', hb', ds', hbody⟩ :=
    hfunc false _ _ _ (twice some) _ declaresKnown_twice rfl rfl
  obtain ⟨ds'', -, hrun⟩ := hprogram _ (countOnce some) _ declaresKnown_countOnce rfl rfl
  cases hb'
  exact ⟨⟨conforms_plainHost, hctx⟩, ⟨ds, hloop⟩, ⟨_, ds', rfl, hbody⟩, ds'', hrun⟩

end Procedural
