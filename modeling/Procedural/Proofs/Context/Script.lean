import Procedural.Proofs.Analysis.Demands

/-! # Scripts run to their end

A script of context operations runs to its end, whatever faults its steps end in. So each step has a
context after it (`Step.after`), and a script passes through a list of contexts (`passesAll`), those
inside its brackets among them. Each of them comes from the one before by a small change: a frame is
pushed or popped, the loops and the result type are set, or bindings and reports are added
(`Change`). What such changes keep is kept all through a script (`Course.pairwise`). -/

namespace Procedural.Context

variable {α : Type} {s : Step} {ss body : List Step} {ctx c d : Context} {names : List String}

/-! ## Leaving -/

/-- The context in the scope around the innermost one, if there is one. -/
def leaveScope (ctx : Context) : Context :=
  { ctx with scopes := ctx.scopes.pop?.getD ctx.scopes }

/-- The context in the loop around the innermost one, if there is one. -/
def leaveLoop (ctx : Context) : Context := { ctx with loops := ctx.loops - 1 }

/-- Leaving a scope as one equation. -/
theorem exitScope_eq (ctx : Context) : exitScope ctx =
    if ctx.scopes.depth = 1 then .error .unmatchedExitScope ctx else .ok () ctx.leaveScope := by
  rw [exitScope, leaveScope]
  cases hpop : ctx.scopes.pop? with
  | none => rw [if_pos ((Scopes.pop?_eq_none_iff _).1 hpop)]
  | some scopes =>
    have hdepth : ctx.scopes.depth ≠ 1 := by
      rw [Ne, ← Scopes.pop?_eq_none_iff, hpop]
      exact Option.some_ne_none scopes
    rw [if_neg hdepth]
    rfl

/-- Leaving a loop as one equation. -/
theorem exitLoop_eq (ctx : Context) : exitLoop ctx =
    if ctx.loops = 0 then .error .unmatchedExitLoop ctx else .ok () ctx.leaveLoop := by
  obtain ⟨scopes, loops, returns, log⟩ := ctx
  cases loops <;> rfl

/-- The check ends in the fault `f` in the contexts of which `p` holds, and leaves them as they are;
in others it ends without a fault. -/
def FaultsExactly (act : Check α) (f : Fault) (p : Context → Prop) : Prop :=
  ∀ ctx g c, act ctx = .error g c ↔ p ctx ∧ g = f ∧ c = ctx

/-- A check whose faults are told by one condition. -/
theorem faultsExactly_of_eq {act : Check α} {f : Fault} {p : Context → Prop} [DecidablePred p]
    {a : α} {next : Context → Context}
    (h : ∀ ctx, act ctx = if p ctx then .error f ctx else .ok a (next ctx)) :
    FaultsExactly act f p := by
  intro ctx g c
  rw [h ctx]
  split
  · rename_i hp
    rw [EStateM.Result.error.injEq]
    exact ⟨fun ⟨hf, hc⟩ => ⟨hp, hf.symm, hc.symm⟩, fun ⟨_, hf, hc⟩ => ⟨hf.symm, hc.symm⟩⟩
  · rename_i hp
    exact ⟨fun hrun => (nomatch hrun), fun hfault => absurd hfault.1 hp⟩

/-! ## After a step -/

/-- The context after a step, also where the step ends in a fault. -/
def Step.after (s : Step) (ctx : Context) : Context := (record s.perform ctx).2

/-- The context after a script. -/
def afterAll (ss : List Step) (ctx : Context) : Context := ss.foldl (fun c s => s.after c) ctx

/-- After a step that ends without a fault. -/
theorem Step.after_of_ok {r : Reply} (h : s.perform ctx = .ok r c) : s.after ctx = c := by
  rw [after, record, h]

/-- After a step that ends in a fault. -/
theorem Step.after_of_error {f : Fault} (h : s.perform ctx = .error f c) : s.after ctx = c := by
  rw [after, record, h]

/-- A script never ends in a fault. -/
theorem performAll_ok (ss : List Step) (ctx : Context) :
    ∃ rs, performAll ss ctx = .ok rs (afterAll ss ctx) := by
  induction ss generalizing ctx with
  | nil => exact ⟨[], rfl⟩
  | cons s ss ih =>
    obtain ⟨rs, hrs⟩ := ih (s.after ctx)
    refine ⟨(record s.perform ctx).1 :: rs, ?_⟩
    rw [performAll]
    exact (bind_of_ok rfl).trans (bind_of_ok hrs)

/-! ### Brackets -/

/-- A check that ends in a fault is the last one. -/
theorem bind_of_error {α β : Type} {x : Check α} {k : α → Check β} {f : Fault}
    (h : x ctx = .error f c) : (x >>= k) ctx = .error f c := by
  show EStateM.bind x k ctx = _
  rw [EStateM.bind, h]

/-- Where a check may end in a fault, what is made of its answer may too. -/
theorem bind_pure_of_ite {β : Type} {act : Check α} {c' : Context} {a : α} {f : Fault} {p : Prop}
    [Decidable p] (g : α → β) (h : act ctx = if p then .error f c else .ok a c') :
    (act >>= fun a => pure (g a) : Check β) ctx = if p then .error f c else .ok (g a) c' := by
  by_cases hp : p
  · rw [if_pos hp] at h ⊢
    exact bind_of_error h
  · rw [if_neg hp] at h ⊢
    exact bind_of_ok h

/-- A bracket around a check that ends in `c` ends as the exit does that closes it there. -/
theorem bracket_eq {enter exit : Check Unit} {act : Check α} {c₀ c' : Context} {a : α} {f : Fault}
    {p : Prop} [Decidable p] (henter : enter ctx = .ok () c₀) (hact : act c₀ = .ok a c)
    (hexit : exit c = if p then .error f c else .ok () c') :
    (do enter; let a ← act; exit; return a : Check α) ctx =
      if p then .error f c else .ok a c' := by
  rw [bind_of_ok henter, bind_of_ok hact]
  exact bind_pure_of_ite (fun _ => a) hexit

/-- A script in a scope of its own ends in a fault if it ends in the global scope. -/
theorem perform_inScope (body : List Step) (ctx : Context) :
    ∃ rs, (Step.inScope body).perform ctx =
      if (afterAll body ctx.push).scopes.depth = 1
      then .error .unmatchedExitScope (afterAll body ctx.push)
      else .ok (.records rs) (afterAll body ctx.push).leaveScope := by
  obtain ⟨rs, hrs⟩ := performAll_ok body ctx.push
  refine ⟨rs, ?_⟩
  rw [Step.perform]
  exact bind_pure_of_ite Reply.records (bracket_eq rfl hrs (exitScope_eq _))

/-- A script in a loop of its own ends in a fault if it ends outside every loop. -/
theorem perform_inLoop (body : List Step) (ctx : Context) :
    ∃ rs, (Step.inLoop body).perform ctx =
      if (afterAll body ctx.inside).loops = 0
      then .error .unmatchedExitLoop (afterAll body ctx.inside)
      else .ok (.records rs) (afterAll body ctx.inside).leaveLoop := by
  obtain ⟨rs, hrs⟩ := performAll_ok body ctx.inside
  refine ⟨rs, ?_⟩
  rw [Step.perform]
  exact bind_pure_of_ite Reply.records (bracket_eq rfl hrs (exitLoop_eq _))

/-- A script in the body of a function leaves the loops and the result type as they were. -/
theorem perform_inFunction (t : Ty) (body : List Step) (ctx : Context) :
    ∃ rs, (Step.inFunction t body).perform ctx = .ok (.records rs)
      { afterAll body (ctx.enter t) with returns := ctx.returns, loops := ctx.loops } := by
  obtain ⟨rs, hrs⟩ := performAll_ok body (ctx.enter t)
  have hget : (get : Check Context) ctx = .ok ctx ctx := rfl
  have hset : (set (ctx.enter t) : Check PUnit) ctx = .ok ⟨⟩ (ctx.enter t) := rfl
  refine ⟨rs, ?_⟩
  rw [Step.perform, inFunction]
  refine bind_of_ok ?_
  rw [bind_of_ok hget]
  refine (bind_of_ok hset).trans ?_
  rw [bind_of_ok hrs]
  rfl

/-! ### Plain steps -/

/-- The step enters and leaves nothing. -/
def Step.isPlain : Step → Bool
  | .enterScope | .exitScope | .enterLoop | .exitLoop => false
  | .inScope _ | .inLoop _ | .inFunction _ _ => false
  | _ => true

/-- The names that a plain step declares in the innermost scope. -/
def Step.declares : Step → List String
  | .declare x _ => [x]
  | .stmt s => s.declared?.toList
  | .sequence ss => ss.filterMap Stmt.declared?
  | .program p => p.stmts.filterMap Stmt.declared?
  | _ => []

/-- Demands on an expression only add to the log. -/
theorem ends_demandAll (t : Option Ty) (e : Expr) (ds : List Demand) :
    Ends [] ((fun ctx => .ok (.expr t (demandAll e ds ctx).1 (demandAll e ds ctx).2.1)
      (demandAll e ds ctx).2.2) : Check Reply) anyAnswer := by
  intro ctx
  obtain ⟨reports, hreports, -⟩ := exists_reports_demandAll e ds ctx
  exact ⟨_, [], reports, congrArg _ hreports, ⟨List.Sublist.refl _, trivial⟩, trivial⟩

/-- An expression is examined without a fault, whether it is analyzed first or not. -/
theorem ends_examine (e : Expr) (analyze : Bool) (ds : List Demand) :
    Ends [] (examine e analyze ds) anyAnswer := by
  cases analyze with
  | true => exact (ends_analyzeExpr e).silent_bind fun e' _ => ends_demandAll e'.ty? e' ds
  | false => exact ends_demandAll none e ds

/-- A check with a specification extends the context, also where its answer is made into a reply. -/
theorem extends_reply {act : Check α} {ds : List Binding} {P : α → Prop} {g : α → Reply}
    (h : Ends ds act P) (hds : ∀ b ∈ ds, b.1 ∈ names) (ctx : Context) :
    ∃ r c, (act >>= fun a => pure (g a) : Check Reply) ctx = .ok r c ∧ ctx.Extends names c :=
  (h.bind_pure (Q := anyAnswer) fun _ _ => trivial).extends hds ctx

/-- A plain step never ends in a fault, and extends the context by the names that it declares. -/
theorem perform_plain (h : s.isPlain = true) (ctx : Context) :
    ∃ r c, s.perform ctx = .ok r c ∧ ctx.Extends s.declares c := by
  have hnone := List.forall_mem_nil fun b : Binding => b.1 ∈ ([] : List String)
  cases s with
  | enterScope | exitScope | enterLoop | exitLoop | inScope | inLoop | inFunction => nomatch h
  -- what remains is one analysis or one look at the scopes, which all end
  | declare x e =>
    exact extends_reply (ends_declare x e) (List.forall_mem_singleton.2 List.mem_cons_self) ctx
  | lookup x => exact extends_reply ends_get hnone ctx
  | lookupLocal x => exact extends_reply ends_get hnone ctx
  | resolve x sp => exact extends_reply (ends_resolve x sp) hnone ctx
  | report d => exact extends_reply (ends_report d.problem d.span) hnone ctx
  | stmt s =>
    refine extends_reply (ends_analyzeAlone s) (fun b hb => ?_) ctx
    exact Option.mem_toList.2 (mem_declared_of_mem_bindings hb)
  | block b => exact extends_reply (ends_analyzeBlock b) hnone ctx
  | sequence ss =>
    refine extends_reply (ends_analyzeSequence ss) (fun b hb => ?_) ctx
    exact mem_declared_of_mem_sequenceBindings hb
  | program p =>
    refine extends_reply (ends_analyzeProgram p) (fun b hb => ?_) ctx
    exact mem_declared_of_mem_sequenceBindings hb
  | call c => exact extends_reply (ends_analyzeCall c) hnone ctx
  | expr e analyze ds => exact (ends_examine e analyze ds).extends hnone ctx

/-- A plain step extends the context by the names that it declares. -/
theorem extends_after (h : s.isPlain = true) (ctx : Context) :
    ctx.Extends s.declares (s.after ctx) := by
  obtain ⟨r, c, hrun, hext⟩ := perform_plain h ctx
  rwa [Step.after_of_ok hrun]

/-! ### Steps that enter and leave -/

/-- In the global scope there is no scope to leave. -/
theorem leaveScope_of_depth (h : ctx.scopes.depth = 1) : ctx.leaveScope = ctx := by
  rw [leaveScope, (Scopes.pop?_eq_none_iff _).2 h]
  rfl

/-- Outside every loop there is no loop to leave. -/
theorem leaveLoop_of_loops (h : ctx.loops = 0) : ctx.leaveLoop = ctx := by
  obtain ⟨scopes, loops, returns, log⟩ := ctx
  obtain rfl : loops = 0 := h
  rfl

/-- The context after a step that may end in a fault without a change. -/
theorem after_of_ite {p : Prop} [Decidable p] {f : Fault} {r : Reply} {c c' : Context}
    (h : s.perform ctx = if p then .error f c else .ok r c') (hc : p → c' = c) :
    s.after ctx = c' := by
  split at h
  · rename_i hp
    rw [Step.after_of_error h, hc hp]
  · exact Step.after_of_ok h

/-- After leaving a scope, also where that is a fault. -/
@[simp] theorem after_exitScope (ctx : Context) : Step.exitScope.after ctx = ctx.leaveScope := by
  have hrun := bind_pure_of_ite (fun _ => Reply.done) (exitScope_eq ctx)
  rw [← Step.perform] at hrun
  exact after_of_ite hrun leaveScope_of_depth

/-- After leaving a loop, also where that is a fault. -/
@[simp] theorem after_exitLoop (ctx : Context) : Step.exitLoop.after ctx = ctx.leaveLoop := by
  have hrun := bind_pure_of_ite (fun _ => Reply.done) (exitLoop_eq ctx)
  rw [← Step.perform] at hrun
  exact after_of_ite hrun leaveLoop_of_loops

/-- After a script in a scope, which is left from where the script has come to. -/
@[simp] theorem after_inScope (body : List Step) (ctx : Context) :
    (Step.inScope body).after ctx = (afterAll body ctx.push).leaveScope := by
  obtain ⟨rs, hrun⟩ := perform_inScope body ctx
  exact after_of_ite hrun leaveScope_of_depth

/-- After a script in a loop, which is left from where the script has come to. -/
@[simp] theorem after_inLoop (body : List Step) (ctx : Context) :
    (Step.inLoop body).after ctx = (afterAll body ctx.inside).leaveLoop := by
  obtain ⟨rs, hrun⟩ := perform_inLoop body ctx
  exact after_of_ite hrun leaveLoop_of_loops

/-- After a script in a function, where the loops and the result type are put back. -/
@[simp] theorem after_inFunction (t : Ty) (body : List Step) (ctx : Context) :
    (Step.inFunction t body).after ctx =
      { afterAll body (ctx.enter t) with returns := ctx.returns, loops := ctx.loops } := by
  obtain ⟨rs, hrun⟩ := perform_inFunction t body ctx
  exact Step.after_of_ok hrun

/-! ## Induction -/

/-- What has to be shown of a step to show it of all, from the inside to the outside. -/
structure Step.Inherits (P : Step → Prop) : Prop where
  /-- Steps that enter and leave nothing. -/
  plain : ∀ s, s.isPlain = true → P s
  /-- Steps that only enter a scope. -/
  enterScope : P .enterScope
  /-- Steps that only leave a scope. -/
  exitScope : P .exitScope
  /-- Steps that only enter a loop. -/
  enterLoop : P .enterLoop
  /-- Steps that only leave a loop. -/
  exitLoop : P .exitLoop
  /-- Scripts in a scope of their own. -/
  inScope : ∀ body, (∀ s ∈ body, P s) → P (.inScope body)
  /-- Scripts in a loop of their own. -/
  inLoop : ∀ body, (∀ s ∈ body, P s) → P (.inLoop body)
  /-- Scripts in the body of a function. -/
  inFunction : ∀ t body, (∀ s ∈ body, P s) → P (.inFunction t body)

mutual

/-- Induction on steps, by recursion over the script. -/
private theorem inductStep {P : Step → Prop} (h : Step.Inherits P) : ∀ s, P s
  | .enterScope => h.enterScope
  | .exitScope => h.exitScope
  | .enterLoop => h.enterLoop
  | .exitLoop => h.exitLoop
  | .inScope body => h.inScope body (inductScript h body)
  | .inLoop body => h.inLoop body (inductScript h body)
  | .inFunction t body => h.inFunction t body (inductScript h body)
  | .declare _ _ | .lookup _ | .lookupLocal _ | .resolve _ _ | .report _ | .stmt _ | .block _
  | .sequence _ | .program _ | .call _ | .expr _ _ _ => h.plain _ rfl

/-- The case of the steps of a script. -/
private theorem inductScript {P : Step → Prop} (h : Step.Inherits P) :
    ∀ ss : List Step, ∀ s ∈ ss, P s
  | [] => List.forall_mem_nil _
  | s :: ss => List.forall_mem_cons.2 ⟨inductStep h s, inductScript h ss⟩

end

/-- Induction on steps, from the inside to the outside. -/
theorem Step.induct {P : Step → Prop} (plain : ∀ s, s.isPlain = true → P s)
    (enterScope : P .enterScope) (exitScope : P .exitScope) (enterLoop : P .enterLoop)
    (exitLoop : P .exitLoop) (inScope : ∀ body, (∀ s ∈ body, P s) → P (.inScope body))
    (inLoop : ∀ body, (∀ s ∈ body, P s) → P (.inLoop body))
    (inFunction : ∀ t body, (∀ s ∈ body, P s) → P (.inFunction t body)) (s : Step) : P s :=
  inductStep ⟨plain, enterScope, exitScope, enterLoop, exitLoop, inScope, inLoop, inFunction⟩ s

/-! ## On the way -/

mutual

/-- The contexts that a step passes through, up to the one after it. -/
def Step.passes : Step → Context → List Context
  | .inScope body, ctx => ctx.push :: (passesAll body ctx.push ++ [(Step.inScope body).after ctx])
  | .inLoop body, ctx =>
    ctx.inside :: (passesAll body ctx.inside ++ [(Step.inLoop body).after ctx])
  | .inFunction t body, ctx =>
    ctx.enter t :: (passesAll body (ctx.enter t) ++ [(Step.inFunction t body).after ctx])
  | s, ctx => [s.after ctx]

/-- The contexts that a script passes through, those inside its brackets among them. -/
def passesAll : List Step → Context → List Context
  | [], _ => []
  | s :: ss, ctx => s.passes ctx ++ passesAll ss (s.after ctx)

end

/-- A plain step passes through the context after it only. -/
theorem passes_plain (h : s.isPlain = true) (ctx : Context) : s.passes ctx = [s.after ctx] := by
  cases s <;> first | rfl | nomatch h

/-- The small changes that a script is made of. -/
inductive Change : Context → Context → Prop where
  /-- A scope is entered. -/
  | push (ctx : Context) : Change ctx ctx.push
  /-- A scope is left, or it is a fault to do so. -/
  | leaveScope (ctx : Context) : Change ctx ctx.leaveScope
  /-- The loops and the result type are set. -/
  | setting (ctx : Context) (loops : Nat) (returns : Option Ty) :
    Change ctx { ctx with loops, returns }
  /-- Bindings and reports are added. -/
  | grow {ctx c : Context} {names : List String} : ctx.Extends names c → Change ctx c

/-- `Course ctx cs c`: small changes lead from `ctx` through the contexts `cs`, the last of which
is `c`. -/
inductive Course : Context → List Context → Context → Prop where
  /-- Nothing is changed. -/
  | stay (ctx : Context) : Course ctx [] ctx
  /-- A change, and then others. -/
  | move {ctx c d : Context} {cs : List Context} : Change ctx c → Course c cs d →
    Course ctx (c :: cs) d

namespace Course

variable {cs ds : List Context}

/-- A single change. -/
theorem single (h : Change ctx c) : Course ctx [c] c := .move h (.stay c)

/-- One course after another. -/
theorem append (h : Course ctx cs c) (h' : Course c ds d) : Course ctx (cs ++ ds) d := by
  induction h with
  | stay ctx => exact h'
  | move hchange hcourse ih => exact .move hchange (ih h')

/-- A course between a change that enters a bracket and one that leaves it. -/
theorem around {e : Context} (h : Course c cs d) (henter : Change ctx c) (hleave : Change d e) :
    Course ctx (c :: (cs ++ [e])) e :=
  .move henter (h.append (.single hleave))

/-- What every change keeps, any two contexts of a course have, the one that comes first on the
left. -/
theorem pairwise {R : Context → Context → Prop} (hchange : ∀ c d, Change c d → R c d)
    (htrans : ∀ c d e, R c d → R d e → R c e) (h : Course ctx cs c) :
    (ctx :: cs).Pairwise R := by
  induction h with
  | stay ctx => exact List.pairwise_singleton R ctx
  | @move ctx c d cs hc hcourse ih =>
    have hlater : ∀ e ∈ cs, R c e := (List.pairwise_cons.1 ih).1
    have hnext : R ctx c := hchange ctx c hc
    refine List.pairwise_cons.2 ⟨List.forall_mem_cons.2 ⟨hnext, fun e he => ?_⟩, ih⟩
    exact htrans ctx c e hnext (hlater e he)

end Course

/-- The contexts of a script are a course if those of its steps are. -/
theorem course_passesAll_of (h : ∀ s ∈ ss, ∀ ctx, Course ctx (s.passes ctx) (s.after ctx))
    (ctx : Context) : Course ctx (passesAll ss ctx) (afterAll ss ctx) := by
  induction ss generalizing ctx with
  | nil => exact .stay ctx
  | cons s ss ih =>
    obtain ⟨hs, hss⟩ := List.forall_mem_cons.1 h
    exact (hs ctx).append (ih hss (s.after ctx))

/-- The contexts that a step passes through are a course. -/
theorem Step.course (s : Step) (ctx : Context) : Course ctx (s.passes ctx) (s.after ctx) := by
  induction s using Step.induct generalizing ctx with
  | plain s hs =>
    rw [passes_plain hs]
    exact .single (.grow (extends_after hs ctx))
  | enterScope => exact .single (.push ctx)
  | exitScope =>
    refine .single ?_
    rw [after_exitScope]
    exact .leaveScope ctx
  | enterLoop => exact .single (.setting ctx _ _)
  | exitLoop =>
    refine .single ?_
    rw [after_exitLoop]
    exact .setting ctx _ _
  | inScope body ih =>
    refine (course_passesAll_of ih ctx.push).around (.push ctx) ?_
    rw [after_inScope]
    exact .leaveScope _
  | inLoop body ih =>
    refine (course_passesAll_of ih ctx.inside).around (.setting ctx _ _) ?_
    rw [after_inLoop]
    exact .setting _ _ _
  | inFunction t body ih =>
    refine (course_passesAll_of ih (ctx.enter t)).around (.setting ctx _ _) ?_
    rw [after_inFunction]
    exact .setting _ _ _

/-- The contexts that a script passes through are a course. -/
theorem course_passesAll (ss : List Step) (ctx : Context) :
    Course ctx (passesAll ss ctx) (afterAll ss ctx) :=
  course_passesAll_of (fun s _ => s.course) ctx

end Procedural.Context
