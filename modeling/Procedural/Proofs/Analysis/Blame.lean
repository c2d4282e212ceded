import Procedural.Proofs.Analysis.Balance
import Procedural.Proofs.Syntax.Nodes

/-! # No node is blamed twice

Each node of a tree is worth its span, which is spent when a report blames it. `Spends before act
after` says that a check spends spans of `before` only, each as often as it stands there at most,
and leaves those of `after` unspent. The analysis of an expression spends the spans of its nodes,
and that of the root is left as long as the expression has a type: a later demand can blame the
expression, and it takes the type away when it does. -/

namespace Procedural

variable {α β : Type} {x act : Check α} {f : α → Check β} {before before' rest : Multiset Span}
  {after after' : α → Multiset Span} {after₂ : β → Multiset Span}

/-! ## Spending spans -/

/-- What the check reports is blamed on spans of `before`, each of which is used up by one report;
the spans of `after` are not used. -/
def Spends (before : Multiset Span) (act : Check α) (after : α → Multiset Span) : Prop :=
  ∀ ⦃ctx : Context⦄ ⦃a : α⦄ ⦃c : Context⦄, act ctx = .ok a c → ∃ spent : List Span,
    c.log.map Diagnostic.span = ctx.log.map Diagnostic.span ++ spent.map some ∧
      (spent : Multiset Span) + after a ≤ before

/-- Nothing is left over. -/
def nothing (_ : α) : Multiset Span := 0

namespace Spends

/-- A check that only answers leaves all the spans it is given. -/
theorem pure {a : α} (h : after a ≤ before) : Spends before (pure a) after := by
  intro ctx a' c hrun
  obtain ⟨rfl, rfl⟩ := of_pure_ok hrun
  exact ⟨[], (List.append_nil _).symm, by simpa using h⟩

/-- The second check is given what the first one leaves. -/
theorem bind (hx : Spends before x after) (hf : ∀ a, Spends (after a) (f a) after₂) :
    Spends before (x >>= f) after₂ := by
  intro ctx b c hrun
  obtain ⟨a, c', hrun₁, hrun₂⟩ := of_bind_ok hrun
  obtain ⟨spent, hlog, hle⟩ := hx hrun₁
  obtain ⟨spent', hlog', hle'⟩ := hf a hrun₂
  refine ⟨spent ++ spent', ?_, ?_⟩
  · rw [hlog', hlog, List.append_assoc, List.map_append]
  · calc ((spent ++ spent' : List Span) : Multiset Span) + after₂ b
        = spent + (spent' + after₂ b) := by rw [← Multiset.coe_add, add_assoc]
      _ ≤ spent + after a := by gcongr
      _ ≤ before := hle

/-- A check can be given more spans than it spends. -/
theorem of_le (h : Spends before act after) (hle : before ≤ before') :
    Spends before' act after := by
  intro ctx a c hrun
  obtain ⟨spent, hlog, hspent⟩ := h hrun
  exact ⟨spent, hlog, hspent.trans hle⟩

/-- Spans that are none of the check's business stay. -/
theorem frame (h : Spends before act after) :
    Spends (before + rest) act fun a => after a + rest := by
  intro ctx a c hrun
  obtain ⟨spent, hlog, hspent⟩ := h hrun
  refine ⟨spent, hlog, ?_⟩
  rw [← add_assoc]
  gcongr

/-- The check that goes on is given what the first one leaves and all the rest. -/
theorem bind_rest (hx : Spends before x after) (hf : ∀ a, Spends (after a + rest) (f a) after₂) :
    Spends (before + rest) (x >>= f) after₂ :=
  hx.frame.bind hf

/-- Two checks in a row, the first of which leaves nothing. -/
theorem bind_next (hx : Spends before x nothing) (hf : ∀ a, Spends rest (f a) after₂) :
    Spends (before + rest) (x >>= f) after₂ :=
  hx.bind_rest fun a => (hf a).of_le (zero_add rest).ge

/-- The answer of the last check is put together from those of the checks before it. -/
theorem bind_pure {g : α → β} (hx : Spends before x after) (hg : ∀ a, after₂ (g a) ≤ after a) :
    Spends before (x >>= fun a => Pure.pure (g a)) after₂ :=
  hx.bind fun a => .pure (hg a)

/-- A check that leaves nothing, with its answer put together. -/
theorem bind_done {g : α → β} (hx : Spends before x nothing) :
    Spends before (x >>= fun a => Pure.pure (g a)) nothing :=
  hx.bind_pure fun _ => le_rfl

/-- A check that never changes the log. -/
theorem of_log_eq (h : ∀ ⦃ctx a c⦄, act ctx = .ok a c → c.log = ctx.log) :
    Spends before act fun _ => before := by
  intro ctx a c hrun
  exact ⟨[], by rw [h hrun]; exact (List.append_nil _).symm, by simp⟩

/-! ### Brackets -/

/-- In a scope of its own a check spends the same spans. -/
theorem inScope (h : Spends before act after) : Spends before (inScope act) after := by
  intro ctx a c hrun
  obtain ⟨c', hact, hexit⟩ := of_inScope_ok hrun
  rw [log_of_exitScope hexit]
  have hspent := h hact
  exact hspent

/-- Inside a loop a check spends the same spans. -/
theorem inLoop (h : Spends before act after) : Spends before (inLoop act) after := by
  intro ctx a c hrun
  obtain ⟨c', hact, hexit⟩ := of_inLoop_ok hrun
  rw [(of_exitLoop_ok hexit).1]
  have hspent := h hact
  exact hspent

/-- Inside a function a check spends the same spans. -/
theorem inFunction (t : Ty) (h : Spends before act after) :
    Spends before (inFunction t act) after := by
  intro ctx a c hrun
  obtain ⟨c', hact, rfl⟩ := of_inFunction_ok hrun
  have hspent := h hact
  exact hspent

end Spends

/-! ## Reports and names -/

/-- A report spends the span it is blamed on. -/
theorem spends_report (p : Problem) (s : Span) : Spends {s} (report p (some s)) nothing := by
  intro ctx a c hrun
  cases hrun
  exact ⟨[s], List.map_append, le_rfl⟩

/-- A declaration that is refused is blamed on its own place. -/
theorem spends_declare (y : String) (e : Entity) : Spends {e.span} (declare y e) nothing := by
  intro ctx a c hrun
  unfold declare at hrun
  split at hrun <;> cases hrun
  · exact ⟨[], (List.append_nil _).symm, Multiset.zero_le _⟩
  · exact ⟨[e.span], List.map_append, le_rfl⟩

/-- Declarations spend their own places. -/
theorem spends_declareAll (bs : List Binding) :
    Spends (bindingSpans bs) (declareAll bs) nothing := by
  induction bs with
  | nil => exact .pure le_rfl
  | cons b bs ih => exact (spends_declare b.1 b.2).bind_next fun _ => ih

/-- The place of a name can still be blamed if the name was found. -/
def Entity.leftAt (s : Span) (o : Option Entity) : Multiset Span := if o.isSome then {s} else 0

/-- Resolving a name spends its place only if the name stands for nothing. -/
theorem spends_resolve (y : String) (s : Span) : Spends {s} (resolve y s) (Entity.leftAt s) := by
  intro ctx a c hrun
  unfold resolve at hrun
  split at hrun <;> cases hrun
  · exact ⟨[], (List.append_nil _).symm, le_rfl⟩
  · exact ⟨[s], List.map_append, le_rfl⟩

/-- A name that has to stand for a value is blamed once, because it is not declared or because it
stands for a function. -/
theorem spends_ofEntity {a a' : α} {p : Problem} {s : Span} {k : Entity → Check α}
    (hk : ∀ e, Spends rest (k e) nothing) : ∀ o : Option Entity,
    Spends (Entity.leftAt s o + rest) (match o with
      | none => pure a
      | some e => if e.isValue then k e else report p (some s) >>= fun _ => pure a') nothing
  | none => .pure (Multiset.zero_le _)
  | some e => by
    show Spends ({s} + rest) (if e.isValue then _ else _) nothing
    split
    · exact (hk e).of_le (Multiset.le_add_left _ _)
    · exact (spends_report p s).bind_done.of_le (Multiset.le_add_right _ _)

/-! ## Demands -/

/-- What an analyzed expression can still be blamed for: its own place, if it has a type. -/
def Expr.credit (e : Expr) : Multiset Span := if e.ty? = some .error then 0 else {e.span}

/-- An expression is worth its place as long as its type is known. -/
theorem Expr.credit_withTy (t : Ty) (e : Expr) :
    (e.withTy t).credit = if t = .error then 0 else {e.span} := by
  simp only [credit, ty?_withTy, span_withTy, Option.some.injEq]

/-- An expression is worth its place at most. -/
theorem Expr.credit_le (e : Expr) : e.credit ≤ {e.span} := by
  rw [credit]
  split
  · exact Multiset.zero_le _
  · exact le_rfl

/-- The type of an expression is asked for without a report. -/
theorem spends_resolved_bind {e : Expr} {k : Ty → Check α}
    (hk : ∀ t, e.ty? = some t → Spends before (k t) after) :
    Spends before (e.resolved >>= k) after := by
  intro ctx a c hrun
  obtain ⟨t, c', hres, hrest⟩ := of_bind_ok hrun
  obtain ⟨ht, rfl⟩ := of_resolved_ok hres
  exact hk t ht hrest

/-- A demand can only blame an expression that has a type, and it takes the type away then. -/
theorem spends_require (e : Expr) (d : Demand) :
    Spends e.credit (e.require d) fun r => r.2.credit := by
  refine spends_resolved_bind fun t ht => ?_
  split
  · exact .pure le_rfl
  · rename_i herror
    split
    · exact .pure le_rfl
    · -- the type is known, so the expression is still worth its span
      have hcredit : e.credit = {e.span} := by
        rw [Expr.credit, ht, if_neg]
        exact fun h => herror (Ty.isError_iff.2 (Option.some.inj h))
      rw [hcredit]
      exact (spends_report _ _).bind_pure fun _ => (e.credit_withTy .error).le

/-- A demand on two operands spends what they are worth. -/
theorem spends_requireBoth (d : Demand) (l r : Expr) :
    Spends (l.credit + r.credit) (requireBoth d l r) nothing := by
  refine (spends_require l d).bind_rest fun p => ?_
  rw [add_comm]
  exact (spends_require r d).bind_rest fun _ => .pure (Multiset.zero_le _)

/-- Checking a binary operator spends what its operands are worth. -/
theorem spends_checkBinary (op : BinaryOp) (l r : Expr) :
    Spends (l.credit + r.credit) (checkBinary op l r) nothing := by
  cases op with
  | arith op =>
    refine (spends_requireBoth _ l r).bind fun ⟨⟨_, l⟩, _, r⟩ => ?_
    exact spends_resolved_bind fun _ _ => spends_resolved_bind fun _ _ => .pure le_rfl
  | order op => exact (spends_requireBoth _ l r).bind_done
  | equality op =>
    -- only the right operand can be blamed
    refine spends_resolved_bind fun left _ => spends_resolved_bind fun right _ => ?_
    split
    · exact .pure (Multiset.zero_le _)
    · refine Spends.of_le ?_ (Multiset.le_add_left _ _)
      exact (spends_require r _).bind_pure fun _ => Multiset.zero_le _
  | logic op => exact (spends_requireBoth _ l r).bind_done

/-- Checking a unary operator spends what its operand is worth. -/
theorem spends_checkUnary (op : UnaryOp) (e : Expr) :
    Spends e.credit (checkUnary op e) nothing := by
  cases op with
  | neg =>
    exact (spends_require e _).bind fun _ =>
      spends_resolved_bind fun _ _ => .pure (Multiset.zero_le _)
  | not => exact (spends_require e _).bind_pure fun _ => Multiset.zero_le _

/-- A name that is blamed gets no type. -/
theorem spends_checkIdent (y : String) (s : Span) :
    Spends {s} (checkIdent y s) fun t => if t = .error then 0 else {s} := by
  refine (spends_resolve y s).bind fun o => ?_
  cases o with
  | none => exact .pure le_rfl
  | some e =>
    show Spends {s} (if e.isValue then _ else _) _
    split
    · refine .pure ?_
      split
      · exact Multiset.zero_le _
      · exact le_rfl
    · exact (spends_report _ s).bind_pure fun _ => le_rfl

/-- What the analyzed expressions of a list can still be blamed for. -/
def Expr.creditAll (es : List Expr) : Multiset Span := (es.map Expr.credit).sum

/-- Checking arguments spends what they are worth. -/
theorem spends_requireArgs (f : String) (i : Nat) (es : List Expr) (ts : List Ty) :
    Spends (Expr.creditAll es) (requireArgs f i es ts) nothing := by
  induction es generalizing i ts with
  | nil => exact .pure (Multiset.zero_le _)
  | cons e es ih =>
    cases ts with
    | nil => exact .pure (Multiset.zero_le _)
    | cons t ts =>
      refine (spends_require e _).bind_rest fun p => ?_
      exact (ih (i + 1) ts).bind_done.of_le (Multiset.le_add_left _ _)

/-- A call is blamed for its name or for the number of its arguments, or else the arguments are. -/
theorem spends_checkCall (f : String) (s : Span) (o : Option Entity) (args : List Expr) :
    Spends (Entity.leftAt s o + Expr.creditAll args) (checkCall f s o args) nothing := by
  unfold checkCall
  split
  · exact .pure (Multiset.zero_le _)
  · split
    · exact (spends_requireArgs f 1 args _).bind_done.of_le (Multiset.le_add_left _ _)
    · exact (spends_report _ s).bind_done.of_le (Multiset.le_add_right _ _)
  · exact (spends_report _ s).bind_done.of_le (Multiset.le_add_right _ _)

/-! ## Expressions -/

mutual

/-- The analysis of an expression spends the places of its nodes, except what it is still worth. -/
theorem spends_analyzeExpr : ∀ e : Expr, Spends e.nodeSpans e.analyze Expr.credit
  | .lit n v => .pure (Expr.credit_le _)
  | .ident n y =>
    (spends_checkIdent y n.span).bind_pure fun t => (Expr.credit_withTy t (.ident n y)).le
  | .binary n op l r => by
      rw [Expr.nodeSpans, add_assoc, add_comm, add_assoc]
      refine (spends_analyzeExpr l).bind_rest fun l => ?_
      rw [add_left_comm]
      refine (spends_analyzeExpr r).bind_rest fun r => ?_
      rw [add_left_comm, ← add_assoc]
      exact (spends_checkBinary op l r).bind_rest fun _ => .pure <|
        (Expr.credit_le _).trans (Multiset.le_add_left _ _)
  | .unary n op e => by
      rw [Expr.nodeSpans, add_comm]
      refine (spends_analyzeExpr e).bind_rest fun e => ?_
      exact (spends_checkUnary op e).bind_rest fun _ => .pure <|
        (Expr.credit_le _).trans (Multiset.le_add_left _ _)
  | .call n c => by
      rw [Expr.nodeSpans, add_comm]
      exact (spends_analyzeCall c).bind_rest fun _ => .pure <|
        (Expr.credit_le _).trans (Multiset.le_add_left _ _)

/-- The analysis of a call spends the places of its nodes. -/
theorem spends_analyzeCall : ∀ c : Call, Spends c.nodeSpans c.analyze nothing
  | ⟨f, args, s⟩ => by
      rw [Call.nodeSpans]
      refine (spends_resolve f s).bind_rest fun o => ?_
      rw [add_comm]
      refine (spends_analyzeExprs args).bind_rest fun args => ?_
      rw [add_comm]
      exact (spends_checkCall f s o args).bind_done

/-- The analysis of a list of expressions leaves what each of them is worth. -/
theorem spends_analyzeExprs : ∀ es : List Expr,
    Spends (Expr.nodeSpansAll es) (analyzeAll es) Expr.creditAll
  | [] => .pure le_rfl
  | e :: es => by
      rw [Expr.nodeSpansAll]
      refine (spends_analyzeExpr e).bind_rest fun e => ?_
      rw [add_comm]
      exact (spends_analyzeExprs es).bind_rest fun es => .pure (add_comm _ _).le

end

/-! ## Statements -/

/-- An expression that has to meet a demand spends the places of its nodes. -/
theorem spends_analyzeFor (e : Expr) (d : Demand) :
    Spends e.nodeSpans (e.analyzeFor d) nothing :=
  (spends_analyzeExpr e).bind fun e =>
    (spends_require e d).bind_pure fun _ => Multiset.zero_le _

/-- A demand on an optional expression spends the spans of the expression. -/
theorem spends_analyzeForOpt (d : Demand) : ∀ o : Option Expr,
    Spends (Expr.nodeSpansOpt o) (analyzeForOpt d o) nothing
  | none => .pure le_rfl
  | some e => (spends_analyzeFor e d).bind_done

/-- A variable declaration spends its place and the places in its initial value. -/
theorem spends_analyzeVar (d : VarDecl) : Spends d.nodeSpans d.analyze nothing := by
  rw [VarDecl.nodeSpans, add_comm]
  exact (spends_analyzeForOpt _ d.init).bind_next fun _ =>
    (spends_declareAll [d.binding]).bind_done

/-- An assignment spends its place and the places in its value. -/
theorem spends_analyzeAssign (y : String) (e : Expr) (s : Span) :
    Spends ({s} + e.nodeSpans) (analyzeAssign y e s) nothing := by
  refine (spends_resolve y s).bind_rest fun o => ?_
  rw [add_comm]
  refine (spends_analyzeExpr e).bind_rest fun e => ?_
  rw [add_comm]
  exact spends_ofEntity (fun _ => (spends_require e _).bind_pure fun _ => Multiset.zero_le _) o

/-- Looking at the context spends nothing. -/
theorem spends_get : Spends before (get : Check Context) fun _ => before := by
  refine .of_log_eq fun ctx a c hrun => ?_
  cases hrun
  rfl

/-- A return is blamed itself, or its value is. -/
theorem spends_analyzeReturn (o : Option Expr) (s : Span) :
    Spends ({s} + Expr.nodeSpansOpt o) (analyzeReturn o s) nothing := by
  have halone (p : Problem) (a : Option Expr) :
      Spends {s} (report p (some s) >>= fun _ => Pure.pure a) nothing :=
    (spends_report p s).bind_done
  have hvalue (p : Problem) (e : Expr) : Spends ({s} + e.nodeSpans)
      (e.analyze >>= fun e => report p (some s) >>= fun _ => Pure.pure (some e)) nothing := by
    rw [add_comm]
    refine (spends_analyzeExpr e).bind_rest fun e => ?_
    exact (halone p (some e)).of_le (Multiset.le_add_left _ _)
  refine spends_get.bind fun ctx => ?_
  -- outside functions, in procedures and in other functions, without and with a value
  split
  · exact halone _ _
  · exact hvalue _ _
  · exact .pure (Multiset.zero_le _)
  · exact hvalue _ _
  · exact halone _ _
  · exact (spends_analyzeFor _ _).bind_done.of_le (Multiset.le_add_left _ _)

/-- A jump spends its own place. -/
theorem spends_checkJump (j : Jump) (s : Span) : Spends {s} (checkJump j s) nothing := by
  refine spends_get.bind fun ctx => ?_
  split
  · exact .pure (Multiset.zero_le _)
  · exact spends_report _ s

mutual

/-- In a sequence the function of a statement has been declared before the statement is analyzed. -/
theorem spends_analyzeStmt : ∀ s : Stmt, Spends s.innerSpans (s.analyzeIn true) nothing
  | .var s d => (spends_analyzeVar d).bind_done.of_le (Multiset.le_add_left _ _)
  | .func s f ⟨body, t⟩ => by
      have hbody := Spends.inFunction f.result <| Spends.inScope <|
        (spends_declareAll (f.params.map Param.binding)).bind_next fun _ =>
        (spends_declareAll (functionBindings body)).bind_next fun _ => spends_analyzeStmts body
      refine hbody.bind_done.of_le ?_
      rw [← Stmt.nodeSpansAll_eq, Stmt.innerSpans, add_assoc]
      exact Multiset.le_add_left _ _
  | .assign s y e => (spends_analyzeAssign y e s).bind_done
  | .call s c => (spends_analyzeCall c).bind_done.of_le (Multiset.le_add_left _ _)
  | .after s e c => by
      show Spends ({s} + e.nodeSpans + c.nodeSpans) _ nothing
      rw [add_assoc]
      refine Spends.of_le ?_ (Multiset.le_add_left _ _)
      exact (spends_analyzeFor e _).bind_next fun _ => (spends_analyzeCall c).bind_done
  | .block s b => (spends_analyzeBlock b).bind_done.of_le (Multiset.le_add_left _ _)
  | .ifChain s arms o => by
      show Spends ({s} + Arm.nodeSpansAll arms + Block.nodeSpansOpt o) _ nothing
      rw [add_assoc]
      refine Spends.of_le ?_ (Multiset.le_add_left _ _)
      exact (spends_analyzeArms arms).bind_next fun _ => (spends_analyzeBlockOpt o).bind_done
  | .whileLoop s e b => by
      show Spends ({s} + e.nodeSpans + b.nodeSpans) _ nothing
      rw [add_assoc]
      refine Spends.of_le ?_ (Multiset.le_add_left _ _)
      exact (spends_analyzeFor e _).bind_next fun _ => (spends_analyzeBlock b).inLoop.bind_done
  | .forLoop s i e u b => by
      -- the step is analyzed after the body, so the spans are added in another order
      refine Spends.of_le (.inScope <|
        (spends_analyzeStmtOpt i).bind_next fun _ => (spends_analyzeForOpt _ e).bind_next fun _ =>
        (spends_analyzeBlock b).inLoop.bind_next fun _ => (spends_analyzeStmtOpt u).bind_done) ?_
      show _ ≤ {s} + Stmt.nodeSpansOpt i + Expr.nodeSpansOpt e + Stmt.nodeSpansOpt u + b.nodeSpans
      rw [add_assoc, add_assoc, add_assoc, add_comm (Stmt.nodeSpansOpt u)]
      exact Multiset.le_add_left _ _
  | .jump s j => (spends_checkJump j s).bind_done
  | .ret s o => (spends_analyzeReturn o s).bind_done

/-- A clause that may be missing spends the places of its nodes. -/
theorem spends_analyzeStmtOpt : ∀ o : Option Stmt,
    Spends (Stmt.nodeSpansOpt o) (analyzeStmtOpt o) nothing
  | none => .pure le_rfl
  | some s => by
      have hs := (spends_declareAll (functionBindings [s])).bind_next fun _ => spends_analyzeStmt s
      rw [← analyzeIn_false, ← s.nodeSpans_eq] at hs
      exact hs.bind_done

/-- The statements of a list spend the places inside them. -/
theorem spends_analyzeStmts : ∀ ss : List Stmt,
    Spends (ss.map Stmt.innerSpans).sum (analyzeAllIn ss) nothing
  | [] => .pure le_rfl
  | s :: ss => by
      rw [List.map_cons, List.sum_cons]
      exact (spends_analyzeStmt s).bind_next fun _ => (spends_analyzeStmts ss).bind_done

/-- A block spends the places of its nodes. -/
theorem spends_analyzeBlock : ∀ b : Block, Spends b.nodeSpans b.analyze nothing
  | ⟨ss, _⟩ => by
      have hss := Spends.inScope <|
        (spends_declareAll (functionBindings ss)).bind_next fun _ => spends_analyzeStmts ss
      rw [← Stmt.nodeSpansAll_eq] at hss
      exact hss.bind_done

/-- An optional block spends the spans of its nodes. -/
theorem spends_analyzeBlockOpt : ∀ o : Option Block,
    Spends (Block.nodeSpansOpt o) (analyzeBlockOpt o) nothing
  | none => .pure le_rfl
  | some b => (spends_analyzeBlock b).bind_done

/-- Conditional arms spend the places in their conditions and blocks. -/
theorem spends_analyzeArms : ∀ arms : List Arm,
    Spends (Arm.nodeSpansAll arms) (analyzeArms arms) nothing
  | [] => .pure le_rfl
  | ⟨e, b⟩ :: arms => by
      rw [Arm.nodeSpansAll, add_assoc]
      exact (spends_analyzeFor e _).bind_next fun _ => (spends_analyzeBlock b).bind_next fun _ =>
        (spends_analyzeArms arms).bind_done

end

/-- A program spends the places of its nodes. -/
theorem spends_analyzeProgram (p : Program) : Spends p.nodeSpans p.analyze nothing := by
  have hp := (spends_declareAll (functionBindings p.stmts)).bind_next fun _ =>
    spends_analyzeStmts p.stmts
  rw [← Stmt.nodeSpansAll_eq] at hp
  exact hp.bind_done

/-- If no two nodes of a program stand at the same place, then its analysis blames every problem on
a node, and no two problems on the same one. -/
theorem Program.analysis_blames_once (p : Program) (hp : p.nodeSpans.Nodup) :
    ∃ q log, p.analysis = .ok ⟨q, log⟩ ∧ ∃ spans : List Span,
      log.map Diagnostic.span = spans.map some ∧ (∀ s ∈ spans, s ∈ p.nodeSpans) ∧ spans.Nodup := by
  obtain ⟨q, c, hrun, hanalysis⟩ := p.analysis_ok
  obtain ⟨spans, hlog, hle⟩ := spends_analyzeProgram p hrun
  replace hle : (spans : Multiset Span) ≤ p.nodeSpans := by simpa [nothing] using hle
  refine ⟨q, c.log, hanalysis, spans, hlog, fun s hs => ?_, ?_⟩
  · exact Multiset.mem_of_le hle (Multiset.mem_coe.2 hs)
  · exact Multiset.coe_nodup.1 (Multiset.nodup_of_le hle hp)

/-- A return outside every function, of a name that is not declared. -/
def strayReturn : Program := ⟨[.ret ⟨0, 8⟩ (some (.ident ⟨⟨7, 8⟩, none⟩ "x"))]⟩

/-- The name and the return are each blamed once. -/
theorem blamed_strayReturn : strayReturn.nodeSpans.Nodup ∧
    ∃ q log, strayReturn.analysis = .ok ⟨q, log⟩ ∧ ∃ spans : List Span,
      log.map Diagnostic.span = spans.map some ∧ (∀ s ∈ spans, s ∈ strayReturn.nodeSpans) ∧
        spans.Nodup := by
  have hnodup : strayReturn.nodeSpans.Nodup := by decide
  exact ⟨hnodup, Program.analysis_blames_once strayReturn hnodup⟩

end Procedural
