import Procedural.Proofs.Analysis.Balance
import Procedural.Proofs.Syntax.Names

/-! # What a context contributes to an analysis

Contexts are **alike** for some names if these names stand for the same in both, as a whole and in
the innermost scope, if both or neither are inside a loop, and if the result types are the same. The
analysis of a tree in alike contexts gives the same answer, adds the same bindings and the same
reports; what was reported before, how many scopes and loops there are and what other names stand
for does not matter. -/

namespace Procedural

variable {α β : Type} {x act : Check α} {f : α → Check β} {N : List String} {c c' : Context}

/-! ## Alike contexts -/

namespace Scopes

/-- A new binding hides what was declared before. -/
theorem lookup_bind (s : Scopes) (b : Binding) (y : String) :
    (s.bind b).lookup y = (List.lookup y [b]).or (s.lookup y) := by
  obtain ⟨z, e⟩ := b
  obtain ⟨globals, locals⟩ := s
  cases hy : y == z <;> cases locals <;>
    simp [bind, withInnermost, innermost, lookup, List.lookup_cons, List.findSome?_cons, hy]

/-- In the innermost scope a new binding hides what was declared before. -/
theorem lookupLocal_bind (s : Scopes) (b : Binding) (y : String) :
    (s.bind b).lookupLocal y = (List.lookup y [b]).or (s.lookupLocal y) := by
  obtain ⟨z, e⟩ := b
  cases hy : y == z <;> simp [bind, lookupLocal, List.lookup_cons, hy]

end Scopes

/-- The contexts are alike for the names `N`. -/
structure Context.Alike (N : List String) (c c' : Context) : Prop where
  /-- The names stand for the same. -/
  lookup : ∀ y ∈ N, c.scopes.lookup y = c'.scopes.lookup y
  /-- The names stand for the same in the innermost scope. -/
  lookupLocal : ∀ y ∈ N, c.scopes.lookupLocal y = c'.scopes.lookupLocal y
  /-- Both or neither are inside a loop. -/
  isInLoop : c.isInLoop = c'.isInLoop
  /-- The enclosing functions have the same result type. -/
  returns : c.returns = c'.returns

namespace Context.Alike

/-- Reports do not matter. -/
theorem tell_self (N : List String) (c : Context) (new : Log) : c.Alike N (c.tell new) :=
  ⟨fun _ _ => rfl, fun _ _ => rfl, rfl, rfl⟩

/-- Contexts stay alike when the same is reported in both. -/
theorem tell (h : c.Alike N c') (new : Log) : (c.tell new).Alike N (c'.tell new) :=
  ⟨h.lookup, h.lookupLocal, h.isInLoop, h.returns⟩

/-- Contexts stay alike in a new scope. -/
theorem push (h : c.Alike N c') : c.push.Alike N c'.push where
  lookup y hy := by
    show c.scopes.push.lookup y = c'.scopes.push.lookup y
    rw [Scopes.lookup_push, Scopes.lookup_push, h.lookup y hy]
  lookupLocal _ _ := rfl
  isInLoop := h.isInLoop
  returns := h.returns

/-- Contexts become alike in loops when they enter a loop. -/
theorem inside (h : c.Alike N c') : c.inside.Alike N c'.inside where
  lookup := h.lookup
  lookupLocal := h.lookupLocal
  isInLoop := (decide_eq_true (Nat.succ_pos _)).trans (decide_eq_true (Nat.succ_pos _)).symm
  returns := h.returns

/-- Contexts stay alike when they enter a function with the same result type. -/
theorem enter (h : c.Alike N c') (t : Ty) : (c.enter t).Alike N (c'.enter t) :=
  ⟨h.lookup, h.lookupLocal, rfl, rfl⟩

/-- Contexts stay alike when the same binding is added to both. -/
theorem bind (h : c.Alike N c') (b : Binding) : (c.bind b).Alike N (c'.bind b) where
  lookup y hy := by
    show (c.scopes.bind b).lookup y = (c'.scopes.bind b).lookup y
    rw [Scopes.lookup_bind, Scopes.lookup_bind, h.lookup y hy]
  lookupLocal y hy := by
    show (c.scopes.bind b).lookupLocal y = (c'.scopes.bind b).lookupLocal y
    rw [Scopes.lookupLocal_bind, Scopes.lookupLocal_bind, h.lookupLocal y hy]
  isInLoop := h.isInLoop
  returns := h.returns

/-- Contexts stay alike when the same bindings are added to both. -/
theorem bindAll (h : c.Alike N c') (bs : List Binding) :
    (c.bindAll bs).Alike N (c'.bindAll bs) := by
  induction bs generalizing c c' with
  | nil => exact h
  | cons b bs ih => exact ih (h.bind b)

end Context.Alike

/-! ## Checks that depend on names -/

/-- If the check ends without a fault in some context, then in every context that is alike for the
names `N` it ends with the same answer and adds the same bindings and reports. -/
def DependsOn (N : List String) (act : Check α) : Prop :=
  ∀ ⦃c : Context⦄ ⦃a : α⦄ ⦃d : Context⦄, act c = .ok a d →
    ∃ bs new, d = (c.bindAll bs).tell new ∧
      ∀ c', c.Alike N c' → act c' = .ok a ((c'.bindAll bs).tell new)

namespace DependsOn

/-- A check that only answers depends on nothing. -/
theorem pure (a : α) : DependsOn N (pure a) := by
  intro c a' d hrun
  obtain ⟨rfl, rfl⟩ := of_pure_ok hrun
  exact ⟨[], [], d.tell_nil.symm, fun c' _ => congrArg (EStateM.Result.ok _) c'.tell_nil.symm⟩

/-- Two checks in a row depend on what each depends on. -/
theorem bind (hx : DependsOn N x) (hf : ∀ a, DependsOn N (f a)) : DependsOn N (x >>= f) := by
  intro c b d hrun
  obtain ⟨a, c₁, hrun₁, hrun₂⟩ := of_bind_ok hrun
  obtain ⟨bs, new, rfl, hsame⟩ := hx hrun₁
  obtain ⟨bs', new', rfl, hsame'⟩ := hf a hrun₂
  refine ⟨bs ++ bs', new ++ new', c.tell_bindAll_tell .., fun c' halike => ?_⟩
  rw [bind_of_ok (hsame c' halike), hsame' _ ((halike.bindAll bs).tell new),
    Context.tell_bindAll_tell]

/-- The answer of the last check is put together from those of the checks before it. -/
theorem bind_pure {g : α → β} (hx : DependsOn N x) :
    DependsOn N (x >>= fun a => Pure.pure (g a)) :=
  hx.bind fun _ => .pure _

/-- A check that looks at the context, but at nothing in which alike contexts differ. -/
theorem get_bind {k : Context → Check α} (hk : ∀ c c', c.Alike N c' → k c = k c')
    (h : ∀ c, DependsOn N (k c)) : DependsOn N (get >>= k) := by
  intro c a d hrun
  obtain ⟨bs, new, hd, hsame⟩ := h c hrun
  refine ⟨bs, new, hd, fun c' halike => ?_⟩
  show k c' c' = _
  rw [← hk c c' halike]
  exact hsame c' halike

/-! ### Brackets -/

/-- A scope of its own hides the bindings that the check adds, and the names it depends on stay. -/
theorem inScope (h : DependsOn N act) : DependsOn N (inScope act) := by
  intro c a d hrun
  obtain ⟨c₁, hact, hexit⟩ := of_inScope_ok hrun
  obtain ⟨bs, new, rfl, hsame⟩ := h hact
  rw [inScope_adds hact] at hrun
  cases hrun
  exact ⟨[], new, rfl, fun c' halike => inScope_adds (hsame _ halike.push)⟩

/-- Inside a loop a check depends on the same names. -/
theorem inLoop (h : DependsOn N act) : DependsOn N (inLoop act) := by
  intro c a d hrun
  obtain ⟨c₁, hact, hexit⟩ := of_inLoop_ok hrun
  obtain ⟨bs, new, rfl, hsame⟩ := h hact
  rw [inLoop_adds hact] at hrun
  cases hrun
  exact ⟨bs, new, rfl, fun c' halike => inLoop_adds (hsame _ halike.inside)⟩

/-- Inside a function a check depends on the same names. -/
theorem inFunction (t : Ty) (h : DependsOn N act) : DependsOn N (inFunction t act) := by
  intro c a d hrun
  obtain ⟨c₁, hact, -⟩ := of_inFunction_ok hrun
  obtain ⟨bs, new, rfl, hsame⟩ := h hact
  rw [inFunction_adds hact] at hrun
  cases hrun
  exact ⟨bs, new, rfl, fun c' halike => inFunction_adds (hsame _ (halike.enter t))⟩

end DependsOn

/-! ## Reports and names -/

/-- A report depends on nothing. -/
theorem dependsOn_report (p : Problem) (s : Option Span) : DependsOn N (report p s) := by
  intro c a d hrun
  cases hrun
  exact ⟨[], [⟨p, s⟩], rfl, fun _ _ => rfl⟩

/-- A declaration depends on the name that it declares. -/
theorem dependsOn_declare {y : String} (hy : y ∈ N) (e : Entity) : DependsOn N (declare y e) := by
  intro c a d hrun
  cases hlocal : c.scopes.lookupLocal y with
  | none =>
    -- the name is new in the other context as well
    rw [declare, Scopes.define, hlocal] at hrun
    cases hrun
    refine ⟨[(y, e)], [], (Context.tell_nil _).symm, fun c' halike => ?_⟩
    rw [declare, Scopes.define, ← halike.lookupLocal y hy, hlocal, Context.tell_nil]
    rfl
  | some old =>
    rw [declare, Scopes.define, hlocal] at hrun
    cases hrun
    refine ⟨[], [⟨.duplicateDeclaration y old.span, some e.span⟩], rfl, fun c' halike => ?_⟩
    rw [declare, Scopes.define, ← halike.lookupLocal y hy, hlocal]
    rfl

/-- Declarations depend on the names that they declare. -/
theorem dependsOn_declareAll {bs : List Binding} (hbs : ∀ b ∈ bs, b.1 ∈ N) :
    DependsOn N (declareAll bs) := by
  induction bs with
  | nil => exact .pure ()
  | cons b bs ih =>
    obtain ⟨hb, hbs⟩ := List.forall_mem_cons.1 hbs
    exact (dependsOn_declare hb b.2).bind fun _ => ih hbs

/-- Resolving a name depends on this name. -/
theorem dependsOn_resolve {y : String} (hy : y ∈ N) (s : Span) : DependsOn N (resolve y s) := by
  intro c a d hrun
  cases hlookup : c.scopes.lookup y with
  | none =>
    rw [resolve, hlookup] at hrun
    cases hrun
    refine ⟨[], [⟨.undeclaredIdentifier y, some s⟩], rfl, fun c' halike => ?_⟩
    rw [resolve, ← halike.lookup y hy, hlookup]
    rfl
  | some e =>
    rw [resolve, hlookup] at hrun
    cases hrun
    refine ⟨[], [], (Context.tell_nil _).symm, fun c' halike => ?_⟩
    rw [resolve, ← halike.lookup y hy, hlookup, Context.bindAll_nil, Context.tell_nil]

/-! ## Demands -/

/-- Reading a recorded type depends on nothing. -/
theorem dependsOn_resolved (e : Expr) : DependsOn N e.resolved := by
  intro c t d hrun
  obtain ⟨ht, rfl⟩ := of_resolved_ok hrun
  refine ⟨[], [], d.tell_nil.symm, fun c' _ => ?_⟩
  rw [Expr.resolved, ht, Context.bindAll_nil, Context.tell_nil]

/-- A demand depends on the expression, not on the context. -/
theorem dependsOn_require (e : Expr) (d : Demand) : DependsOn N (e.require d) := by
  refine (dependsOn_resolved e).bind fun t => ?_
  split
  · exact .pure _
  · split
    · exact .pure _
    · exact (dependsOn_report _ _).bind_pure

/-- A demand on two operands does not depend on the context. -/
theorem dependsOn_requireBoth (d : Demand) (l r : Expr) : DependsOn N (requireBoth d l r) :=
  (dependsOn_require l d).bind fun _ => (dependsOn_require r d).bind_pure

/-- Checking the operands of a binary operator does not depend on the context. -/
theorem dependsOn_checkBinary (op : BinaryOp) (l r : Expr) : DependsOn N (checkBinary op l r) := by
  cases op with
  | arith op =>
    refine (dependsOn_requireBoth _ l r).bind fun ⟨⟨_, l⟩, _, r⟩ => ?_
    exact (dependsOn_resolved l).bind fun _ => (dependsOn_resolved r).bind_pure
  | order op => exact (dependsOn_requireBoth _ l r).bind_pure
  | equality op =>
    refine (dependsOn_resolved l).bind fun _ => (dependsOn_resolved r).bind fun _ => ?_
    split
    · exact .pure _
    · exact (dependsOn_require r _).bind_pure
  | logic op => exact (dependsOn_requireBoth _ l r).bind_pure

/-- Checking the operand of a unary operator does not depend on the context. -/
theorem dependsOn_checkUnary (op : UnaryOp) (e : Expr) : DependsOn N (checkUnary op e) := by
  cases op with
  | neg =>
    exact (dependsOn_require e _).bind fun ⟨_, e⟩ => (dependsOn_resolved e).bind_pure
  | not => exact (dependsOn_require e _).bind_pure

/-- What is done with a name that has to stand for a value. -/
theorem dependsOn_ofEntity {a a' : α} {p : Problem} {s : Span} {k : Entity → Check α}
    (hk : ∀ e, DependsOn N (k e)) : ∀ o : Option Entity,
    DependsOn N (match o with
      | none => pure a
      | some e => if e.isValue then k e else report p (some s) >>= fun _ => pure a')
  | none => .pure a
  | some e => by
    show DependsOn N (if e.isValue then _ else _)
    split
    · exact hk e
    · exact (dependsOn_report _ _).bind_pure

/-- Checking a name that is used depends on this name. -/
theorem dependsOn_checkIdent {y : String} (hy : y ∈ N) (s : Span) :
    DependsOn N (checkIdent y s) :=
  (dependsOn_resolve hy s).bind <| dependsOn_ofEntity fun e => .pure e.ty

/-- Checking arguments against parameters does not depend on the context. -/
theorem dependsOn_requireArgs (g : String) (i : Nat) (es : List Expr) (ts : List Ty) :
    DependsOn N (requireArgs g i es ts) := by
  induction es generalizing i ts with
  | nil => exact .pure _
  | cons e es ih =>
    cases ts with
    | nil => exact .pure _
    | cons t ts => exact (dependsOn_require e _).bind fun _ => (ih (i + 1) ts).bind_pure

/-- With its callee resolved, checking a call does not depend on the context. -/
theorem dependsOn_checkCall (g : String) (s : Span) (o : Option Entity) (args : List Expr) :
    DependsOn N (checkCall g s o args) := by
  unfold checkCall
  split
  · exact .pure _
  · split
    · exact (dependsOn_requireArgs g 1 args _).bind_pure
    · exact (dependsOn_report _ _).bind_pure
  · exact (dependsOn_report _ _).bind_pure

/-! ## Expressions -/

mutual

/-- The analysis of an expression depends on the names that occur in it. -/
theorem dependsOn_analyzeExpr : ∀ e : Expr, e.names ⊆ N → DependsOn N e.analyze
  | .lit _ _, _ => .pure _
  | .ident n _, h => (dependsOn_checkIdent (h List.mem_cons_self) n.span).bind_pure
  | .binary _ op l r, h => by
    obtain ⟨hl, hr⟩ := List.append_subset.1 h
    exact (dependsOn_analyzeExpr l hl).bind fun l => (dependsOn_analyzeExpr r hr).bind fun r =>
      (dependsOn_checkBinary op l r).bind_pure
  | .unary _ op e, h =>
    (dependsOn_analyzeExpr e h).bind fun e => (dependsOn_checkUnary op e).bind_pure
  | .call _ c, h => (dependsOn_analyzeCall c h).bind_pure

/-- The analysis of a call depends on its callee and the names in its arguments. -/
theorem dependsOn_analyzeCall : ∀ c : Call, c.names ⊆ N → DependsOn N c.analyze
  | ⟨g, args, s⟩, h => by
    obtain ⟨hg, hargs⟩ := List.cons_subset.1 h
    exact (dependsOn_resolve hg s).bind fun o =>
      (dependsOn_analyzeExprs args hargs).bind fun args =>
      (dependsOn_checkCall g s o args).bind_pure

/-- The analysis of a list of expressions depends on the names in them. -/
theorem dependsOn_analyzeExprs : ∀ es : List Expr, Expr.namesAll es ⊆ N →
    DependsOn N (analyzeAll es)
  | [], _ => .pure _
  | e :: es, h => by
    obtain ⟨he, hes⟩ := List.append_subset.1 h
    exact (dependsOn_analyzeExpr e he).bind fun _ => (dependsOn_analyzeExprs es hes).bind_pure

end

/-! ## Statements -/

/-- An expression that has to meet a demand depends on the names in it. -/
theorem dependsOn_analyzeFor {e : Expr} (h : e.names ⊆ N) (d : Demand) :
    DependsOn N (e.analyzeFor d) :=
  (dependsOn_analyzeExpr e h).bind fun e => (dependsOn_require e d).bind_pure

/-- An optional expression of which something is demanded depends on the names in it. -/
theorem dependsOn_analyzeForOpt (d : Demand) : ∀ {o : Option Expr}, Expr.namesOpt o ⊆ N →
    DependsOn N (analyzeForOpt d o)
  | none, _ => .pure _
  | some _, h => (dependsOn_analyzeFor h d).bind_pure

/-- A variable declaration depends on its name and the names in its initial value. -/
theorem dependsOn_analyzeVar {d : VarDecl} (h : d.names ⊆ N) : DependsOn N d.analyze := by
  obtain ⟨hname, hinit⟩ := List.cons_subset.1 h
  refine (dependsOn_analyzeForOpt _ hinit).bind fun _ => DependsOn.bind_pure ?_
  exact dependsOn_declareAll (List.forall_mem_singleton.2 hname)

/-- An assignment depends on its target and the names in its value. -/
theorem dependsOn_analyzeAssign {y : String} {e : Expr} (hy : y ∈ N) (he : e.names ⊆ N)
    (s : Span) : DependsOn N (analyzeAssign y e s) :=
  (dependsOn_resolve hy s).bind fun o => (dependsOn_analyzeExpr e he).bind fun e =>
    dependsOn_ofEntity (fun _ => (dependsOn_require e _).bind_pure) o

/-- A return depends on the result type, too. -/
theorem dependsOn_analyzeReturn {o : Option Expr} (h : Expr.namesOpt o ⊆ N) (s : Span) :
    DependsOn N (analyzeReturn o s) := by
  refine .get_bind (fun c c' halike => by rw [halike.returns]) fun c => ?_
  -- outside functions, in procedures and in other functions, without and with a value
  split
  · exact (dependsOn_report _ _).bind_pure
  · exact (dependsOn_analyzeExpr _ h).bind fun _ => (dependsOn_report _ _).bind_pure
  · exact .pure _
  · exact (dependsOn_analyzeExpr _ h).bind fun _ => (dependsOn_report _ _).bind_pure
  · exact (dependsOn_report _ _).bind_pure
  · exact (dependsOn_analyzeFor h _).bind_pure

/-- A jump depends on whether it is inside a loop. -/
theorem dependsOn_checkJump (j : Jump) (s : Span) : DependsOn N (checkJump j s) := by
  refine .get_bind (fun c c' halike => by rw [halike.isInLoop]) fun c => ?_
  split
  · exact .pure _
  · exact dependsOn_report _ _

/-- The functions of a sequence are declared under names of the sequence. -/
theorem dependsOn_functions {ss : List Stmt} (h : Stmt.namesAll ss ⊆ N) :
    DependsOn N (declareAll (functionBindings ss)) :=
  dependsOn_declareAll fun _ hb => h (mem_namesAll_of_function hb)

/-- A statement by itself depends on no other names than the statement of a sequence. -/
theorem dependsOn_alone {s : Stmt} (h : s.names ⊆ N) (hs : DependsOn N (s.analyzeIn true)) :
    DependsOn N (s.analyzeIn false) := by
  have hself : Stmt.namesAll [s] ⊆ N := List.append_subset.2 ⟨h, List.nil_subset N⟩
  rw [analyzeIn_false]
  exact (dependsOn_functions hself).bind fun _ => hs

mutual

/-- The analysis of a statement depends on the names that occur in it. -/
theorem dependsOn_analyzeStmt : ∀ s : Stmt, s.names ⊆ N → DependsOn N (s.analyzeIn true)
  | .var _ _, h => (dependsOn_analyzeVar h).bind_pure
  | .func _ f ⟨body, _⟩, h => by
    obtain ⟨hf, hbody⟩ := List.append_subset.1 h
    have hinner := (dependsOn_declareAll fun _ hb => hf (mem_names_of_param hb)).bind fun _ =>
      (dependsOn_functions hbody).bind fun _ => dependsOn_analyzeStmts body hbody
    exact (hinner.inScope.inFunction f.result).bind_pure
  | .assign s _ _, h => by
    obtain ⟨hy, he⟩ := List.cons_subset.1 h
    exact (dependsOn_analyzeAssign hy he s).bind_pure
  | .call _ c, h => (dependsOn_analyzeCall c h).bind fun _ => .pure _
  | .after _ e c, h => by
    obtain ⟨he, hc⟩ := List.append_subset.1 h
    exact (dependsOn_analyzeFor he _).bind fun _ => (dependsOn_analyzeCall c hc).bind_pure
  | .block _ b, h => (dependsOn_analyzeBlock b h).bind_pure
  | .ifChain _ arms o, h => by
    obtain ⟨harms, ho⟩ := List.append_subset.1 h
    exact (dependsOn_analyzeArms arms harms).bind fun _ =>
      (dependsOn_analyzeBlockOpt o ho).bind_pure
  | .whileLoop _ e b, h => by
    obtain ⟨he, hb⟩ := List.append_subset.1 h
    exact (dependsOn_analyzeFor he _).bind fun _ => (dependsOn_analyzeBlock b hb).inLoop.bind_pure
  | .forLoop _ i e u b, h => by
    obtain ⟨hi, h⟩ := List.append_subset.1 h
    obtain ⟨he, h⟩ := List.append_subset.1 h
    obtain ⟨hb, hu⟩ := List.append_subset.1 h
    exact .inScope <| (dependsOn_analyzeStmtOpt i hi).bind fun _ =>
      (dependsOn_analyzeForOpt _ he).bind fun _ =>
      (dependsOn_analyzeBlock b hb).inLoop.bind fun _ =>
      (dependsOn_analyzeStmtOpt u hu).bind_pure
  | .jump s j, _ => (dependsOn_checkJump j s).bind_pure
  | .ret s _, h => (dependsOn_analyzeReturn h s).bind_pure

/-- The analysis of a clause that may be missing depends on the names in it. -/
theorem dependsOn_analyzeStmtOpt : ∀ o : Option Stmt, Stmt.namesOpt o ⊆ N →
    DependsOn N (analyzeStmtOpt o)
  | none, _ => .pure _
  | some s, h => (dependsOn_alone h (dependsOn_analyzeStmt s h)).bind_pure

/-- The analysis of a list of statements depends on the names in them. -/
theorem dependsOn_analyzeStmts : ∀ ss : List Stmt, Stmt.namesAll ss ⊆ N →
    DependsOn N (analyzeAllIn ss)
  | [], _ => .pure _
  | s :: ss, h => by
    obtain ⟨hs, hss⟩ := List.append_subset.1 h
    exact (dependsOn_analyzeStmt s hs).bind fun _ => (dependsOn_analyzeStmts ss hss).bind_pure

/-- The analysis of a block depends on the names in it. -/
theorem dependsOn_analyzeBlock : ∀ b : Block, b.names ⊆ N → DependsOn N b.analyze
  | ⟨ss, _⟩, h => by
    have hss := (dependsOn_functions h).bind fun _ => dependsOn_analyzeStmts ss h
    exact hss.inScope.bind_pure

/-- The analysis of an optional block depends on the names in it. -/
theorem dependsOn_analyzeBlockOpt : ∀ o : Option Block, Block.namesOpt o ⊆ N →
    DependsOn N (analyzeBlockOpt o)
  | none, _ => .pure _
  | some b, h => (dependsOn_analyzeBlock b h).bind_pure

/-- The analysis of conditional arms depends on the names in their conditions and blocks. -/
theorem dependsOn_analyzeArms : ∀ arms : List Arm, Arm.namesAll arms ⊆ N →
    DependsOn N (analyzeArms arms)
  | [], _ => .pure _
  | ⟨e, b⟩ :: arms, h => by
    obtain ⟨he, h⟩ := List.append_subset.1 h
    obtain ⟨hb, harms⟩ := List.append_subset.1 h
    exact (dependsOn_analyzeFor he _).bind fun _ => (dependsOn_analyzeBlock b hb).bind fun _ =>
      (dependsOn_analyzeArms arms harms).bind_pure

end

/-! ## Main result -/

/-- In both contexts the check ends with the same answer and adds the same reports, and the contexts
in which it ends are alike for the names `N`. -/
def InStep (N : List String) (act : Check α) (c c' : Context) : Prop :=
  ∃ a new d d', act c = .ok a d ∧ act c' = .ok a d' ∧
    d.log = c.log ++ new ∧ d'.log = c'.log ++ new ∧ d.Alike N d'

/-- A check that ends and depends on no other names stays in step in alike contexts. -/
theorem DependsOn.inStep {bs : List Binding} {P : α → Prop} (h : DependsOn N act)
    (hends : Ends bs act P) (halike : c.Alike N c') : InStep N act c c' := by
  obtain ⟨a, bs₁, new₁, hend, -, -⟩ := hends c
  obtain ⟨bs₂, new, hd, hsame⟩ := h hend
  rw [hd] at hend
  refine ⟨a, new, _, _, hend, hsame c' halike, c.log_bindAll_tell .., c'.log_bindAll_tell .., ?_⟩
  exact (halike.bindAll bs₂).tell new

/-- Statements, blocks and sequences are analyzed in step in contexts that are alike for the names
that occur in them, and perhaps for other names. -/
theorem analysis_inStep (halike : c.Alike N c') :
    (∀ s : Stmt, s.names ⊆ N → InStep N s.analyze c c') ∧
    (∀ b : Block, b.names ⊆ N → InStep N b.analyze c c') ∧
    ∀ ss : List Stmt, Stmt.namesAll ss ⊆ N → InStep N (analyzeSequence ss) c c' := by
  refine ⟨fun s h => ?_, fun b h => ?_, fun ss h => ?_⟩
  · have hs := dependsOn_alone h (dependsOn_analyzeStmt s h)
    exact hs.inStep (ends_analyzeAlone s) halike
  · exact (dependsOn_analyzeBlock b h).inStep (ends_analyzeBlock b) halike
  · have hss := (dependsOn_functions h).bind fun _ => dependsOn_analyzeStmts ss h
    exact hss.inStep (ends_analyzeSequence ss) halike

/-- The assignment `x = f(1);`, analyzed in the global scope and in a loop of a procedure that is
declared in a block, where other names are in force and something has been reported. -/
theorem inStep_assign :
    let s : Span := ⟨0, 0⟩
    let x : Binding := ("x", ⟨.var, .int, s⟩)
    let f : Binding := ("f", ⟨.func, .fn [.real] .str, s⟩)
    let y : Binding := ("y", ⟨.param, .bool, s⟩)
    let c : Context := ⟨⟨[x, f], [[]]⟩, 1, some .void, []⟩
    let c' : Context := ⟨⟨[f], [[y], [x, y]]⟩, 3, some .void, [⟨.breakNotInLoop, some s⟩]⟩
    c.Alike ["x", "f"] c' ∧
      InStep ["x", "f"] (Stmt.assign s "x"
        (.call ⟨s, none⟩ ⟨"f", [.lit ⟨s, none⟩ (.int 1)], s⟩)).analyze c c' := by
  intro s x f y c c'
  have halike : c.Alike ["x", "f"] c' :=
    { lookup := by decide
      lookupLocal := by decide
      isInLoop := rfl
      returns := rfl }
  exact ⟨halike, (analysis_inStep halike).1 _ (List.Subset.refl _)⟩

end Procedural
