import Procedural.Compile
import Mathlib.Logic.Function.Basic

/-! # Other names and places

A **relabeling** gives every name another name, different names for different ones, and every place
another place, perhaps one for many. It acts on trees, and on all that an analysis makes of them:
bindings, contexts and diagnostics. Constructs quote names, so it acts on what they quote.

* `Relabeling`: the two functions; `m.expr`, `m.stmt`, `m.program` and so on are its actions.
* `Relabeling.construct`: its action on the constructs in problems.
* `Relabeling.lookup_frame`: names are kept apart, so looking up commutes with it. -/

namespace Procedural

/-- Other names and places for those of a program. -/
structure Relabeling where
  /-- The new name. -/
  name : String → String
  /-- Different names stay different. -/
  injective : Function.Injective name
  /-- The new place. -/
  place : Span → Span

namespace Relabeling

variable (m : Relabeling)

/-! ## Expressions -/

/-- The note at the new place. -/
def note (n : Note) : Note := { n with span := m.place n.span }

mutual

/-- The relabeled expression. -/
def expr : Expr → Expr
  | .lit n v => .lit (m.note n) v
  | .ident n x => .ident (m.note n) (m.name x)
  | .binary n op l r => .binary (m.note n) op (expr l) (expr r)
  | .unary n op e => .unary (m.note n) op (expr e)
  | .call n c => .call (m.note n) (call c)

/-- The relabeled call. -/
def call : Call → Call
  | ⟨f, args, s⟩ => ⟨m.name f, exprs args, m.place s⟩

/-- The relabeled expressions of a list. -/
def exprs : List Expr → List Expr
  | [] => []
  | e :: es => expr e :: exprs es

end

/-- The expressions of a list are relabeled one by one. -/
@[simp] theorem exprs_eq_map (es : List Expr) : m.exprs es = es.map m.expr := by
  induction es with
  | nil => rfl
  | cons e es ih => rw [exprs, ih, List.map_cons]

/-- A relabeled expression has the recorded type of the expression. -/
@[simp] theorem ty?_expr (e : Expr) : (m.expr e).ty? = e.ty? := by
  cases e <;> rfl

/-- A relabeled expression stands at the new place. -/
@[simp] theorem span_expr (e : Expr) : (m.expr e).span = m.place e.span := by
  cases e <;> rfl

/-- A relabeled expression is a literal if the expression is, and the same one. -/
@[simp] theorem literal?_expr (e : Expr) : (m.expr e).literal? = e.literal? := by
  cases e <;> rfl

/-- A relabeled expression is a constant condition if the expression is, and the same one. -/
@[simp] theorem bool?_expr (e : Expr) : (m.expr e).bool? = e.bool? := by
  rw [Expr.bool?, literal?_expr, Expr.bool?]

/-- Recording a type and relabeling can be done in any order. -/
theorem expr_withTy (t : Ty) (e : Expr) : m.expr (e.withTy t) = (m.expr e).withTy t := by
  cases e <;> rfl

/-! ## Statements -/

/-- The relabeled variable declaration. -/
def varDecl (d : VarDecl) : VarDecl :=
  ⟨m.name d.name, d.ty, d.init.map m.expr, m.place d.span⟩

/-- The relabeled parameter. -/
def param (p : Param) : Param := ⟨m.name p.name, p.ty, m.place p.span⟩

/-- The relabeled header of a function. -/
def header (f : FuncHeader) : FuncHeader :=
  ⟨m.name f.name, f.params.map m.param, f.result, m.place f.span⟩

mutual

/-- The relabeled statement. -/
def stmt : Stmt → Stmt
  | .var s d => .var (m.place s) (m.varDecl d)
  | .func s f b => .func (m.place s) (m.header f) (block b)
  | .assign s x e => .assign (m.place s) (m.name x) (m.expr e)
  | .call s c => .call (m.place s) (m.call c)
  | .after s e c => .after (m.place s) (m.expr e) (m.call c)
  | .block s b => .block (m.place s) (block b)
  | .ifChain s as o => .ifChain (m.place s) (arms as) (blockOpt o)
  | .whileLoop s e b => .whileLoop (m.place s) (m.expr e) (block b)
  | .forLoop s i e u b =>
    .forLoop (m.place s) (stmtOpt i) (e.map m.expr) (stmtOpt u) (block b)
  | .jump s j => .jump (m.place s) j
  | .ret s e => .ret (m.place s) (e.map m.expr)

/-- The relabeled statement that may be missing. -/
def stmtOpt : Option Stmt → Option Stmt
  | none => none
  | some s => some (stmt s)

/-- The relabeled statements of a list. -/
def stmts : List Stmt → List Stmt
  | [] => []
  | s :: ss => stmt s :: stmts ss

/-- The relabeled block. -/
def block : Block → Block
  | ⟨ss, s⟩ => ⟨stmts ss, m.place s⟩

/-- The relabeled block that may be missing. -/
def blockOpt : Option Block → Option Block
  | none => none
  | some b => some (block b)

/-- The relabeled conditional arms. -/
def arms : List Arm → List Arm
  | [] => []
  | ⟨e, b⟩ :: as => ⟨m.expr e, block b⟩ :: arms as

end

/-- The relabeled program. -/
def program (p : Program) : Program := ⟨m.stmts p.stmts⟩

/-- The statements of a list are relabeled one by one. -/
@[simp] theorem stmts_eq_map (ss : List Stmt) : m.stmts ss = ss.map m.stmt := by
  induction ss with
  | nil => rfl
  | cons s ss ih => rw [stmts, ih, List.map_cons]

/-- The functions that a statement declares are renamed with it. -/
theorem header?_stmt (s : Stmt) : (m.stmt s).header? = s.header?.map m.header := by
  cases s <;> rfl

/-! ## Declarations -/

/-- The declared thing at its new place. -/
def entity (e : Entity) : Entity := { e with span := m.place e.span }

/-- The binding of the new name. -/
def binding (b : Binding) : Binding := (m.name b.1, m.entity b.2)

/-- The bindings of the new names. -/
def frame (f : Frame) : Frame := f.map m.binding

/-- The scopes with the bindings of the new names. -/
def scopes (s : Scopes) : Scopes := ⟨m.frame s.globals, s.locals.map m.frame⟩

/-- Relabeled parameters bind the relabeled names. -/
theorem bindings_params (ps : List Param) :
    (ps.map m.param).map Param.binding = (ps.map Param.binding).map m.binding := by
  rw [List.map_map, List.map_map]
  rfl

/-- A relabeled function header binds the relabeled name. -/
theorem binding_header (f : FuncHeader) : (m.header f).binding = m.binding f.binding := by
  have hty : (m.header f).ty = f.ty := by
    show Ty.fn ((f.params.map m.param).map _) f.result = _
    rw [List.map_map]
    rfl
  rw [FuncHeader.binding, hty]
  rfl

/-- The functions of a relabeled sequence. -/
theorem functionBindings_stmts (ss : List Stmt) :
    functionBindings (m.stmts ss) = (functionBindings ss).map m.binding := by
  have hhead : Stmt.header? ∘ m.stmt = fun s => s.header?.map m.header := funext m.header?_stmt
  have hbind : FuncHeader.binding ∘ m.header = m.binding ∘ FuncHeader.binding :=
    funext m.binding_header
  rw [functionBindings, stmts_eq_map, List.filterMap_map, hhead, ← List.map_filterMap,
    List.map_map, hbind, ← List.map_map, functionBindings]

/-! ### Looking up -/

/-- A new name stands for what the old name stood for. -/
theorem lookup_frame (x : String) (f : Frame) :
    (m.frame f).lookup (m.name x) = (f.lookup x).map m.entity := by
  induction f with
  | nil => rfl
  | cons b f ih =>
    obtain ⟨y, e⟩ := b
    rw [frame, List.map_cons, binding, List.lookup_cons, List.lookup_cons]
    by_cases hxy : x = y
    · subst hxy
      simp
    · -- different names are still different
      have hnew : m.name x ≠ m.name y := fun h => hxy (m.injective h)
      rw [beq_eq_false_iff_ne.2 hxy, beq_eq_false_iff_ne.2 hnew]
      exact ih

/-- The innermost of relabeled scopes is the innermost frame, relabeled. -/
theorem innermost_scopes (s : Scopes) : (m.scopes s).innermost = m.frame s.innermost := by
  obtain ⟨globals, locals⟩ := s
  cases locals <;> rfl

/-- The innermost frame can be replaced before relabeling or after it. -/
theorem withInnermost_scopes (s : Scopes) (f : Frame) :
    (m.scopes s).withInnermost (m.frame f) = m.scopes (s.withInnermost f) := by
  obtain ⟨globals, locals⟩ := s
  cases locals <;> rfl

/-- The innermost frame can be left before relabeling or after it. -/
theorem pop?_scopes (s : Scopes) : (m.scopes s).pop? = s.pop?.map m.scopes := by
  obtain ⟨globals, locals⟩ := s
  cases locals <;> rfl

/-- A new name is found in the innermost frame exactly where the name is. -/
theorem lookupLocal_scopes (s : Scopes) (x : String) :
    (m.scopes s).lookupLocal (m.name x) = (s.lookupLocal x).map m.entity := by
  rw [Scopes.lookupLocal, innermost_scopes, lookup_frame, Scopes.lookupLocal]

/-- A new name is found in relabeled scopes exactly where the name is. -/
theorem lookup_scopes (s : Scopes) (x : String) :
    (m.scopes s).lookup (m.name x) = (s.lookup x).map m.entity := by
  have hframes : (m.scopes s).locals ++ [(m.scopes s).globals] =
      (s.locals ++ [s.globals]).map m.frame := by
    rw [List.map_append]
    rfl
  rw [Scopes.lookup, hframes, Scopes.lookup]
  -- both sides look through corresponding frames in the same order
  induction s.locals ++ [s.globals] with
  | nil => rfl
  | cons f fs ih =>
    rw [List.map_cons, List.findSome?_cons, List.findSome?_cons, ih, lookup_frame]
    cases f.lookup x <;> rfl

/-! ## Reports -/

/-- The mark around names in constructs. -/
def quoteMark : Char := '\''

/-- The characters with another name where one is quoted, which is from the first mark up to the
last character. -/
def quoting : List Char → List Char
  | [] => []
  | c :: cs =>
    if c = quoteMark then quoteMark :: ((m.name (.ofList cs.dropLast)).toList ++ [quoteMark])
    else c :: quoting cs

/-- The construct with another name where it quotes one. -/
def construct (c : String) : String := .ofList (m.quoting c.toList)

/-- What is not in quotes stays. -/
theorem quoting_append (cs ds : List Char) (h : quoteMark ∉ cs) :
    m.quoting (cs ++ ds) = cs ++ m.quoting ds := by
  induction cs with
  | nil => rfl
  | cons c cs ih =>
    rw [List.mem_cons, not_or] at h
    obtain ⟨hc, hcs⟩ := h
    -- the first character is no mark, so it is copied
    rw [List.cons_append, quoting, if_neg (Ne.symm hc), ih hcs, List.cons_append]

/-- A construct that quotes no name stays. -/
theorem construct_plain {c : String} (h : quoteMark ∉ c.toList) : m.construct c = c := by
  have hplain := m.quoting_append c.toList [] h
  rw [List.append_nil, quoting, List.append_nil] at hplain
  rw [construct, hplain, String.ofList_toList]

/-- A quoted name becomes the new name in quotes. -/
theorem construct_quoted {c : String} (h : quoteMark ∉ c.toList) (x : String) :
    m.construct (c ++ Problem.quoted x) = c ++ Problem.quoted (m.name x) := by
  have hquoted (y : String) :
      (c ++ Problem.quoted y).toList = c.toList ++ quoteMark :: (y.toList ++ [quoteMark]) := by
    simp [Problem.quoted, quoteMark]
  have hname : m.quoting (quoteMark :: (x.toList ++ [quoteMark])) =
      quoteMark :: ((m.name x).toList ++ [quoteMark]) := by
    rw [quoting, if_pos rfl, List.dropLast_concat, String.ofList_toList]
  rw [construct, hquoted, quoting_append _ _ _ h, hname, ← hquoted, String.ofList_toList]

/-- The names with a prefix, and the places further on. -/
def prefixed (before : String) (n : Nat) : Relabeling where
  name x := before ++ x
  injective x y h := by
    have hlist := congrArg String.toList h
    rw [String.toList_append, String.toList_append] at hlist
    exact String.toList_inj.1 (List.append_cancel_left hlist)
  place s := ⟨s.start + n, s.stop + n⟩

/-- The problem, of the new names and places. -/
def problem : Problem → Problem
  | .continueNotInLoop => .continueNotInLoop
  | .breakNotInLoop => .breakNotInLoop
  | .nonArithmeticOperand c found => .nonArithmeticOperand (m.construct c) found
  | .nonBooleanOperand c found => .nonBooleanOperand (m.construct c) found
  | .duplicateDeclaration x previous => .duplicateDeclaration (m.name x) (m.place previous)
  | .undeclaredIdentifier x => .undeclaredIdentifier (m.name x)
  | .notCallable x => .notCallable (m.name x)
  | .notAVariable x => .notAVariable (m.name x)
  | .typeMismatch c expected found => .typeMismatch (m.construct c) expected found
  | .wrongArgumentCount f expected found => .wrongArgumentCount (m.name f) expected found
  | .returnOutsideFunction => .returnOutsideFunction
  | .missingReturnValue expected => .missingReturnValue expected
  | .unexpectedReturnValue => .unexpectedReturnValue

/-- The diagnostic of the new names, at the new place. -/
def diagnostic (d : Diagnostic) : Diagnostic := ⟨m.problem d.problem, d.span.map m.place⟩

/-- The diagnostics of the new names, in the same order. -/
def log (l : Log) : Log := l.map m.diagnostic

/-- The context of a relabeled analysis. -/
def context (ctx : Context) : Context :=
  { ctx with scopes := m.scopes ctx.scopes, log := m.log ctx.log }

/-- The analysis of a relabeled program. -/
def analysis (a : Analysis) : Analysis := ⟨m.program a.program, m.log a.log⟩

end Relabeling

end Procedural
