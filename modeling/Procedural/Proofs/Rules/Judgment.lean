import Procedural.Proofs.Rules.Names

/-! # The rules of the language

`HasType`, `CallType` and `ArgsFit` say which expressions have which types, `Ok`, `AllOk` and
`SeqOk` which statements and sequences are well formed where they stand. All of them are stated by
rules alone.

The rules take a condition `M` on the note of an expression of a given type. With `anyNote` they ask
nothing of notes, and a program they derive is `WellFormed`; with `typedNote` every note has to
record the type of its expression, and a program they derive is `Annotated`. -/

namespace Procedural.Rules

/-- Types of numbers. -/
inductive Numeric : Ty → Prop where
  | int : Numeric .int
  | real : Numeric .real

/-- `Fits s t`: a value of type `s` can be stored where `t` is declared. -/
inductive Fits : Ty → Ty → Prop where
  /-- A value fits its own type. -/
  | same {t : Ty} : Fits t t
  /-- An integer fits where a real is declared. -/
  | widen : Fits .int .real

/-- The operand types that a binary operator takes, and the type of its result. -/
inductive BinaryType : BinaryOp → Ty → Ty → Ty → Prop where
  /-- Arithmetic on integers. -/
  | integers {op : ArithOp} : BinaryType (.arith op) .int .int .int
  /-- Arithmetic with a real on the left. -/
  | realLeft {op : ArithOp} {t : Ty} : Numeric t → BinaryType (.arith op) .real t .real
  /-- Arithmetic with a real on the right. -/
  | realRight {op : ArithOp} {t : Ty} : Numeric t → BinaryType (.arith op) t .real .real
  /-- Numbers are compared by size. -/
  | order {op : OrderOp} {t₁ t₂ : Ty} :
    Numeric t₁ → Numeric t₂ → BinaryType (.order op) t₁ t₂ .bool
  /-- Numbers are tested for equality. -/
  | equalNumbers {op : EqualityOp} {t₁ t₂ : Ty} :
    Numeric t₁ → Numeric t₂ → BinaryType (.equality op) t₁ t₂ .bool
  /-- Values of one type are tested for equality. -/
  | equalSame {op : EqualityOp} {t : Ty} : BinaryType (.equality op) t t .bool
  /-- Truth values are combined. -/
  | logic {op : LogicOp} : BinaryType (.logic op) .bool .bool .bool

/-- The operand type that a unary operator takes, and the type of its result. -/
inductive UnaryType : UnaryOp → Ty → Ty → Prop where
  /-- The negative of a number is a number of the same type. -/
  | neg {t : Ty} : Numeric t → UnaryType .neg t t
  /-- The opposite of a truth value. -/
  | not : UnaryType .not .bool .bool

/-! ## Expressions -/

section Expressions

variable (M : Note → Ty → Prop) (Γ : Names)

mutual

/-- `HasType M Γ e t`: among the names `Γ` the expression `e` has the type `t`. -/
inductive HasType : Expr → Ty → Prop where
  /-- A literal has its own type. -/
  | lit {n : Note} {v : Literal} : M n v.ty → HasType (.lit n v) v.ty
  /-- A variable or parameter has its declared type. -/
  | ident {n : Note} {x : String} {t : Ty} :
    Γ.lookup x = some (.place t) → M n t → HasType (.ident n x) t
  /-- A binary operator takes operands of certain types. -/
  | binary {n : Note} {op : BinaryOp} {l r : Expr} {t₁ t₂ t : Ty} :
    HasType l t₁ → HasType r t₂ → BinaryType op t₁ t₂ t → M n t → HasType (.binary n op l r) t
  /-- A unary operator takes an operand of a certain type. -/
  | unary {n : Note} {op : UnaryOp} {e : Expr} {t₁ t : Ty} :
    HasType e t₁ → UnaryType op t₁ t → M n t → HasType (.unary n op e) t
  /-- A call has the type of its result. -/
  | call {n : Note} {c : Call} {t : Ty} : CallType c t → M n t → HasType (.call n c) t

/-- `CallType M Γ c t`: among the names `Γ` the call `c` is one of something that has a function
type with the result type `t`. -/
inductive CallType : Call → Ty → Prop where
  /-- The arguments fit the parameters. -/
  | intro {f : String} {args : List Expr} {s : Span} {m : Meaning} {params : List Ty}
    {result : Ty} :
    Γ.lookup f = some m → m.ty = .fn params result → ArgsFit args params →
    CallType ⟨f, args, s⟩ result

/-- `ArgsFit M Γ args params`: there are as many arguments as parameters, and each argument fits the
parameter in its place. -/
inductive ArgsFit : List Expr → List Ty → Prop where
  /-- No argument for no parameter. -/
  | nil : ArgsFit [] []
  /-- One more argument for one more parameter. -/
  | cons {e : Expr} {es : List Expr} {s t : Ty} {ts : List Ty} :
    HasType e s → Fits s t → ArgsFit es ts → ArgsFit (e :: es) (t :: ts)

end

/-- The expression has a type that fits where `t` is declared. -/
def FitsIn (e : Expr) (t : Ty) : Prop := ∃ s, HasType M Γ e s ∧ Fits s t

end Expressions

/-! ## Statements -/

section Statements

variable (M : Note → Ty → Prop)

mutual

/-- `Ok M Γ s`: the statement `s` is well formed where `Γ` is in force. The function that it
declares, if it is a function declaration, is in force already. -/
inductive Ok : Env → Stmt → Prop where
  /-- The name of a variable is fresh. The initial value fits the declared type; it does not see the
  variable. -/
  | var {Γ : Env} {s : Span} {d : VarDecl} :
    (∀ e ∈ d.init, FitsIn M Γ.names e d.ty) → Γ.names.Fresh d.name → Ok Γ (.var s d)
  /-- The parameters of a function and what its body declares are in one frame. -/
  | func {Γ : Env} {s : Span} {f : FuncHeader} {b : Block} :
    (Γ.enter f.result).push.names.FreshAll (parameters f) →
    SeqOk ((Γ.enter f.result).push.declareAll (parameters f)) b.stmts → Ok Γ (.func s f b)
  /-- The target of an assignment is a variable or a parameter, and the value fits its type. -/
  | assign {Γ : Env} {s : Span} {x : String} {e : Expr} {t : Ty} :
    Γ.names.lookup x = some (.place t) → FitsIn M Γ.names e t → Ok Γ (.assign s x e)
  /-- The result of a call statement does not matter. -/
  | call {Γ : Env} {s : Span} {c : Call} {t : Ty} : CallType M Γ.names c t → Ok Γ (.call s c)
  /-- A call is scheduled after a delay that is a number. -/
  | after {Γ : Env} {s : Span} {e : Expr} {c : Call} {t t' : Ty} :
    HasType M Γ.names e t → Numeric t → CallType M Γ.names c t' → Ok Γ (.after s e c)
  /-- A block has a frame of its own. -/
  | block {Γ : Env} {s : Span} {b : Block} : SeqOk Γ.push b.stmts → Ok Γ (.block s b)
  /-- The conditions are truth values. -/
  | ifChain {Γ : Env} {s : Span} {arms : List Arm} {o : Option Block} :
    (∀ a ∈ arms, HasType M Γ.names a.cond .bool) → (∀ a ∈ arms, SeqOk Γ.push a.body.stmts) →
    (∀ b ∈ o, SeqOk Γ.push b.stmts) → Ok Γ (.ifChain s arms o)
  /-- The condition is a truth value, and the block is inside the loop. -/
  | whileLoop {Γ : Env} {s : Span} {e : Expr} {b : Block} :
    HasType M Γ.names e .bool → SeqOk Γ.inside.push b.stmts → Ok Γ (.whileLoop s e b)
  /-- One frame holds what initializer and step declare. Only the block is inside the loop. -/
  | forLoop {Γ : Env} {s : Span} {i : Option Stmt} {e : Option Expr} {u : Option Stmt}
    {b : Block} :
    SeqOk Γ.push i.toList →
    (∀ c ∈ e, HasType M (Γ.push.afterAll i.toList).names c .bool) →
    SeqOk (Γ.push.afterAll i.toList).inside.push b.stmts →
    SeqOk (Γ.push.afterAll i.toList) u.toList → Ok Γ (.forLoop s i e u b)
  /-- A jump is inside a loop. -/
  | jump {Γ : Env} {s : Span} {j : Jump} : Γ.inLoop = true → Ok Γ (.jump s j)
  /-- A function returns a value that fits its result type. -/
  | retValue {Γ : Env} {s : Span} {e : Expr} {t : Ty} :
    Γ.returns = some t → t ≠ .void → FitsIn M Γ.names e t → Ok Γ (.ret s (some e))
  /-- A procedure returns without a value. -/
  | retNone {Γ : Env} {s : Span} : Γ.returns = some .void → Ok Γ (.ret s none)

/-- `SeqOk M Γ ss`: the sequence `ss` is well formed where `Γ` is in force. Its functions are in
force in all of it. -/
inductive SeqOk : Env → List Stmt → Prop where
  /-- The names of the functions are fresh. -/
  | intro {Γ : Env} {ss : List Stmt} :
    Γ.names.FreshAll (functions ss) → AllOk (Γ.declareAll (functions ss)) ss → SeqOk Γ ss

/-- `AllOk M Γ ss`: each statement of `ss` is well formed where `Γ` and the variables declared
before it are in force. -/
inductive AllOk : Env → List Stmt → Prop where
  /-- Nothing is left. -/
  | nil {Γ : Env} : AllOk Γ []
  /-- A statement and those after it. -/
  | cons {Γ : Env} {s : Stmt} {ss : List Stmt} :
    Ok Γ s → AllOk (Γ.after s) ss → AllOk Γ (s :: ss)

end

end Statements

/-! ## Programs -/

/-- Nothing is asked of notes. -/
def anyNote (_ : Note) (_ : Ty) : Prop := True

/-- The note records the type. -/
def typedNote (n : Note) (t : Ty) : Prop := n.ty = some t

end Rules

open Rules

/-- The program obeys the rules of the language. -/
def Program.WellFormed (p : Program) : Prop := SeqOk anyNote .initial p.stmts

/-- The program obeys the rules of the language, and every expression node in it records its
type. -/
def Program.Annotated (p : Program) : Prop := SeqOk typedNote .initial p.stmts

namespace Rules

/-- The rules for binary operators by their kinds: arithmetic and comparisons by size take numbers,
tests for equality take numbers or values of one type, and logic operators take truth values. All
but arithmetic result in a truth value. -/
theorem BinaryType.iff_kind {op : BinaryOp} {t₁ t₂ t : Ty} : BinaryType op t₁ t₂ t ↔
    (op.isArithmetic = true ∧ Numeric t₁ ∧ Numeric t₂ ∧ t = t₁.arithmeticResult t₂) ∨
      (op.isOrder = true ∧ Numeric t₁ ∧ Numeric t₂ ∧ t = .bool) ∨
      (op.isEquality = true ∧ (t₁ = t₂ ∨ Numeric t₁ ∧ Numeric t₂) ∧ t = .bool) ∨
      (op.isLogic = true ∧ t₁ = .bool ∧ t₂ = .bool ∧ t = .bool) := by
  constructor
  · intro h
    cases h with
    | integers => exact .inl ⟨rfl, .int, .int, rfl⟩
    | realLeft ht => exact .inl ⟨rfl, .real, ht, by cases ht <;> rfl⟩
    | realRight ht => exact .inl ⟨rfl, ht, .real, by cases ht <;> rfl⟩
    | order h₁ h₂ => exact .inr (.inl ⟨rfl, h₁, h₂, rfl⟩)
    | equalNumbers h₁ h₂ => exact .inr (.inr (.inl ⟨rfl, .inr ⟨h₁, h₂⟩, rfl⟩))
    | equalSame => exact .inr (.inr (.inl ⟨rfl, .inl rfl, rfl⟩))
    | logic => exact .inr (.inr (.inr ⟨rfl, rfl, rfl, rfl⟩))
  · rintro (⟨hop, h₁, h₂, rfl⟩ | ⟨hop, h₁, h₂, rfl⟩ | ⟨hop, hty, rfl⟩ | ⟨hop, rfl, rfl, rfl⟩)
    · cases op <;> cases hop
      -- two integers make an integer, and a real on either side makes a real
      cases h₁ <;> cases h₂
      exacts [.integers, .realRight .int, .realLeft .int, .realLeft .real]
    · cases op <;> cases hop
      exact .order h₁ h₂
    · cases op <;> cases hop
      rcases hty with rfl | ⟨h₁, h₂⟩
      exacts [.equalSame, .equalNumbers h₁ h₂]
    · cases op <;> cases hop
      exact .logic

/-- The rule for an arithmetic operator asks for numbers. -/
theorem BinaryType.arith_inv {op : ArithOp} {t₁ t₂ t : Ty} (h : BinaryType (.arith op) t₁ t₂ t) :
    Numeric t₁ ∧ Numeric t₂ ∧ t = t₁.arithmeticResult t₂ := by
  rcases BinaryType.iff_kind.1 h with ⟨-, h⟩ | ⟨hop, -⟩ | ⟨hop, -⟩ | ⟨hop, -⟩
  · exact h
  all_goals cases hop

/-! ## Types are unique -/

/-- The operand types of a binary operator determine the type of its result. -/
theorem BinaryType.unique {op : BinaryOp} {t₁ t₂ t t' : Ty} (h : BinaryType op t₁ t₂ t)
    (h' : BinaryType op t₁ t₂ t') : t = t' := by
  cases h <;> cases h' <;> rfl

/-- The operand type of a unary operator determines the type of its result. -/
theorem UnaryType.unique {op : UnaryOp} {t₁ t t' : Ty} (h : UnaryType op t₁ t)
    (h' : UnaryType op t₁ t') : t = t' := by
  cases h <;> cases h' <;> rfl

variable {M M' : Note → Ty → Prop} {Γ : Names}

/-- A call has at most one type. -/
theorem CallType.unique {c : Call} {t t' : Ty} (h : CallType M Γ c t) (h' : CallType M' Γ c t') :
    t = t' := by
  obtain ⟨hm, hty, -⟩ := h
  obtain ⟨hm', hty', -⟩ := h'
  rw [hm, Option.some.injEq] at hm'
  rw [← hm', hty, Ty.fn.injEq] at hty'
  exact hty'.2

/-- An expression has at most one type. -/
theorem HasType.unique : ∀ {e : Expr} {t t' : Ty}, HasType M Γ e t → HasType M' Γ e t' → t = t'
  | .lit _ _, _, _, .lit _, .lit _ => rfl
  | .ident _ _, _, _, .ident hx _, .ident hx' _ => by
    rw [hx] at hx'
    exact Meaning.place.inj (Option.some.inj hx')
  | .binary _ _ _ _, _, _, .binary hl hr hop _, .binary hl' hr' hop' _ => by
    obtain rfl := HasType.unique hl hl'
    obtain rfl := HasType.unique hr hr'
    exact hop.unique hop'
  | .unary _ _ _, _, _, .unary he hop _, .unary he' hop' _ => by
    obtain rfl := HasType.unique he he'
    exact hop.unique hop'
  | .call _ _, _, _, .call hc _, .call hc' _ => hc.unique hc'

/-- The note of an expression meets the condition on notes. -/
theorem HasType.note {e : Expr} {t : Ty} (h : HasType M Γ e t) : M e.note t := by
  cases h <;> assumption

/-- An annotated expression records its type. -/
theorem HasType.ty?_eq {e : Expr} {t : Ty} (h : HasType typedNote Γ e t) : e.ty? = some t := h.note

end Procedural.Rules
