import Procedural.Syntax.Stmt

/-! # Statements inside statements

A statement holds other statements in its blocks and, if it is a loop with an initializer and a
step, in those two **clauses**. `Stmt.induct` is induction over that order, `Stmt.Within` its
closure, and `Program.Contains` says that a statement stands somewhere in a program. -/

namespace Procedural

namespace Stmt

/-- The blocks of a statement, first to last. -/
def blocks : Stmt → List Block
  | func _ _ b | block _ b | whileLoop _ _ b | forLoop _ _ _ _ b => [b]
  | ifChain _ arms o => arms.map (·.body) ++ o.toList
  | _ => []

/-- The initializer and the step of a loop that has them. -/
def clauses : Stmt → List Stmt
  | forLoop _ i _ u _ => i.toList ++ u.toList
  | _ => []

/-- The statements directly inside a statement. -/
def children (s : Stmt) : List Stmt := s.clauses ++ s.blocks.flatMap (·.stmts)

/-- The clauses of a loop stand directly inside it. -/
theorem mem_children_of_clause {s x : Stmt} (hx : x ∈ s.clauses) : x ∈ s.children :=
  List.mem_append_left _ hx

/-- The statements of a block stand directly inside the statement with the block. -/
theorem mem_children_of_block {s x : Stmt} {b : Block} (hb : b ∈ s.blocks) (hx : x ∈ b.stmts) :
    x ∈ s.children :=
  List.mem_append_right _ (List.mem_flatMap.2 ⟨b, hb, hx⟩)

section Parts

variable {sp : Span} {i u : Option Stmt} {e : Option Expr} {b : Block} {arms : List Arm}
  {o : Option Block} {x : Stmt} {a : Arm}

/-- The initializer of a loop stands in the loop. -/
theorem mem_children_of_init (hx : x ∈ i) : x ∈ (forLoop sp i e u b).children :=
  mem_children_of_clause (List.mem_append_left _ (Option.mem_toList.2 hx))

/-- The step of a loop stands in the loop. -/
theorem mem_children_of_step (hx : x ∈ u) : x ∈ (forLoop sp i e u b).children :=
  mem_children_of_clause (List.mem_append_right _ (Option.mem_toList.2 hx))

/-- The block of an arm is a block of the conditional statement. -/
theorem mem_blocks_of_arm (ha : a ∈ arms) : a.body ∈ (ifChain sp arms o).blocks :=
  List.mem_append_left _ (List.mem_map.2 ⟨a, ha, rfl⟩)

/-- The block that is run when no condition holds is a block of the conditional statement. -/
theorem mem_blocks_of_else (hb : b ∈ o) : b ∈ (ifChain sp arms o).blocks :=
  List.mem_append_right _ (Option.mem_toList.2 hb)

end Parts

end Stmt

/-! ## Induction -/

/-- `P` holds of a statement as soon as it holds of the statements directly inside it. -/
def Stmt.Inherits (P : Stmt → Prop) : Prop := ∀ s, (∀ x ∈ s.children, P x) → P s

mutual

/-- Induction on statements, by recursion over the tree. -/
private theorem inductStmt {P : Stmt → Prop} (step : Stmt.Inherits P) : ∀ s, P s
  | .var _ _ | .assign _ _ _ | .call _ _ | .after _ _ _ | .jump _ _ | .ret _ _ =>
    step _ (by simp [Stmt.children, Stmt.clauses, Stmt.blocks])
  | .func _ _ b | .block _ b | .whileLoop _ _ b =>
    step _ (by simpa [Stmt.children, Stmt.clauses, Stmt.blocks] using inductBlock step b)
  | .ifChain s arms o => step _ (by
      have harms := inductArms step arms
      have ho := inductBlockOpt step o
      intro x hx
      simp only [Stmt.children, Stmt.clauses, Stmt.blocks, List.nil_append, List.mem_flatMap,
        List.mem_append, List.mem_map, Option.mem_toList] at hx
      obtain ⟨b, ⟨a, ha, rfl⟩ | hb, hx⟩ := hx
      · exact harms a ha x hx
      · exact ho b hb x hx)
  | .forLoop s i e u b => step _ (by
      -- the clauses come before the statements of the body
      have hi := inductStmtOpt step i
      have hu := inductStmtOpt step u
      have hb := inductBlock step b
      intro x hx
      simp only [Stmt.children, Stmt.clauses, Stmt.blocks, List.flatMap_cons, List.flatMap_nil,
        List.append_nil, List.mem_append, Option.mem_toList] at hx
      obtain (hx | hx) | hx := hx
      · exact hi x hx
      · exact hu x hx
      · exact hb x hx)

/-- The case of a clause that may be missing. -/
private theorem inductStmtOpt {P : Stmt → Prop} (step : Stmt.Inherits P) :
    ∀ o : Option Stmt, ∀ x ∈ o, P x
  | none => fun _ hx => nomatch hx
  | some s => fun _ hx => Option.some.inj hx ▸ inductStmt step s

/-- The case of the statements of a list. -/
private theorem inductAll {P : Stmt → Prop} (step : Stmt.Inherits P) :
    ∀ ss : List Stmt, ∀ x ∈ ss, P x
  | [] => fun _ hx => nomatch hx
  | s :: ss => List.forall_mem_cons.2 ⟨inductStmt step s, inductAll step ss⟩

/-- The case of the statements of a block. -/
private theorem inductBlock {P : Stmt → Prop} (step : Stmt.Inherits P) :
    ∀ b : Block, ∀ x ∈ b.stmts, P x
  | ⟨ss, _⟩ => inductAll step ss

/-- The case of a block that may be missing. -/
private theorem inductBlockOpt {P : Stmt → Prop} (step : Stmt.Inherits P) :
    ∀ o : Option Block, ∀ b ∈ o, ∀ x ∈ b.stmts, P x
  | none => fun _ hb => nomatch hb
  | some b => fun _ hb => Option.some.inj hb ▸ inductBlock step b

/-- The case of the blocks of conditional arms. -/
private theorem inductArms {P : Stmt → Prop} (step : Stmt.Inherits P) :
    ∀ arms : List Arm, ∀ a ∈ arms, ∀ x ∈ a.body.stmts, P x
  | [] => fun _ ha => nomatch ha
  | ⟨_, b⟩ :: arms => List.forall_mem_cons.2 ⟨inductBlock step b, inductArms step arms⟩

end

/-- Induction on statements, from the inside to the outside. -/
theorem Stmt.induct {P : Stmt → Prop} (step : ∀ s : Stmt, (∀ x ∈ s.children, P x) → P s)
    (s : Stmt) : P s :=
  inductStmt step s

/-! ## Standing inside -/

/-- `Within x s`: the statement `x` is `s` or stands inside it, at any depth. -/
inductive Stmt.Within (x : Stmt) : Stmt → Prop where
  /-- A statement stands within itself. -/
  | self : Within x x
  /-- What stands within a statement directly inside `s` stands within `s`. -/
  | inside {s c : Stmt} : c ∈ s.children → Within x c → Within x s

/-- The statement `x` stands in the program, at any depth. -/
def Program.Contains (p : Program) (x : Stmt) : Prop := ∃ s ∈ p.stmts, x.Within s

end Procedural
