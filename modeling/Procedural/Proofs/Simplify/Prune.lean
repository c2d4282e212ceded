import Procedural.Proofs.Simplify.Survivors

/-! # Cutting dead tails as a pass of its own

`prune` cuts the dead tail of every sequence in a tree and does nothing else. Simplifying with the
cut is the same as simplifying without it and pruning the result (`simplify_true_eq_prune`): what is
cut decides nothing about the rest, because a sequence keeps the jump or the return that makes its
tail dead, so that no block becomes empty by the cut. -/

namespace Procedural

/-! ## Pruning -/

/-- The sequence up to its first jump or return, unless a function is declared after that. -/
def dropDeadTail (ss : List Stmt) : List Stmt :=
  match ss.dropWhile fun s => !s.isTerminator with
  | [] => ss
  | t :: dead =>
    if dead.any Stmt.isFunction then ss else (ss.takeWhile fun s => !s.isTerminator) ++ [t]

mutual

/-- Drops the dead tails inside a statement. -/
def Stmt.prune : Stmt → Stmt
  | .var s d => .var s d
  | .func s f b => .func s f b.prune
  | .assign s x e => .assign s x e
  | .call s c => .call s c
  | .after s e c => .after s e c
  | .block s b => .block s b.prune
  | .ifChain s arms o => .ifChain s (pruneArms arms) (pruneBlockOpt o)
  | .whileLoop s e b => .whileLoop s e b.prune
  | .forLoop s i e u b => .forLoop s (pruneStmtOpt i) e (pruneStmtOpt u) b.prune
  | .jump s j => .jump s j
  | .ret s e => .ret s e

/-- Drops the dead tails inside the initializer or step of a loop, if there is one. -/
def pruneStmtOpt : Option Stmt → Option Stmt
  | none => none
  | some s => some s.prune

/-- Drops the dead tails inside each statement of a list. -/
def pruneAll : List Stmt → List Stmt
  | [] => []
  | s :: ss => s.prune :: pruneAll ss

/-- Drops the dead tails of a block and inside it. -/
def Block.prune : Block → Block
  | ⟨ss, s⟩ => ⟨dropDeadTail (pruneAll ss), s⟩

/-- Drops the dead tails of a block and inside it, if there is one. -/
def pruneBlockOpt : Option Block → Option Block
  | none => none
  | some b => some b.prune

/-- Drops the dead tails of the blocks of conditional arms and inside them. -/
def pruneArms : List Arm → List Arm
  | [] => []
  | ⟨e, b⟩ :: arms => ⟨e, b.prune⟩ :: pruneArms arms

end

/-- Drops the dead tails of a program and inside it. -/
def Program.prune (p : Program) : Program := ⟨dropDeadTail (pruneAll p.stmts)⟩

/-- The arm with its block pruned. -/
def Arm.prune (a : Arm) : Arm := ⟨a.cond, a.body.prune⟩

/-- Pruning an optional statement prunes the statement. -/
theorem pruneStmtOpt_eq_map (o : Option Stmt) : pruneStmtOpt o = o.map Stmt.prune := by
  cases o <;> rfl

/-- The statements of a list are pruned one by one. -/
theorem pruneAll_eq_map (ss : List Stmt) : pruneAll ss = ss.map Stmt.prune := by
  induction ss with
  | nil => rfl
  | cons s ss ih => rw [pruneAll, ih, List.map_cons]

/-- Pruning an optional block prunes the block. -/
theorem pruneBlockOpt_eq_map (o : Option Block) : pruneBlockOpt o = o.map Block.prune := by
  cases o <;> rfl

/-- The arms of a conditional are pruned one by one. -/
theorem pruneArms_eq_map (arms : List Arm) : pruneArms arms = arms.map Arm.prune := by
  induction arms with
  | nil => rfl
  | cons a arms ih =>
    obtain ⟨e, b⟩ := a
    rw [pruneArms, ih, List.map_cons, Arm.prune]

/-! ## What pruning keeps -/

/-- A dead tail starts after a statement that stays, so only the empty sequence is cut to it. -/
theorem isEmpty_cutTail (ss : List Stmt) : (cutTail ss).isEmpty = ss.isEmpty := by
  cases ss with
  | nil => rfl
  | cons s ss =>
    rw [cutTail_cons]
    split
    · split <;> rfl
    · rfl

/-- Dropping the dead tail is what simplification does to a sequence with the cut. -/
theorem dropDeadTail_eq_cutTail (ss : List Stmt) : dropDeadTail ss = cutTail ss := by
  induction ss with
  | nil => rfl
  | cons s ss ih =>
    rw [cutTail_cons, ← ih]
    cases hs : s.isTerminator with
    | true => simp [dropDeadTail, hs]
    | false =>
      simp only [dropDeadTail, List.dropWhile_cons, List.takeWhile_cons, hs, Bool.not_false,
        if_true, Bool.false_eq_true, if_false]
      split
      · rfl
      · split <;> rfl

/-- A block is pruned by cutting the tail off its pruned statements. -/
theorem Block.prune_eq (b : Block) : b.prune = ⟨cutTail (b.stmts.map Stmt.prune), b.span⟩ := by
  obtain ⟨ss, s⟩ := b
  rw [Block.prune, dropDeadTail_eq_cutTail, pruneAll_eq_map]

/-- A pruned statement is an empty block exactly if the statement is. -/
theorem isEmptyBlock_prune (s : Stmt) : s.prune.isEmptyBlock = s.isEmptyBlock := by
  cases s with
  | block s b =>
    show b.prune.stmts.isEmpty = b.stmts.isEmpty
    rw [b.prune_eq, isEmpty_cutTail, List.isEmpty_map]
  | _ => rfl

/-! ## Pruning what is simplified -/

/-- Empty blocks can be dropped before or after their sequence is pruned. -/
theorem tidy_map_prune (ss : List Stmt) :
    tidy true (ss.map Stmt.prune) = dropDeadTail ((tidy false ss).map Stmt.prune) := by
  rw [dropDeadTail_eq_cutTail]
  show cutTail (dropEmpty (ss.map Stmt.prune)) = cutTail ((dropEmpty ss).map Stmt.prune)
  rw [dropEmpty_map isEmptyBlock_prune]

/-- Arms can be pruned before the choice among them or after it. -/
theorem choice_map_prune (s : Span) (arms : List Arm) (o : Option Block) :
    choice s (arms.map Arm.prune) (o.map Block.prune) = (choice s arms o).prune := by
  have hchoosable := choosable_map Arm.prune Block.prune (fun _ => rfl) arms o
  rw [choice, hchoosable, choice]
  -- which statement it becomes depends on the shape of what can be chosen
  generalize choosable arms o = left
  obtain ⟨as, d⟩ := left
  cases as with
  | nil => cases d <;> rfl
  | cons a as =>
    show (if a.cond.bool? = some true then _ else _) =
      (if a.cond.bool? = some true then _ else _ : Stmt).prune
    split
    · rfl
    · rw [Stmt.prune, pruneArms_eq_map, pruneBlockOpt_eq_map]
      rfl

/-- The body of a loop can be pruned before the loop is removed or kept, or after that. -/
theorem roundsWhile_prune (s : Span) (e : Expr) (b : Block) :
    roundsWhile s e b.prune = (roundsWhile s e b).prune := by
  rw [roundsWhile, roundsWhile]
  split <;> rfl

/-- The parts of a loop can be pruned before the loop is removed or kept, or after that. -/
theorem roundsFor_prune (s : Span) (i : Option Stmt) (e : Option Expr) (u : Option Stmt)
    (b : Block) :
    roundsFor s (i.map Stmt.prune) e (u.map Stmt.prune) b.prune =
      (roundsFor s i e u b).prune := by
  rw [roundsFor, roundsFor]
  split
  · -- a block of one statement has no tail
    rw [Stmt.prune, Block.prune_eq]
    cases i with
    | none => rfl
    | some i => cases hi : i.prune.isTerminator <;> simp [cutTail, hi]
  · rw [Stmt.prune, pruneStmtOpt_eq_map, pruneStmtOpt_eq_map]

mutual

/-- A statement simplified with the cut is the one simplified without it, pruned. -/
theorem simplify_true_eq_pruneStmt : ∀ s : Stmt, s.simplify true = (s.simplify false).prune
  | .var _ _ | .assign _ _ _ | .call _ _ | .after _ _ _ | .jump _ _ | .ret _ _ => rfl
  | .func s f b => congrArg (Stmt.func s f) (simplify_true_eq_pruneBlock b)
  | .block s b => congrArg (Stmt.block s) (simplify_true_eq_pruneBlock b)
  | .ifChain s arms o => by
    rw [Stmt.simplify, simplify_true_eq_pruneArms arms, simplify_true_eq_pruneBlockOpt o,
      choice_map_prune, Stmt.simplify]
  | .whileLoop s e b => by
    rw [Stmt.simplify, simplify_true_eq_pruneBlock b, roundsWhile_prune, Stmt.simplify]
  | .forLoop s i e u b => by
    rw [Stmt.simplify, simplify_true_eq_pruneStmtOpt i, simplify_true_eq_pruneStmtOpt u,
      simplify_true_eq_pruneBlock b, roundsFor_prune, Stmt.simplify]

/-- The cut in an initializer or step is pruning after simplification. -/
theorem simplify_true_eq_pruneStmtOpt : ∀ o : Option Stmt,
    simplifyStmtOpt true o = (simplifyStmtOpt false o).map Stmt.prune
  | none => rfl
  | some s => congrArg some (simplify_true_eq_pruneStmt s)

/-- The cut in the statements of a list is pruning after simplification. -/
theorem simplify_true_eq_pruneAll : ∀ ss : List Stmt,
    simplifyAll true ss = (simplifyAll false ss).map Stmt.prune
  | [] => rfl
  | s :: ss => by
    rw [simplifyAll, simplify_true_eq_pruneStmt s, simplify_true_eq_pruneAll ss, simplifyAll,
      List.map_cons]

/-- The cut in a block is pruning after simplification. -/
theorem simplify_true_eq_pruneBlock : ∀ b : Block, b.simplify true = (b.simplify false).prune
  | ⟨ss, s⟩ => by
    rw [Block.simplify, simplify_true_eq_pruneAll ss, tidy_map_prune, Block.simplify, Block.prune,
      pruneAll_eq_map]

/-- The cut in an optional block is pruning after simplification. -/
theorem simplify_true_eq_pruneBlockOpt : ∀ o : Option Block,
    simplifyBlockOpt true o = (simplifyBlockOpt false o).map Block.prune
  | none => rfl
  | some b => congrArg some (simplify_true_eq_pruneBlock b)

/-- The cut in conditional arms is pruning after simplification. -/
theorem simplify_true_eq_pruneArms : ∀ arms : List Arm,
    simplifyArms true arms = (simplifyArms false arms).map Arm.prune
  | [] => rfl
  | ⟨e, b⟩ :: arms => by
    rw [simplifyArms, simplify_true_eq_pruneBlock b, simplify_true_eq_pruneArms arms, simplifyArms,
      List.map_cons, Arm.prune]

end

/-- Simplifying with the cut is simplifying without it and then pruning, for programs, blocks and
statements: to cut dead code has no influence on any other simplification. -/
theorem simplify_true_eq_prune :
    (∀ p : Program, p.simplify true = (p.simplify false).prune) ∧
    (∀ b : Block, b.simplify true = (b.simplify false).prune) ∧
    ∀ s : Stmt, s.simplify true = (s.simplify false).prune := by
  refine ⟨fun p => ?_, simplify_true_eq_pruneBlock, simplify_true_eq_pruneStmt⟩
  rw [Program.simplify, simplify_true_eq_pruneAll, tidy_map_prune, Program.simplify, Program.prune,
    pruneAll_eq_map]

end Procedural
