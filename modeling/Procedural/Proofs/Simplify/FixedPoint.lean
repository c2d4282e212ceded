import Procedural.Proofs.Folding.Stable
import Procedural.Proofs.Simplify.Survivors

/-! # Simplifying twice

Simplification is meant to reach its result in one pass. It does, except in one place: a loop whose
test fails at once becomes a block of its initializer, and if the initializer has itself become an
empty block, that block is left for a second pass to take away. `simplify_simplify_iff` says that
this is the only place. -/

namespace Procedural

/-- A second simplification leaves the simplified statement as it is. -/
def Stmt.Settles (cut : Bool) (s : Stmt) : Prop :=
  (s.simplify cut).simplify cut = s.simplify cut

/-- A second simplification leaves the simplified block as it is. -/
def Block.Settles (cut : Bool) (b : Block) : Prop :=
  (b.simplify cut).simplify cut = b.simplify cut

/-- The statement is a loop whose test fails at once and whose initializer becomes an empty
block. -/
def Stmt.EmptiesInit (cut : Bool) : Stmt → Prop
  | .forLoop _ (some i) e _ _ =>
    (e.map Expr.fold).bind Expr.bool? = some false ∧ (i.simplify cut).isEmptyBlock = true
  | _ => False

/-- Simplifying the statement leaves an empty block behind: it is a loop that does so, or it keeps a
statement that does so. -/
inductive Stmt.LeavesEmpty (cut : Bool) : Stmt → Prop where
  /-- The loop leaves its initializer behind. -/
  | init {s : Stmt} : s.EmptiesInit cut → LeavesEmpty cut s
  /-- A statement that is kept inside leaves one behind. -/
  | inside {s x : Stmt} : x ∈ s.survivors cut → LeavesEmpty cut x → LeavesEmpty cut s

/-! ## Sequences -/

variable {cut : Bool}

/-- An empty block has nothing to simplify. -/
theorem simplify_of_isEmptyBlock {s : Stmt} (h : s.isEmptyBlock = true) : s.simplify cut = s := by
  cases s with
  | block s b =>
    obtain ⟨ss, t⟩ := b
    obtain rfl : ss = [] := by simpa [Stmt.isEmptyBlock, Block.isEmpty] using h
    cases cut <;> rfl
  | _ => simp [Stmt.isEmptyBlock] at h

/-- In a sequence without empty blocks a change of the statements is undone by dropping empty blocks
only if it changes none of them. -/
theorem dropEmpty_map_eq_self_iff {f : Stmt → Stmt} {ss : List Stmt} (hss : dropEmpty ss = ss) :
    dropEmpty (ss.map f) = ss ↔ ∀ x ∈ ss, f x = x := by
  constructor
  · intro h
    -- the lengths agree, so nothing was dropped
    have hlen : (dropEmpty (ss.map f)).length = (ss.map f).length := by rw [h, List.length_map]
    have hall : dropEmpty (ss.map f) = ss.map f :=
      List.filter_sublist.eq_of_length hlen
    rw [hall] at h
    have hid : ss.map f = ss.map id := by rw [h, List.map_id]
    exact List.map_inj_left.1 hid
  · intro h
    rw [List.map_congr_left h, List.map_id', hss]

/-- A sequence is settled when the statements that it keeps are. -/
theorem tidy_tidy_iff (ss : List Stmt) :
    tidy cut ((tidy cut (ss.map (Stmt.simplify cut))).map (Stmt.simplify cut)) =
        tidy cut (ss.map (Stmt.simplify cut)) ↔
      ∀ x ∈ live cut ss, x.Settles cut := by
  -- a tidy sequence has no dead tail and no empty blocks
  have hlive : live cut (tidy cut (ss.map (Stmt.simplify cut))) =
      tidy cut (ss.map (Stmt.simplify cut)) := by
    rw [tidy_eq, live_dropEmpty, live_live]
  have hdrop : dropEmpty (tidy cut (ss.map (Stmt.simplify cut))) =
      tidy cut (ss.map (Stmt.simplify cut)) := by
    rw [tidy_eq, dropEmpty, dropEmpty, List.filter_filter]
    simp only [Bool.and_self]
  rw [tidy_map_simplify cut (tidy cut (ss.map (Stmt.simplify cut))), hlive,
    dropEmpty_map_eq_self_iff hdrop, tidy_map_simplify]
  constructor
  · intro h x hx
    cases he : (x.simplify cut).isEmptyBlock with
    | true => exact simplify_of_isEmptyBlock he
    | false => exact h _ (List.mem_filter.2 ⟨List.mem_map_of_mem hx, by simp [he]⟩)
  · intro h y hy
    obtain ⟨x, hx, rfl⟩ := List.mem_map.1 (List.mem_filter.1 hy).1
    exact h x hx

/-- A block is settled when the statements that it keeps are. -/
theorem Block.settles_iff (b : Block) : b.Settles cut ↔ ∀ x ∈ live cut b.stmts, x.Settles cut := by
  rw [← tidy_tidy_iff]
  obtain ⟨ss, s⟩ := b
  simp only [Block.Settles, Block.simplify, simplifyAll_eq_map, Block.mk.injEq, and_true]

/-- An optional statement settles exactly if the statement does. -/
theorem map_settles_iff (o : Option Stmt) :
    (o.map (Stmt.simplify cut)).map (Stmt.simplify cut) = o.map (Stmt.simplify cut) ↔
      ∀ x ∈ o, x.Settles cut := by
  cases o <;> simp [Stmt.Settles]

/-! ## Conditional statements -/

/-- The arms that can be chosen have folded conditions. -/
theorem foldCond_of_mem_choosable {arms : List Arm} {o : Option Block} {a : Arm}
    (ha : a ∈ (choosable (arms.map Arm.foldCond) o).1) : a.foldCond = a := by
  induction arms with
  | nil => simp [choosable] at ha
  | cons c arms ih =>
    have hc : c.foldCond.foldCond = c.foldCond := by simp [Arm.foldCond]
    rw [List.map_cons, choosable] at ha
    split at ha
    · exact ih ha
    · obtain rfl := List.mem_singleton.1 ha
      exact hc
    · rcases List.mem_cons.1 ha with rfl | ha
      · exact hc
      · exact ih ha

/-- The blocks of arms settle exactly if each of them does. -/
theorem map_simplifyBody_settles_iff (as : List Arm) :
    (as.map (Arm.simplifyBody cut)).map (Arm.simplifyBody cut) = as.map (Arm.simplifyBody cut) ↔
      ∀ a ∈ as, a.body.Settles cut := by
  rw [List.map_map, List.map_inj_left]
  simp [Arm.simplifyBody, Block.Settles]

/-- An optional block settles exactly if the block does. -/
theorem map_block_settles_iff (d : Option Block) :
    (d.map (Block.simplify cut)).map (Block.simplify cut) = d.map (Block.simplify cut) ↔
      ∀ b ∈ d, b.Settles cut := by
  cases d <;> simp [Block.Settles]

/-- What is left to choose from is not sorted out again: its blocks are simplified. -/
theorem simplify_ifChain_of_fixed {s : Span} {arms : List Arm} {o : Option Block}
    (hfold : ∀ a ∈ arms, a.foldCond = a) (hchoose : choosable arms o = (arms, o)) :
    (Stmt.ifChain s arms o).simplify cut =
      chosen s (arms.map (Arm.simplifyBody cut)) (o.map (Block.simplify cut)) := by
  have hmap : arms.map Arm.foldCond = arms := by
    rw [List.map_congr_left hfold, List.map_id']
  rw [simplify_ifChain, hmap, hchoose]

/-- A conditional statement is settled when the blocks that can be run are. -/
theorem settles_ifChain_iff (s : Span) (arms : List Arm) (o : Option Block) :
    (Stmt.ifChain s arms o).Settles cut ↔ ∀ b ∈ choosableBlocks arms o, b.Settles cut := by
  rw [Stmt.Settles, simplify_ifChain, choosableBlocks]
  -- the choice leaves folded conditions, none of them false, and a true one only alone at the front
  have hfold : ∀ a ∈ (choosable (arms.map Arm.foldCond) o).1, a.foldCond = a :=
    fun a ha => foldCond_of_mem_choosable ha
  have hagain := choosable_choosable (arms.map Arm.foldCond) o
  have hhead : ∀ a as d, choosable (arms.map Arm.foldCond) o = (a :: as, d) →
      a.cond.bool? = some true → as = [] ∧ d = none :=
    fun _ _ _ => choosable_eq_of_head_true
  rcases hc : choosable (arms.map Arm.foldCond) o with ⟨as, d⟩
  simp only [hc] at hfold hagain hhead
  cases as with
  | nil =>
    cases d with
    | none => cases cut <;> simp [chosen, Stmt.simplify, Block.empty, Block.simplify, simplifyAll,
        tidy, cutTail]
    | some b => simp [chosen, Stmt.simplify, Block.Settles]
  | cons a as =>
    by_cases ha : a.cond.bool? = some true
    · -- the block of the arm is all that is left
      obtain ⟨rfl, rfl⟩ := hhead a as d rfl ha
      simp [chosen, Arm.simplifyBody, ha, Stmt.simplify, Block.Settles]
    · -- the arms stay, because simplifying their blocks does not change their conditions
      have ha' : (a.simplifyBody cut).cond.bool? ≠ some true := ha
      have ha'' : ((a.simplifyBody cut).simplifyBody cut).cond.bool? ≠ some true := ha
      have hfixed : ∀ x ∈ (a :: as).map (Arm.simplifyBody cut), x.foldCond = x := by
        intro x hx
        obtain ⟨y, hy, rfl⟩ := List.mem_map.1 hx
        exact congrArg (Arm.simplifyBody cut) (hfold y hy)
      have hchoose : choosable ((a :: as).map (Arm.simplifyBody cut))
          (d.map (Block.simplify cut)) =
          ((a :: as).map (Arm.simplifyBody cut), d.map (Block.simplify cut)) := by
        rw [choosable_map_simplifyBody, hagain]
      rw [List.map_cons] at hfixed hchoose ⊢
      rw [chosen_cons ha', simplify_ifChain_of_fixed hfixed hchoose, List.map_cons,
        chosen_cons ha'', ← List.map_cons, ← List.map_cons, Stmt.ifChain.injEq,
        map_simplifyBody_settles_iff, map_block_settles_iff]
      simp only [true_and, List.mem_append, List.mem_map, Option.mem_toList]
      constructor
      · rintro ⟨has, hd⟩ b (⟨x, hx, rfl⟩ | hb)
        · exact has x hx
        · exact hd b hb
      · intro h
        exact ⟨fun x hx => h _ (.inl ⟨x, hx, rfl⟩), fun b hb => h b (.inr hb)⟩

/-! ## Loops -/

/-- A loop settles exactly if it is removed or its body settles. -/
theorem settles_whileLoop_iff (s : Span) (e : Expr) (b : Block) :
    (Stmt.whileLoop s e b).Settles cut ↔ e.fold.bool? = some false ∨ b.Settles cut := by
  rw [Stmt.Settles, Stmt.simplify, roundsWhile]
  by_cases he : e.fold.bool? = some false
  · rw [if_pos he]
    have h : (Stmt.block s (.empty s)).simplify cut = .block s (.empty s) :=
      simplify_of_isEmptyBlock rfl
    simp [he, h]
  · rw [if_neg he, Stmt.simplify, roundsWhile, Expr.fold_fold, if_neg he]
    simp [he, Block.Settles]

/-- Simplifying the block of one statement again leaves it alone when the statement is settled and
is not an empty block. -/
theorem tidy_singleton_iff (x : Stmt) :
    tidy cut [(x.simplify cut).simplify cut] = [x.simplify cut] ↔
      (x.simplify cut).isEmptyBlock = false ∧ x.Settles cut := by
  -- one statement has no tail
  have hlive : ∀ y : Stmt, live cut [y] = [y] := by
    intro y
    cases cut
    · rfl
    · cases h : y.isTerminator <;> simp [live, cutTail]
  rw [tidy_eq, hlive]
  cases he : (x.simplify cut).isEmptyBlock with
  | true =>
    -- the empty block is settled itself, but its sequence drops it
    have h : (x.simplify cut).simplify cut = x.simplify cut := simplify_of_isEmptyBlock he
    simp [dropEmpty, h, he]
  | false =>
    constructor
    · intro h
      have hmem : x.simplify cut ∈ dropEmpty [(x.simplify cut).simplify cut] := by simp [h]
      have heq := List.mem_singleton.1 (List.mem_filter.1 hmem).1
      exact ⟨rfl, heq.symm⟩
    · rintro ⟨-, h⟩
      rw [Stmt.Settles] at h
      simp [dropEmpty, h, he]

/-- A loop with clauses settles exactly if its parts do; if its test fails at once, then only the
initializer is left, which must not be an empty block. -/
theorem settles_forLoop_iff (s : Span) (i : Option Stmt) (e : Option Expr) (u : Option Stmt)
    (b : Block) :
    (Stmt.forLoop s i e u b).Settles cut ↔
      if (e.map Expr.fold).bind Expr.bool? = some false then
        ∀ x ∈ i, (x.simplify cut).isEmptyBlock = false ∧ x.Settles cut
      else (∀ x ∈ i, x.Settles cut) ∧ (∀ x ∈ u, x.Settles cut) ∧ b.Settles cut := by
  rw [Stmt.Settles, Stmt.simplify, roundsFor, simplifyStmtOpt_eq_map, simplifyStmtOpt_eq_map]
  by_cases he : (e.map Expr.fold).bind Expr.bool? = some false
  · rw [if_pos he, if_pos he, Stmt.simplify, Block.simplify, simplifyAll_eq_map]
    cases i with
    | none => simp [tidy_eq, live, cutTail, dropEmpty]
    -- the initializer is now a statement of a block, which is tidied the second time
    | some x =>
      have h : tidy cut [(x.simplify cut).simplify cut] = [x.simplify cut] ↔ _ :=
        tidy_singleton_iff x
      simpa using h
  · rw [if_neg he, if_neg he, Stmt.simplify, roundsFor, map_fold_fold, if_neg he,
      simplifyStmtOpt_eq_map, simplifyStmtOpt_eq_map, Stmt.forLoop.injEq, map_settles_iff,
      map_settles_iff]
    simp [Block.Settles]

/-! ## All statements -/

/-- A statement is settled when it is not a loop that leaves an empty initializer and the statements
kept inside it are settled. -/
theorem Stmt.settles_iff (s : Stmt) :
    s.Settles cut ↔ ¬ s.EmptiesInit cut ∧ ∀ x ∈ s.survivors cut, x.Settles cut := by
  cases s with
  | var s d => simp [-Option.map_map, Settles, EmptiesInit, survivors, simplify, VarDecl.fold]
  | assign s x e => simp [Settles, EmptiesInit, survivors, simplify]
  | call s c => simp [Settles, EmptiesInit, survivors, simplify]
  | after s e c => simp [Settles, EmptiesInit, survivors, simplify]
  | jump s j => simp [Settles, EmptiesInit, survivors, simplify]
  | ret s e => simp [-Option.map_map, Settles, EmptiesInit, survivors, simplify]
  | func s f b =>
    -- a statement around one block settles with this block
    rw [show (func s f b).Settles cut ↔ b.Settles cut by simp [Settles, simplify, Block.Settles],
      b.settles_iff]
    simp [EmptiesInit, survivors]
  | block s b =>
    rw [show (block s b).Settles cut ↔ b.Settles cut by simp [Settles, simplify, Block.Settles],
      b.settles_iff]
    simp [EmptiesInit, survivors]
  | ifChain s arms o =>
    rw [settles_ifChain_iff]
    simp only [Block.settles_iff, EmptiesInit, survivors, not_false_eq_true, true_and,
      List.mem_flatMap]
    constructor
    · rintro h x ⟨b, hb, hx⟩
      exact h b hb x hx
    · intro h b hb x hx
      exact h x ⟨b, hb, hx⟩
  | whileLoop s e b =>
    rw [settles_whileLoop_iff, b.settles_iff]
    by_cases he : e.fold.bool? = some false <;> simp [EmptiesInit, survivors, he]
  | forLoop s i e u b =>
    -- if the test fails at once then the initializer is the only statement that is kept
    rw [settles_forLoop_iff, b.settles_iff]
    by_cases he : (e.map Expr.fold).bind Expr.bool? = some false
    · cases i <;> simp [EmptiesInit, survivors, he]
    · have hne : ¬ (forLoop s i e u b).EmptiesInit cut := by
        cases i <;> simp [EmptiesInit, he]
      simp only [he, hne, survivors, if_false, not_false_eq_true, true_and, List.mem_append,
        Option.mem_toList]
      constructor
      · rintro ⟨hi, hu, hb⟩ x ((hx | hx) | hx)
        · exact hi x hx
        · exact hu x hx
        · exact hb x hx
      · intro h
        exact ⟨fun x hx => h x (.inl (.inl hx)), fun x hx => h x (.inl (.inr hx)),
          fun x hx => h x (.inr hx)⟩

/-- What a statement keeps stands inside it. -/
theorem Stmt.mem_children_of_mem_survivors {s x : Stmt} (h : x ∈ s.survivors cut) :
    x ∈ s.children := by
  have hblock : ∀ b ∈ s.blocks, x ∈ live cut b.stmts → x ∈ s.children := by
    intro b hb hx
    exact mem_children_of_block hb (mem_of_mem_live hx)
  cases s with
  | func s f b => exact hblock b (by simp [blocks]) h
  | block s b => exact hblock b (by simp [blocks]) h
  | ifChain s arms o =>
    obtain ⟨b, hb, hx⟩ := List.mem_flatMap.1 h
    exact hblock b (mem_of_mem_choosableBlocks hb) hx
  | whileLoop s e b =>
    rw [survivors] at h
    split at h
    · exact absurd h List.not_mem_nil
    · exact hblock b (by simp [blocks]) h
  | forLoop s i e u b =>
    rw [survivors] at h
    split at h
    · exact mem_children_of_clause (List.mem_append_left _ h)
    · rcases List.mem_append.1 h with h | h
      · exact mem_children_of_clause h
      · exact hblock b (by simp [blocks]) h
  | _ => exact absurd h List.not_mem_nil

/-- A statement settles unless simplifying it leaves an empty block behind. -/
theorem Stmt.settles_iff_not_leavesEmpty (s : Stmt) : s.Settles cut ↔ ¬ s.LeavesEmpty cut := by
  induction s using Stmt.induct with
  | step s ih =>
    rw [s.settles_iff]
    constructor
    · -- an empty block is left behind here or by a statement inside
      rintro ⟨hinit, hkept⟩ (h | ⟨hx, h⟩)
      · exact hinit h
      · exact (ih _ (mem_children_of_mem_survivors hx)).1 (hkept _ hx) h
    · intro h
      refine ⟨fun hinit => h (.init hinit), fun x hx => ?_⟩
      exact (ih x (mem_children_of_mem_survivors hx)).2 fun hleft => h (.inside hx hleft)

/-- Simplifying a second time changes nothing, in a program, a block or a statement, exactly when
no statement that is kept leaves an empty block behind: when no kept loop has a test that fails at
once and an initializer that becomes an empty block. -/
theorem simplify_simplify_iff (cut : Bool) :
    (∀ p : Program, (p.simplify cut).simplify cut = p.simplify cut ↔
      ∀ s ∈ live cut p.stmts, ¬ s.LeavesEmpty cut) ∧
    (∀ b : Block, (b.simplify cut).simplify cut = b.simplify cut ↔
      ∀ s ∈ live cut b.stmts, ¬ s.LeavesEmpty cut) ∧
    (∀ s : Stmt, (s.simplify cut).simplify cut = s.simplify cut ↔ ¬ s.LeavesEmpty cut) := by
  refine ⟨fun p => ?_, fun b => ?_, fun s => s.settles_iff_not_leavesEmpty⟩
  · simp only [← Stmt.settles_iff_not_leavesEmpty, ← tidy_tidy_iff]
    simp [Program.simplify]
  · simp only [← Stmt.settles_iff_not_leavesEmpty]
    exact b.settles_iff

/-- Simplifying `for ({}; false; ) {}` gives a block that holds an empty block, and simplifying that
gives an empty block. -/
theorem simplify_simplify_ne :
    let s : Span := ⟨0, 0⟩
    let p : Program := ⟨[.forLoop s (some (.block s ⟨[], s⟩)) (some (.lit ⟨s, none⟩ (.bool false)))
      none ⟨[], s⟩]⟩
    (p.simplify true).simplify true ≠ p.simplify true := by
  intro s p h
  simp [p, Program.simplify, Stmt.simplify, Expr.fold, roundsFor, Expr.bool?, Expr.literal?,
    Literal.bool?, Block.simplify, tidy, cutTail, Stmt.isEmptyBlock, Block.isEmpty,
    Stmt.isTerminator] at h

end Procedural
