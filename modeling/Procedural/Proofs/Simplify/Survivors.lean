import Procedural.Simplify
import Procedural.Proofs.Syntax.Nesting

/-! # What simplification keeps

Tidying a simplified sequence can be read in the other order: first the dead tail goes (`live`),
then each statement that is left is simplified, and then the empty blocks go
(`tidy_map_simplify`). `Stmt.survivors` lists the statements directly inside a statement that have a
simplified form in the result. -/

namespace Procedural

/-! ## Jumps, returns and functions stay what they are -/

/-- A conditional statement becomes a block or a conditional statement. -/
theorem choice_cases (s : Span) (arms : List Arm) (o : Option Block) :
    (∃ b, choice s arms o = .block s b) ∨ ∃ arms' o', choice s arms o = .ifChain s arms' o' := by
  unfold choice
  split
  · exact .inl ⟨_, rfl⟩
  · exact .inl ⟨_, rfl⟩
  · split
    · exact .inl ⟨_, rfl⟩
    · exact .inr ⟨_, _, rfl⟩

/-- The statement consists of blocks: it is one, or it says which are run and how often. -/
def Stmt.isCompound : Stmt → Bool
  | .block _ _ | .ifChain _ _ _ | .whileLoop _ _ _ | .forLoop _ _ _ _ _ => true
  | _ => false

/-- Simplification turns compound statements into compound statements. -/
theorem isCompound_simplify {cut : Bool} {s : Stmt} (h : s.isCompound = true) :
    (s.simplify cut).isCompound = true := by
  cases s with
  | block s b => rfl
  | ifChain s arms o =>
    rw [Stmt.simplify]
    rcases choice_cases s (simplifyArms cut arms) (simplifyBlockOpt cut o) with
      ⟨b, h⟩ | ⟨arms', o', h⟩
    · rw [h]; rfl
    · rw [h]; rfl
  | whileLoop s e b => rw [Stmt.simplify, roundsWhile]; split <;> rfl
  | forLoop s i e u b => rw [Stmt.simplify, roundsFor]; split <;> rfl
  | _ => nomatch h

/-- What is the same for all compound statements is kept by simplification, if it is kept in the
other statements. -/
theorem kept_simplify {α : Type} {g : Stmt → α} {a : α} {cut : Bool}
    (hcompound : ∀ s : Stmt, s.isCompound = true → g s = a)
    (hother : ∀ s : Stmt, s.isCompound = false → g (s.simplify cut) = g s) (s : Stmt) :
    g (s.simplify cut) = g s := by
  cases hs : s.isCompound with
  | true => rw [hcompound s hs, hcompound _ (isCompound_simplify hs)]
  | false => exact hother s hs

/-- Simplification turns jumps and returns, and nothing else, into jumps and returns. -/
@[simp] theorem isTerminator_simplify (cut : Bool) (s : Stmt) :
    (s.simplify cut).isTerminator = s.isTerminator := by
  refine kept_simplify (a := false) (fun s hs => ?_) (fun s hs => ?_) s
  · cases s <;> first | rfl | nomatch hs
  · cases s <;> first | rfl | nomatch hs

/-- Simplification turns function declarations, and nothing else, into function declarations. -/
@[simp] theorem isFunction_simplify (cut : Bool) (s : Stmt) :
    (s.simplify cut).isFunction = s.isFunction := by
  refine kept_simplify (a := false) (fun s hs => ?_) (fun s hs => ?_) s
  · cases s <;> first | rfl | nomatch hs
  · cases s <;> first | rfl | nomatch hs

/-- A jump or a return is not an empty block. -/
theorem isEmptyBlock_of_isTerminator {s : Stmt} (h : s.isTerminator = true) :
    s.isEmptyBlock = false := by
  cases s <;> first | rfl | exact absurd h (by simp [Stmt.isTerminator])

/-- A function declaration is not an empty block. -/
theorem isEmptyBlock_of_isFunction {s : Stmt} (h : s.isFunction = true) :
    s.isEmptyBlock = false := by
  cases s <;> first | rfl | exact absurd h (by simp [Stmt.isFunction])

/-! ## Dead tails -/

/-- The statements of a sequence that simplification keeps: with `cut`, all but its dead tail. -/
def live (cut : Bool) (ss : List Stmt) : List Stmt := if cut then cutTail ss else ss

/-- The tail is cut at the first jump or return, unless a function is declared after that. -/
@[simp] theorem cutTail_cons (s : Stmt) (ss : List Stmt) :
    cutTail (s :: ss) =
      if s.isTerminator then if ss.any Stmt.isFunction then s :: ss else [s]
      else s :: cutTail ss := rfl

/-- What is kept stands in the sequence. -/
theorem cutTail_sublist (ss : List Stmt) : (cutTail ss).Sublist ss := by
  induction ss with
  | nil => exact .slnil
  | cons s ss ih =>
    rw [cutTail_cons]
    split
    · split
      · exact .refl _
      · exact (List.nil_sublist ss).cons_cons s
    · exact ih.cons_cons s

/-- A statement that is kept is one of the sequence. -/
theorem mem_of_mem_live {cut : Bool} {ss : List Stmt} {s : Stmt} (h : s ∈ live cut ss) :
    s ∈ ss := by
  unfold live at h
  split at h
  · exact (cutTail_sublist ss).subset h
  · exact h

/-- Cutting a tail comes before or after a change of the statements that keeps jumps, returns and
function declarations. -/
theorem cutTail_map {f : Stmt → Stmt} (ht : ∀ s, (f s).isTerminator = s.isTerminator)
    (hf : ∀ s, (f s).isFunction = s.isFunction) (ss : List Stmt) :
    cutTail (ss.map f) = (cutTail ss).map f := by
  induction ss with
  | nil => rfl
  | cons s ss ih =>
    have hany : (ss.map f).any Stmt.isFunction = ss.any Stmt.isFunction := by
      simp [List.any_map, Function.comp_def, hf]
    rw [List.map_cons, cutTail_cons, cutTail_cons, ht, hany, ih]
    split
    · split <;> rfl
    · rfl

/-- Cutting a tail comes before or after dropping statements that are no jumps, returns or
function declarations. -/
theorem cutTail_filter {p : Stmt → Bool} (ht : ∀ s, s.isTerminator = true → p s = true)
    (hf : ∀ s, s.isFunction = true → p s = true) (ss : List Stmt) :
    cutTail (ss.filter p) = (cutTail ss).filter p := by
  induction ss with
  | nil => rfl
  | cons s ss ih =>
    -- nothing that is dropped is a function, so the same tails declare one
    have hany : (ss.filter p).any Stmt.isFunction = ss.any Stmt.isFunction := by
      rw [Bool.eq_iff_iff, List.any_eq_true, List.any_eq_true]
      constructor
      · rintro ⟨x, hx, hfx⟩
        exact ⟨x, (List.mem_filter.1 hx).1, hfx⟩
      · rintro ⟨x, hx, hfx⟩
        exact ⟨x, List.mem_filter.2 ⟨hx, hf x hfx⟩, hfx⟩
    cases hs : s.isTerminator with
    | true =>
      have hp := ht s hs
      rw [List.filter_cons_of_pos hp, cutTail_cons, cutTail_cons, hs, hany]
      cases ss.any Stmt.isFunction <;> simp [hp]
    | false =>
      cases hp : p s <;> simp [hs, hp, ih]

/-- Cutting a tail twice changes nothing. -/
theorem cutTail_cutTail (ss : List Stmt) : cutTail (cutTail ss) = cutTail ss := by
  induction ss with
  | nil => rfl
  | cons s ss ih =>
    cases hs : s.isTerminator with
    | true => cases hf : ss.any Stmt.isFunction <;> simp [hs, hf, cutTail]
    | false => simp [hs, ih]

/-- Nothing more is cut the second time. -/
@[simp] theorem live_live (cut : Bool) (ss : List Stmt) : live cut (live cut ss) = live cut ss := by
  cases cut
  · rfl
  · exact cutTail_cutTail ss

/-! ## Tidy sequences -/

/-- The statements that are not empty blocks. -/
def dropEmpty (ss : List Stmt) : List Stmt := ss.filter fun s => !s.isEmptyBlock

/-- The first statement is dropped if it is an empty block. -/
theorem dropEmpty_cons (s : Stmt) (ss : List Stmt) :
    dropEmpty (s :: ss) = if s.isEmptyBlock then dropEmpty ss else s :: dropEmpty ss := by
  cases h : s.isEmptyBlock <;> simp [dropEmpty, h]

/-- Empty blocks are dropped before or after a change of the statements that keeps them and makes no
new ones. -/
theorem dropEmpty_map {f : Stmt → Stmt} (he : ∀ s, (f s).isEmptyBlock = s.isEmptyBlock)
    (ss : List Stmt) : dropEmpty (ss.map f) = (dropEmpty ss).map f := by
  have hempty : (fun s : Stmt => !s.isEmptyBlock) ∘ f = fun s => !s.isEmptyBlock :=
    funext fun s => congrArg not (he s)
  rw [dropEmpty, List.filter_map, hempty, dropEmpty]

/-- The tail can be cut before empty blocks are dropped or after that. -/
theorem live_dropEmpty (cut : Bool) (ss : List Stmt) :
    live cut (dropEmpty ss) = dropEmpty (live cut ss) := by
  cases cut with
  | false => rfl
  | true =>
    refine cutTail_filter (fun s hs => ?_) (fun s hs => ?_) ss
    · rw [isEmptyBlock_of_isTerminator hs]; rfl
    · rw [isEmptyBlock_of_isFunction hs]; rfl

/-- A change that keeps jumps, returns and functions apart from the rest does not change what is
cut. -/
theorem live_map {f : Stmt → Stmt} (ht : ∀ s, (f s).isTerminator = s.isTerminator)
    (hf : ∀ s, (f s).isFunction = s.isFunction) (cut : Bool) (ss : List Stmt) :
    live cut (ss.map f) = (live cut ss).map f := by
  cases cut with
  | false => rfl
  | true => exact cutTail_map ht hf ss

/-- Simplifying the statements does not change what is cut. -/
theorem live_map_simplify (cut : Bool) (ss : List Stmt) :
    live cut (ss.map (Stmt.simplify cut)) = (live cut ss).map (Stmt.simplify cut) :=
  live_map (isTerminator_simplify cut) (isFunction_simplify cut) cut ss

/-- Tidying drops the empty blocks and the dead tail. -/
theorem tidy_eq (cut : Bool) (ss : List Stmt) : tidy cut ss = dropEmpty (live cut ss) := by
  rw [← live_dropEmpty]
  rfl

/-- A sequence is tidied before or after a change of its statements that keeps what tidying looks
at. -/
theorem tidy_map {f : Stmt → Stmt} (he : ∀ s, (f s).isEmptyBlock = s.isEmptyBlock)
    (ht : ∀ s, (f s).isTerminator = s.isTerminator) (hf : ∀ s, (f s).isFunction = s.isFunction)
    (cut : Bool) (ss : List Stmt) : tidy cut (ss.map f) = (tidy cut ss).map f := by
  rw [tidy_eq, live_map ht hf, dropEmpty_map he, tidy_eq]

/-- A simplified sequence holds the simplified forms of its live statements that are not empty
blocks. -/
theorem tidy_map_simplify (cut : Bool) (ss : List Stmt) :
    tidy cut (ss.map (Stmt.simplify cut)) = dropEmpty ((live cut ss).map (Stmt.simplify cut)) := by
  rw [tidy_eq, live_map_simplify]

/-- The statements of a simplified block are simplified one by one and then tidied. -/
@[simp] theorem stmts_simplify (cut : Bool) (b : Block) :
    (b.simplify cut).stmts = tidy cut (b.stmts.map (Stmt.simplify cut)) := by
  obtain ⟨ss, s⟩ := b
  rw [Block.simplify, simplifyAll_eq_map]

/-! ## Declared functions -/

/-- A simplified function has the header of the function. -/
@[simp] theorem header?_simplify (cut : Bool) (s : Stmt) :
    (s.simplify cut).header? = s.header? := by
  refine kept_simplify (a := none) (fun s hs => ?_) (fun s hs => ?_) s
  · cases s <;> first | rfl | nomatch hs
  · cases s <;> first | rfl | nomatch hs

/-- What is no function has no header. -/
theorem header?_eq_none {s : Stmt} (h : s.isFunction = false) : s.header? = none := by
  cases s <;> first | rfl | exact absurd h (by simp [Stmt.isFunction])

/-- Simplified statements declare the same functions. -/
theorem headers_map_simplify (cut : Bool) (ss : List Stmt) :
    (ss.map (Stmt.simplify cut)).filterMap Stmt.header? = ss.filterMap Stmt.header? := by
  have h : Stmt.header? ∘ Stmt.simplify cut = Stmt.header? := funext (header?_simplify cut)
  rw [List.filterMap_map, h]

/-- Empty blocks declare no functions. -/
theorem headers_dropEmpty (ss : List Stmt) :
    (dropEmpty ss).filterMap Stmt.header? = ss.filterMap Stmt.header? := by
  induction ss with
  | nil => rfl
  | cons s ss ih =>
    rw [dropEmpty_cons]
    cases hs : s.isEmptyBlock with
    | true =>
      have hnone : s.header? = none := by
        cases s <;> first | rfl | nomatch hs
      simp [hnone, ih]
    | false => simp [List.filterMap_cons, ih]

/-- A dead tail that is cut declares no functions. -/
theorem headers_cutTail (ss : List Stmt) :
    (cutTail ss).filterMap Stmt.header? = ss.filterMap Stmt.header? := by
  induction ss with
  | nil => rfl
  | cons s ss ih =>
    rw [cutTail_cons]
    split
    · split
      · rfl
      · -- the tail goes only where it declares no function
        rename_i hany
        have hnone : ss.filterMap Stmt.header? = [] := by
          rw [List.filterMap_eq_nil_iff]
          intro x hx
          exact header?_eq_none (by simpa using fun h => hany (List.any_eq_true.2 ⟨x, hx, h⟩))
        simp [List.filterMap_cons, hnone]
    · simp [List.filterMap_cons, ih]

/-- Tidying a sequence takes no function declaration away. -/
theorem headers_tidy (cut : Bool) (ss : List Stmt) :
    (tidy cut ss).filterMap Stmt.header? = ss.filterMap Stmt.header? := by
  rw [tidy_eq, headers_dropEmpty]
  cases cut with
  | false => rfl
  | true => exact headers_cutTail ss

/-! ## Conditional arms -/

/-- The arm with its condition folded. -/
def Arm.foldCond (a : Arm) : Arm := ⟨a.cond.fold, a.body⟩

/-- The arm with its block simplified. -/
def Arm.simplifyBody (cut : Bool) (a : Arm) : Arm := ⟨a.cond, a.body.simplify cut⟩

/-- Simplifying arms folds their conditions and simplifies their blocks. -/
theorem simplifyArms_eq_map (cut : Bool) (arms : List Arm) :
    simplifyArms cut arms = (arms.map Arm.foldCond).map (Arm.simplifyBody cut) := by
  induction arms with
  | nil => rfl
  | cons a arms ih =>
    obtain ⟨e, b⟩ := a
    rw [simplifyArms, ih]
    rfl

/-- Which arms can be chosen depends on the literals among their conditions only. -/
theorem choosable_map (f : Arm → Arm) (g : Block → Block)
    (hf : ∀ a, (f a).cond.bool? = a.cond.bool?) (arms : List Arm) (o : Option Block) :
    choosable (arms.map f) (o.map g) =
      ((choosable arms o).1.map f, (choosable arms o).2.map g) := by
  induction arms with
  | nil => rfl
  | cons a arms ih =>
    rw [List.map_cons, choosable, choosable, hf]
    cases a.cond.bool? with
    | none => rw [ih]; rfl
    | some b =>
      cases b
      · exact ih
      · rfl

/-- Which arms can be chosen does not depend on their blocks. -/
theorem choosable_map_simplifyBody (cut : Bool) (arms : List Arm) (o : Option Block) :
    choosable (arms.map (Arm.simplifyBody cut)) (o.map (Block.simplify cut)) =
      ((choosable arms o).1.map (Arm.simplifyBody cut),
        (choosable arms o).2.map (Block.simplify cut)) :=
  choosable_map (Arm.simplifyBody cut) (Block.simplify cut) (fun _ => rfl) arms o

/-- The arms and the block that are left to choose from are among the given ones. -/
theorem choosable_subset (arms : List Arm) (o : Option Block) :
    (choosable arms o).1 ⊆ arms ∧ (choosable arms o).2.toList ⊆ o.toList := by
  induction arms with
  | nil => exact ⟨List.nil_subset _, List.Subset.refl _⟩
  | cons a arms ih =>
    rw [choosable]
    split
    · exact ⟨List.Subset.trans ih.1 (List.subset_cons_self a arms), ih.2⟩
    · exact ⟨by simp, by simp⟩
    · exact ⟨List.cons_subset_cons a ih.1, ih.2⟩

/-- Nothing more can be sorted out among the arms that can be chosen. -/
theorem choosable_choosable (arms : List Arm) (o : Option Block) :
    choosable (choosable arms o).1 (choosable arms o).2 = choosable arms o := by
  induction arms with
  | nil => rfl
  | cons a arms ih =>
    rw [choosable]
    cases hc : a.cond.bool? with
    | none => simp [choosable, hc, ih]
    | some b =>
      cases b
      · exact ih
      · simp [choosable, hc]

/-- An arm that is always chosen when it is reached is the last of the arms that can be chosen. -/
theorem choosable_eq_of_head_true {arms as : List Arm} {o d : Option Block} {a : Arm}
    (h : choosable arms o = (a :: as, d)) (ha : a.cond.bool? = some true) :
    as = [] ∧ d = none := by
  induction arms with
  | nil => simp [choosable] at h
  | cons a' arms ih =>
    rw [choosable] at h
    split at h
    · exact ih h
    · simp only [Prod.mk.injEq, List.cons.injEq] at h
      exact ⟨h.1.2.symm, h.2.symm⟩
    · -- an arm that stays because it may fail is not one that holds
      rename_i hnone
      simp only [Prod.mk.injEq, List.cons.injEq] at h
      rw [h.1.1, ha] at hnone
      nomatch hnone

/-- The statement for the arms and the block that are left to choose from. -/
def chosen (s : Span) : List Arm → Option Block → Stmt
  | [], none => .block s (.empty s)
  | [], some b => .block s b
  | a :: as, o => if a.cond.bool? = some true then .block s a.body else .ifChain s (a :: as) o

/-- Arms stay unless the first of them is always chosen. -/
theorem chosen_cons {s : Span} {a : Arm} {as : List Arm} {o : Option Block}
    (ha : a.cond.bool? ≠ some true) : chosen s (a :: as) o = .ifChain s (a :: as) o :=
  if_neg ha

/-- Simplifying a conditional statement: sort out the arms by their folded conditions, and simplify
the blocks that are left. -/
theorem simplify_ifChain (cut : Bool) (s : Span) (arms : List Arm) (o : Option Block) :
    (Stmt.ifChain s arms o).simplify cut =
      chosen s ((choosable (arms.map Arm.foldCond) o).1.map (Arm.simplifyBody cut))
        ((choosable (arms.map Arm.foldCond) o).2.map (Block.simplify cut)) := by
  rw [Stmt.simplify, simplifyArms_eq_map, simplifyBlockOpt_eq_map, choice,
    choosable_map_simplifyBody]
  rcases choosable (arms.map Arm.foldCond) o with ⟨_ | ⟨a, as⟩, _ | b⟩ <;> rfl

/-! ## Statements kept inside a statement -/

/-- The blocks of a conditional statement that can be run. -/
def choosableBlocks (arms : List Arm) (o : Option Block) : List Block :=
  (choosable (arms.map Arm.foldCond) o).1.map (·.body) ++
    (choosable (arms.map Arm.foldCond) o).2.toList

/-- A block that can be run is one of the statement's blocks. -/
theorem mem_of_mem_choosableBlocks {s : Span} {arms : List Arm} {o : Option Block} {b : Block}
    (h : b ∈ choosableBlocks arms o) : b ∈ (Stmt.ifChain s arms o).blocks := by
  obtain ⟨harms, ho⟩ := choosable_subset (arms.map Arm.foldCond) o
  rcases List.mem_append.1 h with h | h
  · obtain ⟨a, ha, rfl⟩ := List.mem_map.1 h
    obtain ⟨a', ha', rfl⟩ := List.mem_map.1 (harms ha)
    exact List.mem_append_left _ (List.mem_map.2 ⟨a', ha', rfl⟩)
  · exact List.mem_append_right _ (ho h)

/-- The statements directly inside `s` that have a simplified form inside the simplified form of
`s`, empty blocks included. -/
def Stmt.survivors (cut : Bool) : Stmt → List Stmt
  | .func _ _ b | .block _ b => live cut b.stmts
  | .ifChain _ arms o => (choosableBlocks arms o).flatMap fun b => live cut b.stmts
  | .whileLoop _ e b => if e.fold.bool? = some false then [] else live cut b.stmts
  | .forLoop _ i e u b =>
    if (e.map Expr.fold).bind Expr.bool? = some false then i.toList
    else i.toList ++ u.toList ++ live cut b.stmts
  | _ => []

end Procedural
