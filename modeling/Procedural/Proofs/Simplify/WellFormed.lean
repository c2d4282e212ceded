import Procedural.Proofs.Folding.Types
import Procedural.Proofs.Simplify.Survivors

/-! # Simplified programs are well formed

Simplification takes statements away and moves blocks, but every name that is left stands for what
it stood for: a dead tail goes only if it declares no function, and its variables are not seen from
before it. So the rules derive a simplified statement where they derive the statement. -/

namespace Procedural.Rules

variable {M : Note → Ty → Prop} {cut : Bool}

/-! ## Declarations -/

/-- A simplified statement declares what the statement declares. -/
theorem places_simplify (s : Stmt) : places (s.simplify cut) = places s := by
  refine kept_simplify (a := []) (fun s hs => ?_) (fun s hs => ?_) s
  · cases s <;> first | rfl | nomatch hs
  · cases s <;> first | rfl | nomatch hs

/-- A simplified statement leaves the same names in force. -/
theorem after_simplify (Γ : Env) (s : Stmt) : Γ.after (s.simplify cut) = Γ.after s := by
  rw [Env.after, places_simplify, Env.after]

/-- Simplified statements declare the same functions. -/
theorem functions_map_simplify (ss : List Stmt) :
    functions (ss.map (Stmt.simplify cut)) = functions ss := by
  rw [functions, headers_map_simplify, functions]

/-- An empty block declares nothing. -/
theorem after_of_isEmptyBlock {s : Stmt} (h : s.isEmptyBlock = true) (Γ : Env) :
    Γ.after s = Γ := by
  cases s <;> first | rfl | exact absurd h (by simp [Stmt.isEmptyBlock])

/-- Tidying a sequence takes no function declaration away. -/
theorem functions_tidy (ss : List Stmt) : functions (tidy cut ss) = functions ss := by
  rw [functions, headers_tidy, functions]

/-! ## Sequences -/

/-- Statements that are well formed one after the other are so without their dead tail. -/
theorem AllOk.cutTail {Γ : Env} {ss : List Stmt} (h : AllOk M Γ ss) :
    AllOk M Γ (cutTail ss) := by
  induction ss generalizing Γ with
  | nil => exact h
  | cons s ss ih =>
    rw [cutTail_cons]
    obtain - | ⟨hs, hss⟩ := h
    split
    · split
      · exact .cons hs hss
      · exact .cons hs .nil
    · exact .cons hs (ih hss)

/-- Statements that are well formed one after the other are so without empty blocks. -/
theorem AllOk.dropEmpty {Γ : Env} {ss : List Stmt} (h : AllOk M Γ ss) :
    AllOk M Γ (dropEmpty ss) := by
  induction ss generalizing Γ with
  | nil => exact h
  | cons s ss ih =>
    obtain - | ⟨hs, hss⟩ := h
    rw [dropEmpty_cons]
    split
    · -- nothing after an empty block depends on it
      rename_i he
      rw [after_of_isEmptyBlock he] at hss
      exact ih hss
    · exact .cons hs (ih hss)

/-- A tidied sequence is well formed if the sequence is, as it has the same functions. -/
theorem SeqOk.tidy {Γ : Env} {ss : List Stmt} (h : SeqOk M Γ ss) : SeqOk M Γ (tidy cut ss) := by
  obtain ⟨hfresh, hall⟩ := h
  have hfun : functions (Procedural.tidy cut ss) = functions ss := functions_tidy ss
  refine .intro (hfun ▸ hfresh) (hfun ▸ ?_)
  rw [tidy_eq]
  cases cut with
  | false => exact hall.dropEmpty
  | true => exact hall.cutTail.dropEmpty

/-- The rules derive the simplified statement wherever they derive the statement. -/
def KeptBy (M : Note → Ty → Prop) (cut : Bool) (s : Stmt) : Prop :=
  ∀ Γ, Ok M Γ s → Ok M Γ (s.simplify cut)

/-- Simplified statements are well formed one after the other if each is kept by the rules. -/
theorem AllOk.map_simplify {Γ : Env} {ss : List Stmt} (hkept : ∀ x ∈ ss, KeptBy M cut x)
    (h : AllOk M Γ ss) : AllOk M Γ (ss.map (Stmt.simplify cut)) := by
  induction ss generalizing Γ with
  | nil => exact h
  | cons s ss ih =>
    obtain - | ⟨hs, hss⟩ := h
    refine .cons (hkept s List.mem_cons_self Γ hs) ?_
    rw [after_simplify]
    exact ih (fun x hx => hkept x (List.mem_cons_of_mem s hx)) hss

/-- A sequence of simplified statements is well formed if each is kept by the rules. -/
theorem SeqOk.map_simplify {Γ : Env} {ss : List Stmt} (hkept : ∀ x ∈ ss, KeptBy M cut x)
    (h : SeqOk M Γ ss) : SeqOk M Γ (ss.map (Stmt.simplify cut)) := by
  obtain ⟨hfresh, hall⟩ := h
  have hfun : functions (ss.map (Stmt.simplify cut)) = functions ss := functions_map_simplify ss
  exact .intro (hfun ▸ hfresh) (hfun ▸ hall.map_simplify hkept)

/-- After simplified statements the same names are in force. -/
theorem afterAll_map_simplify (Γ : Env) (ss : List Stmt) :
    Γ.afterAll (ss.map (Stmt.simplify cut)) = Γ.afterAll ss := by
  simp only [Env.afterAll, functions_map_simplify, List.foldl_map, after_simplify]

/-- A simplified block is well formed where the block is. -/
theorem SeqOk.simplify {Γ : Env} {b : Block} (hkept : ∀ x ∈ b.stmts, KeptBy M cut x)
    (h : SeqOk M Γ b.stmts) : SeqOk M Γ (b.simplify cut).stmts := by
  rw [stmts_simplify]
  exact (h.map_simplify hkept).tidy

/-! ## Statements -/

/-- The statement for the arms and the block left to choose from is well formed when these are. -/
theorem Ok.chosen {Γ : Env} {s : Span} {arms : List Arm} {o : Option Block}
    (hcond : ∀ a ∈ arms, HasType M Γ.names a.cond .bool)
    (harms : ∀ a ∈ arms, SeqOk M Γ.push a.body.stmts)
    (ho : ∀ b ∈ o, SeqOk M Γ.push b.stmts) : Ok M Γ (chosen s arms o) := by
  cases arms with
  | nil =>
    cases o with
    | none => exact .block (.intro trivial .nil)
    | some b => exact .block (ho b rfl)
  | cons a as =>
    rw [Procedural.chosen]
    split
    · exact .block (harms a List.mem_cons_self)
    · exact .ifChain hcond harms ho

/-- A simplified conditional statement is well formed when its folded conditions are truth values
and its simplified blocks are well formed. -/
theorem Ok.simplify_ifChain {Γ : Env} {s : Span} {arms : List Arm} {o : Option Block}
    (hcond : ∀ a ∈ arms, HasType M Γ.names a.cond.fold .bool)
    (harms : ∀ a ∈ arms, SeqOk M Γ.push (a.body.simplify cut).stmts)
    (ho : ∀ b ∈ o, SeqOk M Γ.push (b.simplify cut).stmts) :
    Ok M Γ ((Stmt.ifChain s arms o).simplify cut) := by
  rw [Procedural.simplify_ifChain]
  obtain ⟨hsub, hsubo⟩ := choosable_subset (arms.map Arm.foldCond) o
  -- every arm that is left is a simplified arm of the statement
  have harm : ∀ a ∈ (choosable (arms.map Arm.foldCond) o).1.map (Arm.simplifyBody cut),
      ∃ a' ∈ arms, a = ⟨a'.cond.fold, a'.body.simplify cut⟩ := by
    intro a ha
    obtain ⟨c, hc, rfl⟩ := List.mem_map.1 ha
    obtain ⟨a', ha', rfl⟩ := List.mem_map.1 (hsub hc)
    exact ⟨a', ha', rfl⟩
  refine .chosen (fun a ha => ?_) (fun a ha => ?_) (fun b hb => ?_)
  · obtain ⟨a', ha', rfl⟩ := harm a ha
    exact hcond a' ha'
  · obtain ⟨a', ha', rfl⟩ := harm a ha
    exact harms a' ha'
  · obtain ⟨b', hb', rfl⟩ := Option.map_eq_some_iff.1 hb
    exact ho b' (Option.mem_toList.1 (hsubo (Option.mem_toList.2 hb')))

/-- Wherever the rules derive a statement, they derive its simplified form. -/
theorem keptBy (hM : AllowsTyped M) (s : Stmt) : KeptBy M cut s := by
  induction s using Stmt.induct with
  | step s ih =>
    have hblock : ∀ b ∈ s.blocks, ∀ x ∈ b.stmts, KeptBy M cut x := by
      intro b hb x hx
      exact ih x (Stmt.mem_children_of_block hb hx)
    intro Γ h
    cases h with
    | var hinit hfresh =>
      refine .var (fun e he => ?_) hfresh
      obtain ⟨e', he', rfl⟩ := Option.map_eq_some_iff.1 he
      exact (hinit e' he').fold hM
    | func hparams hbody => exact .func hparams (hbody.simplify (hblock _ (by simp [Stmt.blocks])))
    | assign hx he => exact .assign hx (he.fold hM)
    | call hc => exact .call (hc.fold hM)
    | after he hnum hc => exact .after (he.fold hM) hnum (hc.fold hM)
    | block hb => exact .block (hb.simplify (hblock _ (by simp [Stmt.blocks])))
    | ifChain hcond harms ho =>
      refine .simplify_ifChain (fun a ha => ?_) (fun a ha => ?_) (fun b hb => ?_)
      · exact (hcond a ha).fold hM
      · exact (harms a ha).simplify (hblock _ (Stmt.mem_blocks_of_arm ha))
      · exact (ho b hb).simplify (hblock b (Stmt.mem_blocks_of_else hb))
    | whileLoop he hb =>
      rw [Stmt.simplify, roundsWhile]
      split
      · exact .block (.intro trivial .nil)
      · exact .whileLoop (he.fold hM) (hb.simplify (hblock _ (by simp [Stmt.blocks])))
    | @forLoop _ s i e u b hi he hb hu =>
      have hi' : SeqOk M Γ.push (i.toList.map (Stmt.simplify cut)) :=
        hi.map_simplify fun x hx => ih x (Stmt.mem_children_of_init (Option.mem_toList.1 hx))
      have hu' : SeqOk M _ (u.toList.map (Stmt.simplify cut)) :=
        hu.map_simplify fun x hx => ih x (Stmt.mem_children_of_step (Option.mem_toList.1 hx))
      -- the simplified initializer leaves the same names in force for the other parts
      have hafter : Γ.push.afterAll (i.toList.map (Stmt.simplify cut)) = _ :=
        afterAll_map_simplify Γ.push i.toList
      rw [← Option.toList_map] at hi' hu' hafter
      rw [Stmt.simplify, roundsFor, simplifyStmtOpt_eq_map, simplifyStmtOpt_eq_map]
      split
      · exact .block hi'
      · refine .forLoop hi' (fun c hc => ?_) ?_ ?_
        · obtain ⟨c', hc', rfl⟩ := Option.map_eq_some_iff.1 hc
          rw [hafter]
          exact (he c' hc').fold hM
        · rw [hafter]
          exact hb.simplify (hblock _ (by simp [Stmt.blocks]))
        · rw [hafter]
          exact hu'
    | jump hj => exact .jump hj
    | retValue hret hvoid he => exact .retValue hret hvoid (he.fold hM)
    | retNone hret => exact .retNone hret

end Procedural.Rules

namespace Procedural

open Rules

/-- Simplifying an annotated program leaves it annotated. -/
theorem Program.Annotated.simplify {p : Program} (cut : Bool) (h : p.Annotated) :
    (p.simplify cut).Annotated := by
  have hkept : ∀ x ∈ p.stmts, KeptBy typedNote cut x := fun x _ => keptBy allowsTyped_typedNote x
  have hsimp := SeqOk.map_simplify hkept h
  rw [Program.Annotated, Program.simplify, simplifyAll_eq_map]
  exact hsimp.tidy

end Procedural
