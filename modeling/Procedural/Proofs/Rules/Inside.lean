import Procedural.Proofs.Rules.Judgment
import Procedural.Proofs.Syntax.Nesting

/-! # Inside well-formed programs

Every statement and every block of a well-formed program is well formed where it stands. -/

namespace Procedural.Rules

variable {M : Note → Ty → Prop} {Γ : Env}

/-- Every statement of a well-formed list is well formed where some names are in force. -/
theorem AllOk.mem {ss : List Stmt} (h : AllOk M Γ ss) : ∀ s ∈ ss, ∃ Γ', Ok M Γ' s := by
  induction ss generalizing Γ with
  | nil => exact List.forall_mem_nil _
  | cons s ss ih =>
    obtain - | ⟨hs, hss⟩ := h
    exact List.forall_mem_cons.2 ⟨⟨Γ, hs⟩, ih hss⟩

/-- Every statement of a well-formed sequence is well formed where some names are in force. -/
theorem SeqOk.mem {ss : List Stmt} (h : SeqOk M Γ ss) : ∀ s ∈ ss, ∃ Γ', Ok M Γ' s := by
  obtain ⟨-, hall⟩ := h
  exact hall.mem

/-- The blocks of a well-formed statement are well formed. -/
theorem Ok.of_mem_blocks {s : Stmt} (h : Ok M Γ s) : ∀ b ∈ s.blocks, ∃ Γ', SeqOk M Γ' b.stmts := by
  intro b hb
  cases h with
  | func _ hbody | block hbody | whileLoop _ hbody | forLoop _ _ hbody _ =>
    obtain rfl := List.mem_singleton.1 hb
    exact ⟨_, hbody⟩
  | ifChain _ harms ho =>
    rcases List.mem_append.1 hb with hb | hb
    · obtain ⟨a, ha, rfl⟩ := List.mem_map.1 hb
      exact ⟨_, harms a ha⟩
    · exact ⟨_, ho b (Option.mem_toList.1 hb)⟩
  | _ => nomatch hb

/-- The initializer and the step of a well-formed loop are well formed. -/
theorem Ok.of_mem_clauses {s : Stmt} (h : Ok M Γ s) : ∀ x ∈ s.clauses, ∃ Γ', Ok M Γ' x := by
  intro x hx
  cases h with
  | forLoop hi _ _ hu =>
    rcases List.mem_append.1 hx with hx | hx
    · exact hi.mem x hx
    · exact hu.mem x hx
  | _ => nomatch hx

/-- What stands within a well-formed statement is well formed. -/
theorem Ok.within {x s : Stmt} (hx : x.Within s) (h : Ok M Γ s) : ∃ Γ', Ok M Γ' x := by
  induction hx generalizing Γ with
  | self => exact ⟨Γ, h⟩
  | inside hc _ ih =>
    -- the next statement on the way in stands in a clause or in a block
    rcases List.mem_append.1 hc with hc | hc
    · obtain ⟨Γ', hok⟩ := h.of_mem_clauses _ hc
      exact ih hok
    · obtain ⟨b, hb, hc⟩ := List.mem_flatMap.1 hc
      obtain ⟨_, hseq⟩ := h.of_mem_blocks b hb
      obtain ⟨Γ', hok⟩ := hseq.mem _ hc
      exact ih hok

/-- What stands in a well-formed program is well formed. -/
theorem SeqOk.contains {p : Program} (h : SeqOk M Γ p.stmts) {x : Stmt} (hx : p.Contains x) :
    ∃ Γ', Ok M Γ' x := by
  obtain ⟨s, hs, hx⟩ := hx
  obtain ⟨_, hok⟩ := h.mem s hs
  exact hok.within hx

end Procedural.Rules
