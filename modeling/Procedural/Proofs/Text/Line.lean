import Procedural.Text.Line
import Mathlib.Data.List.Basic

/-! # Lines of a text

Each line of a text stands in it after as many bytes as its start says
(`Line.exists_of_mem_textLines`), and `Line.containing` finds the last line that starts at or before
a byte (`Line.containing_textLines`). -/

namespace Procedural

/-- The number of bytes adds up. -/
theorem byteLength_append (cs ds : List Char) :
    byteLength (cs ++ ds) = byteLength cs + byteLength ds := by
  induction cs with
  | nil => rw [List.nil_append, byteLength_nil, Nat.zero_add]
  | cons c cs ih => rw [List.cons_append, byteLength_cons, ih, byteLength_cons, Nat.add_assoc]

/-- Every text has a first piece. -/
theorem cutLines_ne_nil (cs : List Char) : cutLines cs ≠ [] := by
  cases cs with
  | nil => exact List.cons_ne_nil _ _
  | cons c cs =>
    unfold cutLines
    split
    · exact List.cons_ne_nil _ _
    · split <;> exact List.cons_ne_nil _ _

namespace Line

/-- A line that is placed comes after as many pieces as its index says, and starts after their
bytes. -/
theorem exists_of_mem_place {index start : Nat} {pieces : List (List Char)} {l : Line}
    (h : l ∈ place index start pieces) :
    ∃ before after, pieces = before ++ l.chars :: after ∧ l.index = index + before.length ∧
      l.start = start + byteLength before.flatten := by
  induction pieces generalizing index start with
  | nil => nomatch h
  | cons piece pieces ih =>
    rw [place, List.mem_cons] at h
    rcases h with rfl | h
    · exact ⟨[], pieces, rfl, rfl, rfl⟩
    · obtain ⟨before, after, rfl, hindex, hstart⟩ := ih h
      refine ⟨piece :: before, after, rfl, ?_, ?_⟩
      · rw [hindex, List.length_cons]
        omega
      · rw [hstart, List.flatten_cons, byteLength_append, Nat.add_assoc]

/-- The lines come in the order of their indices. -/
theorem pairwise_place (index start : Nat) (pieces : List (List Char)) :
    (place index start pieces).Pairwise fun l l' => l.index < l'.index := by
  induction pieces generalizing index start with
  | nil => exact .nil
  | cons piece pieces ih =>
    refine .cons (fun l hl => ?_) (ih _ _)
    obtain ⟨before, -, -, hindex, -⟩ := exists_of_mem_place hl
    rw [hindex]
    show index < index + 1 + before.length
    omega

/-- A line of a text stands in it after the bytes before its start. -/
theorem exists_of_mem_textLines {text : String} {l : Line} (h : l ∈ textLines text) :
    ∃ before after, text.toList = before ++ (l.chars ++ after) ∧ l.start = byteLength before := by
  obtain ⟨before, after, hcut, -, hstart⟩ := exists_of_mem_place h
  refine ⟨before.flatten, after.flatten, ?_, hstart.trans (Nat.zero_add _)⟩
  rw [← flatten_cutLines text.toList, hcut, List.flatten_append, List.flatten_cons]

/-- Every byte is on a line: on the last one that starts at or before it. A byte past the end of the
text is on the last line. -/
theorem containing_textLines (text : String) (byte : Nat) :
    containing (textLines text) byte ∈ textLines text ∧
      (containing (textLines text) byte).start ≤ byte ∧
      ∀ l ∈ textLines text, l.start ≤ byte →
        l.index ≤ (containing (textLines text) byte).index := by
  obtain ⟨piece, pieces, hcut⟩ := List.exists_cons_of_ne_nil (cutLines_ne_nil text.toList)
  -- the first line starts at zero, so some line starts early enough
  have hfirst : ⟨0, 0, piece⟩ ∈ (textLines text).filter (·.start ≤ byte) := by
    refine List.mem_filter.2 ⟨?_, decide_eq_true (Nat.zero_le byte)⟩
    rw [textLines, hcut]
    exact List.mem_cons_self
  cases hlast : ((textLines text).filter (·.start ≤ byte)).getLast? with
  | none =>
    rw [List.getLast?_eq_none_iff.1 hlast] at hfirst
    exact absurd hfirst List.not_mem_nil
  | some l =>
    have hfound : containing (textLines text) byte = l := by rw [containing, hlast]; rfl
    rw [hfound]
    obtain ⟨before, hsplit⟩ := List.getLast?_eq_some_iff.1 hlast
    have hl : l ∈ (textLines text).filter (·.start ≤ byte) := List.mem_of_getLast? hlast
    obtain ⟨hmem, hstart⟩ := List.mem_filter.1 hl
    refine ⟨hmem, of_decide_eq_true hstart, fun l' hl' hstart' => ?_⟩
    -- the lines that start early enough are still in the order of their indices
    have hordered := (pairwise_place 0 0 (cutLines text.toList)).filter (·.start ≤ byte)
    have hl'' : l' ∈ (textLines text).filter (·.start ≤ byte) :=
      List.mem_filter.2 ⟨hl', decide_eq_true hstart'⟩
    rw [← textLines, hsplit] at hordered
    rw [hsplit] at hl''
    rcases List.mem_append.1 hl'' with hbefore | hself
    · exact Nat.le_of_lt ((List.pairwise_append.1 hordered).2.2 l' hbefore l
        (List.mem_singleton.2 rfl))
    · exact Nat.le_of_eq (congrArg Line.index (List.mem_singleton.1 hself))

end Line

end Procedural
