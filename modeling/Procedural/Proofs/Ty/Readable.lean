import Procedural.Diagnostic
import Mathlib.Data.List.Chain

/-! # A type can be read off its text

No two types have the same text, although nothing brackets a function type that stands among the
parameters or as the result of another one. The reason is that a text says where it ends: each type
starts with a letter of its own, and a list of parameter types goes on at a comma and stops at a
closing parenthesis. So a type can be read off every text that begins with its own
(`text_append_inj`), and a message that mentions two types tells them apart (`text_identifies`). -/

namespace Procedural

namespace Ty

variable {a b : Ty} {s t : List Char}

/-! ## Reading a type -/

/-- The letter that the text of a type starts with. -/
def initial : Ty → Char
  | int => 'i'
  | real => 'r'
  | bool => 'b'
  | char => 'c'
  | str => 's'
  | void => 'v'
  | error => '<'
  | fn _ _ => 'f'

/-- A text that begins with the text of a type begins with its initial. -/
theorem head?_text_append (a : Ty) (s : List Char) :
    (a.text.toList ++ s).head? = some a.initial := by
  cases a <;> simp [text, initial]

/-- Types whose texts begin the same text have the same initial. -/
theorem initial_eq (h : a.text.toList ++ s = b.text.toList ++ t) : a.initial = b.initial := by
  have hhead := congrArg List.head? h
  rwa [head?_text_append, head?_text_append, Option.some_inj] at hhead

/-- A type that is no function type is told by its letter. -/
theorem eq_of_initial (ha : a.initial ≠ 'f') (h : a.initial = b.initial) : a = b := by
  cases a <;> cases b <;> simp_all [initial]

/-- No type starts with the parenthesis that closes a list of parameter types. -/
theorem text_append_ne_close (a : Ty) (s t : List Char) : a.text.toList ++ s ≠ ')' :: t := by
  intro h
  have hhead := congrArg List.head? h
  rw [head?_text_append, List.head?_cons, Option.some_inj] at hhead
  cases a <;> simp [initial] at hhead

/-- The text of a function type, followed by more text, part by part. -/
theorem toList_text_fn (ps : List Ty) (r : Ty) (s : List Char) :
    (fn ps r).text.toList ++ s = "function(".toList ++
      ((listText ps).toList ++ ')' :: (" -> ".toList ++ (r.text.toList ++ s))) := by
  simp [text]

/-- The texts of several types, followed by more text, up to the first comma. -/
theorem toList_listText_cons_cons (p q : Ty) (ps : List Ty) (s : List Char) :
    (listText (p :: q :: ps)).toList ++ s =
      p.text.toList ++ ',' :: ' ' :: ((listText (q :: ps)).toList ++ s) := by
  simp [listText]

/-- The texts of several types begin with the text of the first one. -/
theorem exists_toList_listText_cons (p : Ty) (ps : List Ty) (s : List Char) :
    ∃ rest, (listText (p :: ps)).toList ++ s = p.text.toList ++ rest := by
  cases ps with
  | nil => exact ⟨s, rfl⟩
  | cons q ps => exact ⟨_, toList_listText_cons_cons p q ps s⟩

/-- The texts of several types do not begin with a closing bracket. -/
theorem listText_append_ne_close (p : Ty) (ps : List Ty) (s t : List Char) :
    (listText (p :: ps)).toList ++ s ≠ ')' :: t := by
  obtain ⟨rest, hrest⟩ := exists_toList_listText_cons p ps s
  rw [hrest]
  exact p.text_append_ne_close rest t

mutual

/-- A type can be read off every text that begins with its own, whatever follows. -/
theorem text_append_inj : ∀ (a b : Ty) (s t : List Char),
    a.text.toList ++ s = b.text.toList ++ t → a = b ∧ s = t
  | fn ps r, fn qs r', s, t, h => by
    rw [toList_text_fn, toList_text_fn] at h
    obtain ⟨rfl, hrest⟩ := listText_append_inj ps qs _ _ (List.append_cancel_left h)
    obtain ⟨rfl, rfl⟩ := text_append_inj r r' s t (List.append_cancel_left hrest)
    exact ⟨rfl, rfl⟩
  -- The words of the atoms differ in their first letters, so the first letter names the type.
  | int, b, _, _, h | real, b, _, _, h | bool, b, _, _, h | char, b, _, _, h | str, b, _, _, h
  | void, b, _, _, h | error, b, _, _, h => by
    obtain rfl := eq_of_initial (by decide) (initial_eq h)
    exact ⟨rfl, List.append_cancel_left h⟩
  | fn _ _, int, _, _, h | fn _ _, real, _, _, h | fn _ _, bool, _, _, h | fn _ _, char, _, _, h
  | fn _ _, str, _, _, h | fn _ _, void, _, _, h | fn _ _, error, _, _, h =>
    absurd (initial_eq h) (by simp [initial])

/-- Parameter types can be read off every text that begins with theirs and the parenthesis that
closes them. -/
theorem listText_append_inj : ∀ (ps qs : List Ty) (s t : List Char),
    (listText ps).toList ++ ')' :: s = (listText qs).toList ++ ')' :: t → ps = qs ∧ s = t
  | [], [], _, _, h => ⟨rfl, (List.cons.inj h).2⟩
  | [], q :: qs, _, _, h => absurd h.symm (listText_append_ne_close q qs _ _)
  | p :: ps, [], _, _, h => absurd h (listText_append_ne_close p ps _ _)
  | [p], [q], _, _, h => by
    obtain ⟨rfl, hrest⟩ := text_append_inj p q _ _ h
    exact ⟨rfl, (List.cons.inj hrest).2⟩
  | [p], q :: q' :: qs, _, _, h => by
    -- one list stops where the other one goes on
    rw [toList_listText_cons_cons] at h
    exact absurd (text_append_inj p q _ _ h).2 (by simp)
  | p :: p' :: ps, [q], _, _, h => by
    rw [toList_listText_cons_cons] at h
    exact absurd (text_append_inj p q _ _ h).2 (by simp)
  | p :: p' :: ps, q :: q' :: qs, s, t, h => by
    rw [toList_listText_cons_cons, toList_listText_cons_cons] at h
    obtain ⟨rfl, hrest⟩ := text_append_inj p q _ _ h
    have hlist := (List.cons.inj (List.cons.inj hrest).2).2
    obtain ⟨hps, rfl⟩ := listText_append_inj (p' :: ps) (q' :: qs) s t hlist
    exact ⟨congrArg (p :: ·) hps, rfl⟩

end

/-- Types with the same text are the same. -/
theorem text_inj : a.text = b.text ↔ a = b := by
  refine ⟨fun h => ?_, fun h => h ▸ rfl⟩
  have hlist : a.text.toList ++ [] = b.text.toList ++ [] := by rw [h]
  exact (text_append_inj a b [] [] hlist).1

/-! ## Two types in a message -/

/-- After an `f` comes a `u`, as in `function`. -/
def FThenU (c d : Char) : Prop := c = 'f' → d = 'u'

/-- A piece without the letter `f` can stand before any text in which `u` follows every `f`. -/
theorem chain_append {w s : List Char} (hw : 'f' ∉ w) (hs : s.IsChain FThenU) :
    (w ++ s).IsChain FThenU := by
  induction w with
  | nil => exact hs
  | cons c w ih =>
    rw [List.mem_cons, not_or] at hw
    exact List.isChain_cons.2 ⟨fun _ _ hc => absurd hc.symm hw.1, ih hw.2⟩

mutual

/-- In the text of a type `u` follows every `f`, also where more such text comes after it. -/
theorem chain_text : ∀ (a : Ty) {s : List Char}, s.IsChain FThenU →
    (a.text.toList ++ s).IsChain FThenU
  | int, _, h | real, _, h | bool, _, h | char, _, h | str, _, h | void, _, h | error, _, h =>
    chain_append (by decide) h
  | fn ps r, s, h => by
    -- The only `f` of this text outside its parts opens `function(`.
    have hword : "function(".toList = 'f' :: "unction(".toList := by decide
    have hresult : (')' :: (" -> ".toList ++ (r.text.toList ++ s))).IsChain FThenU :=
      chain_append (w := ')' :: " -> ".toList) (by decide) (chain_text r h)
    have hrest := chain_append (w := "unction(".toList) (by decide) (chain_listText ps hresult)
    rw [toList_text_fn, hword, List.cons_append]
    exact List.isChain_cons.2 ⟨fun c hc _ => (Option.some.inj hc).symm, hrest⟩

/-- In the texts of several types `u` follows every `f`. -/
theorem chain_listText : ∀ (ps : List Ty) {s : List Char}, s.IsChain FThenU →
    ((listText ps).toList ++ s).IsChain FThenU
  | [], _, h => h
  | [p], _, h => chain_text p h
  | p :: q :: ps, s, h => by
    rw [toList_listText_cons_cons]
    exact chain_text p (chain_append (w := [',', ' ']) (by decide) (chain_listText (q :: ps) h))

end

/-- What stands between the two types in a message stands in no type. -/
theorem not_infix_text (a : Ty) : ¬ ',' :: " found ".toList <:+: a.text.toList := by
  intro h
  have hchain := chain_text a (s := []) .nil
  rw [List.append_nil] at hchain
  simpa [List.isChain_cons, FThenU] using hchain.infix h

end Ty

section Separators

variable {α : Type} {c : α} {cs k l l' m r r' : List α}

/-- What starts with a separator and goes on with it later goes on after the whole of it, if the
separator does not meet its first element again. -/
theorem exists_separator_append (hc : c ∉ cs) (h : c :: cs ++ r = m ++ (c :: cs ++ r')) :
    m = [] ∨ ∃ k, m = c :: cs ++ k := by
  cases m with
  | nil => exact .inl rfl
  | cons d m =>
    obtain ⟨rfl, htail⟩ := List.cons.inj h
    have hrest : cs ++ r = m ++ (c :: cs ++ r') := htail
    rcases List.append_eq_append_iff.1 hrest with ⟨k, rfl, -⟩ | ⟨k, rfl, hk⟩
    · exact .inr ⟨k, rfl⟩
    · cases k with
      | nil => exact .inr ⟨[], by simp⟩
      | cons e k =>
        -- the separator would start again before it has ended
        obtain ⟨rfl, -⟩ := List.cons.inj hk
        exact absurd (List.mem_append_right m List.mem_cons_self) hc

/-- A separator that occurs in none of the two parts splits a list in one way only. -/
theorem eq_of_separated (hc : c ∉ cs) (hl : ¬ c :: cs <:+: l) (hr : ¬ c :: cs <:+: r)
    (h : l ++ (c :: cs ++ r) = l' ++ (c :: cs ++ r')) : l = l' ∧ r = r' := by
  rcases List.append_eq_append_iff.1 h with ⟨m, rfl, hm⟩ | ⟨m, rfl, hm⟩
  · -- One left part begins the other, so the separators either meet or the later one lies inside
    -- a part that holds none.
    rcases exists_separator_append hc hm with rfl | ⟨k, rfl⟩
    · rw [List.nil_append] at hm
      exact ⟨(List.append_nil l).symm, List.append_cancel_left hm⟩
    · rw [List.append_assoc] at hm
      have hinfix : c :: cs <:+: r := ⟨k, r', by
        rw [List.append_cancel_left hm, List.append_assoc]⟩
      exact absurd hinfix hr
  · rcases exists_separator_append hc hm with rfl | ⟨k, rfl⟩
    · rw [List.nil_append] at hm
      exact ⟨List.append_nil l', (List.append_cancel_left hm).symm⟩
    · exact absurd ⟨l', k, by rw [List.append_assoc]⟩ hl

end Separators

/-- The message of a mismatch quotes the texts of both types. -/
theorem Problem.message_typeMismatch (construct : String) (expected found : Ty) :
    (typeMismatch construct expected found).message =
      "type mismatch in " ++ construct ++ ": expected " ++ expected.text ++ ", found " ++
        found.text := rfl

/-- The text of a type identifies it: types have the same text only if they are the same, however
function types are nested in them. So the message of a type mismatch says the same text for the
expected and for the found type only if the two types are the same. -/
theorem text_identifies (a b : Ty) :
    (a.text = b.text ↔ a = b) ∧
      ∀ construct shown : String,
        (Problem.typeMismatch construct a b).message =
            "type mismatch in " ++ construct ++ ": expected " ++ shown ++ ", found " ++ shown ↔
          a = b ∧ shown = a.text := by
  refine ⟨Ty.text_inj, fun construct shown => ⟨fun h => ?_, ?_⟩⟩
  · have hlist := String.toList_inj.2 h
    simp only [Problem.message_typeMismatch, String.toList_append, List.append_assoc] at hlist
    -- both sides say the same up to the two types
    have hparts := List.append_cancel_left (List.append_cancel_left (List.append_cancel_left hlist))
    obtain ⟨ha, hb⟩ := eq_of_separated (by decide) a.not_infix_text b.not_infix_text hparts
    exact ⟨Ty.text_inj.1 (String.toList_inj.1 (ha.trans hb.symm)), (String.toList_inj.1 ha).symm⟩
  · rintro ⟨rfl, rfl⟩
    exact Problem.message_typeMismatch construct a a

end Procedural
