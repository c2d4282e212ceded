import Procedural.Proofs.Text.Line
import Procedural.Report.Render

/-! # What a rendered report shows

The text of diagnostics shows, for each of them, its code and message, the place of its first label
and the remark of every label (`Reporter.render_shows`). A label on one line is drawn below that
line, as wide as its span; a label across lines opens on its first line and closes on its last
(`SourceFile.label_drawn`). -/

namespace Procedural

/-- The one text stands in the other. -/
def Shows (text part : String) : Prop := ∃ before after, text = before ++ part ++ after

namespace Shows

variable {text part : String}

/-- What is shown in a part of a text is shown in the text. -/
theorem trans {piece : String} (h : Shows text part) (h' : Shows part piece) :
    Shows text piece := by
  obtain ⟨before, after, rfl⟩ := h
  obtain ⟨before', after', rfl⟩ := h'
  refine ⟨before ++ before', after' ++ after, ?_⟩
  simp only [String.append_assoc]

/-- A text shows itself. -/
theorem self (text : String) : Shows text text :=
  ⟨"", "", by rw [String.empty_append, String.append_empty]⟩

/-- What is shown is still shown with more text before it. -/
theorem append_left (h : Shows text part) (before : String) : Shows (before ++ text) part :=
  trans ⟨before, "", by rw [String.append_empty]⟩ h

end Shows

/-- The text of rows shows each of them. -/
theorem shows_textOfRows {rows : List String} {row : String} (h : row ∈ rows) :
    Shows (textOfRows rows) row := by
  obtain ⟨before, after, rfl⟩ := List.append_of_mem h
  refine ⟨textOfRows before, "\n" ++ textOfRows after, ?_⟩
  simp only [textOfRows, List.map_append, List.map_cons, String.join_append, String.join_cons,
    String.append_assoc]

/-- A row shows what stands after its head. -/
theorem Layout.shows_row (m : Layout) (head rest : String) : Shows (m.row head rest) rest :=
  (Shows.self rest).append_left _

/-! ## Underlines -/

/-- An underline is as wide as the span of its label, and one column wide if the span is empty. -/
theorem PlacedLabel.width_underline (p : PlacedLabel) (h : p.first.start ≤ p.label.span.start) :
    p.underline.stop - p.underline.start =
      if p.label.span.isEmpty then 1 else p.label.span.length := by
  simp only [underline, Span.isEmpty_iff, Span.length]
  split <;> omega

/-- A further underline is put among the others. -/
theorem insertUnderline_perm (u : Underline) (us : List Underline) :
    (insertUnderline u us).Perm (u :: us) := by
  induction us with
  | nil => exact .refl _
  | cons v vs ih =>
    unfold insertUnderline
    split
    · exact .refl _
    · exact (ih.cons v).trans (.swap u v vs)

/-- Of two underlines one is to the left of the other. -/
theorem Underline.precedes_of_not {u v : Underline} (h : ¬u.precedes v = true) :
    v.precedes u = true := by
  simp only [precedes, Bool.or_eq_true, Bool.and_eq_true, decide_eq_true_eq, beq_iff_eq] at h ⊢
  omega

/-- What is to the left of an underline is to the left of those to its right. -/
theorem Underline.precedes_trans {u v w : Underline} (h : u.precedes v = true)
    (h' : v.precedes w = true) : u.precedes w = true := by
  simp only [precedes, Bool.or_eq_true, Bool.and_eq_true, decide_eq_true_eq, beq_iff_eq] at h h' ⊢
  omega

/-- The underlines come from left to right. -/
def LeftToRight (us : List Underline) : Prop := us.Pairwise fun u v => u.precedes v = true

/-- A further underline is put in its place. -/
theorem LeftToRight.insertUnderline {us : List Underline} (h : LeftToRight us) (u : Underline) :
    LeftToRight (insertUnderline u us) := by
  induction us with
  | nil => exact List.pairwise_singleton _ _
  | cons v vs ih =>
    obtain ⟨hv, hvs⟩ := List.pairwise_cons.1 h
    unfold Procedural.insertUnderline
    split
    · rename_i huv
      refine .cons (fun w hw => ?_) h
      rcases List.mem_cons.1 hw with rfl | hw
      · exact huv
      · exact Underline.precedes_trans huv (hv w hw)
    · rename_i huv
      refine .cons (fun w hw => ?_) (ih hvs)
      rcases List.mem_cons.1 ((insertUnderline_perm u vs).mem_iff.1 hw) with rfl | hw
      · exact Underline.precedes_of_not huv
      · exact hv w hw

/-- The underlines on a line are those of the labels that are on this line alone, from left to
right. -/
theorem underlinesOn_spec (ps : List PlacedLabel) (index : Nat) :
    LeftToRight (underlinesOn ps index) ∧ ∀ u, u ∈ underlinesOn ps index ↔
      ∃ p ∈ ps, p.isSingle = true ∧ p.first.index = index ∧ p.underline = u := by
  -- every label puts its underline among those of the labels before it
  have hfold : ∀ (qs : List PlacedLabel) (us : List Underline), LeftToRight us →
      LeftToRight (qs.foldl (fun us p => insertUnderline p.underline us) us) ∧
        ∀ u, u ∈ qs.foldl (fun us p => insertUnderline p.underline us) us ↔
          u ∈ us ∨ ∃ p ∈ qs, p.underline = u := by
    intro qs
    induction qs with
    | nil => exact fun us h => ⟨h, fun u => by simp⟩
    | cons q qs ih =>
      intro us h
      obtain ⟨hordered, hmem⟩ := ih _ (h.insertUnderline q.underline)
      refine ⟨hordered, fun u => ?_⟩
      rw [List.foldl_cons, hmem, (insertUnderline_perm q.underline us).mem_iff, List.mem_cons]
      simp only [List.exists_mem_cons_iff, eq_comm (a := u)]
      tauto
  obtain ⟨hordered, hmem⟩ :=
    hfold (ps.filter fun p => p.isSingle && p.first.index == index) [] .nil
  refine ⟨hordered, fun u => (hmem u).trans ?_⟩
  simp only [List.not_mem_nil, false_or, List.mem_filter, Bool.and_eq_true, beq_iff_eq, and_assoc]

/-- The remark of an underline stands beside the carets, or it hangs below them. -/
theorem trailing_or_hanging {us : List Underline} {u : Underline} (hu : u ∈ us) :
    (trailing? us).bind (us[·]?) = some u ∨ u ∈ hanging us := by
  unfold hanging
  cases trailing? us with
  | none => exact .inr hu
  | some i =>
    obtain ⟨j, hj⟩ := List.mem_iff_getElem?.1 hu
    -- the place decides, as two labels may be drawn alike
    by_cases hji : j = i
    · exact .inl (hji ▸ hj)
    · exact .inr (List.mem_eraseIdx_iff_getElem?.2 ⟨j, hji, hj⟩)

/-- A remark that hangs below the carets has a row. -/
theorem exists_hangingRow (l : Line) {us : List Underline} {u : Underline} (hu : u ∈ hanging us) :
    ∃ row ∈ hangingRows l us, Shows row u.remark := by
  unfold hangingRows
  split
  · rename_i hnone
    rw [hnone] at hu
    nomatch hu
  · exact ⟨_, List.mem_cons_of_mem _ (List.mem_map.2 ⟨u, List.mem_reverse.2 hu, rfl⟩),
      (Shows.self u.remark).append_left _⟩

/-- Some row below a line shows the remark of an underline. -/
theorem exists_underlineRow (l : Line) {us : List Underline} {u : Underline} (hu : u ∈ us) :
    ∃ row ∈ underlineRows l us, Shows row u.remark := by
  have hsome : us.isEmpty = false := by
    cases us with
    | nil => nomatch hu
    | cons => rfl
  rw [underlineRows, hsome]
  -- there are carets below the line, and below them the hanging remarks
  rcases trailing_or_hanging hu with htrailing | hhanging
  · refine ⟨caretRow l us, List.mem_cons_self, ?_⟩
    rw [caretRow, htrailing]
    exact ((Shows.self u.remark).append_left " ").append_left _
  · obtain ⟨row, hrow, hshows⟩ := exists_hangingRow l hhanging
    exact ⟨row, List.mem_cons_of_mem _ hrow, hshows⟩

/-! ## Brackets -/

section Brackets

variable {ps : List PlacedLabel} {p : PlacedLabel}

/-- The bracket of a label across lines keeps its place on all lines where it has an edge. -/
theorem exists_bracket (hp : p ∈ ps) (hacross : p.isSingle = false) :
    ∃ place, ∀ index edge, p.edge? index = some edge →
      ⟨place, p.label.emphasis, edge⟩ ∈ bracketsOn ps index := by
  have hbracketed : p ∈ bracketed ps := List.mem_filter.2 ⟨hp, by rw [hacross]; rfl⟩
  obtain ⟨place, hplace⟩ := List.mem_iff_getElem?.1 hbracketed
  refine ⟨place, fun index edge hedge => ?_⟩
  refine List.mem_filterMap.2 ⟨(p, place), List.mem_zipIdx_iff_getElem?.2 hplace, ?_⟩
  show (p.edge? index).map _ = _
  rw [hedge, Option.map_some]

/-- The bracket of a label across lines opens on the first of them. -/
theorem edge?_first (p : PlacedLabel) :
    p.edge? p.first.index = some (.opens (p.label.span.start - p.first.start)) :=
  if_pos rfl

/-- The bracket of a label across lines closes on the last of them, with the remark. -/
theorem edge?_last (hacross : p.isSingle = false) :
    p.edge? p.last.index =
      some (.closes (p.label.span.stop - p.last.start) p.label.remark) := by
  have hne : p.last.index ≠ p.first.index := (beq_eq_false_iff_ne.1 hacross).symm
  rw [PlacedLabel.edge?, if_neg hne, if_pos rfl]

/-- The stroke of a bracket that closes shows its remark. -/
theorem AnnotatedLine.exists_strokeRow (m : Layout) {a : AnnotatedLine} {b : Bracket}
    {column : Nat} {remark : String} (hb : b ∈ a.brackets)
    (hedge : b.edge = .closes column remark) : ∃ row ∈ a.strokeRows m, Shows row remark := by
  have hstroke : ∃ text, stroke? a.line b = some text ∧ Shows text remark := by
    rw [stroke?, hedge]
    exact ⟨_, rfl, (Shows.self remark).append_left _⟩
  obtain ⟨text, htext, hshows⟩ := hstroke
  refine ⟨_, List.mem_filterMap.2 ⟨b, hb, by rw [htext, Option.map_some]⟩, ?_⟩
  exact (m.shows_row _ _).trans (hshows.append_left _)

end Brackets

/-! ## Snippets -/

section Snippets

variable {m : Layout} {lines : List Line} {ps : List PlacedLabel} {p : PlacedLabel}

/-- A line that a label needs is shown with everything drawn on it. -/
theorem mem_annotate {l : Line} (hl : l ∈ lines) (hp : p ∈ ps) (hneeds : p.needs l.index = true) :
    ⟨l, underlinesOn ps l.index, bracketsOn ps l.index⟩ ∈ annotate lines ps :=
  List.mem_map.2 ⟨l, List.mem_filter.2 ⟨hl, List.any_eq_true.2 ⟨p, hp, hneeds⟩⟩, rfl⟩

/-- All rows of an annotated line are rows of the snippet. -/
theorem mem_lineRows {a : AnnotatedLine} {row : String} (hrow : row ∈ a.rows m) :
    ∀ {as : List AnnotatedLine}, a ∈ as → row ∈ lineRows m lines ps as
  | [_], ha => by
    obtain rfl := List.mem_singleton.1 ha
    exact hrow
  | _ :: _ :: _, ha => by
    rcases List.mem_cons.1 ha with rfl | ha
    · exact List.mem_append_left _ (List.mem_append_left _ hrow)
    · exact List.mem_append_right _ (mem_lineRows hrow ha)

/-- Whatever row shows the remark of a label on its lines is a row of the snippet. -/
theorem exists_lineRow (hp : p ∈ ps) (hfirst : p.first ∈ lines) (hlast : p.last ∈ lines) :
    ∃ row ∈ lineRows m lines ps (annotate lines ps), Shows row p.label.remark := by
  cases hsingle : p.isSingle with
  | true =>
    -- the remark stands below the line of the label
    have hneeds : p.needs p.first.index = true := by simp [PlacedLabel.needs]
    have hu : p.underline ∈ underlinesOn ps p.first.index :=
      ((underlinesOn_spec ps _).2 _).2 ⟨p, hp, hsingle, rfl, rfl⟩
    obtain ⟨row, hrow, hshows⟩ := exists_underlineRow p.first hu
    refine ⟨_, mem_lineRows (List.mem_cons_of_mem _ (List.mem_append_left _
      (List.mem_map.2 ⟨row, hrow, rfl⟩))) (mem_annotate hfirst hp hneeds), ?_⟩
    exact (m.shows_row _ _).trans (hshows.append_left _)
  | false =>
    -- the remark stands at the stroke that closes the bracket
    have hneeds : p.needs p.last.index = true := by simp [PlacedLabel.needs]
    obtain ⟨place, hb⟩ := exists_bracket hp hsingle
    obtain ⟨row, hrow, hshows⟩ := AnnotatedLine.exists_strokeRow m
      (a := ⟨p.last, underlinesOn ps p.last.index, bracketsOn ps p.last.index⟩)
      (hb _ _ (edge?_last hsingle)) rfl
    exact ⟨row, mem_lineRows (List.mem_cons_of_mem _ (List.mem_append_right _ hrow))
      (mem_annotate hlast hp hneeds), hshows⟩

end Snippets

/-- Every label is drawn. If it is on one line, then below this line, as wide as its span or one
column wide if that is empty; otherwise as a bracket that opens on its first line and closes on its
last line in the same place of the margin. -/
theorem SourceFile.label_drawn (f : SourceFile) {labels : List Label} {label : Label}
    (h : label ∈ labels) :
    let lines := textLines f.text
    let p := PlacedLabel.ofLabel lines label
    let shown := annotate lines (labels.map (PlacedLabel.ofLabel lines))
    (p.isSingle = true → ∃ a ∈ shown, a.line = p.first ∧ p.underline ∈ a.underlines ∧
      p.underline.stop - p.underline.start =
        if label.span.isEmpty then 1 else label.span.length) ∧
    (p.isSingle = false → ∃ place,
      (∃ a ∈ shown, a.line = p.first ∧
        ⟨place, label.emphasis, .opens (label.span.start - p.first.start)⟩ ∈ a.brackets) ∧
      ∃ a ∈ shown, a.line = p.last ∧
        ⟨place, label.emphasis, .closes (label.span.stop - p.last.start) label.remark⟩ ∈
          a.brackets) := by
  intro lines p shown
  have hp : p ∈ labels.map (PlacedLabel.ofLabel lines) := List.mem_map.2 ⟨label, h, rfl⟩
  obtain ⟨hfirst, hstart, -⟩ := Line.containing_textLines f.text label.span.start
  obtain ⟨hlast, -, -⟩ := Line.containing_textLines f.text label.span.stop
  have hfirstShown := mem_annotate (l := p.first) hfirst hp (by simp [PlacedLabel.needs])
  have hlastShown := mem_annotate (l := p.last) hlast hp (by simp [PlacedLabel.needs])
  refine ⟨fun hsingle => ?_, fun hacross => ?_⟩
  · exact ⟨_, hfirstShown, rfl, ((underlinesOn_spec _ _).2 _).2 ⟨p, hp, hsingle, rfl, rfl⟩,
      p.width_underline hstart⟩
  · obtain ⟨place, hb⟩ := exists_bracket hp hacross
    exact ⟨place, ⟨_, hfirstShown, rfl, hb _ _ (edge?_first p)⟩,
      _, hlastShown, rfl, hb _ _ (edge?_last hacross)⟩

/-- The remarks of all labels stand in the snippet, and so does the place of the first one. -/
theorem SourceFile.snippetRows_show (f : SourceFile) {labels : List Label} {label : Label} :
    (label ∈ labels → ∃ row ∈ f.snippetRows labels, Shows row label.remark) ∧
      (labels.head? = some label → ∃ row ∈ f.snippetRows labels,
        Shows row (f.location (textLines f.text) label.span.start)) := by
  cases labels with
  | nil => exact ⟨fun h => absurd h List.not_mem_nil, fun h => nomatch h⟩
  | cons first rest =>
    refine ⟨fun h => ?_, fun h => ?_⟩
    · obtain ⟨row, hrow, hshows⟩ := exists_lineRow
        (p := PlacedLabel.ofLabel (textLines f.text) label)
        (List.mem_map.2 ⟨label, h, rfl⟩)
        (Line.containing_textLines f.text label.span.start).1
        (Line.containing_textLines f.text label.span.stop).1
      exact ⟨row, List.mem_cons_of_mem _ (List.mem_cons_of_mem _ hrow), hshows⟩
    · obtain rfl := Option.some.inj h
      exact ⟨_, List.mem_cons_self, (Layout.shows_row _ _ _).trans ((Shows.self _).append_left _)⟩

/-! ## Reports -/

namespace Reporter

variable {r : Reporter} {file : Nat} {f : SourceFile} {log : Log} {d : Diagnostic}

/-- A file is known by the number that is answered when it is added, and other files keep their
numbers. -/
theorem files_add (r : Reporter) (f : SourceFile) :
    (r.add f).2.files[(r.add f).1]? = some f ∧
      ∀ (i : Nat) (g : SourceFile), r.files[i]? = some g → (r.add f).2.files[i]? = some g := by
  refine ⟨List.getElem?_concat_length, fun i g hg => ?_⟩
  obtain ⟨hi, -⟩ := List.getElem?_eq_some_iff.1 hg
  exact (List.getElem?_append_left hi).trans hg

/-- The text of diagnostics shows what is shown in a row of one of them. -/
theorem shows_render {row part : String} (hd : d ∈ log) (hrow : row ∈ r.rows file d)
    (h : Shows row part) : Shows (r.render file log) part :=
  (shows_textOfRows (List.mem_flatMap.2 ⟨d, hd, hrow⟩)).trans h

/-- The text of diagnostics about a known file shows, for each of them, the heading with code and
message, the remark of every label, and the place of the first label in the file. -/
theorem render_shows (hf : r.files[file]? = some f) (hd : d ∈ log) :
    Shows (r.render file log) (d.toReport file).heading ∧
      (∀ label ∈ (d.toReport file).labels, Shows (r.render file log) label.remark) ∧
      ∀ label, (d.toReport file).labels.head? = some label →
        Shows (r.render file log) (f.location (textLines f.text) label.span.start) := by
  have hheading : (d.toReport file).heading ∈ r.rows file d := by
    unfold rows
    simp only [hf]
    split <;> exact List.mem_cons_self
  have hsnippet : ∀ row ∈ f.snippetRows (d.toReport file).labels, row ∈ r.rows file d := by
    intro row hrow
    unfold rows
    simp only [hf]
    split
    · rename_i hnone
      rw [hnone] at hrow
      nomatch hrow
    · exact List.mem_cons_of_mem _ (List.mem_append_left _ hrow)
  refine ⟨shows_render hd hheading (.self _), fun label hlabel => ?_, fun label hlabel => ?_⟩
  · obtain ⟨row, hrow, hshows⟩ := f.snippetRows_show.1 hlabel
    exact shows_render hd (hsnippet row hrow) hshows
  · obtain ⟨row, hrow, hshows⟩ := f.snippetRows_show.2 hlabel
    exact shows_render hd (hsnippet row hrow) hshows

example : Reporter.render ⟨[⟨"main.carlos", "continue;\n"⟩]⟩ 0 [⟨.continueNotInLoop, some ⟨0, 8⟩⟩] =
    "error[continue_not_in_loop]: continue statement is not inside a loop\n" ++
      "  ┌─ main.carlos:1:1\n" ++
      "  │\n" ++
      "1 │ continue;\n" ++
      "  │ ^^^^^^^^ continue_not_in_loop\n" ++
      "\n" := by decide +kernel

/-- The text about a name that is declared twice points at the first declaration. -/
theorem render_shows_first_declaration {x : String} {previous : Span} {s : Option Span}
    (hf : r.files[file]? = some f) (hd : ⟨.duplicateDeclaration x previous, s⟩ ∈ log) :
    Shows (r.render file log) "first declared here" := by
  have hlabel : ⟨.secondary, file, previous, "first declared here"⟩ ∈
      (Diagnostic.toReport file ⟨.duplicateDeclaration x previous, s⟩).labels :=
    List.mem_append_right _ (List.mem_singleton.2 rfl)
  exact (render_shows hf hd).2.1 _ hlabel

end Reporter

end Procedural
