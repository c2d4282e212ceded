import Procedural.Report.Drawing

/-! # Rendering diagnostics

`Reporter.render` writes diagnostics out as text: a heading with code and message, the place in the
source, and the lines around it with the labels drawn on them. -/

namespace Procedural

/-- A source file to report against. -/
structure SourceFile where
  /-- The name shown to the reader. -/
  name : String
  /-- The text. -/
  text : String
deriving DecidableEq, Repr, Inhabited

/-- The files to report against; a file is known by its place in the list. -/
structure Reporter where
  /-- The files, in the order in which they were added. -/
  files : List SourceFile
deriving DecidableEq, Repr, Inhabited

/-! ## Snippets -/

/-- What is shown between two lines that follow each other in a snippet: nothing if they are
neighbours, the line between if there is one, and a break if there are more. -/
def gapRows (m : Layout) (lines : List Line) (ps : List PlacedLabel) (a b : AnnotatedLine) :
    List String :=
  match b.line.index - (a.line.index + 1) with
  | 0 => []
  | 1 =>
    (lines[a.line.index + 1]?).toList.map fun l =>
      AnnotatedLine.sourceRow m ⟨l, [], bracketsOn ps l.index⟩
  | _ => [a.breakRow m]

/-- The rows of the lines of a snippet. -/
def lineRows (m : Layout) (lines : List Line) (ps : List PlacedLabel) :
    List AnnotatedLine → List String
  | [] => []
  | [a] => a.rows m
  | a :: b :: rest => a.rows m ++ gapRows m lines ps a b ++ lineRows m lines ps (b :: rest)

/-- The width of the widest line number among the ends of labels. -/
def gutterWidth (ps : List PlacedLabel) : Nat :=
  ps.foldl (fun w p => max w (toString (max p.first.number p.last.number)).length) 0

/-- The name of the file with the line and column of a byte offset. -/
def SourceFile.location (f : SourceFile) (lines : List Line) (byte : Nat) : String :=
  let l := Line.containing lines byte
  f.name ++ ":" ++ toString l.number ++ ":" ++ toString (l.column byte)

/-- The rows of a snippet of `f` with the given labels; the first label is located. -/
def SourceFile.snippetRows (f : SourceFile) : List Label → List String
  | [] => []
  | label :: rest =>
    let lines := textLines f.text
    let ps := (label :: rest).map (PlacedLabel.ofLabel lines)
    let m : Layout := ⟨gutterWidth ps, (bracketed ps).length⟩
    m.row "" ("┌─ " ++ f.location lines label.span.start) :: m.openingRow ::
      lineRows m lines ps (annotate lines ps)

/-! ## Reports -/

/-- The heading of a report. -/
def Report.heading (r : Report) : String := "error[" ++ r.code ++ "]: " ++ r.message

/-- Rows of text, each ended by a line break. -/
def textOfRows (rows : List String) : String := String.join (rows.map (· ++ "\n"))

namespace Reporter

/-- A reporter without files. -/
def empty : Reporter := ⟨[]⟩

/-- Adds a file. The answer is the number by which it is known. -/
def add (r : Reporter) (f : SourceFile) : Nat × Reporter := (r.files.length, ⟨r.files ++ [f]⟩)

/-- The rows of a diagnostic about the file with number `file`. A diagnostic with labels cannot be
shown when there is no such file. -/
def rows (r : Reporter) (file : Nat) (d : Diagnostic) : List String :=
  let report := d.toReport file
  match report.labels with
  | [] => [report.heading, ""]
  | labels =>
    match r.files[file]? with
    | none => []
    | some f => report.heading :: f.snippetRows labels ++ [""]

/-- The text of diagnostics about the file with number `file`. -/
def render (r : Reporter) (file : Nat) (log : Log) : String :=
  textOfRows (log.flatMap (r.rows file))

end Reporter

end Procedural
