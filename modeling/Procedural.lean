import Procedural.Context.Script
import Procedural.Proofs.Analysis.Alike
import Procedural.Proofs.Analysis.Annotation
import Procedural.Proofs.Analysis.Balance
import Procedural.Proofs.Analysis.Blame
import Procedural.Proofs.Analysis.Explained
import Procedural.Proofs.Analysis.Isolation
import Procedural.Proofs.Analysis.Program
import Procedural.Proofs.Findings.Analysis
import Procedural.Proofs.Findings.Basic
import Procedural.Proofs.Findings.Exits
import Procedural.Proofs.Findings.Openings
import Procedural.Proofs.Findings.Simplify
import Procedural.Proofs.Folding.Analyzed
import Procedural.Proofs.Folding.Constants
import Procedural.Proofs.Folding.Meaning
import Procedural.Proofs.Folding.Stable
import Procedural.Proofs.Guarded.Expr
import Procedural.Proofs.Guarded.Settles
import Procedural.Proofs.Guarded.Sound
import Procedural.Proofs.Relabel.Uniform
import Procedural.Proofs.Rules.Judgment
import Procedural.Proofs.Rules.Known
import Procedural.Proofs.Scope.Interned
import Procedural.Proofs.Semantics.Laws
import Procedural.Proofs.Simplify.FixedPoint
import Procedural.Proofs.Simplify.Meaning
import Procedural.Proofs.Simplify.WellFormed
import Procedural.Proofs.Syntax.Bare
import Procedural.Proofs.Syntax.Gap
import Procedural.Report.Render
import Procedural.Scope.History
import Procedural.Syntax.Agreement
import Procedural.Proofs.Analysis.Demands
import Procedural.Proofs.Simplify.Prune
import Procedural.Proofs.Analysis.Reorder
import Procedural.Proofs.Simplify.NormalForm
import Procedural.Proofs.Ty.Readable
import Procedural.Proofs.Analysis.Equality
import Procedural.Proofs.Context.Brackets
import Procedural.Proofs.Compile
import Procedural.Proofs.Report.Shown
