import Procedural.Ty

/-! # The text of a type

Types as they appear in messages: basic types by their keyword, functions as
`function(int, real) -> boolean`. -/

namespace Procedural.Ty

mutual

/-- The text of a type. -/
def text : Ty → String
  | int => "int"
  | real => "real"
  | bool => "boolean"
  | char => "char"
  | str => "string"
  | void => "void"
  | error => "<error>"
  | fn ps r => "function(" ++ listText ps ++ ") -> " ++ r.text

/-- The texts of several types, separated by a comma and a space. -/
def listText : List Ty → String
  | [] => ""
  | [p] => p.text
  | p :: q :: ps => p.text ++ ", " ++ listText (q :: ps)

end

end Procedural.Ty
