import FlowTree.Yaml.Mark

/-! White space inside scalars, and how line breaks in it are folded. -/

set_option autoImplicit false

namespace FlowTree.Yaml

inductive Gap where
  /-- Blanks on one line, newest first. -/
  | blanks (reversed : List Char)
  /-- Line breaks with the blanks around them: the first break, unless it is escaped, and the later
  ones, newest first. -/
  | lines (first : Option Char) (later : List Char)

namespace Gap

def blank (c : Char) : Gap → Gap
  | blanks reversed => blanks (c :: reversed)
  | lines first later => lines first later

def lineBreak (c : Char) : Gap → Gap
  | blanks _ => lines (some c) []
  | lines first later => lines first (c :: later)

def isLines : Gap → Bool
  | blanks _ => false
  | lines _ _ => true

/-- What the gap adds to its scalar, last character first. A line feed alone becomes a space, and
with more breaks after it becomes nothing. -/
def reversed : Gap → List Char
  | blanks reversed => reversed
  | lines (some '\n') [] => [' ']
  | lines (some '\n') later => later
  | lines first later => later ++ first.toList

def reversedOf : Option Gap → List Char
  | none => []
  | some gap => gap.reversed

def extendBlank (c : Char) (gap : Option Gap) : Option Gap :=
  some ((gap.getD (blanks [])).blank c)

def extendBreak (c : Char) (gap : Option Gap) : Option Gap :=
  some ((gap.getD (blanks [])).lineBreak c)

end Gap

end FlowTree.Yaml
