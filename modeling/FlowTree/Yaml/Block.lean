import FlowTree.Yaml.Token

/-! Scalars that are shown by their indentation: literal ones keep their lines, folded ones join
them. -/

set_option autoImplicit false

namespace FlowTree.Yaml.BlockScalar

inductive Chomping where
  | strip | clip | keep
  deriving DecidableEq

structure Header where
  chomping : Chomping := .clip
  /-- The indentation of the lines beyond that of the parent, if it is written down. -/
  increment : Option Nat := none

def header (start : Mark) (here : Position) : Except Fault (Header × Position) :=
  let chomping? (here : Position) : Option (Chomping × Position) :=
    match here.rest with
    | '+' :: _ => some (.keep, here.advance)
    | '-' :: _ => some (.strip, here.advance)
    | _ => none
  let increment? (here : Position) : Except Fault (Option (Nat × Position)) :=
    match here.rest with
    | '0' :: _ => malformed .indentationZero here.mark .blockScalar start
    | c :: _ =>
      .ok (if Text.isDigit c then some (Text.digitValue c, here.advance) else none)
    | [] => .ok none
  match chomping? here with
  | some (chomping, here) => do
    match ← increment? here with
    | some (increment, here) => return (⟨chomping, some increment⟩, here)
    | none => return (⟨chomping, none⟩, here)
  | none => do
    match ← increment? here with
    | some (increment, here) =>
      match chomping? here with
      | some (chomping, here) => return (⟨chomping, some increment⟩, here)
      | none => return (⟨.clip, some increment⟩, here)
    | none => return ({}, here)

/-- The empty lines before a line, and the widest indentation among them and that line. -/
structure Lead where
  /-- The line breaks, newest first. -/
  breaks : List Char
  widest : Nat
  here : Position

/-- Skips indentation and empty lines. Without a known indentation all leading spaces count. -/
def leadFrom (start : Mark) (indent : Option Nat) (breaks : List Char) (widest : Nat) (mark : Mark)
    (cs : List Char) : Except Fault Lead :=
  let below := indent.all (mark.column < ·)
  let widened := max widest mark.column
  match cs with
  | [] => .ok ⟨breaks, widened, ⟨mark, []⟩⟩
  | '\r' :: '\n' :: rest => leadFrom start indent ('\n' :: breaks) widened (mark.nextLine 2) rest
  | c :: rest =>
    if below && c = ' ' then leadFrom start indent breaks widest mark.next rest
    else if below && c = '\t' then malformed .indentationTab mark .blockScalar start
    else if isBreak c then
      leadFrom start indent (breakText c :: breaks) widened mark.nextLine rest
    else .ok ⟨breaks, widened, ⟨mark, c :: rest⟩⟩

theorem leadFrom_length {start : Mark} {indent : Option Nat} {breaks : List Char} {widest : Nat}
    {mark : Mark} {cs : List Char} {lead : Lead}
    (h : leadFrom start indent breaks widest mark cs = .ok lead) :
    lead.here.rest.length ≤ cs.length := by
  fun_induction leadFrom start indent breaks widest mark cs with
  | case1 => injection h with h; subst h; simp
  | case2 _ _ _ _ _ ih => have := ih h; simp only [List.length_cons]; omega
  | case3 _ _ _ _ _ _ _ _ ih => have := ih h; simp only [List.length_cons]; omega
  | case4 => contradiction
  | case5 _ _ _ _ _ _ _ _ _ _ _ ih => have := ih h; simp only [List.length_cons]; omega
  | case6 => injection h with h; subst h; simp

structure Lines where
  /-- The text, last character first, up to the end of the last line. -/
  reversed : List Char := []
  /-- The break after the last line. -/
  lineBreak : Option Char := none
  /-- The breaks of the empty lines after it, newest first. -/
  breaks : List Char
  /-- Whether the last line starts with a blank; such lines are not folded. -/
  blankStart : Bool := false

def Lines.joined (lines : Lines) (literal blankStart : Bool) : List Char :=
  if !literal && lines.lineBreak = some '\n' && !lines.blankStart && !blankStart then
    if lines.breaks = [] then ' ' :: lines.reversed else lines.breaks ++ lines.reversed
  else lines.breaks ++ (lines.lineBreak.toList ++ lines.reversed)

def Lines.text (lines : Lines) (chomping : Chomping) : String :=
  let reversed := match chomping with
    | .strip => lines.reversed
    | .clip => lines.lineBreak.toList ++ lines.reversed
    | .keep => lines.breaks ++ (lines.lineBreak.toList ++ lines.reversed)
  String.ofList reversed.reverse

def linesFrom (literal : Bool) (start : Mark) (indent : Nat) (lines : Lines) (here : Position) :
    Except Fault (Lines × Position) :=
  if here.mark.column = indent then
    match shape : here.rest with
    | [] => .ok (lines, here)
    | c :: rest =>
      let after := Position.skipWhile ⟨here.mark.next, rest⟩ (!isBreak ·)
      let content := c :: rest.takeWhile (!isBreak ·)
      match lead : leadFrom start (some indent) [] 0 after.lineBreak.2.mark
        after.lineBreak.2.rest with
      | .error fault => .error fault
      | .ok next =>
        have : next.here.rest.length < here.rest.length := by
          have bound := leadFrom_length lead
          have := after.lineBreak_length
          have : after.rest.length ≤ rest.length := Position.skipWhile_length _ _
          simp only [shape, List.length_cons]
          omega
        linesFrom literal start indent {
          reversed := content.reverse ++ lines.joined literal (isBlank c)
          lineBreak := after.lineBreak.1
          breaks := next.breaks
          blankStart := isBlank c } next.here
  else .ok (lines, here)
termination_by here.rest.length

/-- Reads the scalar whose indicator comes next. `parent` is one more than the indentation of the
collection around it. -/
def scan (literal : Bool) (parent : Nat) (here : Position) : Except Fault (String × Position) := do
  let start := here.mark
  let (header, here) ← header start here.advance
  let here := (here.skipWhile isBlank).skipComment
  if !atLineEnd here.rest then malformed .lineEndExpected here.mark .blockScalar start
  else
    let here := here.lineBreak.2
    -- At the top `parent` is zero, and the indentation counts from the margin.
    let known := header.increment.map (parent - 1 + ·)
    let lead ← leadFrom start known [] 0 here.mark here.rest
    let indent := known.getD (max (max lead.widest parent) 1)
    let (lines, here) ← linesFrom literal start indent { breaks := lead.breaks } lead.here
    return (lines.text header.chomping, here)

end FlowTree.Yaml.BlockScalar
