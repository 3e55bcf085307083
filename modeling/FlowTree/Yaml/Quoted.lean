import FlowTree.Text.Radix
import FlowTree.Yaml.Gap
import FlowTree.Yaml.Token

/-! Scalars between quotes. -/

set_option autoImplicit false

namespace FlowTree.Yaml

inductive Escape where
  | char (c : Char)
  /-- The number of a character, in so many hexadecimal digits. -/
  | code (digits : Nat)

def Escape.ofLetter? : Char → Option Escape
  | '0' => some (.char '\x00')
  | 'a' => some (.char '\x07')
  | 'b' => some (.char '\x08')
  | 't' => some (.char '\t')
  | '\t' => some (.char '\t')
  | 'n' => some (.char '\n')
  | 'v' => some (.char '\x0b')
  | 'f' => some (.char '\x0c')
  | 'r' => some (.char '\r')
  | 'e' => some (.char '\x1b')
  | ' ' => some (.char ' ')
  | '"' => some (.char '"')
  | '/' => some (.char '/')
  | '\\' => some (.char '\\')
  | 'N' => some (.char '\u0085')
  | '_' => some (.char '\u00a0')
  | 'L' => some (.char '\u2028')
  | 'P' => some (.char '\u2029')
  | 'x' => some (.code 2)
  | 'u' => some (.code 4)
  | 'U' => some (.code 8)
  | _ => none

def codeEscape (digits : Nat) (start mark : Mark) (cs : List Char) : Except Fault Char :=
  let numeral := cs.take digits
  match Text.naturalIn? 16 numeral with
  | some code =>
    if numeral.length < digits then malformed .escapeDigitMissing mark .escape start
    else if code.isValidChar then .ok (Char.ofNat code)
    else malformed .escapeOutOfRange mark .escape start
  | none => malformed .escapeDigitMissing mark .escape start

namespace QuotedScalar

/-- Reads on up to the closing quote. `gap` is the white space since the last word. -/
def scanFrom (single : Bool) (start : Mark) (reversed : List Char) (gap : Option Gap) (mark : Mark)
    (cs : List Char) : Except Fault (String × Position) :=
  let text := Gap.reversedOf gap ++ reversed
  if mark.column = 0 && startsMarker cs then malformed .markerInQuotes mark .quotedScalar start
  else match cs with
    | [] => malformed .endInQuotes mark .quotedScalar start
    | '\r' :: '\n' :: rest =>
      scanFrom single start reversed (Gap.extendBreak '\n' gap) (mark.nextLine 2) rest
    | c :: rest =>
      if isBlank c then
        scanFrom single start reversed (Gap.extendBlank c gap) mark.next rest
      else if isBreak c then
        scanFrom single start reversed (Gap.extendBreak (breakText c) gap) mark.nextLine rest
      else if single && c = '\'' then
        match rest with
        | '\'' :: rest => scanFrom single start ('\'' :: text) none (mark.next 2) rest
        | rest => .ok (String.ofList text.reverse, ⟨mark.next, rest⟩)
      else if !single && c = '"' then .ok (String.ofList text.reverse, ⟨mark.next, rest⟩)
      else if !single && c = '\\' then
        match rest with
        | [] => malformed .escapeUnknown mark .escape start
        | '\r' :: '\n' :: rest =>
          scanFrom single start text (some (.lines none [])) (mark.next.nextLine 2) rest
        | d :: rest =>
          if isBreak d then
            scanFrom single start text (some (.lines none [])) mark.next.nextLine rest
          else
            match Escape.ofLetter? d with
            | some (.char e) => scanFrom single start (e :: text) none (mark.next 2) rest
            | some (.code digits) =>
              match codeEscape digits start (mark.next 2) rest with
              | .ok e =>
                scanFrom single start (e :: text) none (mark.next (2 + digits)) (rest.drop digits)
              | .error fault => .error fault
            | none => malformed .escapeUnknown mark .escape start
      else scanFrom single start (c :: text) none mark.next rest
termination_by cs.length
decreasing_by all_goals simp_all only [List.length_cons, List.length_drop]; omega

def scan (single : Bool) (here : Position) : Except Fault (String × Position) :=
  scanFrom single here.mark [] none here.mark.next (here.rest.drop 1)

end QuotedScalar

end FlowTree.Yaml
