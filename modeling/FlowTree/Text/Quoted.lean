import FlowTree.Text.Printable

/-! Quoted texts: between double quotes, with escapes for quotes, backslashes and characters that
would not show. -/

set_option autoImplicit false

namespace FlowTree.Text

def hex (n : Nat) : String :=
  String.ofList (Nat.toDigits 16 n)

def escape (c : Char) : String :=
  if c = '\x00' then "\\0"
  else if c = '\t' then "\\t"
  else if c = '\r' then "\\r"
  else if c = '\n' then "\\n"
  else if c = '"' then "\\\""
  else if c = '\\' then "\\\\"
  else if isExtending c || !isPrintable c then "\\u\x7b" ++ hex c.toNat ++ "\x7d"
  else c.toString

def quoted (s : String) : String :=
  "\"" ++ String.join (s.toList.map escape) ++ "\""

def quotedList (items : List String) : String :=
  "[" ++ String.intercalate ", " (items.map quoted) ++ "]"

def quotedOption : Option String → String
  | some s => "Some(" ++ quoted s ++ ")"
  | none => "None"

end FlowTree.Text
