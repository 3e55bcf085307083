import FlowTree.Text.CaseTable

/-! Upper and lower case of whole texts. A character may map to several, and a capital sigma that
ends a word takes its final form. -/

set_option autoImplicit false

namespace FlowTree.Text

def upperChar (c : Char) : List Char :=
  (mapCode upperRuns upperExpansions c.toNat).map Char.ofNat

def lowerChar (c : Char) : List Char :=
  (mapCode lowerRuns lowerExpansions c.toNat).map Char.ofNat

def isCased (c : Char) : Bool :=
  inRanges casedRanges c.toNat

def isIgnorable (c : Char) : Bool :=
  inRanges ignorableRanges c.toNat

def upper (s : String) : String :=
  String.ofList (s.toList.flatMap upperChar)

def startsCased (cs : List Char) : Bool :=
  match cs.dropWhile isIgnorable with
  | c :: _ => isCased c
  | [] => false

def lowerAfter (before : List Char) : List Char → List Char
  | [] => []
  | c :: rest =>
    -- Only this letter depends on the letters around it.
    let mapped :=
      if c = 'Σ' then [if startsCased before && !startsCased rest then 'ς' else 'σ']
      else lowerChar c
    mapped ++ lowerAfter (c :: before) rest

def lower (s : String) : String :=
  String.ofList (lowerAfter [] s.toList)

end FlowTree.Text
