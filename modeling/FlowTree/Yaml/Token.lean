import FlowTree.Yaml.Fault

/-! The tokens of a YAML text. Collections that are shown by indentation have tokens of their own at
the places where they start and end. -/

set_option autoImplicit false

namespace FlowTree.Yaml

inductive Style where
  | plain | singleQuoted | doubleQuoted | literal | folded
  deriving DecidableEq

inductive Token where
  | versionDirective (major minor : Nat)
  | tagDirective (handle text : String)
  | documentStart | documentEnd
  | blockSequenceStart | blockMappingStart | blockEnd
  | flowSequenceStart | flowSequenceEnd | flowMappingStart | flowMappingEnd
  | blockEntry | flowEntry | key | value
  | alias (name : String)
  | anchor (name : String)
  /-- A tag without a handle is written in full. -/
  | tag (handle suffix : String)
  | scalar (text : String) (style : Style)
  /-- The end of the text. -/
  | finish
  deriving DecidableEq

structure Placed where
  token : Token
  start : Mark
  stop : Mark

/-- The tokens of a text, up to its end or to a fault. -/
inductive Tokens where
  | cons (first : Placed) (rest : Tokens)
  | finish (mark : Mark)
  | broken (fault : Fault)

namespace Tokens

def peek : Tokens → Except Fault Placed
  | cons first _ => .ok first
  | finish mark => .ok ⟨.finish, mark, mark⟩
  | broken fault => .error fault

def skip : Tokens → Tokens
  | cons _ rest => rest
  | last => last

def append (front : List Placed) (rest : Tokens) : Tokens :=
  front.foldr cons rest

def size : Tokens → Nat
  | cons _ rest => rest.size + 1
  | _ => 0

end Tokens

end FlowTree.Yaml
