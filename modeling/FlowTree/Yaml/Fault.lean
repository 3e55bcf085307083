import FlowTree.Mismatch
import FlowTree.Yaml.Mark

/-! Why a YAML text is refused, and where. -/

set_option autoImplicit false

namespace FlowTree.Yaml

inductive Problem where
  | unexpectedCharacter
  | colonMissing
  | entryOutOfPlace
  | keyOutOfPlace
  | valueOutOfPlace
  | directiveNameMissing
  | directiveNameUnended
  | directiveUnknown
  | lineEndExpected
  | versionDotMissing
  | versionTooLong
  | versionMissing
  | tagSpaceExpected
  | tagEndExpected
  | tagBangMissing
  | tagCloseMissing
  | tagTextMissing
  | tagOctetMissing
  | tagOctetLeading
  | tagOctetTrailing
  | anchorNameMissing
  | indentationZero
  | indentationTab
  | markerInQuotes
  | endInQuotes
  | escapeUnknown
  | escapeDigitMissing
  | escapeOutOfRange
  | colonInFlow
  | tabInIndentation
  | documentStartMissing
  | versionRepeated
  | versionUnsupported
  | tagDirectiveRepeated
  | tagHandleUndefined
  | nodeMissing
  | dashMissing
  | keyMissing
  | flowSequenceUnended
  | flowMappingUnended
  deriving DecidableEq

def Problem.message : Problem → String
  | .unexpectedCharacter => "found character that cannot start any token"
  | .colonMissing => "could not find expected ':'"
  | .entryOutOfPlace => "block sequence entries are not allowed in this context"
  | .keyOutOfPlace => "mapping keys are not allowed in this context"
  | .valueOutOfPlace => "mapping values are not allowed in this context"
  | .directiveNameMissing => "could not find expected directive name"
  | .directiveNameUnended => "found unexpected non-alphabetical character"
  | .directiveUnknown => "found unknown directive name"
  | .lineEndExpected => "did not find expected comment or line break"
  | .versionDotMissing => "did not find expected digit or '.' character"
  | .versionTooLong => "found extremely long version number"
  | .versionMissing => "did not find expected version number"
  | .tagSpaceExpected => "did not find expected whitespace"
  | .tagEndExpected => "did not find expected whitespace or line break"
  | .tagBangMissing => "did not find expected '!'"
  | .tagCloseMissing => "did not find the expected '>'"
  | .tagTextMissing => "did not find expected tag URI"
  | .tagOctetMissing => "did not find URI escaped octet"
  | .tagOctetLeading => "found an incorrect leading UTF-8 octet"
  | .tagOctetTrailing => "found an incorrect trailing UTF-8 octet"
  | .anchorNameMissing => "did not find expected alphabetic or numeric character"
  | .indentationZero => "found an indentation indicator equal to 0"
  | .indentationTab => "found a tab character where an indentation space is expected"
  | .markerInQuotes => "found unexpected document indicator"
  | .endInQuotes => "found unexpected end of stream"
  | .escapeUnknown => "found unknown escape character"
  | .escapeDigitMissing => "did not find expected hexdecimal number"
  | .escapeOutOfRange => "found invalid Unicode character escape code"
  | .colonInFlow => "found unexpected ':'"
  | .tabInIndentation => "found a tab character that violates indentation"
  | .documentStartMissing => "did not find expected <document start>"
  | .versionRepeated => "found duplicate %YAML directive"
  | .versionUnsupported => "found incompatible YAML document"
  | .tagDirectiveRepeated => "found duplicate %TAG directive"
  | .tagHandleUndefined => "found undefined tag handle"
  | .nodeMissing => "did not find expected node content"
  | .dashMissing => "did not find expected '-' indicator"
  | .keyMissing => "did not find expected key"
  | .flowSequenceUnended => "did not find expected ',' or ']'"
  | .flowMappingUnended => "did not find expected ',' or '\x7d'"

inductive Activity where
  | simpleKey
  | nextToken
  | directive
  | versionDirective
  | tagDirective
  | tagDirectiveHandle
  | tagDirectiveHandleEnd
  | tagDirectiveText
  | anchor
  | alias
  | tag
  | tagText
  | blockScalar
  | plainScalar
  | quotedScalar
  | escape
  | node
  | blockNode
  | flowNode
  | blockSequence
  | blockMapping
  | flowSequence
  | flowMapping
  deriving DecidableEq

def Activity.message : Activity → String
  | .simpleKey => "while scanning a simple key"
  | .nextToken => "while scanning for the next token"
  | .directive => "while scanning a directive"
  | .versionDirective => "while scanning a %YAML directive"
  | .tagDirective => "while scanning a %TAG directive"
  | .tagDirectiveHandle => "while scanning a tag directive"
  | .tagDirectiveHandleEnd => "while parsing a tag directive"
  | .tagDirectiveText => "while parsing a %TAG directive"
  | .anchor => "while scanning an anchor"
  | .alias => "while scanning an alias"
  | .tag => "while scanning a tag"
  | .tagText => "while parsing a tag"
  | .blockScalar => "while scanning a block scalar"
  | .plainScalar => "while scanning a plain scalar"
  | .quotedScalar => "while scanning a quoted scalar"
  | .escape => "while parsing a quoted scalar"
  | .node => "while parsing a node"
  | .blockNode => "while parsing a block node"
  | .flowNode => "while parsing a flow node"
  | .blockSequence => "while parsing a block collection"
  | .blockMapping => "while parsing a block mapping"
  | .flowSequence => "while parsing a flow sequence"
  | .flowMapping => "while parsing a flow mapping"

/-- Where a value stands in its document, innermost part first. -/
inductive Path where
  | root
  | item (parent : Path) (index : Nat)
  | field (parent : Path) (key : String)
  /-- The value of a key that is not a scalar of its own. -/
  | unnamedField (parent : Path)
  deriving DecidableEq

/-- The keys and indices from the root on. The root itself is a point. -/
def Path.text : Path → String
  | root => "."
  | item parent index => parent.text ++ "[" ++ Text.decimal index ++ "]"
  | field parent key => (if parent = root then "" else parent.text ++ ".") ++ key
  | unnamedField parent => (if parent = root then "" else parent.text ++ ".") ++ "?"

inductive Fault where
  /-- A text that is not well formed. -/
  | malformed (problem : Problem) (mark : Mark) (activity : Option (Activity × Mark))
  /-- A character that no text may hold, at an offset in bytes. -/
  | forbiddenCharacter (offset : Nat)
  | unknownAnchor (mark : Mark)
  /-- A value that is not what its reader expects; the place is that of the innermost value that is
  placed. -/
  | mismatch (mismatch : Mismatch) (place : Option (Mark × Path))
  | nestingTooDeep (mark : Mark)
  /-- Aliases have been followed too often. -/
  | tooManyAliases
  | severalDocuments
  | noValue
  deriving DecidableEq

namespace Fault

/-- The start of what was being read is named unless it is where the problem is. -/
def activitySuffix (problem : Mark) : Option (Activity × Mark) → String
  | none => ""
  | some (activity, start) =>
    let apart := start.line ≠ problem.line || start.column ≠ problem.column
    ", " ++ activity.message ++ (if apart then start.suffix else "")

def message : Fault → String
  | malformed problem mark activity =>
    problem.message ++ mark.suffix ++ activitySuffix mark activity
  | forbiddenCharacter offset =>
    "control characters are not allowed" ++
      (if offset = 0 then "" else " at position " ++ Text.decimal offset)
  | unknownAnchor mark => "unknown anchor" ++ mark.suffix
  | mismatch found none => found.message "unit value"
  | mismatch found (some (mark, path)) =>
    (if path.text = "." then "" else path.text ++ ": ") ++ found.message "unit value" ++ mark.suffix
  | nestingTooDeep mark => "recursion limit exceeded" ++ mark.suffix
  | tooManyAliases => "repetition limit exceeded"
  | severalDocuments =>
    "deserializing from YAML containing more than one document is not supported"
  | noValue => "EOF while parsing a value"

end Fault

/-- The fault of a text that is not well formed in something that starts at `start`. -/
def malformed {α : Type} (problem : Problem) (mark : Mark) (activity : Activity) (start : Mark) :
    Except Fault α :=
  .error (.malformed problem mark (some (activity, start)))

end FlowTree.Yaml
