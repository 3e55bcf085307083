import FlowTree.Yaml.Property

/-! Directives, each on a line of its own before a document. -/

set_option autoImplicit false

namespace FlowTree.Yaml.Directive

def versionDigits : Nat := 9

def versionNumber (start : Mark) (here : Position) : Except Fault (Nat × Position) :=
  let digits := here.rest.takeWhile Text.isDigit
  if digits.length > versionDigits then
    malformed .versionTooLong (here.mark.next versionDigits) .versionDirective start
  else if digits = [] then malformed .versionMissing here.mark .versionDirective start
  else .ok (Text.value digits, here.advance digits.length)

def version (start : Mark) (here : Position) : Except Fault (Token × Position) := do
  let (major, here) ← versionNumber start (here.skipWhile isBlank)
  if here.startsWith '.' then
    let (minor, here) ← versionNumber start here.advance
    return (.versionDirective major minor, here)
  else malformed .versionDotMissing here.mark .versionDirective start

def tag (start : Mark) (here : Position) : Except Fault (Token × Position) := do
  let here := here.skipWhile isBlank
  if !here.startsWith '!' then malformed .tagBangMissing here.mark .tagDirectiveHandle start
  else
    let (handle, here) := Tag.handle here
    if handle ≠ "!" && !Tag.isNamedHandle handle then
      malformed .tagBangMissing here.mark .tagDirectiveHandleEnd start
    else if !here.rest.head?.any isBlank then
      malformed .tagSpaceExpected here.mark .tagDirective start
    else
      let (text, here) ←
        Tag.scanText true false .tagDirectiveText start (here.skipWhile isBlank)
      if atGap here.rest then return (.tagDirective handle text, here)
      else malformed .tagEndExpected here.mark .tagDirective start

def scan (here : Position) : Except Fault (Placed × Position) := do
  let start := here.mark
  let here := here.advance
  let name := here.rest.takeWhile isNameChar
  let here := here.advance name.length
  if name = [] then malformed .directiveNameMissing here.mark .directive start
  else if !atGap here.rest then malformed .directiveNameUnended here.mark .directive start
  else
    let (token, here) ← (match String.ofList name with
      | "YAML" => version start here
      | "TAG" => tag start here
      | _ => malformed .directiveUnknown here.mark .directive start)
    let stop := here.mark
    let here := (here.skipWhile isBlank).skipComment
    if atLineEnd here.rest then return (⟨token, start, stop⟩, here.lineBreak.2)
    else malformed .lineEndExpected here.mark .directive start

end FlowTree.Yaml.Directive
