import FlowTree.Json.Token

/-! A JSON text as a tree.

The tree keeps what every kind of reader may have to report. A list or an object that does not end
well says how it ends (`Ending`); a value that is missing or cannot be read is a `broken` leaf, and
nothing follows it. So a reader that walks the tree in order meets the first fault of the text that
concerns it, and no later one. -/

set_option autoImplicit false

namespace FlowTree.Json

inductive Ending where
  /-- By its bracket, before the given offset. -/
  | closed (stop : Nat)
  /-- By its bracket, right after a comma. -/
  | comma (start : Nat)
  /-- By the end of the text, where a comma or the bracket could stand. -/
  | eof (offset : Nat)
  /-- By the end of the text, after a comma. -/
  | eofAfterComma (offset : Nat)
  /-- At a token that is neither a comma nor the bracket. -/
  | unexpected (start : Nat)
  /-- At a token that is no key. -/
  | notKey (token : Placed)
  /-- At a key that is not well formed. -/
  | brokenKey (start : Nat) (defect : Defect)
  /-- In its last part, which is broken. -/
  | cut

mutual

inductive Node where
  | null (start stop : Nat)
  | boolean (start stop : Nat) (b : Bool)
  | number (start stop : Nat) (value : Except Fault Number)
  | text (start stop : Nat) (value : Except Fault String)
  | list (start : Nat) (items : List Node) (ending : Ending)
  | object (start : Nat) (fields : List Field) (ending : Ending)
  /-- A text between quotes that is not well formed. -/
  | brokenText (start : Nat) (defect : Defect)
  /-- Another value that is not well formed, or no value. -/
  | broken (start : Nat) (defect : Defect)

inductive Field where
  /-- The key ends at `stop`, and `refused` is where the token after it starts. `next` is where the
  token after the value starts. -/
  | mk (key : Except Fault String) (stop refused : Nat) (value : Node) (next : Nat)

end

namespace Field

def key : Field → Except Fault String
  | mk key _ _ _ _ => key

def stop : Field → Nat
  | mk _ stop _ _ _ => stop

def refused : Field → Nat
  | mk _ _ refused _ _ => refused

def value : Field → Node
  | mk _ _ _ value _ => value

def next : Field → Nat
  | mk _ _ _ _ next => next

end Field

def Node.start : Node → Nat
  | .null start _ | .boolean start _ _ | .number start _ _ | .text start _ _
  | .list start _ _ | .object start _ _ | .brokenText start _ | .broken start _ => start

/-- A whole text: its value, and where the first token after the value starts. -/
structure Document where
  root : Node
  trailing : Option Nat

/-- A list or an object around the place that is being read, with its parts newest first. An object
waits for the value of a key. -/
inductive Frame where
  | list (start : Nat) (items : List Node)
  | object (start : Nat) (fields : List Field) (key : Except Fault String) (stop refused : Nat)

namespace Document

def cutFrames (node : Node) : List Frame → Document
  | [] => ⟨node, none⟩
  | .list start items :: frames => cutFrames (.list start (node :: items).reverse .cut) frames
  | .object start fields key stop refused :: frames =>
    cutFrames (.object start (.mk key stop refused node refused :: fields).reverse .cut) frames

inductive Turn where
  | value
  /-- The first item of the list that starts at the offset, or its end. -/
  | listStart (start : Nat)
  /-- An item after a comma. -/
  | listItem (start : Nat) (items : List Node)
  | objectStart (start : Nat)
  /-- A key after a comma. -/
  | objectKey (start : Nat) (fields : List Field)
  /-- The colon after a key. -/
  | colon (start : Nat) (fields : List Field) (key : Except Fault String) (stop : Nat)
  /-- What follows a value that is complete. -/
  | after (node : Node)

def missing (placed : Placed) : Node :=
  let fault : Fault := match placed.token with
    | .eof => ⟨.eofInValue, some placed.start⟩
    | _ => ⟨.valueExpected, some (placed.start + 1)⟩
  .broken placed.start ⟨fault, fault⟩

/-- What a token does where a value is expected: it is the value, opens one, or breaks it. -/
inductive Opening where
  | done (node : Node)
  | opens (turn : Turn)
  | breaks (node : Node)

def opening (placed : Placed) : Opening :=
  match placed.token with
  | .null => .done (.null placed.start placed.stop)
  | .boolean b => .done (.boolean placed.start placed.stop b)
  | .number value => .done (.number placed.start placed.stop value)
  | .text value => .done (.text placed.start placed.stop value)
  | .openList => .opens (.listStart placed.start)
  | .openObject => .opens (.objectStart placed.start)
  | .brokenText defect => .breaks (.brokenText placed.start defect)
  | .brokenValue defect => .breaks (.broken placed.start defect)
  | _ => .breaks (missing placed)

def keyless (placed : Placed) : Ending :=
  match placed.token with
  | .brokenText defect => .brokenKey placed.start defect
  | _ => .notKey placed

/-- Builds the tree from the tokens, with the frames around the current place. The last token of a
text is its end or a broken token, which always closes the tree. -/
def build (turn : Turn) (frames : List Frame) : List Placed → Document
  | [] => cutFrames (.broken 0 ⟨⟨.eofInValue, some 0⟩, ⟨.eofInValue, some 0⟩⟩) frames
  | placed :: rest =>
    let start := placed.start
    match turn with
    | .value =>
      match opening placed with
      | .done node => build (.after node) frames rest
      | .opens turn => build turn frames rest
      | .breaks node => cutFrames node frames
    | .listStart list =>
      match placed.token with
      | .closeList => build (.after (.list list [] (.closed placed.stop))) frames rest
      | .eof => cutFrames (.list list [] (.eof start)) frames
      | _ =>
        match opening placed with
        | .done node => build (.after node) (.list list [] :: frames) rest
        | .opens turn => build turn (.list list [] :: frames) rest
        | .breaks node => cutFrames node (.list list [] :: frames)
    | .listItem list items =>
      match placed.token with
      | .closeList => cutFrames (.list list items.reverse (.comma start)) frames
      | .eof => cutFrames (.list list items.reverse (.eofAfterComma start)) frames
      | _ =>
        match opening placed with
        | .done node => build (.after node) (.list list items :: frames) rest
        | .opens turn => build turn (.list list items :: frames) rest
        | .breaks node => cutFrames node (.list list items :: frames)
    | .objectStart object =>
      match placed.token with
      | .closeObject => build (.after (.object object [] (.closed placed.stop))) frames rest
      | .eof => cutFrames (.object object [] (.eof start)) frames
      | .text key => build (.colon object [] key placed.stop) frames rest
      | _ => cutFrames (.object object [] (keyless placed)) frames
    | .objectKey object fields =>
      match placed.token with
      | .closeObject => cutFrames (.object object fields.reverse (.comma start)) frames
      | .eof => cutFrames (.object object fields.reverse (.eofAfterComma start)) frames
      | .text key => build (.colon object fields key placed.stop) frames rest
      | _ => cutFrames (.object object fields.reverse (keyless placed)) frames
    | .colon object fields key stop =>
      match placed.token with
      | .colon => build .value (.object object fields key stop start :: frames) rest
      | token =>
        let fault : Fault := match token with
          | .eof => ⟨.eofInObject, some start⟩
          | _ => ⟨.colonExpected, some (start + 1)⟩
        -- A reader that refuses the key looks for the end of the object from here.
        let refused := match token with
          | .closeObject => placed.stop
          | _ => start
        cutFrames (.broken start ⟨fault, fault⟩) (.object object fields key stop refused :: frames)
    | .after node =>
      match frames with
      | [] =>
        match placed.token with
        | .eof => ⟨node, none⟩
        | _ => ⟨node, some start⟩
      | .list list items :: frames =>
        let items := node :: items
        match placed.token with
        | .comma => build (.listItem list items) frames rest
        | .closeList => build (.after (.list list items.reverse (.closed placed.stop))) frames rest
        | .eof => cutFrames (.list list items.reverse (.eof start)) frames
        | _ => cutFrames (.list list items.reverse (.unexpected start)) frames
      | .object object fields key stop refused :: frames =>
        let fields := .mk key stop refused node start :: fields
        match placed.token with
        | .comma => build (.objectKey object fields) frames rest
        | .closeObject =>
          build (.after (.object object fields.reverse (.closed placed.stop))) frames rest
        | .eof => cutFrames (.object object fields.reverse (.eof start)) frames
        | _ => cutFrames (.object object fields.reverse (.unexpected start)) frames

def read (text : String) : Document :=
  build .value [] (Token.list text)

end Document

end FlowTree.Json
