import MidiScore.Yaml.Token

/-!
# Nodes of a YAML text

Tokens make up nodes: texts, lists and records, of which some have an anchor and
some are aliases of an anchored one.  Where the tokens make no sense or break off,
the node is cut, and so is whatever it stands in.
-/

namespace MidiScore.Yaml

/-- A node. -/
inductive Node where
  /-- A text and whether it stood without quotes. -/
  | scalar (plain : Bool) (content : String)
  | list (items : List Node)
  | record (fields : List (Node × Node))
  /-- Stands for the node with the anchor of a number. -/
  | alias (number : Nat)
  | anchored (number : Nat) (node : Node)
  | cut
  deriving Repr, Inhabited

/-- The tokens that are left, and the numbers of the anchors so far. -/
structure NodeReader where
  tokens : List Token
  anchors : List (String × Nat)
  /-- Whether a node was cut. -/
  broken : Bool
  deriving Repr, DecidableEq

namespace NodeReader

/-- Before the first node. -/
def start (tokens : List Token) : NodeReader := ⟨tokens, [], false⟩

/-- With other tokens left. -/
def goto (reader : NodeReader) (tokens : List Token) : NodeReader :=
  { reader with tokens := tokens }

/-- Stop here. -/
def fail (reader : NodeReader) : NodeReader :=
  { reader with broken := true }

/-- Whether one of some tokens comes next. -/
def meets (reader : NodeReader) (tokens : List Token) : Bool :=
  reader.tokens.head?.any tokens.contains

/-- Number an anchor.  The number is how many names were in use before, so a name
that is used again may share its number with the next new name. -/
def define (reader : NodeReader) (name : String) : Nat × NodeReader :=
  let number := reader.anchors.length
  let others := reader.anchors.filter (·.1 != name)
  (number, { reader with anchors := (name, number) :: others })

end NodeReader

namespace Node

/-- What stands where nothing was written. -/
def empty : Node := .scalar true ""

mutual

/-- Read a node.  `block` allows block collections, and `indentless` lists whose
dashes stand in the column of their key. -/
def read (fuel : Nat) (block indentless : Bool) (reader : NodeReader) : Node × NodeReader :=
  match fuel with
  | 0 => (.cut, reader.fail)
  | fuel + 1 =>
      match reader.tokens with
      | .alias name :: rest =>
          match reader.anchors.lookup name with
          | some number => (.alias number, reader.goto rest)
          | none => (.cut, reader.fail)
      | .anchor name :: rest =>
          let (number, reader) := (reader.goto rest).define name
          let (node, reader) := readContent fuel block indentless true reader
          (.anchored number node, reader)
      | _ => readContent fuel block indentless false reader

/-- Read a node after its anchor, which may stand for an empty one. -/
def readContent (fuel : Nat) (block indentless anchored : Bool) (reader : NodeReader) :
    Node × NodeReader :=
  match fuel with
  | 0 => (.cut, reader.fail)
  | fuel + 1 =>
      match reader.tokens, block, indentless with
      | .blockEntry :: _, _, true =>
          let (items, reader) := readIndentless fuel reader
          (.list items, reader)
      | .scalar plain content :: rest, _, _ => (.scalar plain content, reader.goto rest)
      | .flowSequence :: rest, _, _ =>
          let (items, reader) := readFlowItems fuel true (reader.goto rest)
          (.list items, reader)
      | .flowMapping :: rest, _, _ =>
          let (fields, reader) := readFlowFields fuel true (reader.goto rest)
          (.record fields, reader)
      | .blockSequence :: rest, true, _ =>
          let (items, reader) := readBlockItems fuel (reader.goto rest)
          (.list items, reader)
      | .blockMapping :: rest, true, _ =>
          let (fields, reader) := readBlockFields fuel (reader.goto rest)
          (.record fields, reader)
      | [], _, _ => (.cut, reader.fail)
      | _, _, _ => if anchored then (empty, reader) else (.cut, reader.fail)

/-- Read a node, unless one of some tokens shows that it is empty. -/
def readUnless (fuel : Nat) (stops : List Token) (block indentless : Bool)
    (reader : NodeReader) : Node × NodeReader :=
  match fuel with
  | 0 => (.cut, reader.fail)
  | fuel + 1 =>
      if reader.meets stops then (empty, reader) else read fuel block indentless reader

/-- Read what follows a key, which may be nothing. -/
def readValue (fuel : Nat) (stops : List Token) (block : Bool) (reader : NodeReader) :
    Node × NodeReader :=
  match fuel with
  | 0 => (.cut, reader.fail)
  | fuel + 1 =>
      if reader.broken then (.cut, reader)
      else
        match reader.tokens with
        | .value :: rest => readUnless fuel stops block block (reader.goto rest)
        | [] => (.cut, reader.fail)
        | _ => (empty, reader)

/-- Read the items of a block list to its end. -/
def readBlockItems (fuel : Nat) (reader : NodeReader) : List Node × NodeReader :=
  match fuel with
  | 0 => ([.cut], reader.fail)
  | fuel + 1 =>
      match reader.tokens with
      | .blockEntry :: rest =>
          let (item, reader) :=
            readUnless fuel [.blockEntry, .blockEnd] true false (reader.goto rest)
          if reader.broken then ([item], reader)
          else
            let (items, reader) := readBlockItems fuel reader
            (item :: items, reader)
      | .blockEnd :: rest => ([], reader.goto rest)
      | _ => ([.cut], reader.fail)

/-- Read the items of a block list that is not indented. -/
def readIndentless (fuel : Nat) (reader : NodeReader) : List Node × NodeReader :=
  match fuel with
  | 0 => ([.cut], reader.fail)
  | fuel + 1 =>
      match reader.tokens with
      | .blockEntry :: rest =>
          let (item, reader) :=
            readUnless fuel [.blockEntry, .key, .value, .blockEnd] true false (reader.goto rest)
          if reader.broken then ([item], reader)
          else
            let (items, reader) := readIndentless fuel reader
            (item :: items, reader)
      | [] => ([.cut], reader.fail)
      | _ => ([], reader)

/-- Read the fields of a block record to its end. -/
def readBlockFields (fuel : Nat) (reader : NodeReader) : List (Node × Node) × NodeReader :=
  match fuel with
  | 0 => ([(.cut, .cut)], reader.fail)
  | fuel + 1 =>
      match reader.tokens with
      | .key :: rest =>
          let stops := [.key, .value, .blockEnd]
          let (name, reader) := readUnless fuel stops true true (reader.goto rest)
          let (value, reader) := readValue fuel stops true reader
          if reader.broken then ([(name, value)], reader)
          else
            let (fields, reader) := readBlockFields fuel reader
            ((name, value) :: fields, reader)
      | .blockEnd :: rest => ([], reader.goto rest)
      | _ => ([(.cut, .cut)], reader.fail)

/-- Read the items of a list in brackets to its end. -/
def readFlowItems (fuel : Nat) (first : Bool) (reader : NodeReader) : List Node × NodeReader :=
  match fuel with
  | 0 => ([.cut], reader.fail)
  | fuel + 1 =>
      let next :=
        match first, reader.tokens with
        | false, .flowEntry :: rest => some (reader.goto rest)
        | false, _ => none
        | true, _ => some reader
      match reader.tokens, next with
      | .flowSequenceEnd :: rest, _ => ([], reader.goto rest)
      | _, none => ([.cut], reader.fail)
      | _, some reader =>
          match reader.tokens with
          | .flowSequenceEnd :: rest => ([], reader.goto rest)
          | _ =>
              let (item, reader) := readFlowItem fuel reader
              if reader.broken then ([item], reader)
              else
                let (items, reader) := readFlowItems fuel false reader
                (item :: items, reader)

/-- Read an item of a list in brackets, which may be a single field.  Where the
field has no name, the token that shows this is passed over. -/
def readFlowItem (fuel : Nat) (reader : NodeReader) : Node × NodeReader :=
  match fuel with
  | 0 => (.cut, reader.fail)
  | fuel + 1 =>
      match reader.tokens with
      | .key :: rest =>
          let reader := reader.goto rest
          let (name, reader) :=
            if reader.meets [.value, .flowEntry, .flowSequenceEnd] then
              (empty, reader.goto (reader.tokens.drop 1))
            else read fuel false false reader
          let (value, reader) := readValue fuel [.flowEntry, .flowSequenceEnd] false reader
          (.record [(name, value)], reader)
      | _ => read fuel false false reader

/-- Read the fields of a record in braces to its end. -/
def readFlowFields (fuel : Nat) (first : Bool) (reader : NodeReader) :
    List (Node × Node) × NodeReader :=
  match fuel with
  | 0 => ([(.cut, .cut)], reader.fail)
  | fuel + 1 =>
      let next :=
        match first, reader.tokens with
        | false, .flowEntry :: rest => some (reader.goto rest)
        | false, _ => none
        | true, _ => some reader
      match reader.tokens, next with
      | .flowMappingEnd :: rest, _ => ([], reader.goto rest)
      | _, none => ([(.cut, .cut)], reader.fail)
      | _, some reader =>
          match reader.tokens with
          | .flowMappingEnd :: rest => ([], reader.goto rest)
          | _ =>
              let (field, reader) := readFlowField fuel reader
              if reader.broken then ([field], reader)
              else
                let (fields, reader) := readFlowFields fuel false reader
                (field :: fields, reader)

/-- Read a field of a record in braces.  One that is not marked as a key has no
value. -/
def readFlowField (fuel : Nat) (reader : NodeReader) : (Node × Node) × NodeReader :=
  match fuel with
  | 0 => ((.cut, .cut), reader.fail)
  | fuel + 1 =>
      match reader.tokens with
      | .key :: rest =>
          let (name, reader) :=
            readUnless fuel [.value, .flowEntry, .flowMappingEnd] false false (reader.goto rest)
          let (value, reader) := readValue fuel [.flowEntry, .flowMappingEnd] false reader
          ((name, value), reader)
      | _ =>
          let (name, reader) := read fuel false false reader
          ((name, if reader.broken then .cut else empty), reader)

end

/-- Read a node from all tokens that are left.  Between two tokens that are taken
there are at most five calls. -/
def readAll (block : Bool) (reader : NodeReader) : Node × NodeReader :=
  read (6 * reader.tokens.length + 6) block false reader

end Node

end MidiScore.Yaml
