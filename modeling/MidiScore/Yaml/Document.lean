import MidiScore.Datum.Reader
import MidiScore.Yaml.Node

/-!
# YAML documents

A YAML text with a single document gives a datum, up to a depth that no sensible
document reaches.  Its aliases become references, which may be followed only so often
for the size of the document.
-/

namespace MidiScore.Yaml

open Datum (Fault Reading)

namespace Node

mutual

/-- The anchored nodes inside of a node, in the order in which they start. -/
def definitions : Node → List (Nat × Node)
  | .anchored number node => (number, node) :: definitions node
  | .list items => definitionsOfItems items
  | .record fields => definitionsOfFields fields
  | .scalar _ _ | .alias _ | .cut => []

/-- The anchored nodes inside of the items of a list. -/
def definitionsOfItems : List Node → List (Nat × Node)
  | [] => []
  | first :: rest => definitions first ++ definitionsOfItems rest

/-- The anchored nodes inside of the fields of a record. -/
def definitionsOfFields : List (Node × Node) → List (Nat × Node)
  | [] => []
  | (name, value) :: rest => definitions name ++ definitions value ++ definitionsOfFields rest

end

/-- The node itself, without its anchor. -/
def unanchored : Node → Node
  | .anchored _ node => node
  | node => node

/-- What the numbers of anchors stand for. -/
abbrev Anchors : Type := List (Nat × Datum)

/-- The datum of a node.  An alias of it is looked up in `here`, and what lies inside
of one more collection in the next of `deeper`; nothing lies deeper than that. -/
def toDatum (here : Anchors) (deeper : List Anchors) (node : Node) : Datum :=
  match deeper, node.unanchored with
  | _, .scalar true content => .plain content
  | _, .scalar false content => .text content
  | _, .alias number => .reference ((here.lookup number).getD .cut)
  | here :: deeper, .list items => .list (items.map (toDatum here deeper))
  | here :: deeper, .record fields =>
      .record (fields.map fun field =>
        (toDatum here deeper field.1, toDatum here deeper field.2))
  | [], .list _ | [], .record _ => .tooDeep
  | _, _ => .cut

/-- What anchors stand for inside of one collection, two and so on, up to a depth. -/
def anchorsWithin (definitions : List (Nat × Node)) : Nat → List Anchors
  | 0 => []
  | depth + 1 =>
      let deeper := anchorsWithin definitions depth
      definitions.map (fun (number, node) => (number, node.toDatum [] deeper)) :: deeper

/-- Collections that may stand inside of one another. -/
def maxDepth : Nat := 128

/-- The extent of parts one after the other. -/
def joined (first rest : Nat × Bool) : Nat × Bool :=
  (first.1 + rest.1, first.2 && rest.2)

/-- The extent of a collection around its content. -/
def enclosed (content : Nat × Bool) : Nat × Bool :=
  (content.1 + (if content.2 then 2 else 1), content.2)

mutual

/-- The marks that make up a node, which are one for a text or an alias and two around
a collection, and whether it was read to its end. -/
def extent : Node → Nat × Bool
  | .scalar _ _ | .alias _ => (1, true)
  | .anchored _ node => extent node
  | .list items => enclosed (extentOfItems items)
  | .record fields => enclosed (extentOfFields fields)
  | .cut => (0, false)

/-- The extent of the items of a list. -/
def extentOfItems : List Node → Nat × Bool
  | [] => (0, true)
  | first :: rest => joined (extent first) (extentOfItems rest)

/-- The extent of the fields of a record. -/
def extentOfFields : List (Node × Node) → Nat × Bool
  | [] => (0, true)
  | (name, value) :: rest =>
      joined (joined (extent name) (extent value)) (extentOfFields rest)

end

/-- How often aliases may be followed for each mark of a document. -/
def aliasesForMark : Nat := 100

end Node

/-- What a YAML text says. -/
structure Document where
  root : Datum
  /-- Whether the text ends where its document does. -/
  isClosed : Bool
  /-- How many references may be followed. -/
  allowance : Nat
  deriving Repr

namespace Document

/-- Read the node of the first document. -/
def readRoot (reader : NodeReader) : Node × NodeReader :=
  match reader.tokens with
  | [.textEnd] => (.empty, reader)
  | .documentStart :: rest =>
      let reader := reader.goto rest
      if reader.meets [.documentStart, .documentEnd, .textEnd] then (.empty, reader)
      else Node.readAll true reader
  | _ => Node.readAll true reader

/-- The document of a text.  Where the text is broken its root is cut. -/
def ofText (text : String) : Document :=
  let (root, reader) := readRoot (.start (Token.ofGlyphs (Glyph.ofText text)))
  let deeper := Node.anchorsWithin root.definitions.reverse Node.maxDepth
  { root := root.toDatum [] deeper
    isClosed := !reader.broken &&
      reader.tokens.dropWhile (· == .documentEnd) == [.textEnd]
    allowance := Node.aliasesForMark * root.extent.1 }

/-- Read the value that a document gives.  The text may end only after it. -/
def read {α : Type} (readRoot : Datum → Reading α) (document : Document) :
    Except Fault α := do
  let value ← (readRoot document.root).within document.allowance
  if document.isClosed then return value else throw .malformed

end Document

end MidiScore.Yaml
