/-!
# Glyphs of a YAML text

A YAML text is read as a list of glyphs, each a character with its place.  The
ways of ending a line are one glyph each, and the list is closed by an end glyph,
whose character may not occur in a text.
-/

namespace MidiScore.Yaml

/-- A character at its place in a text. -/
structure Glyph where
  char : Char
  /-- Bytes before it. -/
  index : Nat
  /-- Line breaks before it. -/
  line : Nat
  /-- Characters before it on its line. -/
  column : Nat
  deriving Repr, DecidableEq

/-- The character of the end glyph. -/
def endMark : Char := '\x00'

/-- The mark that a text may start with to say how it is encoded, and that each of its
lines may start with. -/
def byteOrderMark : Char := '\ufeff'

/-- Whether a YAML text may contain a character. -/
def isAllowed (c : Char) : Bool :=
  let n := c.toNat
  n == 0x9 || n == 0xA || n == 0xD || (0x20 ≤ n && n ≤ 0x7E) || n == 0x85 ||
    (0xA0 ≤ n && n ≤ 0xD7FF) || (0xE000 ≤ n && n ≤ 0xFFFD) || 0x10000 ≤ n

/-- Whether a character separates words on a line. -/
def isBlank (c : Char) : Bool :=
  c == ' ' || c == '\t'

/-- Whether a character ends a line. -/
def isBreak (c : Char) : Bool :=
  c == '\n' || c == '\u2028' || c == '\u2029'

/-- Whether a character ends a word. -/
def isSpacing (c : Char) : Bool :=
  isBlank c || isBreak c || c == endMark

namespace Glyph

/-- The glyphs of characters from a place on. -/
def place (index line column : Nat) : List Char → List Glyph
  | [] => [⟨endMark, index, line, column⟩]
  | '\r' :: '\n' :: rest => ⟨'\n', index, line, column⟩ :: place (index + 2) (line + 1) 0 rest
  | c :: rest =>
      let shown := if c == '\r' || c == '\x85' then '\n' else c
      ⟨shown, index, line, column⟩ ::
        if isBreak shown then place (index + c.utf8Size) (line + 1) 0 rest
        else place (index + c.utf8Size) line (column + 1) rest

/-- Most bytes of a text that are taken in together. -/
def chunkBytes : Nat := 16384

/-- The chunks of a text before the first one with a character that is not allowed,
and whether there is no such chunk.  Read so far, in reverse, are the chunks `past` and
the start of one more, which has room for some more bytes. -/
def allowedPart (past chunk : List Char) (room : Nat) : List Char → List Char × Bool
  | [] => ((chunk ++ past).reverse, true)
  | c :: rest =>
      if c.utf8Size ≤ room then
        if isAllowed c then allowedPart past (c :: chunk) (room - c.utf8Size) rest
        else (past.reverse, false)
      else if isAllowed c then allowedPart (chunk ++ past) [c] (chunkBytes - c.utf8Size) rest
      else ((chunk ++ past).reverse, false)

/-- The glyphs of a text.  Where a character is not allowed they break off before its
chunk, without an end glyph. -/
def ofText (text : String) : List Glyph :=
  let (cs, isWhole) := allowedPart [] [] chunkBytes text.toList
  let glyphs := place 0 0 0 cs
  if isWhole then glyphs else glyphs.dropLast

/-- Whether a glyph is a byte order mark that starts a line. -/
def isLineMark (glyph : Glyph) : Bool :=
  glyph.char == byteOrderMark && glyph.column == 0

/-- The character of the first glyph. -/
def ahead : List Glyph → Char
  | [] => endMark
  | glyph :: _ => glyph.char

/-- Whether the glyphs start at a line with three equal marks and no more in their
word, which separate documents. -/
def isSeparator (mark : Char) : List Glyph → Bool
  | first :: second :: third :: rest =>
      first.column == 0 && first.char == mark && second.char == mark && third.char == mark &&
        isSpacing (ahead rest)
  | _ => false

/-- Whether the glyphs start with a line that starts or ends a document. -/
def atBoundary (glyphs : List Glyph) : Bool :=
  isSeparator '-' glyphs || isSeparator '.' glyphs

end Glyph

end MidiScore.Yaml
