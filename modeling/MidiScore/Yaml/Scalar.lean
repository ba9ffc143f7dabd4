import MidiScore.Text.Numeral
import MidiScore.Yaml.Glyph

/-!
# YAML scalars

The four ways of writing a text in YAML: without quotes, in single quotes, in
double quotes with escapes, and as an indented block of lines.  Readers give the
text and the glyphs that follow it, or nothing when the text is ill-formed.
-/

namespace MidiScore.Yaml

/-- The white space between two words of a text. -/
structure Gap where
  /-- Blanks on the line of the word before. -/
  blanks : String
  /-- Whether the line has ended. -/
  broken : Bool
  /-- The end of the first line, unless it was escaped. -/
  first : String
  /-- The ends of further lines. -/
  more : String
  deriving Repr, DecidableEq

namespace Gap

/-- No white space. -/
def none : Gap := ⟨"", false, "", ""⟩

/-- White space that starts with an escaped end of a line. -/
def escaped : Gap := ⟨"", true, "", ""⟩

/-- Whether there is no white space. -/
def isEmpty (gap : Gap) : Bool :=
  gap.blanks.isEmpty && !gap.broken

/-- White space with one more character.  Blanks at the start of a line do not
count, nor do those at the end of a line. -/
def push (gap : Gap) (c : Char) : Gap :=
  if isBreak c then
    if gap.broken then { gap with more := gap.more.push c }
    else { gap with broken := true, first := c.toString }
  else if gap.broken then gap
  else { gap with blanks := gap.blanks.push c }

/-- The text that stands for the white space: a single end of a line becomes a
space, and of several ends the first is left out. -/
def fold (gap : Gap) : String :=
  if gap.broken then
    if gap.first == "\n" then if gap.more.isEmpty then " " else gap.more
    else gap.first ++ gap.more
  else gap.blanks

end Gap

namespace Scalar

/-! ## Without quotes -/

/-- The characters with a meaning inside of brackets. -/
def isFlowMark (c : Char) : Bool :=
  [',', '[', ']', '\x7b', '\x7d'].contains c

/-- Whether a colon may not stand before a character inside of brackets. -/
def isFlowClash (c : Char) : Bool :=
  c == '?' || isFlowMark c

/-- Whether a text without quotes ends at a glyph that follows a gap. -/
def endsAfterGap (flow : Bool) (indent : Nat) (glyph : Glyph) (rest : List Glyph) : Bool :=
  glyph.char == '#' || Glyph.atBoundary (glyph :: rest) || (!flow && glyph.column < indent)

/-- Read a text without quotes, after the `text` and the `gap` that were read.
Outside of brackets its lines are indented by `indent`.  It is also told whether
the glyphs that follow stand on a line of their own. -/
def plain? (flow : Bool) (indent : Nat) (text : String) (gap : Gap) :
    List Glyph → Option (String × Bool × List Glyph)
  | [] => some (text, gap.broken, [])
  | glyph :: rest =>
      let c := glyph.char
      let next := Glyph.ahead rest
      if isBlank c || isBreak c then
        if gap.broken && c == '\t' && glyph.column < indent then none
        else plain? flow indent text (gap.push c) rest
      else if c == endMark || (!gap.isEmpty && endsAfterGap flow indent glyph rest) then
        some (text, gap.broken, glyph :: rest)
      else if flow && c == ':' && isFlowClash next then none
      else if (c == ':' && isSpacing next) || (flow && isFlowMark c) then
        some (text, gap.broken, glyph :: rest)
      else plain? flow indent ((text ++ gap.fold).push c) .none rest

/-! ## In quotes -/

/-- Read a text in single quotes, after its opening quote and the `text` and the
`gap` that were read.  Two quotes stand for one. -/
def singleQuoted? (text : String) (gap : Gap) : List Glyph → Option (String × List Glyph)
  | [] => none
  | glyph :: rest =>
      let c := glyph.char
      if isBlank c || isBreak c then singleQuoted? text (gap.push c) rest
      else if c == endMark || Glyph.atBoundary (glyph :: rest) then none
      else
        let text := text ++ gap.fold
        if c == '\'' then
          match rest with
          | second :: rest =>
              if second.char == '\'' then singleQuoted? (text.push c) .none rest
              else some (text, second :: rest)
          | [] => some (text, [])
        else singleQuoted? (text.push c) .none rest

/-- The character that stands after a backslash for another one. -/
def unescape? : Char → Option Char
  | '0' => some '\x00'
  | 'a' => some '\x07'
  | 'b' => some '\x08'
  | 't' | '\t' => some '\t'
  | 'n' => some '\n'
  | 'v' => some '\x0B'
  | 'f' => some '\x0C'
  | 'r' => some '\r'
  | 'e' => some '\x1B'
  | ' ' => some ' '
  | '"' => some '"'
  | '/' => some '/'
  | '\\' => some '\\'
  | 'N' => some '\x85'
  | '_' => some '\xA0'
  | 'L' => some '\u2028'
  | 'P' => some '\u2029'
  | _ => none

/-- How many digits follow a letter that announces a code point. -/
def codeWidth? : Char → Option Nat
  | 'x' => some 2
  | 'u' => some 4
  | 'U' => some 8
  | _ => none

/-- The character of a code point in hexadecimal digits. -/
def charOfCode? (width : Nat) (digits : List Char) : Option Char :=
  match Text.natural? 16 digits with
  | some code =>
      if digits.length = width ∧ code.isValidChar then some (Char.ofNat code) else none
  | none => none

/-- Read a text in double quotes, after its opening quote and the `text` and the
`gap` that were read. -/
def doubleQuoted? (text : String) (gap : Gap) : List Glyph → Option (String × List Glyph)
  | [] => none
  | glyph :: rest =>
      let c := glyph.char
      if isBlank c || isBreak c then doubleQuoted? text (gap.push c) rest
      else if c == endMark || Glyph.atBoundary (glyph :: rest) then none
      else
        let text := text ++ gap.fold
        if c == '"' then some (text, rest)
        else if c == '\\' then
          match rest with
          | [] => none
          | mark :: rest =>
              if isBreak mark.char then doubleQuoted? text .escaped rest
              else
                match unescape? mark.char with
                | some meant => doubleQuoted? (text.push meant) .none rest
                | none => do
                    let width ← codeWidth? mark.char
                    let meant ← charOfCode? width ((rest.take width).map (·.char))
                    doubleQuoted? (text.push meant) .none (rest.drop width)
        else doubleQuoted? (text.push c) .none rest
termination_by glyphs => glyphs.length

/-! ## As a block of lines -/

/-- What becomes of the line ends at the end of a block. -/
inductive Chomping where
  /-- All are dropped. -/
  | strip
  /-- The first is kept. -/
  | clip
  /-- All are kept. -/
  | keep
  deriving Repr, DecidableEq

/-- How a block of lines is to be read. -/
structure BlockStyle where
  /-- Whether line ends stay as they are. -/
  literal : Bool
  chomping : Chomping
  /-- Indentation beyond that of the surroundings, if it is told. -/
  indent : Option Nat
  deriving Repr, DecidableEq

/-- The chomping that a mark asks for. -/
def chomping? : Char → Option Chomping
  | '+' => some .keep
  | '-' => some .strip
  | _ => none

/-- The indentation that a digit tells. -/
def blockIndent? (c : Char) : Option Nat :=
  if '0' ≤ c ∧ c ≤ '9' then some (c.toNat - '0'.toNat) else none

/-- Read the marks after the opening of a block, at most one of either kind. -/
def blockStyle (literal : Bool) (glyphs : List Glyph) : BlockStyle × List Glyph :=
  match chomping? (Glyph.ahead glyphs) with
  | some chomping =>
      let rest := glyphs.drop 1
      match blockIndent? (Glyph.ahead rest) with
      | some indent => (⟨literal, chomping, some indent⟩, rest.drop 1)
      | none => (⟨literal, chomping, none⟩, rest)
  | none =>
      match blockIndent? (Glyph.ahead glyphs) with
      | some indent =>
          let rest := glyphs.drop 1
          match chomping? (Glyph.ahead rest) with
          | some chomping => (⟨literal, chomping, some indent⟩, rest.drop 1)
          | none => (⟨literal, .clip, some indent⟩, rest)
      | none => (⟨literal, .clip, none⟩, glyphs)

/-- The glyphs after the rest of a line that may hold a comment only. -/
def restOfLine? (glyphs : List Glyph) : Option (List Glyph) :=
  let rest := glyphs.dropWhile (isBlank ·.char)
  let inLine (glyph : Glyph) : Bool := !isBreak glyph.char && glyph.char != endMark
  let rest := if Glyph.ahead rest == '#' then rest.dropWhile inLine else rest
  if isBreak (Glyph.ahead rest) then some (rest.drop 1)
  else if Glyph.ahead rest == endMark then some rest
  else none

/-- The greatest column that spaces reach before the first text of a block, if no
tab stands between. -/
def blockColumn? (greatest : Nat) : List Glyph → Option Nat
  | [] => some greatest
  | glyph :: rest =>
      if glyph.char == ' ' then blockColumn? greatest rest
      else if glyph.char == '\t' then none
      else
        let reached := max greatest glyph.column
        if isBreak glyph.char then blockColumn? reached rest else some reached

/-- A block of lines that is being read. -/
structure BlockText where
  text : String
  /-- The end of the last line that holds text. -/
  last : String
  /-- The ends of the empty lines since. -/
  empty : String
  /-- Whether the last line started with a blank. -/
  indented : Bool
  deriving Repr, DecidableEq

namespace BlockText

/-- The text with the ends of lines before a line that starts with a character. -/
def join (block : BlockText) (literal : Bool) (next : Char) : String :=
  if !literal && block.last == "\n" && !block.indented && !isBlank next then
    block.text ++ if block.empty.isEmpty then " " else block.empty
  else block.text ++ block.last ++ block.empty

/-- The whole text, its end chomped. -/
def finish (block : BlockText) : Chomping → String
  | .strip => block.text
  | .clip => block.text ++ block.last
  | .keep => block.text ++ block.last ++ block.empty

end BlockText

/-- Read the lines of a block that is indented by `indent`. -/
def blockLines? (style : BlockStyle) (indent : Nat) (inLine : Bool) (block : BlockText) :
    List Glyph → Option (String × List Glyph)
  | [] => some (block.finish style.chomping, [])
  | glyph :: rest =>
      let c := glyph.char
      if inLine then
        if isBreak c then
          blockLines? style indent false { block with last := c.toString, empty := "" } rest
        else if c == endMark then some (block.finish style.chomping, glyph :: rest)
        else blockLines? style indent true { block with text := block.text.push c } rest
      else if glyph.column < indent && c == ' ' then blockLines? style indent false block rest
      else if glyph.column < indent && c == '\t' then none
      else if isBreak c then
        blockLines? style indent false { block with empty := block.empty.push c } rest
      else if glyph.column == indent && c != endMark then
        let text := (block.join style.literal c).push c
        blockLines? style indent true ⟨text, "", "", isBlank c⟩ rest
      else some (block.finish style.chomping, glyph :: rest)

/-- The indentation of a block that starts with `glyphs`.  It is told by the style,
or else read off the first lines. -/
def blockIndentation? (style : BlockStyle) (least : Option Nat) (glyphs : List Glyph) :
    Option Nat :=
  match style.indent with
  | some 0 => none
  | some more => some (least.getD 0 + more)
  | none =>
      let inner := (least.map (· + 1)).getD 0
      (blockColumn? 0 glyphs).map fun column => max column (max 1 inner)

/-- Read a block of lines after its opening mark.  `least` is the indentation of
the surroundings, if there are any. -/
def block? (literal : Bool) (least : Option Nat) (glyphs : List Glyph) :
    Option (String × List Glyph) := do
  let (style, rest) := blockStyle literal glyphs
  let rest ← restOfLine? rest
  let indent ← blockIndentation? style least rest
  blockLines? style indent false ⟨"", "", "", false⟩ rest

end Scalar

end MidiScore.Yaml
