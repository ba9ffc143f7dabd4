import MidiScore.Yaml.Scalar

/-!
# Tokens of a YAML text

A YAML text falls into tokens.  Outside of brackets the columns of a text open and
close collections, and these too become tokens.  A key of one line is known as
such only by the colon after it, so every token that might be a key is pending
until then; when the colon comes, the key is marked in front of it.

Reading stops where a text is broken.  Tokens after one that is still pending are
then lost, because they may have been meant as part of a key.
-/

namespace MidiScore.Yaml

/-- A token. -/
inductive Token where
  | documentStart
  | documentEnd
  | blockSequence
  | blockMapping
  | blockEnd
  | flowSequence
  | flowSequenceEnd
  | flowMapping
  | flowMappingEnd
  | blockEntry
  | flowEntry
  | key
  | value
  | alias (name : String)
  | anchor (name : String)
  /-- A text and whether it stood without quotes. -/
  | scalar (plain : Bool) (content : String)
  | textEnd
  deriving Repr, DecidableEq

/-- A token that is a key if a colon follows. -/
structure PendingKey where
  /-- Number of tokens before it. -/
  place : Nat
  /-- Whether it cannot be anything but a key. -/
  required : Bool
  start : Glyph
  deriving Repr, DecidableEq

namespace PendingKey

/-- Most bytes from the start of a key to its colon. -/
def maxLength : Nat := 1024

/-- Whether a colon at a glyph comes too late for the key. -/
def isStale (pending : PendingKey) (glyph : Glyph) : Bool :=
  pending.start.line < glyph.line || pending.start.index + maxLength < glyph.index

end PendingKey

/-- The tokens of a text that were read, and what matters for those to come. -/
structure TokenReader where
  /-- Tokens, the latest first. -/
  tokens : List Token
  /-- How many tokens there are. -/
  count : Nat
  /-- Columns of the open block collections, the innermost first. -/
  columns : List Nat
  /-- The pending key inside of the innermost bracket. -/
  pending : Option PendingKey
  /-- The pending keys around the open brackets, the innermost first. -/
  outer : List (Option PendingKey)
  /-- Whether a key may start here. -/
  keyAllowed : Bool
  deriving Repr, DecidableEq

namespace TokenReader

/-- Before the first token. -/
def start : TokenReader := ⟨[], 0, [], none, [], true⟩

/-- Whether a bracket is open. -/
def inFlow (reader : TokenReader) : Bool :=
  !reader.outer.isEmpty

/-- With one more token. -/
def push (reader : TokenReader) (token : Token) : TokenReader :=
  { reader with tokens := token :: reader.tokens, count := reader.count + 1 }

/-- With one more token, after the first `place` ones. -/
def insert (reader : TokenReader) (place : Nat) (token : Token) : TokenReader :=
  let later := reader.count - place
  { reader with
    tokens := reader.tokens.take later ++ token :: reader.tokens.drop later
    count := reader.count + 1 }

/-- The tokens that nothing can come in front of any more, in order. -/
def settled (reader : TokenReader) : List Token :=
  let places := (reader.pending :: reader.outer).filterMap fun pending => pending.map (·.place)
  reader.tokens.reverse.take (places.foldl min reader.count)

/-! ## Pending keys -/

/-- Give up the pending key, unless it is required. -/
def release? (reader : TokenReader) : Option TokenReader :=
  if reader.pending.any (·.required) then none else some { reader with pending := none }

/-- Note that the next token, which starts at a glyph, may be a key. -/
def await? (reader : TokenReader) (glyph : Glyph) : Option TokenReader :=
  if reader.keyAllowed then do
    let released ← reader.release?
    let required := !reader.inFlow && reader.columns.head? == some glyph.column
    return { released with pending := some ⟨reader.count, required, glyph⟩ }
  else some reader

/-- Give up the pending keys for which it is too late at a glyph. -/
def expire? (reader : TokenReader) (glyph : Glyph) : Option TokenReader :=
  let isStale (pending : PendingKey) : Bool := pending.isStale glyph
  let fails (pending : Option PendingKey) : Bool :=
    pending.any fun pending => isStale pending && pending.required
  let keep (pending : Option PendingKey) : Option PendingKey := pending.filter (!isStale ·)
  if fails reader.pending || reader.outer.any fails then none
  else some { reader with pending := keep reader.pending, outer := reader.outer.map keep }

/-! ## Columns -/

/-- Open a block collection at a column to the right of the open ones.  Its token
comes after the first `place` tokens. -/
def indent (reader : TokenReader) (column place : Nat) (token : Token) : TokenReader :=
  if reader.inFlow || reader.columns.head?.any (column ≤ ·) then reader
  else { reader.insert place token with columns := column :: reader.columns }

/-- Close the block collections for which `isClosed` holds of their columns. -/
def dedent (reader : TokenReader) (isClosed : Nat → Bool) : TokenReader :=
  if reader.inFlow then reader
  else
    let closed := reader.columns.takeWhile isClosed
    { reader with
      tokens := closed.map (fun _ => Token.blockEnd) ++ reader.tokens
      count := reader.count + closed.length
      columns := reader.columns.dropWhile isClosed }

/-! ## Tokens of one kind -/

/-- A line between documents. -/
def boundary? (reader : TokenReader) (token : Token) : Option TokenReader := do
  let released ← (reader.dedent fun _ => true).release?
  return { released with keyAllowed := false }.push token

/-- An opening bracket at a glyph, which may start a key. -/
def openFlow? (reader : TokenReader) (glyph : Glyph) (token : Token) : Option TokenReader := do
  let awaiting ← reader.await? glyph
  return { awaiting with
    pending := none
    outer := awaiting.pending :: awaiting.outer
    keyAllowed := true }.push token

/-- A closing bracket. -/
def closeFlow? (reader : TokenReader) (token : Token) : Option TokenReader := do
  let released ← reader.release?
  return { released with
    pending := released.outer.head?.join
    outer := released.outer.drop 1
    keyAllowed := false }.push token

/-- A comma inside of brackets. -/
def separate? (reader : TokenReader) : Option TokenReader := do
  let released ← reader.release?
  return { released with keyAllowed := true }.push .flowEntry

/-- The start of a block collection at a glyph, where one may start. -/
def block? (reader : TokenReader) (glyph : Glyph) (token : Token) : Option TokenReader :=
  if reader.inFlow then some reader
  else if reader.keyAllowed then
    some (reader.indent glyph.column reader.count token)
  else none

/-- A dash at a glyph. -/
def entry? (reader : TokenReader) (glyph : Glyph) : Option TokenReader := do
  let released ← (← reader.block? glyph .blockSequence).release?
  return { released with keyAllowed := true }.push .blockEntry

/-- A question mark at a glyph. -/
def key? (reader : TokenReader) (glyph : Glyph) : Option TokenReader := do
  let released ← (← reader.block? glyph .blockMapping).release?
  return { released with keyAllowed := !reader.inFlow }.push .key

/-- A colon at a glyph.  It makes a key of the pending token, if there is one. -/
def value? (reader : TokenReader) (glyph : Glyph) : Option TokenReader :=
  match reader.pending with
  | some pending =>
      let marked := (reader.insert pending.place .key).indent pending.start.column pending.place
        .blockMapping
      some ({ marked with pending := none, keyAllowed := false }.push .value)
  | none => do
      let opened ← reader.block? glyph .blockMapping
      return { opened with keyAllowed := !reader.inFlow }.push .value

/-- Whether a name may contain a character. -/
def isNameChar (c : Char) : Bool :=
  c.isAlphanum || c == '-' || c == '_'

/-- The characters that may follow a name. -/
def nameEnds : List Char := ['?', ':', ',', ']', '\x7d', '%', '@', '\x60']

/-- The name after a mark at a glyph. -/
def name? (reader : TokenReader) (glyph : Glyph) (token : String → Token) (rest : List Glyph) :
    Option (TokenReader × List Glyph) := do
  let awaiting ← reader.await? glyph
  let name := (rest.takeWhile (isNameChar ·.char)).map (·.char)
  let rest := rest.dropWhile (isNameChar ·.char)
  if !name.isEmpty && (isSpacing (Glyph.ahead rest) || nameEnds.contains (Glyph.ahead rest)) then
    some ({ awaiting with keyAllowed := false }.push (token (String.ofList name)), rest)
  else none

/-- A text in quotes that start at a glyph. -/
def quoted? (reader : TokenReader) (glyph : Glyph) (read : Option (String × List Glyph)) :
    Option (TokenReader × List Glyph) := do
  let awaiting ← reader.await? glyph
  let (content, rest) ← read
  some ({ awaiting with keyAllowed := false }.push (.scalar false content), rest)

/-- A text as a block of lines. -/
def lines? (reader : TokenReader) (literal : Bool) (rest : List Glyph) :
    Option (TokenReader × List Glyph) := do
  let released ← reader.release?
  let (content, rest) ← Scalar.block? literal reader.columns.head? rest
  some ({ released with keyAllowed := true }.push (.scalar false content), rest)

/-- A text without quotes. -/
def plain? (reader : TokenReader) (glyph : Glyph) (rest : List Glyph) :
    Option (TokenReader × List Glyph) := do
  let awaiting ← reader.await? glyph
  let indent := (reader.columns.head?.map (· + 1)).getD 0
  let (content, onNewLine, rest) ← Scalar.plain? reader.inFlow indent "" .none (glyph :: rest)
  some ({ awaiting with keyAllowed := onNewLine }.push (.scalar true content), rest)

/-- The characters that neither start a text without quotes nor mean anything. -/
def reserved : List Char := ['!', '|', '>', '%', '@', '\x60', '\t']

/-- Read the token that starts at a glyph. -/
def token? (reader : TokenReader) (glyph : Glyph) (rest : List Glyph) :
    Option (TokenReader × List Glyph) :=
  let flow := reader.inFlow
  let ends := isSpacing (Glyph.ahead rest)
  let alone (next : Option TokenReader) : Option (TokenReader × List Glyph) := next.map (·, rest)
  if glyph.column == 0 && glyph.char == '%' then none
  else if Glyph.isSeparator '-' (glyph :: rest) then
    (reader.boundary? .documentStart).map (·, rest.drop 2)
  else if Glyph.isSeparator '.' (glyph :: rest) then
    (reader.boundary? .documentEnd).map (·, rest.drop 2)
  else
    match glyph.char with
    | '[' => alone (reader.openFlow? glyph .flowSequence)
    | '\x7b' => alone (reader.openFlow? glyph .flowMapping)
    | ']' => alone (reader.closeFlow? .flowSequenceEnd)
    | '\x7d' => alone (reader.closeFlow? .flowMappingEnd)
    | ',' => alone reader.separate?
    | '*' => reader.name? glyph .alias rest
    | '&' => reader.name? glyph .anchor rest
    | '\'' => reader.quoted? glyph (Scalar.singleQuoted? "" .none rest)
    | '"' => reader.quoted? glyph (Scalar.doubleQuoted? "" .none rest)
    | c =>
        if c == '-' && ends then alone (reader.entry? glyph)
        else if c == '?' && (flow || ends) then alone (reader.key? glyph)
        else if c == ':' && (flow || ends) then alone (reader.value? glyph)
        else if !flow && (c == '|' || c == '>') then reader.lines? (c == '|') rest
        else if reserved.contains c then none
        else reader.plain? glyph rest

/-! ## Whole texts -/

/-- Pass over white space, comments and the byte order mark of a line; also tell
whether a key may start after it.  A tab may not stand where a key may start. -/
def skipSpace (flow : Bool) (keyAllowed inComment : Bool) : List Glyph → Bool × List Glyph
  | [] => (keyAllowed, [])
  | glyph :: rest =>
      let c := glyph.char
      if isBreak c then skipSpace flow (keyAllowed || !flow) false rest
      else if c == endMark then (keyAllowed, glyph :: rest)
      else if inComment || c == ' ' || (c == '\t' && (flow || !keyAllowed)) ||
          glyph.isLineMark then
        skipSpace flow keyAllowed inComment rest
      else if c == '#' then skipSpace flow keyAllowed true rest
      else (keyAllowed, glyph :: rest)

/-- Come to the next token, which closes the block collections to the right of it. -/
def approach? (reader : TokenReader) (glyphs : List Glyph) :
    Option (TokenReader × List Glyph) := do
  let (keyAllowed, rest) := skipSpace reader.inFlow reader.keyAllowed false glyphs
  let glyph ← rest.head?
  let fresh ← { reader with keyAllowed := keyAllowed }.expire? glyph
  some (fresh.dedent (glyph.column < ·), rest)

/-- Close all at the end of a text. -/
def close? (reader : TokenReader) : Option TokenReader := do
  let released ← (reader.dedent fun _ => true).release?
  return released.push .textEnd

/-- Read one token and check what is pending after it. -/
def step? (reader : TokenReader) (glyph : Glyph) (rest : List Glyph) :
    Option (TokenReader × List Glyph) := do
  let (next, rest) ← reader.token? glyph rest
  let fresh ← next.expire? (← rest.head?)
  some (fresh, rest)

/-- Read tokens to the end, or to where the text is broken. -/
def run (fuel : Nat) (reader : TokenReader) (glyphs : List Glyph) : List Token :=
  match fuel, reader.approach? glyphs with
  | fuel + 1, some (near, glyph :: rest) =>
      if glyph.char == endMark then
        match near.close? with
        | some closed => closed.tokens.reverse
        | none => reader.settled
      else
        match near.step? glyph rest with
        | some (next, rest) => run fuel next rest
        | none => reader.settled
  | _, _ => reader.settled

end TokenReader

namespace Token

/-- The tokens of glyphs.  The last one is the end of the text, unless the text is
broken.  Every token takes at least one glyph. -/
def ofGlyphs (glyphs : List Glyph) : List Token :=
  TokenReader.start.run glyphs.length glyphs

end Token

end MidiScore.Yaml
