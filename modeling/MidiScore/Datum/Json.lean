import MidiScore.Datum.Basic
import MidiScore.Text.Numeral

/-!
# JSON

Reading a JSON text to a datum and writing a datum as a JSON text.  Records keep
the order of their fields.  A number is an integer when it is written without a
fraction, a power or a negative zero.
-/

namespace MidiScore.Datum.Json

/-- White space between tokens. -/
def isSpace (c : Char) : Bool :=
  c == ' ' || c == '\n' || c == '\r' || c == '\t'

/-- The number that four hexadecimal digits spell out. -/
def codeUnit? (first second third fourth : Char) : Option Nat :=
  Text.natural? 16 [first, second, third, fourth]

/-- The character that stands after a backslash for another one. -/
def unescape? : Char → Option Char
  | '"' => some '"'
  | '\\' => some '\\'
  | '/' => some '/'
  | 'b' => some '\x08'
  | 'f' => some '\x0C'
  | 'n' => some '\n'
  | 'r' => some '\r'
  | 't' => some '\t'
  | _ => none

/-- The character of a pair of surrogates. -/
def joinSurrogates (high low : Nat) : Char :=
  Char.ofNat (0x10000 + (high - 0xD800) * 0x400 + (low - 0xDC00))

/-- The characters up to the closing quote, after those `read` in reverse. -/
def string? (read : List Char) : List Char → Option (String × List Char)
  | [] => none
  | '"' :: rest => some (String.ofList read.reverse, rest)
  | '\\' :: 'u' :: a :: b :: c :: d :: '\\' :: 'u' :: e :: f :: g :: h :: rest => do
      let high ← codeUnit? a b c d
      let low ← codeUnit? e f g h
      if 0xD800 ≤ high ∧ high < 0xDC00 ∧ 0xDC00 ≤ low ∧ low < 0xE000 then
        string? (joinSurrogates high low :: read) rest
      else
        string? (Char.ofNat high :: read) ('\\' :: 'u' :: e :: f :: g :: h :: rest)
  | '\\' :: 'u' :: a :: b :: c :: d :: rest => do
      let unit ← codeUnit? a b c d
      string? (Char.ofNat unit :: read) rest
  | '\\' :: c :: rest => do
      let plain ← unescape? c
      string? (plain :: read) rest
  | c :: rest => string? (c :: read) rest

/-- A run of decimal digits and what follows it. -/
def digits (cs : List Char) : List Char × List Char :=
  (cs.takeWhile (Text.isDigitOf 10), cs.dropWhile (Text.isDigitOf 10))

/-- The digits after a point, if a point follows. -/
def fractionDigits : List Char → List Char × List Char
  | '.' :: rest => digits rest
  | cs => ([], cs)

/-- The power of ten, if one follows. -/
def power : List Char → Int × List Char
  | c :: rest =>
      if c == 'e' || c == 'E' then
        let (negative, afterSign) :=
          match rest with
          | '-' :: more => (true, more)
          | '+' :: more => (false, more)
          | more => (false, more)
        let (spelled, after) := digits afterSign
        let size : Int := Text.digitsValue 10 0 spelled
        (if negative then -size else size, after)
      else (0, c :: rest)
  | [] => (0, [])

/-- A number without its sign. -/
def magnitude? (negative : Bool) (cs : List Char) : Option (Datum × List Char) :=
  let (whole, afterWhole) := digits cs
  let (parts, afterParts) := fractionDigits afterWhole
  let (exponent, rest) := power afterParts
  if whole.isEmpty then none
  else
    let value := Text.digitsValue 10 0 (whole ++ parts)
    if afterWhole.length = rest.length && !(negative && value == 0) then
      some (.integer (if negative then -value else value), rest)
    else
      some (.fraction negative value (exponent - parts.length), rest)

/-- A number. -/
def number? : List Char → Option (Datum × List Char)
  | '-' :: rest => magnitude? true rest
  | cs => magnitude? false cs

mutual

/-- A value and what follows it, for texts of at most `fuel` characters. -/
def value? (fuel : Nat) (cs : List Char) : Option (Datum × List Char) :=
  match fuel with
  | 0 => none
  | fuel + 1 =>
      match cs.dropWhile isSpace with
      | '"' :: rest => (string? [] rest).map fun (content, rest) => (.text content, rest)
      | '[' :: rest =>
          match rest.dropWhile isSpace with
          | ']' :: rest => some (.list [], rest)
          | rest => items? fuel [] rest
      | '\x7b' :: rest =>
          match rest.dropWhile isSpace with
          | '\x7d' :: rest => some (.record [], rest)
          | rest => fields? fuel [] rest
      | 't' :: 'r' :: 'u' :: 'e' :: rest => some (.truth true, rest)
      | 'f' :: 'a' :: 'l' :: 's' :: 'e' :: rest => some (.truth false, rest)
      | 'n' :: 'u' :: 'l' :: 'l' :: rest => some (.nothing, rest)
      | rest => number? rest

/-- The items of a list up to its bracket, after those `read` in reverse. -/
def items? (fuel : Nat) (read : List Datum) (cs : List Char) : Option (Datum × List Char) :=
  match fuel with
  | 0 => none
  | fuel + 1 => do
      let (item, rest) ← value? fuel cs
      match rest.dropWhile isSpace with
      | ',' :: rest => items? fuel (item :: read) rest
      | ']' :: rest => some (.list (item :: read).reverse, rest)
      | _ => none

/-- The fields of a record up to its brace, after those `read` in reverse. -/
def fields? (fuel : Nat) (read : List (Datum × Datum)) (cs : List Char) :
    Option (Datum × List Char) :=
  match fuel with
  | 0 => none
  | fuel + 1 =>
      match cs.dropWhile isSpace with
      | '"' :: rest => do
          let (name, rest) ← string? [] rest
          match rest.dropWhile isSpace with
          | ':' :: rest => do
              let (value, rest) ← value? fuel rest
              let read := (.text name, value) :: read
              match rest.dropWhile isSpace with
              | ',' :: rest => fields? fuel read rest
              | '\x7d' :: rest => some (.record read.reverse, rest)
              | _ => none
          | _ => none
      | _ => none

end

/-- The datum of a JSON text. -/
def parse? (source : String) : Option Datum := do
  let cs := source.toList
  let (value, rest) ← value? (cs.length + 1) cs
  if rest.all isSpace then some value else none

/-- A character as it stands in a JSON string. -/
def escape (c : Char) : String :=
  if c == '"' then "\\\""
  else if c == '\\' then "\\\\"
  else if c.toNat < 0x20 then "\\u00" ++ String.ofList (Text.hexByte c.toNat.toUInt8)
  else c.toString

/-- A text as a JSON string. -/
def quote (content : String) : String :=
  "\"" ++ content.foldl (fun written c => written ++ escape c) "" ++ "\""

mutual

/-- What was written so far, and then a datum.  Only numbers without fraction are
written as numbers. -/
def write (written : String) : Datum → String
  | .text content | .plain content => written ++ quote content
  | .integer value => written ++ toString value
  | .truth value => written ++ if value then "true" else "false"
  | .list items => writeItems (written ++ "[") "" items ++ "]"
  | .record fields => writeFields (written ++ "\x7b") "" fields ++ "\x7d"
  | .reference target => write written target
  | .fraction _ _ _ | .nothing | .cut | .tooDeep => written ++ "null"

/-- Items with separators, the first after `separator`. -/
def writeItems (written separator : String) : List Datum → String
  | [] => written
  | item :: rest => writeItems (write (written ++ separator) item) "," rest

/-- Fields with separators, the first after `separator`. -/
def writeFields (written separator : String) : List (Datum × Datum) → String
  | [] => written
  | (name, value) :: rest =>
      writeFields (write (write (written ++ separator) name ++ ":") value) "," rest

end

/-- A datum as a JSON text. -/
def render (datum : Datum) : String :=
  write "" datum

end MidiScore.Datum.Json
