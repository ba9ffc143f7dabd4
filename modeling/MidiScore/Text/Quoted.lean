import MidiScore.Text.Numeral
import MidiScore.Text.Visible

/-!
# Quoted text

A text between double quotes, in which a quote, a backslash and every character
that is not visible stand as escapes.
-/

namespace MidiScore.Text

/-- A character as it stands between double quotes. -/
def escape (c : Char) : String :=
  match c with
  | '"' => "\\\""
  | '\\' => "\\\\"
  | '\n' => "\\n"
  | '\r' => "\\r"
  | '\t' => "\\t"
  | '\x00' => "\\0"
  | _ => if isVisible c then c.toString else "\\u\x7b" ++ hexadecimal c.toNat ++ "\x7d"

/-- A text in double quotes. -/
def quote (text : String) : String :=
  "\"" ++ String.join (text.toList.map escape) ++ "\""

end MidiScore.Text
