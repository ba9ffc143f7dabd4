import MidiScore.Interchange.Declaration
import MidiScore.Yaml.Document

/-!
# Scores as text

A score is written as a YAML list of declarations.
-/

namespace MidiScore

open Datum (Fault)

namespace Declaration

/-- The declarations that a text gives. -/
def listOfText (text : String) : Except Fault (List Declaration) :=
  (Yaml.Document.ofText text).read (bodyOfDatum .yaml)

end Declaration

end MidiScore
