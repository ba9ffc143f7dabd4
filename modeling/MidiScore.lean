import MidiScore.Datum.Json
import MidiScore.Interchange.Bar
import MidiScore.Main
import MidiScore.Playback.Player
import MidiScore.Proofs.Flush.Alone
import MidiScore.Proofs.Flush.Room
import MidiScore.Proofs.MidiFile.Conductor
import MidiScore.Proofs.Playback.Delivery
import MidiScore.Proofs.Session.Failure
import MidiScore.Proofs.Session.Range
import MidiScore.Proofs.Timeline.Matching
import MidiScore.Proofs.Timeline.Release
import MidiScore.Playback.Program
import MidiScore.Proofs.Playback.Program
import MidiScore.Proofs.Playback.Prefix
import MidiScore.Proofs.Flush.Parts
import MidiScore.Proofs.Playback.Cancellation
import MidiScore.Proofs.Session.Body
import MidiScore.Proofs.Timeline.Parts
import MidiScore.Proofs.Flush.Split
import MidiScore.Proofs.MidiFile.Ticks
import MidiScore.Proofs.Binary64.Monotone
import MidiScore.Proofs.Datum.Reader
import MidiScore.Proofs.Interchange.RoundTrip
import MidiScore.Proofs.Timeline.Advance
import MidiScore.Proofs.Interchange.Notes
import MidiScore.Proofs.Note.Canonical
import MidiScore.Proofs.Session.NoteList
import MidiScore.Proofs.Session.Growth
import MidiScore.Proofs.Session.Channels
import MidiScore.Proofs.Note.Duration
import MidiScore.Proofs.MidiFile.Refusal
import MidiScore.Proofs.Session.Naming
import MidiScore.Proofs.Config.Defaults
import MidiScore.Proofs.Playback.Interplay
import MidiScore.Proofs.Note.Rendering
import MidiScore.Proofs.KeyMap.History
