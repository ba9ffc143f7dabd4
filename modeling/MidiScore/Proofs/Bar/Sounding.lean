import MidiScore.Proofs.Note.Sounding
import MidiScore.Proofs.Session.Source

/-!
# The notes that a bar sounds

The notes of a body are those of its note lists, each resolved with the keys, the scale and
the channel that hold where it stands.  The bar that the body builds sounds exactly these:
every other declaration neither strikes nor releases a key.
-/

namespace MidiScore

/-- The messages of a bar at their positions. -/
def Bar.passage (bar : Bar) : Passage :=
  bar.events.map Event.entry

namespace Draft

/-- The notes that a declaration sounds in a bar under construction. -/
def heard (keys : KeyMap) (draft : Draft) : Declaration → List Sounding
  | .notes list =>
      Note.soundings keys (draft.signatures.scale draft.scope.channel) draft.scope.channel list
  | _ => []

/-- The notes that declarations sound one after another, up to the first refused one. -/
def soundings (keys : KeyMap) (draft : Draft) : List Declaration → List Sounding
  | [] => []
  | declaration :: rest =>
      match draft.step keys declaration with
      | .error _ => []
      | .ok next => draft.heard keys declaration ++ next.soundings keys rest

/-- What a declaration adds to a bar sounds its notes. -/
theorem Step.sounds {keys : KeyMap} {draft next : Draft} {declaration : Declaration}
    {notes : List Sounding} (sounds : draft.bar.passage.Sounds notes)
    (step : Step keys draft declaration next) :
    next.bar.passage.Sounds (notes ++ draft.heard keys declaration) := by
  cases step with
  | timeSignature | velocity | channel =>
      simpa only [heard, List.append_nil, Bar.passage] using sounds
  | tempo | program | control | start | stop | key | text =>
      rw [Bar.passage, push, List.map_append]
      exact sounds.append (.of_still (List.forall_mem_singleton.mpr fun _ _ => ⟨rfl, rfl⟩))
  | notes list events resolved _ =>
      rw [Bar.passage, List.map_append]
      exact sounds.append resolved.sounds

theorem sounds_of_steps {keys : KeyMap} {draft final : Draft} {body : List Declaration}
    {notes : List Sounding} (sounds : draft.bar.passage.Sounds notes)
    (run : draft.steps keys body = .ok final) :
    final.bar.passage.Sounds (notes ++ draft.soundings keys body) := by
  induction body generalizing draft notes with
  | nil =>
      cases run
      rwa [soundings, List.append_nil]
  | cons declaration rest ih =>
      rcases steps_cons_eq_ok_iff.mp run with ⟨next, step, run⟩
      rw [soundings, step_eq_ok_iff.mpr step, ← List.append_assoc]
      exact ih (step.sounds sounds) run

end Draft

namespace Source

/-- The notes that sound in a bar of this source. -/
def soundings (source : Source) : List Sounding :=
  (Draft.start source.context.scope source.context.signatures).soundings source.context.keys
    source.body

/-- A bar sounds the notes of its source. -/
theorem Builds.sounds {source : Source} {bar : Bar} (builds : source.Builds bar) :
    bar.passage.Sounds source.soundings := by
  rcases builds with ⟨draft, run, finished⟩
  rw [Draft.bar_eq_of_finish finished]
  exact Draft.sounds_of_steps (.of_still (by simp [Bar.passage, Draft.start])) run

end Source

end MidiScore
