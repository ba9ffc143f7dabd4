import MidiScore.Proofs.Note.Sequence
import MidiScore.Proofs.Note.Velocity

/-!
# How a note finds its key

A note sounds the key that is bound to its name on the channel, moved by its accidentals and by
the scale.  `Note.Resolves` and `Note.Unresolved` say when there is such a key and what is wrong
if there is none; they describe `Note.resolve` exactly, one for each outcome.

A note list sounds if all its notes do and words hold what is computed on the way,
`sequenceEvents_of_resolveTo`.  Otherwise the first note for which one of this fails decides: it
does not resolve, `sequenceEvents_of_firstUnresolved`, or goes beyond the words,
`sequenceEvents_of_firstOverflow`.
-/

namespace MidiScore

theorem Quantity.admits_iff {quantity : Quantity} {value : Int} :
    quantity.admits value = true ↔ quantity.least ≤ value ∧ value ≤ quantity.greatest := by
  simp [admits]

theorem Quantity.admits_natCast_iff {quantity : Quantity} {value bound : Nat}
    (least : quantity.least = 0) (greatest : quantity.greatest = bound) :
    quantity.admits value = true ↔ value ≤ bound := by
  rw [admits_iff, least, greatest]
  omega

namespace Note

/-- An accidental stands on a name that is bound to a black key. -/
def AltersBlackKey (note : Note) (bound : UInt8) : Prop :=
  Scale.isBlackKey bound = true ∧
    (note.properties.has .sharp = true ∨ note.properties.has .flat = true)

/-- The key that a note sounds on a channel. -/
inductive Resolves (keys : KeyMap) (scale : Scale) (channel : UInt8) (note : Note) :
    UInt8 → Prop where
  | intro {bound key : UInt8} (known : keys.get? channel note.name = some bound)
      (plain : ¬ note.AltersBlackKey bound) (sounds : scale.apply bound note = key.toNat)
      (legal : key.toNat ≤ 127) : Resolves keys scale channel note key

/-- Why a note sounds no key on a channel: its name is not bound there, or it alters a black
key, or the key lies outside of the keyboard. -/
inductive Unresolved (keys : KeyMap) (scale : Scale) (channel : UInt8) (note : Note) :
    Error → Prop where
  | undefined (unknown : keys.get? channel note.name = none) :
      Unresolved keys scale channel note (.undefinedNote note.name channel)
  | blackKey {bound : UInt8} (known : keys.get? channel note.name = some bound)
      (altered : note.AltersBlackKey bound) :
      Unresolved keys scale channel note (.accidentalOnBlackKey note.name bound channel)
  | outOfRange {bound : UInt8} (known : keys.get? channel note.name = some bound)
      (plain : ¬ note.AltersBlackKey bound)
      (beyond : ¬ (0 ≤ scale.apply bound note ∧ scale.apply bound note ≤ 127)) :
      Unresolved keys scale channel note (.outOfRange .key (scale.apply bound note))

variable {keys : KeyMap} {scale : Scale} {channel : UInt8} {note : Note} {key : UInt8}
  {error : Error}

theorem resolve_of_unknown (unknown : keys.get? channel note.name = none) :
    note.resolve keys scale channel = .error (.undefinedNote note.name channel) := by
  rw [resolve, unknown]

theorem resolve_of_altersBlackKey {bound : UInt8}
    (known : keys.get? channel note.name = some bound) (altered : note.AltersBlackKey bound) :
    note.resolve keys scale channel = .error (.accidentalOnBlackKey note.name bound channel) := by
  rw [resolve, known]
  exact if_pos (by simpa [AltersBlackKey] using altered)

theorem resolve_of_plain {bound : UInt8} (known : keys.get? channel note.name = some bound)
    (plain : ¬ note.AltersBlackKey bound) :
    note.resolve keys scale channel =
      if 0 ≤ scale.apply bound note ∧ scale.apply bound note ≤ 127 then
        .ok (scale.apply bound note).toNat.toUInt8
      else .error (.outOfRange .key (scale.apply bound note)) := by
  rw [resolve, known]
  refine (if_neg (by simpa [AltersBlackKey] using plain)).trans ?_
  have bounds : Quantity.key.admits (scale.apply bound note) = true ↔
      0 ≤ scale.apply bound note ∧ scale.apply bound note ≤ 127 := Quantity.admits_iff
  simp only [Quantity.check, bounds]
  split <;> rfl

theorem resolve_eq_ok_iff :
    note.resolve keys scale channel = .ok key ↔ note.Resolves keys scale channel key := by
  constructor
  · intro resolved
    cases known : keys.get? channel note.name with
    | none =>
        rw [resolve_of_unknown known] at resolved
        contradiction
    | some bound =>
        by_cases altered : note.AltersBlackKey bound
        · rw [resolve_of_altersBlackKey known altered] at resolved
          contradiction
        · rw [resolve_of_plain known altered] at resolved
          split at resolved
          · rename_i legal
            cases resolved
            have small : (scale.apply bound note).toNat < 2 ^ 8 := by omega
            refine .intro known altered ?_ ?_
            · simp only [Nat.toUInt8, UInt8.toNat_ofNat_of_lt' small]
              exact (Int.toNat_of_nonneg legal.1).symm
            · simp only [Nat.toUInt8, UInt8.toNat_ofNat_of_lt' small]
              omega
          · contradiction
  · rintro ⟨known, plain, sounds, legal⟩
    rw [resolve_of_plain known plain, sounds, if_pos (by omega)]
    simp [Nat.toUInt8]

theorem resolve_eq_error_iff :
    note.resolve keys scale channel = .error error ↔
      note.Unresolved keys scale channel error := by
  constructor
  · intro refused
    cases known : keys.get? channel note.name with
    | none =>
        rw [resolve_of_unknown known] at refused
        cases refused
        exact .undefined known
    | some bound =>
        by_cases altered : note.AltersBlackKey bound
        · rw [resolve_of_altersBlackKey known altered] at refused
          cases refused
          exact .blackKey known altered
        · rw [resolve_of_plain known altered] at refused
          split at refused
          · contradiction
          · cases refused
            exact .outOfRange known altered ‹_›
  · rintro (⟨unknown⟩ | ⟨known, altered⟩ | ⟨known, plain, beyond⟩)
    · exact resolve_of_unknown unknown
    · exact resolve_of_altersBlackKey known altered
    · rw [resolve_of_plain known plain, if_neg beyond]

theorem exists_resolves_or_unresolved (keys : KeyMap) (scale : Scale) (channel : UInt8)
    (note : Note) :
    (∃ key, note.Resolves keys scale channel key) ∨
      ∃ error, note.Unresolved keys scale channel error := by
  cases outcome : note.resolve keys scale channel with
  | ok key => exact .inl ⟨key, resolve_eq_ok_iff.mp outcome⟩
  | error error => exact .inr ⟨error, resolve_eq_error_iff.mp outcome⟩

/-! ## Note lists -/

/-- Every note of a list that is no rest resolves. -/
def AllResolve (keys : KeyMap) (scale : Scale) (channel : UInt8) (notes : List Note) : Prop :=
  ∀ note ∈ notes, note.isRest = false → ∃ key, note.Resolves keys scale channel key

/-- The notes of a list that are no rests resolve to the keys of their indices. -/
def ResolveTo (keys : KeyMap) (scale : Scale) (channel : UInt8) (keyOf : Nat → UInt8)
    (notes : List Note) : Prop :=
  ∀ (index : Nat) (note : Note), notes[index]? = some note → note.isRest = false →
    note.Resolves keys scale channel (keyOf index)

/-- Words hold the ends of all notes, the first of which stands at `start`, and the velocities
of those that are no rests. -/
def FitWords (base : UInt8) (start : Nat) (notes : List Note) : Prop :=
  start + totalLength notes < 4294967296 ∧
    ∀ note ∈ notes, note.isRest = false → ∃ velocity, note.velocity? base = some velocity

/-- The error is about the first note of a list that is no rest and does not resolve.  Words hold
all that comes before it. -/
def FirstUnresolved (keys : KeyMap) (scale : Scale) (scope : Scope) (start : Nat)
    (notes : List Note) (error : Error) : Prop :=
  ∃ front note rest, notes = front ++ note :: rest ∧ AllResolve keys scale scope.channel front ∧
    FitWords scope.velocity start front ∧
    note.isRest = false ∧ note.Unresolved keys scale scope.channel error

/-- A note goes beyond the words, and all notes up to and with it resolve. -/
def FirstOverflow (keys : KeyMap) (scale : Scale) (scope : Scope) (start : Nat)
    (notes : List Note) : Prop :=
  ∃ front note rest, notes = front ++ note :: rest ∧
    AllResolve keys scale scope.channel (front ++ [note]) ∧
    FitWords scope.velocity start front ∧ ¬ FitWords scope.velocity start (front ++ [note])

/-- The events of notes from a position on, where the note of an index sounds the key of that
index.  Every note starts where the lengths of the notes before it add up to. -/
def placed (scope : Scope) (keyOf : Nat → UInt8) (position : Nat) (notes : List Note) :
    List Event :=
  (notes.mapIdx fun index note =>
    let start := position + totalLength (notes.take index)
    let struck : Event := ⟨.voice scope.channel (.noteOn (keyOf index)
      (note.velocity scope.velocity)), start, note.soundingLength, scope.channel⟩
    let released : Event := ⟨.voice scope.channel (.noteOff (keyOf index)),
      start + note.soundingLength, 0, scope.channel⟩
    if note.isRest then []
    else if note.ringsOut then [struck]
    else [struck, released]).flatten

theorem placed_cons (scope : Scope) (keyOf : Nat → UInt8) (position : Nat) (note : Note)
    (rest : List Note) :
    placed scope keyOf position (note :: rest) =
      (if note.isRest then []
        else note.events (keyOf 0) (note.velocity scope.velocity) scope.channel position) ++
        placed scope (fun index => keyOf (index + 1)) (position + note.length) rest := by
  simp only [placed, List.mapIdx_cons, List.flatten_cons, List.take_zero, totalLength_nil,
    List.take_succ_cons, totalLength_cons, Nat.add_zero, ← Nat.add_assoc]
  rfl

section

variable {notes rest : List Note} {keyOf : Nat → UInt8}

theorem resolveTo_cons :
    ResolveTo keys scale channel keyOf (note :: rest) ↔
      (note.isRest = false → note.Resolves keys scale channel (keyOf 0)) ∧
        ResolveTo keys scale channel (fun index => keyOf (index + 1)) rest := by
  constructor
  · intro resolve
    exact ⟨resolve 0 note rfl, fun index => resolve (index + 1)⟩
  · rintro ⟨first, later⟩ index other found
    cases index with
    | zero =>
        cases found
        exact first
    | succ index => exact later index other found

theorem allResolve_iff_exists_resolveTo :
    AllResolve keys scale channel notes ↔
      ∃ keyOf, ResolveTo keys scale channel keyOf notes := by
  constructor
  · intro all
    induction notes with
    | nil => exact ⟨fun _ => 0, by simp [ResolveTo]⟩
    | cons note rest ih =>
        rcases List.forall_mem_cons.mp all with ⟨first, later⟩
        rcases ih later with ⟨keyOf, resolve⟩
        by_cases silent : note.isRest = false
        · rcases first silent with ⟨key, resolves⟩
          exact ⟨fun index => index.casesOn key keyOf,
            resolveTo_cons.mpr ⟨fun _ => resolves, resolve⟩⟩
        · exact ⟨fun index => index.casesOn 0 keyOf,
            resolveTo_cons.mpr ⟨fun sounding => absurd sounding silent, resolve⟩⟩
  · rintro ⟨keyOf, resolve⟩ note member sounding
    rcases List.mem_iff_getElem?.mp member with ⟨index, found⟩
    exact ⟨keyOf index, resolve index note found sounding⟩

theorem fitWords_cons {base : UInt8} {start : Nat} :
    FitWords base start (note :: rest) ↔
      (note.isRest = false → ∃ velocity, note.velocity? base = some velocity) ∧
        FitWords base (start + note.length) rest := by
  rw [FitWords, FitWords, totalLength_cons, List.forall_mem_cons, ← Nat.add_assoc]
  exact and_left_comm

/-- All notes of a list sound within the words, or there is a first one that does not. -/
theorem allResolve_or_first (keys : KeyMap) (scale : Scale) (scope : Scope) {start : Nat}
    (short : start < 4294967296) (notes : List Note) :
    (AllResolve keys scale scope.channel notes ∧ FitWords scope.velocity start notes) ∨
      (∃ error, FirstUnresolved keys scale scope start notes error) ∨
      FirstOverflow keys scale scope start notes := by
  have empty : AllResolve keys scale scope.channel [] ∧ FitWords scope.velocity start [] :=
    ⟨by simp [AllResolve], short, by simp⟩
  induction notes generalizing start with
  | nil => exact .inl empty
  | cons note rest ih =>
      by_cases passes : note.isRest = false → ∃ key, note.Resolves keys scale scope.channel key
      · by_cases holds : FitWords scope.velocity start [note]
        · rcases fitWords_cons.mp holds with ⟨dynamic, shortLater, -⟩
          rcases ih shortLater ⟨empty.1, shortLater, empty.2.2⟩ with ⟨all, words⟩ |
            ⟨error, front, other, later, rfl, before, words, sounding, unresolved⟩ |
            ⟨front, other, later, rfl, resolve, words, beyond⟩
          · exact .inl ⟨List.forall_mem_cons.mpr ⟨passes, all⟩, fitWords_cons.mpr ⟨dynamic, words⟩⟩
          · exact .inr (.inl ⟨error, note :: front, other, later, rfl,
              List.forall_mem_cons.mpr ⟨passes, before⟩, fitWords_cons.mpr ⟨dynamic, words⟩,
              sounding, unresolved⟩)
          · exact .inr (.inr ⟨note :: front, other, later, rfl,
              List.forall_mem_cons.mpr ⟨passes, resolve⟩, fitWords_cons.mpr ⟨dynamic, words⟩,
              fun held => beyond (fitWords_cons.mp held).2⟩)
        · exact .inr (.inr ⟨[], note, rest, rfl,
            List.forall_mem_singleton.mpr passes, empty.2, holds⟩)
      · rcases Classical.not_imp.mp passes with ⟨sounding, none⟩
        rcases (note.exists_resolves_or_unresolved keys scale scope.channel).resolve_left none with
          ⟨error, unresolved⟩
        exact .inr (.inl ⟨error, [], note, rest, rfl, empty.1, empty.2, sounding, unresolved⟩)

variable {scope : Scope} {cursor : UInt32}

theorem sequence_placed {position : Nat}
    (resolve : ResolveTo keys scale scope.channel keyOf notes)
    (words : FitWords scope.velocity position notes) :
    Sequence keys scale scope position notes (placed scope keyOf position notes) := by
  induction notes generalizing position keyOf with
  | nil => exact .nil position
  | cons note rest ih =>
      rcases resolveTo_cons.mp resolve with ⟨first, later⟩
      rcases fitWords_cons.mp words with ⟨dynamic, wordsLater⟩
      rw [placed_cons]
      cases silent : note.isRest with
      | true => exact .rest silent (ih later wordsLater)
      | false =>
          rcases dynamic silent with ⟨velocity, found⟩
          rw [eq_velocity_of_velocity? found] at found
          exact .note silent (resolve_eq_ok_iff.mpr (first silent)) found (ih later wordsLater)

/-- Notes that sound within the words are placed one after another. -/
theorem sequenceEvents_of_resolveTo (resolve : ResolveTo keys scale scope.channel keyOf notes)
    (words : FitWords scope.velocity cursor.toNat notes) :
    ∃ last, sequenceEvents keys scale scope cursor notes =
        .ok (placed scope keyOf cursor.toNat notes, last) ∧
      last.toNat = cursor.toNat + totalLength notes := by
  rcases exists_word? words.1 with ⟨last, -, reached⟩
  exact ⟨last, sequenceEvents_eq_ok_iff.mpr ⟨sequence_placed resolve words, reached⟩, reached⟩

/-- What fails behind notes that sound fails for the whole list. -/
theorem sequenceEvents_append_of_error {front : List Note} {events : List Event} {next : UInt32}
    (before : sequenceEvents keys scale scope cursor front = .ok (events, next))
    (failed : sequenceEvents keys scale scope next rest = .error error) :
    sequenceEvents keys scale scope cursor (front ++ rest) = .error error := by
  induction front generalizing cursor events with
  | nil =>
      cases before
      exact failed
  | cons note others ih =>
      rcases sequenceEvents_cons_eq_ok_iff.mp before with
        ⟨here, middle, later, evaluated, moved, evaluatedRest, -⟩
      rw [List.cons_append, sequenceEvents, evaluated, moveCursor_eq_ok_iff.mpr moved]
      simp only [bind, Except.bind, ih evaluatedRest]

/-- A list fails at a note behind notes that sound if the note fails where they end. -/
theorem sequenceEvents_of_front {front : List Note}
    (resolve : AllResolve keys scale scope.channel front)
    (words : FitWords scope.velocity cursor.toNat front)
    (failed : ∀ next : UInt32, next.toNat = cursor.toNat + totalLength front →
      sequenceEvents keys scale scope next rest = .error error) :
    sequenceEvents keys scale scope cursor (front ++ rest) = .error error := by
  rcases allResolve_iff_exists_resolveTo.mp resolve with ⟨keyOf, resolveTo⟩
  rcases sequenceEvents_of_resolveTo resolveTo words with ⟨next, before, reached⟩
  exact sequenceEvents_append_of_error before (failed next reached)

theorem sequenceEvents_of_firstUnresolved
    (unresolved : FirstUnresolved keys scale scope cursor.toNat notes error) :
    sequenceEvents keys scale scope cursor notes = .error error := by
  rcases unresolved with ⟨front, note, rest, rfl, before, words, sounding, unresolved⟩
  refine sequenceEvents_of_front before words fun next _ => ?_
  rw [sequenceEvents, eventsAt, if_neg (Bool.eq_false_iff.mp sounding),
    resolve_eq_error_iff.mpr unresolved]
  rfl

theorem sequenceEvents_of_firstOverflow
    (overflow : FirstOverflow keys scale scope cursor.toNat notes) :
    sequenceEvents keys scale scope cursor notes = .error .overflow := by
  rcases overflow with ⟨front, note, rest, rfl, resolve, words, beyond⟩
  rcases List.forall_mem_append.mp resolve with ⟨before, here⟩
  refine sequenceEvents_of_front before words fun next reached => ?_
  -- a note whose velocity fits goes beyond the words by its length
  have far (dynamic : note.isRest = false →
      ∃ velocity, note.velocity? scope.velocity = some velocity) :
      note.moveCursor next = .error .overflow := by
    rw [moveCursor, Error.orOverflow_eq_error_iff, word?_eq_none_iff, reached]
    refine ⟨Nat.not_lt.mp fun fits => beyond ⟨?_, ?_⟩, rfl⟩
    · rwa [totalLength_append, totalLength_cons, totalLength_nil, Nat.add_zero, ← Nat.add_assoc]
    · exact List.forall_mem_append.mpr ⟨words.2, List.forall_mem_singleton.mpr dynamic⟩
  rw [sequenceEvents]
  cases silent : note.isRest with
  | true =>
      rw [eventsAt_of_isRest silent, far fun sounding => absurd silent (by simp [sounding])]
      rfl
  | false =>
      rcases here note List.mem_cons_self silent with ⟨key, resolves⟩
      cases dynamic : note.velocity? scope.velocity with
      | none =>
          rw [eventsAt, if_neg (Bool.eq_false_iff.mp silent), resolve_eq_ok_iff.mpr resolves,
            dynamic]
          rfl
      | some velocity =>
          rw [(eventsAt_eq_ok_iff silent).mpr
            ⟨key, velocity, resolve_eq_ok_iff.mpr resolves, dynamic, rfl⟩,
            far fun _ => ⟨velocity, dynamic⟩]
          rfl

end

end Note

end MidiScore
