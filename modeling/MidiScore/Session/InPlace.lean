import MidiScore.Session.Flush

/-!
# Evaluation in place

A session can also be evaluated on a single state that every declaration changes as it
goes.  Nothing is undone by itself there: a bar body works on the scope and the key
signatures of the session, and whoever started it has to put them back, and the bars of
an evaluation that fails have to be dropped.
-/

namespace MidiScore

/-- A session in the middle of an evaluation. -/
structure Workspace where
  session : Session
  /-- Whether the body of a bar is being evaluated. -/
  inBody : Bool
  deriving Repr, DecidableEq

/-- A bar under construction, apart from the settings around it. -/
structure OpenBar where
  bar : Bar
  /-- Whether a note or a rest has taken up time. -/
  advanced : Bool
  deriving Repr, DecidableEq

namespace OpenBar

/-- An empty bar under a meter. -/
def start (meter : Meter) : OpenBar := ⟨⟨meter, []⟩, false⟩

/-- The bar with a message at its start. -/
def push (opened : OpenBar) (message : Message) (channel : UInt8) : OpenBar :=
  { opened with bar.events := opened.bar.events ++ [⟨message, 0, 0, channel⟩] }

/-- The bar and the settings around it. -/
def draft (opened : OpenBar) (context : Context) : Draft :=
  ⟨context.scope, context.signatures, opened.bar, opened.advanced⟩

/-- The finished bar, unless nothing happened in it. -/
def finish (opened : OpenBar) : Option Bar :=
  if opened.bar.events.isEmpty && !opened.advanced then none else some opened.bar

end OpenBar

namespace Workspace

/-- Work in place.  When it fails, what it has changed before stays changed. -/
abbrev Work : Type → Type := EStateM Error Workspace

/-- The settings and tables that hold now. -/
def context : Work Context := do
  return (← get).session.context

/-- Change the settings or the tables. -/
def setContext (change : Context → Context) : Work Unit :=
  modify fun workspace =>
    { workspace with session.context := change workspace.session.context }

/-- Put out a bar. -/
def emit (bar : Bar) : Work Unit :=
  modify fun workspace =>
    { workspace with session.buffer := workspace.session.buffer ++ [bar] }

/-- Fail on a number that is out of bounds. -/
def require (quantity : Quantity) (value : Int) : Work Unit :=
  ofExcept (quantity.check value)

/-- Fail on a declaration that is forbidden where it stands. -/
def requireOutside (declaration : Declaration) : Work Unit := do
  if (← get).inBody then
    throw (.forbiddenInBar declaration.command)

/-- The outcome of some work, which ends there also if it fails. -/
def attempt {α : Type} (work : Work α) : Work (Except Error α) := fun workspace =>
  match work workspace with
  | .ok value next => .ok (.ok value) next
  | .error error next => .ok (.error error) next

/-- Bind a note name on the current channel. -/
def assign (note : Char) (key : UInt8) : Work Unit := do
  require .key key.toNat
  let before ← context
  match before.keys.get? before.scope.channel note with
  | some existing => throw (.duplicateAssignment note existing before.scope.channel)
  | none =>
      setContext fun now => { now with
        keys := (now.keys.bind? before.scope.channel note key).getD now.keys }

/-- Put out the bar of a name. -/
def play (name : String) : Work Unit := do
  match (← context).bar? name with
  | none => throw (.unknownBar name)
  | some bar => emit bar

/-- Name the bar that a body builds.  The scope is put back in any case, the key
signatures only if the body fails. -/
def defineBar (name : String) (body : OpenBar → Work OpenBar) : Work Unit := do
  let saved ← context
  if (saved.bar? name).isSome then
    throw (.duplicateBar name)
  modify fun workspace => { workspace with inBody := true }
  let outcome ← attempt (body (.start saved.scope.meter))
  modify fun workspace => { workspace with inBody := false }
  setContext fun now => { now with scope := saved.scope }
  match outcome with
  | .error error =>
      setContext fun now => { now with signatures := saved.signatures }
      throw error
  | .ok opened =>
      match opened.finish with
      | none => throw (.emptyBar name)
      | some bar => setContext fun now => { now with bars := (name, bar) :: now.bars }

/-- Add notes from the start of the bar. -/
def addNotes (notes : List Note) (opened : OpenBar) : Work OpenBar := do
  let now ← context
  let draft ← ofExcept ((opened.draft now).addNotes now.keys notes)
  return ⟨draft.bar, draft.advanced⟩

mutual

/-- Evaluate one declaration, inside of a bar body or outside. -/
def eval : Declaration → OpenBar → Work OpenBar
  | .assign note key, opened => do
      requireOutside (.assign note key)
      assign note key
      return opened
  | .defineBar name body, opened => do
      requireOutside (.defineBar name body)
      defineBar name (evalBody body)
      return opened
  | .play name, opened => do
      requireOutside (.play name)
      play name
      return opened
  | .tempo bpm, opened => do
      require .tempo bpm.toNat
      return opened.push (.tempo bpm) (← context).scope.channel
  | .timeSignature meter, opened => do
      if !meter.isValid then
        throw (.invalidMeter meter)
      setContext fun now => { now with scope.meter := meter }
      return { opened with bar.meter := meter }
  | .velocity value, opened => do
      require .velocity value.toNat
      setContext fun now => { now with scope.velocity := value }
      return opened
  | .channel number, opened => do
      require .channel number.toNat
      setContext fun now => { now with scope.channel := number }
      return opened
  | .program number, opened => do
      require .program number.toNat
      let channel := (← context).scope.channel
      return opened.push (.voice channel (.programChange number)) channel
  | .control number value, opened => do
      require .control number.toNat
      require .controlValue value.toNat
      let channel := (← context).scope.channel
      return opened.push (.voice channel (.controlChange number value)) channel
  | .start, opened => do
      return opened.push .start (← context).scope.channel
  | .stop, opened => do
      return opened.push .stop (← context).scope.channel
  | .key name, opened => do
      match Scale.ofName? name with
      | none => throw (.unknownScale name)
      | some scale =>
          let channel := (← context).scope.channel
          setContext fun now => { now with signatures := (channel, scale) :: now.signatures }
          return opened.push (.keySignature channel scale) channel
  | .text content, opened => do
      return opened.push (.text content) (← context).scope.channel
  | .notes list, opened => addNotes list opened

/-- Evaluate the declarations of a body in order. -/
def evalBody : List Declaration → OpenBar → Work OpenBar
  | [], opened => return opened
  | declaration :: rest, opened => do
      let next ← eval declaration opened
      evalBody rest next

end

/-- Evaluate a declaration that stands in no body, and put out its bar, if any. -/
def evaluateOne (declaration : Declaration) : Work Unit := do
  let opened ← eval declaration (.start (← context).scope.meter)
  match opened.finish with
  | none => return
  | some bar => emit bar

/-- Evaluate declarations in order up to the first that fails. -/
def evaluateAll : List Declaration → Work Unit
  | [] => return
  | declaration :: rest => do
      evaluateOne declaration
      evaluateAll rest

/-- Evaluate declarations.  If one fails, the bars put out on the way are dropped. -/
def evaluate (declarations : List Declaration) : Work Unit := do
  let mark := (← get).session.buffer.length
  match ← attempt (evaluateAll declarations) with
  | .ok _ => return
  | .error error =>
      modify fun workspace =>
        { workspace with session.buffer := workspace.session.buffer.take mark }
      throw error

end Workspace

end MidiScore
