import MidiScore.Config.Basic
import MidiScore.Session.Draft

/-!
# Sessions

A session evaluates declarations into a buffer of bars.  Key bindings, named bars
and key signatures last as long as the session.  A bar body works on its own
draft: its scope ends with it, and only its key signatures remain.

A declaration that is refused changes nothing, and the bars of the evaluation
that met it are dropped with it; what its earlier declarations have set stays.
-/

namespace MidiScore

/-- What the declarations of a session have set so far. -/
structure Context where
  scope : Scope
  keys : KeyMap
  /-- Named bars, the latest first. -/
  bars : List (String × Bar)
  signatures : Signatures
  deriving Repr, DecidableEq

namespace Context

/-- The bar of a name. -/
def bar? (context : Context) (name : String) : Option Bar :=
  context.bars.lookup name

/-- Bind a note name on the current channel. -/
def assign (context : Context) (note : Char) (key : UInt8) : Except Error Context := do
  Quantity.check .key key.toNat
  match context.keys.get? context.scope.channel note with
  | some existing => throw (.duplicateAssignment note existing context.scope.channel)
  | none =>
      return { context with
        keys := (context.keys.bind? context.scope.channel note key).getD context.keys }

/-- Name the bar that a body builds. -/
def defineBar (context : Context) (name : String) (body : List Declaration) :
    Except Error Context := do
  if (context.bar? name).isSome then
    throw (.duplicateBar name)
  let draft ← (Draft.start context.scope context.signatures).steps context.keys body
  match draft.finish with
  | none => throw (.emptyBar name)
  | some bar =>
      return { context with
        bars := (name, bar) :: context.bars
        signatures := draft.signatures }

/-- Evaluate a declaration outside of any bar body: what it sets, and the bar it
puts out, if any. -/
def step (context : Context) (declaration : Declaration) : Except Error (Context × Option Bar) :=
  match declaration with
  | .assign note key => (context.assign note key).map (·, none)
  | .defineBar name body => (context.defineBar name body).map (·, none)
  | .play name =>
      match context.bar? name with
      | none => .error (.unknownBar name)
      | some bar => .ok (context, some bar)
  | _ => do
      let draft ← (Draft.start context.scope context.signatures).step context.keys declaration
      return ({ context with scope := draft.scope, signatures := draft.signatures }, draft.finish)

/-- Evaluate declarations in order: what the accepted ones have set, and all bars
they put out or the first error. -/
def run (context : Context) : List Declaration → Context × Except Error (List Bar)
  | [] => (context, .ok [])
  | declaration :: rest =>
      match context.step declaration with
      | .error error => (context, .error error)
      | .ok (next, bar?) =>
          let (final, bars) := next.run rest
          (final, bars.map (bar?.toList ++ ·))

end Context

/-- A context with the bars that wait to be taken. -/
structure Session where
  context : Context
  buffer : List Bar
  deriving Repr, DecidableEq

namespace Session

/-- A session before its first declaration. -/
def ofConfig (config : Config) : Session where
  context :=
    { scope := ⟨0, config.velocity, config.meter⟩
      keys := .empty
      bars := []
      signatures := [] }
  buffer := []

/-- Evaluate declarations.  Their bars join the buffer, or none does and the first
error is given. -/
def evaluate (session : Session) (declarations : List Declaration) : Session × Option Error :=
  match session.context.run declarations with
  | (context, .ok bars) => (⟨context, session.buffer ++ bars⟩, none)
  | (context, .error error) => (⟨context, session.buffer⟩, some error)

end Session

end MidiScore
