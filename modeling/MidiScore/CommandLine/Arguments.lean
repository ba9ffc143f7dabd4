/-!
# Arguments of a command line

Options come with one dash and a letter or with two dashes and a name.  Those that
take a value take the next argument, or what is attached to them.  Letters may
share a dash.  After two dashes alone all arguments are inputs.
-/

namespace MidiScore.CommandLine

/-- An option that takes a value. -/
inductive Setting where
  | config
  | output
  | port
  deriving Repr, DecidableEq

namespace Setting

/-- The name after two dashes. -/
def name : Setting → String
  | .config => "config"
  | .output => "output"
  | .port => "port"

/-- The letter after one dash. -/
def letter? : Setting → Option Char
  | .config => none
  | .output => some 'o'
  | .port => some 'p'

/-- Whether the value names a file, and may not be empty. -/
def isPath : Setting → Bool
  | .config | .output => true
  | .port => false

end Setting

/-- What a command takes. -/
structure Grammar where
  settings : List Setting
  takesInput : Bool
  /-- The commands inside of this one. -/
  commands : List String
  deriving Repr, DecidableEq

/-- The arguments that were given. -/
structure Given where
  /-- Settings with their values. -/
  values : List (Setting × String)
  input : Option String
  /-- How often more log output was asked for. -/
  verbosity : Nat
  deriving Repr, DecidableEq

namespace Given

/-- Nothing was given. -/
def nothing : Given := ⟨[], none, 0⟩

/-- The value of a setting. -/
def value? (given : Given) (setting : Setting) : Option String :=
  given.values.lookup setting

/-- With the value of a setting, which may be given once. -/
def set? (given : Given) (setting : Setting) (value : String) : Option Given :=
  if (given.value? setting).isSome || (setting.isPath && value.isEmpty) then none
  else some { given with values := (setting, value) :: given.values }

/-- With the input, which may be given once and names a file. -/
def setInput? (given : Given) (grammar : Grammar) (value : String) : Option Given :=
  if !grammar.takesInput || given.input.isSome || value.isEmpty then none
  else some { given with input := some value }

/-- With one more demand for log output. -/
def louder (given : Given) : Given :=
  { given with verbosity := given.verbosity + 1 }

/-- With the options that follow one dash, and the setting that still waits for its
value, if any. -/
def letters? (grammar : Grammar) (given : Given) : List Char → Option (Given × Option Setting)
  | [] => some (given, none)
  | 'v' :: rest => given.louder.letters? grammar rest
  | letter :: rest => do
      let setting ← grammar.settings.find? (·.letter? == some letter)
      match rest with
      | [] => some (given, some setting)
      | '=' :: value => return (← given.set? setting (String.ofList value), none)
      | value => return (← given.set? setting (String.ofList value), none)

/-- With the option that follows two dashes, and the setting that still waits for
its value, if any. -/
def named? (grammar : Grammar) (given : Given) (cs : List Char) :
    Option (Given × Option Setting) :=
  let name := String.ofList (cs.takeWhile (· != '='))
  match name, cs.dropWhile (· != '=') with
  | "verbose", [] => some (given.louder, none)
  | "verbose", _ :: _ => none
  | _, attached => do
      let setting ← grammar.settings.find? (·.name == name)
      match attached with
      | [] => some (given, some setting)
      | _ :: value => return (← given.set? setting (String.ofList value), none)

end Given

/-- Read arguments, up to a command inside of this one.  `waiting` is a setting
without its value so far, and `plain` tells that no more options are expected. -/
def read? (grammar : Grammar) (given : Given) (waiting : Option Setting) (plain : Bool) :
    List String → Option (Given × List String)
  | [] => if waiting.isSome then none else some (given, [])
  | argument :: rest =>
      if plain then do
        read? grammar (← given.setInput? grammar argument) waiting true rest
      else if waiting.isNone && grammar.commands.contains argument then
        some (given, argument :: rest)
      else
        match argument.toList, waiting with
        | ['-', '-'], none => read? grammar given none true rest
        | '-' :: '-' :: cs, none => do
            let (given, waiting) ← given.named? grammar cs
            read? grammar given waiting false rest
        | '-' :: c :: cs, none => do
            let (given, waiting) ← given.letters? grammar (c :: cs)
            read? grammar given waiting false rest
        | '-' :: _ :: _, some _ => none
        | _, some setting => do
            read? grammar (← given.set? setting argument) none false rest
        | _, none => do
            read? grammar (← given.setInput? grammar argument) none false rest

end MidiScore.CommandLine
