import Stencil.CommandLine.Path

/-!
# Command line arguments

The arguments of the program: one template and options before, between or after it. A long option takes its value after an
equals sign or from the next argument; short options of one letter may stand together after one dash, and the first of them
that takes a value takes the rest of the argument or the next one. After two dashes alone nothing is an option.
-/

namespace Stencil

/-- An option of the command line. -/
inductive Setting
  | values | pair | preferOther | output | verbose | version | help
  deriving DecidableEq

/-- A use of the program that it does not know: an unknown option, a missing or unwanted value, or a wrong count of
templates. -/
inductive UsageError
  | unknownOption (name : Text)
  | missingValue (setting : Setting)
  | unwantedValue (setting : Setting)
  | noTemplate
  | extraTemplate (argument : Text)
  deriving DecidableEq

/-- What rendering from the command line works with. -/
structure Job where
  /-- The path of the template. -/
  template : Text
  /-- The path of the values file. -/
  values : Option Text
  /-- The values given as pairs. -/
  pairs : List Text
  /-- Whether another renderer is asked first. -/
  preferOther : Bool
  /-- The path that the output is written to. -/
  output : Option Text
  /-- Whether progress is reported. -/
  verbose : Bool
  deriving DecidableEq

/-- What the program is asked for. -/
inductive Request
  | version
  | help
  | render (job : Job)
  deriving DecidableEq

namespace Setting

/-- All options. -/
def all : List Setting := [values, pair, preferOther, output, verbose, version, help]

/-- The long name of an option. -/
def longName : Setting → Text
  | values => "--values".toList
  | pair => "--var".toList
  | preferOther => "--prefer-velocity".toList
  | output => "--output".toList
  | verbose => "--verbose".toList
  | version => "--version".toList
  | help => "--help".toList

/-- The letter of an option, if it has one. -/
def letter? : Setting → Option Char
  | values => some 'f'
  | pair => some 'D'
  | output => some 'o'
  | verbose => some 'v'
  | preferOther | version | help => none

/-- Whether an option takes a value. -/
def takesValue : Setting → Bool
  | values | pair | output => true
  | preferOther | verbose | version | help => false

/-- The option with a long name. -/
def ofName? (name : Text) : Option Setting := all.find? fun s => s.longName = name

/-- The option with a letter. -/
def ofLetter? (c : Char) : Option Setting := all.find? fun s => s.letter? = some c

end Setting

/-- The parts of a command line in order: options with their values, empty for those that take none, and the other
arguments. -/
structure Arguments where
  /-- The options that were given. -/
  given : List (Setting × Text)
  /-- The arguments that are no options. -/
  others : List Text
  deriving DecidableEq

namespace Arguments

/-- The flags of an argument of letters, and the option that takes the rest of it as its value or the next argument. -/
def letters : Text → Except UsageError (List Setting × Option (Setting × Text))
  | [] => .ok ([], none)
  | c :: rest =>
    match Setting.ofLetter? c with
    | none => .error (.unknownOption ['-', c])
    | some s =>
      if s.takesValue then .ok ([], some (s, rest))
      else do
        let (flags, last) ← letters rest
        return (s :: flags, last)

/-- The options of one argument: those that are complete, and one that still needs its value. -/
def options (argument : Text) : Except UsageError (List (Setting × Text) × Option Setting) :=
  if "--".toList.isPrefixOf argument then
    let (name, value) : Text × Option Text :=
      match Text.splitAtFirst? (· = '=') argument with
      | some (name, value) => (name, some value)
      | none => (argument, none)
    match Setting.ofName? name, value with
    | none, _ => .error (.unknownOption name)
    | some s, some value => if s.takesValue then .ok ([(s, value)], none) else .error (.unwantedValue s)
    | some s, none => if s.takesValue then .ok ([], some s) else .ok ([(s, [])], none)
  else do
    let (flags, last) ← letters (argument.drop 1)
    let complete := flags.map fun s => (s, ([] : Text))
    match last with
    | none => return (complete, none)
    | some (s, []) => return (complete, some s)
    | some (s, value) => return (complete ++ [(s, value)], none)

/-- Arguments with options in front. -/
def withGiven (given : List (Setting × Text)) (rest : Arguments) : Arguments :=
  { rest with given := given ++ rest.given }

/-- The parts of a command line. -/
def read : List Text → Except UsageError Arguments
  | [] => .ok ⟨[], []⟩
  | argument :: rest =>
    if argument = "--".toList then .ok ⟨[], rest⟩
    else if argument.head? = some '-' && argument ≠ ['-'] then
      match options argument with
      | .error e => .error e
      | .ok (given, none) => withGiven given <$> read rest
      | .ok (given, some s) =>
        match rest with
        | [] => .error (.missingValue s)
        | value :: rest => withGiven (given ++ [(s, value)]) <$> read rest
    else do
      let parts ← read rest
      return { parts with others := argument :: parts.others }

/-- The last value of an option. -/
def lastValue? (parts : Arguments) (s : Setting) : Option Text :=
  (parts.given.reverse.find? fun entry => entry.1 = s).map (·.2)

/-- Whether an option was given. -/
def has (parts : Arguments) (s : Setting) : Bool := parts.given.any fun entry => entry.1 = s

/-- What the parts of a command line ask for. Of the options for the version and for help the first one given counts, before
anything is said of the template. -/
def request (parts : Arguments) : Except UsageError Request :=
  match parts.given.find? fun entry => entry.1 = .version || entry.1 = .help with
  | some (.version, _) => .ok .version
  | some _ => .ok .help
  | none =>
    match parts.others with
    | [] => .error .noTemplate
    | [template] =>
      .ok (.render {
        template := Path.plain template
        values := (parts.lastValue? .values).map Path.plain
        pairs := (parts.given.filter fun entry => entry.1 = .pair).map (·.2)
        preferOther := parts.has .preferOther
        output := (parts.lastValue? .output).map Path.plain
        verbose := parts.has .verbose })
    | _ :: extra :: _ => .error (.extraTemplate extra)

end Arguments

/-- What a command line asks for. -/
def Request.ofArguments (arguments : List Text) : Except UsageError Request := do
  (← Arguments.read arguments).request

end Stencil
