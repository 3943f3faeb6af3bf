/-
Module: FixedShape.CommandLine.Args
Purpose: The arguments of the program. They are taken one after the other: options with a value,
  flags, which may be clustered behind one dash, and paths. The first that is wrong decides; what
  is missing is noticed at the end.
-/
import FixedShape.CommandLine.Numeral
import FixedShape.Fixing.FixModel
import FixedShape.Text.Quoted

namespace FixedShape.CommandLine

/-- Why arguments cannot be followed. Options are told with their dashes. -/
inductive ArgsError where
  | missingValue (option : String)
  | unexpectedValue (option value : String)
  | invalidOption (option : String)
  | invalidNumeral (text : String) (fault : NumeralFault)
  | missingModel
  | missingOutput
  | outputTwice
  | extraPath (path : String)
  deriving DecidableEq, Repr

/-- The wording of an error. -/
def ArgsError.message : ArgsError → String
  | .missingValue option => "missing argument for option '" ++ option ++ "'"
  | .unexpectedValue option value =>
    "unexpected argument for option '" ++ option ++ "': " ++ Text.quoted value
  | .invalidOption option => "invalid option '" ++ option ++ "'"
  | .invalidNumeral text fault =>
    "cannot parse argument " ++ Text.quoted text ++ ": " ++ fault.message
  | .missingModel => "missing `<model>` arg"
  | .missingOutput => "missing `<output>` arg. Use --analyze-only to inspect a model"
  | .outputTwice => "output path specified twice"
  | .extraPath path => "unexpected argument " ++ path

/-- What the program is told to do. -/
structure Args where
  model : String
  output : Option String
  analyzeOnly : Bool
  options : FixOptions
  /-- How often more details were asked for. -/
  verbosity : Nat
  deriving DecidableEq, Repr

/-- Arguments either ask for help or give work. -/
inductive Command where
  | help
  | work (args : Args)
  deriving DecidableEq, Repr

/-- What the arguments taken so far have set. -/
structure Settings where
  paths : List String := []
  output : Option String := none
  analyzeOnly : Bool := false
  verbosity : Nat := 0
  inputs : List String := []
  outputName : Option String := none
  options : FixOptions := {}
  deriving DecidableEq, Repr

/-- The options that stand alone. -/
inductive Flag where
  | structural
  | rejectTruncation
  | allowUnusedInputs
  | analyzeOnly
  | verbose
  deriving DecidableEq, Repr

/-- The options with a value. -/
inductive Setting where
  | output
  | seqLength
  | outputLength
  | axis
  | input
  | outputName
  deriving DecidableEq, Repr

/-- What an option is for. -/
inductive Switch where
  | help
  | flag (flag : Flag)
  | setting (setting : Setting)
  deriving DecidableEq, Repr

/-- The option of a long name. -/
def Switch.ofLong? : String → Option Switch
  | "output" => some (.setting .output)
  | "seq-length" => some (.setting .seqLength)
  | "output-length" | "max-audio-samples" => some (.setting .outputLength)
  | "structural" | "add-padding" => some (.flag .structural)
  | "axis" => some (.setting .axis)
  | "reject-truncation" => some (.flag .rejectTruncation)
  | "input" => some (.setting .input)
  | "output-name" => some (.setting .outputName)
  | "allow-unused-inputs" => some (.flag .allowUnusedInputs)
  | "analyze-only" => some (.flag .analyzeOnly)
  | "verbose" => some (.flag .verbose)
  | "help" => some .help
  | _ => none

/-- The option of a letter. -/
def Switch.ofShort? : Char → Option Switch
  | 'o' => some (.setting .output)
  | 's' => some (.setting .seqLength)
  | 'a' => some (.setting .outputLength)
  | 'v' => some (.flag .verbose)
  | 'h' => some .help
  | _ => none

/-- The letter of an option as it is told. -/
def shortLabel (c : Char) : String := String.ofList ['-', c]

namespace Settings

/-- Applies a flag. -/
def raise (settings : Settings) : Flag → Settings
  | .structural => { settings with options := { settings.options with mode := .structural } }
  | .rejectTruncation => { settings with options := { settings.options with overflow := .reject } }
  | .allowUnusedInputs =>
    { settings with options := { settings.options with allowUnusedInputs := true } }
  | .analyzeOnly => { settings with analyzeOnly := true }
  | .verbose => { settings with verbosity := settings.verbosity + 1 }

/-- Applies an option to its value. Inputs add up; of any other option the last value counts. -/
def assign (settings : Settings) (setting : Setting) (value : String) :
    Except ArgsError Settings :=
  let options := settings.options
  match setting with
  | .output => .ok { settings with output := some value }
  | .input => .ok { settings with inputs := settings.inputs ++ [value] }
  | .outputName => .ok { settings with outputName := some value }
  | .seqLength =>
    match Numeral.length value with
    | .error fault => .error (.invalidNumeral value fault)
    | .ok length => .ok { settings with options := { options with seqLength := length } }
  | .outputLength =>
    match Numeral.length value with
    | .error fault => .error (.invalidNumeral value fault)
    | .ok length => .ok { settings with options := { options with outputLength := length } }
  | .axis =>
    match Numeral.integer value with
    | .error fault => .error (.invalidNumeral value fault)
    | .ok axis => .ok { settings with options := { options with axis } }

/-- The model and the output among the paths and the output option. The second path is the
output, unless the option gives it; there is no third. -/
def resolvePaths (settings : Settings) : Except ArgsError (String × Option String) :=
  match settings.paths, settings.output with
  | [], _ => .error .missingModel
  | _ :: _ :: _, some _ => .error .outputTwice
  | _ :: _ :: extra :: _, none => .error (.extraPath extra)
  | [model, output], none => .ok (model, some output)
  | [model], some output => .ok (model, some output)
  | [model], none =>
    if settings.analyzeOnly then .ok (model, none) else .error .missingOutput

/-- What the settings ask for. -/
def finish (settings : Settings) : Except ArgsError Command :=
  match settings.resolvePaths with
  | .error error => .error error
  | .ok (model, output) =>
    let inputs :=
      if settings.inputs.isEmpty then settings.options.inputs else .exactly settings.inputs
    let output? :=
      match settings.outputName with
      | none => settings.options.output
      | some name => .exactly [name]
    .ok <| .work
      { model, output
        analyzeOnly := settings.analyzeOnly
        options := { settings.options with inputs, output := output? }
        verbosity := settings.verbosity }

end Settings

/-- What a cluster of letters behind one dash comes to. -/
inductive ClusterResult where
  /-- All letters were flags. -/
  | settings (settings : Settings)
  /-- The last letter is an option whose value is the next argument. -/
  | pending (settings : Settings) (setting : Setting) (label : String)
  | help

/-- Reads the letters behind one dash; `last` is the letter before them. An equals sign behind a
letter gives it a value, which a flag does not take. What stands behind a letter that takes a
value is its value, less an equals sign. -/
def readCluster (settings : Settings) (last : Option Char) :
    List Char → Except ArgsError ClusterResult
  | [] => .ok (.settings settings)
  | c :: rest =>
    match last, c with
    | some flag, '=' => .error (.unexpectedValue (shortLabel flag) (String.ofList rest))
    | _, c =>
      match Switch.ofShort? c with
      | none => .error (.invalidOption (shortLabel c))
      | some .help => .ok .help
      | some (.flag flag) => readCluster (settings.raise flag) (some c) rest
      | some (.setting setting) =>
        match rest with
        | [] => .ok (.pending settings setting (shortLabel c))
        | '=' :: value => (settings.assign setting (String.ofList value)).map .settings
        | value => (settings.assign setting (String.ofList value)).map .settings

/-- The name of a long option, and the value behind an equals sign if there is one. -/
def splitLong (chars : List Char) : String × Option String :=
  let name := chars.takeWhile (· ≠ '=')
  match chars.drop name.length with
  | [] => (String.ofList name, none)
  | _ :: value => (String.ofList name, some (String.ofList value))

/-- Takes arguments. Behind two dashes all are paths; the value of an option is the next argument
whatever it looks like; a lone dash is a path. -/
def parseFrom (settings : Settings) : List String → Except ArgsError Command
  | [] => settings.finish
  | arg :: rest =>
    match arg.toList with
    | ['-', '-'] => { settings with paths := settings.paths ++ rest }.finish
    | '-' :: '-' :: chars =>
      let (name, value?) := splitLong chars
      let label := "--" ++ name
      match Switch.ofLong? name, value? with
      | none, _ => .error (.invalidOption label)
      | some .help, _ => .ok .help
      | some (.flag _), some value => .error (.unexpectedValue label value)
      | some (.flag flag), none => parseFrom (settings.raise flag) rest
      | some (.setting setting), some value =>
        match settings.assign setting value with
        | .error error => .error error
        | .ok settings => parseFrom settings rest
      | some (.setting setting), none =>
        match rest with
        | [] => .error (.missingValue label)
        | value :: rest =>
          match settings.assign setting value with
          | .error error => .error error
          | .ok settings => parseFrom settings rest
    | '-' :: c :: chars =>
      match readCluster settings none (c :: chars) with
      | .error error => .error error
      | .ok .help => .ok .help
      | .ok (.settings settings) => parseFrom settings rest
      | .ok (.pending settings setting label) =>
        match rest with
        | [] => .error (.missingValue label)
        | value :: rest =>
          match settings.assign setting value with
          | .error error => .error error
          | .ok settings => parseFrom settings rest
    | _ => parseFrom { settings with paths := settings.paths ++ [arg] } rest

/-- Reads the arguments of the program. -/
def parse (args : List String) : Except ArgsError Command := parseFrom {} args

end FixedShape.CommandLine
