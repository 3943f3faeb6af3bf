/-
Module: FixedShape.CommandLine.Run
Purpose: The program from its arguments to its output. It describes a model or converts it, and
  says what was done; errors and the log go to the error stream.
-/
import FixedShape.CommandLine.Args
import FixedShape.Conversion

namespace FixedShape.CommandLine

/-- What a run of the program leaves behind, files apart. -/
structure Outcome where
  exitCode : Nat
  stdout : String := ""
  stderr : String := ""
  deriving DecidableEq, Repr

/-- The lines of the help. -/
def helpLines (program : String) : List String := [
  "Rewrite an ONNX model so that its inputs and output have static shapes.",
  "",
  "Usage: " ++ program ++ " [OPTIONS] <model> [<output>]",
  "",
  "Options:",
  "  -o, --output <path>         Path of the rewritten model",
  "  -s, --seq-length <n>        Sequence length of token inputs (default: 512)",
  "  -a, --output-length <n>     Length of the output (default: 192000)",
  "      --max-audio-samples <n> Alias for --output-length",
  "      --structural            Pad or truncate the output with Concat and",
  "                              Slice nodes, instead of only changing its",
  "                              declared shape",
  "      --add-padding           Alias for --structural",
  "      --axis <n>              Axis along which the output is padded (default: 0)",
  "      --reject-truncation     Fail if the output may be longer than",
  "                              --output-length",
  "      --input <name>          Input to fix. Can be repeated. Defaults to",
  "                              any of `input_ids` and `tokens`",
  "      --output-name <name>    Output to fix. Defaults to one of `audio` and",
  "                              `waveform`",
  "      --allow-unused-inputs   Don't fail if a graph input is unused",
  "      --analyze-only          Print the model's inputs and outputs and exit",
  "  -v, --verbose               Log more details. Repeat for debug output",
  "  -h, --help                  Print help",
  ""]

/-- Lines as they are printed. -/
def printed (lines : List String) : String := String.join (lines.map (· ++ "\n"))

/-- What is said about a fixed output. -/
def outputLines (report : OutputReport) (length : Nat) : List String :=
  match report.mode with
  | .declarative =>
    ["Set declared shape of \"" ++ report.output ++ "\" to [" ++ toString length ++
      "]. The length computed by the model may differ."]
  | .structural =>
    let intermediate := match report.intermediate with
      | some name => ["  Unpadded value: " ++ name]
      | none => []
    let rewired :=
      if report.rewired.isEmpty then []
      else ["  Rewired nodes: " ++ ", ".intercalate report.rewired]
    ["Padded \"" ++ report.output ++ "\" to " ++ toString length ++ " elements"] ++ intermediate ++
      ["  Added nodes: " ++ ", ".intercalate report.addedNodes,
        "  Added initializers: " ++ ", ".intercalate report.addedInitializers] ++ rewired

/-- What is said about a conversion. -/
def conversionLines (report : ConversionReport) (options : FixOptions) (output : String) :
    List String :=
  ["Input model:", report.before.text, ""] ++
    report.fixedInputs.map (fun name =>
      "Fixed input \"" ++ name ++ "\" to [1, " ++ toString options.seqLength ++ "]") ++
    outputLines report.output options.outputLength ++
    ["", "Saved " ++ output ++ ":", report.after.text]

/-- The line of an error. -/
def errorLine (message : String) : String := "error: " ++ message

/-- A run that failed at its work. -/
def failed (log : String) (error : FixError) : Outcome :=
  { exitCode := 1, stderr := log ++ printed [errorLine error.message] }

section

variable {m : Type → Type} [Monad m] [FileStore m]

/-- Does what the arguments ask for. -/
def work (args : Args) : m Outcome := do
  let threshold := LogLevel.ofVerbosity args.verbosity
  match args.analyzeOnly, args.output with
  | false, some output =>
    let (result, log) ← convert args.model output args.options
    match result with
    | .error error => return failed (log.shown threshold) error
    | .ok report =>
      return {
        exitCode := 0
        stdout := printed (conversionLines report args.options output)
        stderr := log.shown threshold }
  | false, none =>
    return { exitCode := 1, stderr := printed [errorLine "missing `<output>` arg"] }
  | true, _ =>
    match ← analyze args.model with
    | .error error => return failed "" error
    | .ok summary => return { exitCode := 0, stdout := printed [summary.text] }

/-- Runs the program. -/
def run (program : String) (args : List String) : m Outcome := do
  match parse args with
  | .error error =>
    return {
      exitCode := 2
      stderr := printed [errorLine error.message, "Run with --help for usage."] }
  | .ok .help => return { exitCode := 0, stdout := printed (helpLines program) }
  | .ok (.work args) => work args

end

end FixedShape.CommandLine
