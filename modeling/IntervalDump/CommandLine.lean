import IntervalDump.CommandLine.Options
import IntervalDump.Dump
import IntervalDump.Report
import IntervalDump.Text.Plain
/-!
# The command

The command reads one dump and prints the report of what it collected. It is a function of its
arguments and of the files they name: `run` gives the exit code, the text on standard output and
the notices. On a failure nothing is printed, and the last notice says what went wrong.
-/

namespace IntervalDump.CommandLine

/-- What a run of the program leaves: its exit code, what it printed, and its notices. -/
structure Result where
  exit : UInt32
  output : String
  notices : Array Notice

def versionText : String :=
  "simdump 0.1.0\n"

def helpLines : List String :=
  ["Collects attribute time series from a simulation interval dump and prints them as JSON",
   "",
   "Usage: simdump [OPTIONS] <DUMP>",
   "",
   "Arguments:",
   "  <DUMP>  Path to the interval dump (edge or lane data XML)",
   "",
   "Options:",
   "  -a, --attribute <NAME>  Attribute to collect. Repeat for several attributes",
   "  -j, --join <HOW>        Collapse every collected series into one snapshot (`sum` or `average`)",
   "  -c, --config <FILE>     Reader configuration as JSON. `--attribute` values are added to it",
   "      --pretty            Pretty-print the JSON output",
   "  -h, --help              Print help",
   "  -V, --version           Print version"]

def helpText : String :=
  helpLines.foldl (fun text line => (text ++ line).push '\n') ""

/-- The configuration in a file. -/
def configOf (file : Dump.File) : Except Dump.Error Config :=
  match file.text? with
  | .error reason => .error (.file reason)
  | .ok text => (Config.parse text).mapError .json

/-- Joins all series of a collector. -/
def joinAll (how? : Option Reduction) (c : Collector) : Dump.Reading :=
  match how? with
  | none => ⟨.ok c, #[]⟩
  | some how =>
    let o := c.join c.attributes how
    ⟨o.toExcept.mapError .collecting, o.notices⟩

/-- Reads the dump with a configuration and joins its series. -/
def collectWith (files : String → Dump.File) (options : Options) (config : Config) :
    Dump.Reading :=
  let config := config.addAttributes options.attributes
  if config.attributes.isEmpty then ⟨.error .nothingRequested, #[]⟩
  else
    let reading := Dump.ofFile options.dump (files options.dump) config
    match reading.result with
    | .error _ => reading
    | .ok c =>
      let joined := joinAll options.join? c
      ⟨joined.result, reading.notices ++ joined.notices⟩

/-- Everything between the arguments and the report. -/
def collect (files : String → Dump.File) (options : Options) : Dump.Reading :=
  match options.config? with
  | none => collectWith files options {}
  | some path =>
    let opened : Notice := .configOpened path
    match configOf (files path) with
    | .error error => ⟨.error error, #[opened]⟩
    | .ok config =>
      let reading := collectWith files options config
      ⟨reading.result, #[opened] ++ reading.notices⟩

/-- Runs the command on arguments that were understood. -/
def runOptions (files : String → Dump.File) (options : Options) : Result :=
  let reading := collect files options
  match reading.result with
  | .error error => ⟨1, "", reading.notices.push (.commandFailed error.message)⟩
  | .ok c =>
    let style : Json.Style := if options.pretty then .pretty else .compact
    ⟨0, (Report.render style c).push '\n', reading.notices⟩

/-- Runs the command. -/
def run (files : String → Dump.File) (arguments : List String) : Result :=
  match Request.ofArguments arguments with
  | .usageError => ⟨2, "", #[]⟩
  | .help => ⟨0, helpText, #[]⟩
  | .version => ⟨0, versionText, #[]⟩
  | .read options => runOptions files options

/-- A text whose lines behind the first are set in by four blanks. -/
def setIn (text : List Char) : List Char :=
  text.flatMap fun c => if c = '\n' then ['\n', ' ', ' ', ' ', ' '] else [c]

/-- The text of a notice as the command writes it. -/
def noticeText (notice : Notice) : String :=
  String.ofList (Text.plain (setIn notice.text.toList))

/-- The paths of the files that a run may look at. -/
def paths (arguments : List String) : List String :=
  match Request.ofArguments arguments with
  | .read options => options.config?.toList ++ [options.dump]
  | _ => []

end IntervalDump.CommandLine
