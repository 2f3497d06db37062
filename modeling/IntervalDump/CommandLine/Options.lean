import IntervalDump.Reduction
/-!
# Command line arguments

How the arguments of the command are read. The command takes the path of one dump and these options:

* `-a NAME`, `--attribute NAME`: an attribute to collect, any number of times;
* `-j HOW`, `--join HOW`: how every series is joined;
* `-c FILE`, `--config FILE`: a file with a configuration;
* `--pretty`: the layout of the report on several lines;
* `-h`, `--help`, `-V`, `--version`.

The value of an option stands in the next argument, which must not look like an option, or in the
same one behind `=`; behind the letter of a short option the `=` may be missing. The options of one
value and `--pretty` may be given once. Behind `--` every argument is a path. Arguments count from
left to right: the first mistake, or a request for help or the version before it, decides.
-/

namespace IntervalDump.CommandLine

/-- What was asked for on the command line. -/
structure Options where
  dump : String
  attributes : List String
  join? : Option Reduction
  config? : Option String
  pretty : Bool
  deriving DecidableEq, Repr

/-- What the arguments ask for. -/
inductive Request where
  | usageError
  | help
  | version
  | read (options : Options)
  deriving DecidableEq, Repr

/-- The options that have a value. -/
inductive Valued where
  | attribute
  | join
  | config
  deriving DecidableEq, Repr

/-- What one argument is. -/
inductive Word where
  /-- An option with a value, which may stand in the same argument. -/
  | valued (option : Valued) (value? : Option String)
  | pretty
  | help
  | version
  /-- All that follows are paths. -/
  | paths
  | path (text : String)
  | unknown
  deriving DecidableEq, Repr

namespace Word

/-- An option of one letter, and the rest of its argument. -/
def ofLetter (letter : Char) (rest : List Char) : Word :=
  let value? : Option String :=
    match rest with
    | [] => none
    | '=' :: value => some (String.ofList value)
    | value => some (String.ofList value)
  if letter = 'a' then .valued .attribute value?
  else if letter = 'j' then .valued .join value?
  else if letter = 'c' then .valued .config value?
  else if letter = 'h' then .help
  else if letter = 'V' then .version
  else .unknown

/-- An option with a long name, and its value if one was given behind `=`. -/
def ofName (name : List Char) (value? : Option String) : Word :=
  if name = "attribute".toList then .valued .attribute value?
  else if name = "join".toList then .valued .join value?
  else if name = "config".toList then .valued .config value?
  else if value?.isSome then .unknown
  else if name = "pretty".toList then .pretty
  else if name = "help".toList then .help
  else if name = "version".toList then .version
  else .unknown

/-- The word that an argument is, taken by itself. -/
def ofArgument (argument : String) : Word :=
  match argument.toList with
  | ['-', '-'] => .paths
  | '-' :: '-' :: long =>
    ofName (long.takeWhile (· != '='))
      (match long.dropWhile (· != '=') with
       | [] => none
       | _ :: value => some (String.ofList value))
  | '-' :: letter :: rest => ofLetter letter rest
  | _ => .path argument

end Word

/-- What was found so far. Attributes are kept last first. -/
structure Found where
  dump? : Option String := none
  attributes : List String := []
  join? : Option Reduction := none
  config? : Option String := none
  pretty : Bool := false

namespace Found

/-- Takes the value of an option. -/
def value (found : Found) (option : Valued) (value : String) : Option Found :=
  match option with
  | .attribute => some { found with attributes := value :: found.attributes }
  | .join =>
    match found.join?, Reduction.ofName? value with
    | none, some how => some { found with join? := some how }
    | _, _ => none
  | .config =>
    if found.config?.isSome ∨ value = "" then none else some { found with config? := some value }

/-- Takes the path of the dump. -/
def path (found : Found) (path : String) : Option Found :=
  if found.dump?.isSome ∨ path = "" then none else some { found with dump? := some path }

/-- What was found when all arguments are read. -/
def finish (found : Found) : Request :=
  match found.dump? with
  | none => .usageError
  | some dump =>
    .read
      { dump
        attributes := found.attributes.reverse
        join? := found.join?
        config? := found.config?
        pretty := found.pretty }

/-- Reads arguments that are all paths. -/
def readPaths (found : Found) : List String → Request
  | [] => found.finish
  | argument :: arguments =>
    match found.path argument with
    | none => .usageError
    | some found => found.readPaths arguments

/-- Whether an argument can be the value of the option before it. -/
def isValue (argument : String) : Bool :=
  match argument.toList with
  | '-' :: _ :: _ => false
  | _ => true

/-- Reads arguments. -/
def read (found : Found) : List String → Request
  | [] => found.finish
  | argument :: arguments =>
    match Word.ofArgument argument with
    | .unknown => .usageError
    | .help => .help
    | .version => .version
    | .paths => found.readPaths arguments
    | .pretty => if found.pretty then .usageError else { found with pretty := true }.read arguments
    | .path path =>
      match found.path path with
      | none => .usageError
      | some found => found.read arguments
    | .valued option (some value) =>
      match found.value option value with
      | none => .usageError
      | some found => found.read arguments
    | .valued option none =>
      match arguments with
      | [] => .usageError
      | value :: arguments =>
        if isValue value then
          match found.value option value with
          | none => .usageError
          | some found => found.read arguments
        else .usageError

end Found

/-- What a list of arguments asks for. -/
def Request.ofArguments (arguments : List String) : Request :=
  ({} : Found).read arguments

end IntervalDump.CommandLine
