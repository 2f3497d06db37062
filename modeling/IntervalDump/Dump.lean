import IntervalDump.Collector
import IntervalDump.Config.Text
import IntervalDump.Delivery
/-!
# Reading dumps

The ways to read a whole dump: from a text, from a source of bytes, from a file. Each gives a
collector that has received the document, or the error that stopped it, together with the notices
given on the way.
-/

namespace IntervalDump.Dump

/-- Why a dump cannot be read. -/
inductive Error where
  | collecting (error : Collector.Error)
  /-- A file could not be used. -/
  | file (reason : String)
  /-- The text of a configuration could not be read. -/
  | json (fault : Json.Fault)
  /-- No attribute is requested. -/
  | nothingRequested
  deriving DecidableEq, Repr

def Error.message : Error → String
  | .collecting error => s!"Reading dump failed: {error.message}"
  | .file reason => s!"I/O error: {reason}"
  | .json fault => s!"JSON error: {fault.message}"
  | .nothingRequested =>
    "Configuration error: no attributes requested; pass --attribute or a config file"

/-- What reading a dump leads to. -/
structure Reading where
  result : Except Error Collector
  notices : Array Notice

/-- Delivers a source to a collector. -/
def collect (source : Source) (c : Collector) : Reading :=
  let o := deliver Collector.handler source c
  ⟨o.toExcept.mapError .collecting, o.notices⟩

/-- Reads a dump from a text. -/
def ofText (text : String) (attributes : List String) : Reading :=
  collect (.ofText text) (.ofAttributes attributes)

/-- Reads a dump from a source. The configuration is looked at before the first byte. -/
def ofSource (source : Source) (config : Config) : Reading :=
  match Collector.ofConfig config with
  | .error error => ⟨.error (.collecting error), #[]⟩
  | .ok c => collect source c

/-- What a path leads to. -/
inductive File where
  /-- The file cannot be opened. -/
  | closed (reason : String)
  /-- The file is opened, but nothing can be read from it. -/
  | unreadable (reason : String)
  | content (bytes : List UInt8)

namespace File

/-- There is no such file. -/
def missing : File :=
  .closed "No such file or directory (os error 2)"

/-- What stands before the last `/` is a file. -/
def notADirectory : File :=
  .closed "Not a directory (os error 20)"

/-- A path, or a name in it, is longer than the file system takes. -/
def nameTooLong : File :=
  .closed "File name too long (os error 36)"

def directory : File :=
  .unreadable "Is a directory (os error 21)"

/-- The source that an opened file is. -/
def open? : File → Except String Source
  | .closed reason => .error reason
  | .unreadable reason => .ok (.chunked Source.fileRefill [] (some reason))
  | .content bytes => .ok (.chunked Source.fileRefill bytes none)

/-- The whole text of a file. -/
def text? : File → Except String String
  | .closed reason => .error reason
  | .unreadable reason => .error reason
  | .content bytes =>
    (Utf8.decode bytes).mapError fun _ => "stream did not contain valid UTF-8"

end File

/-- Reads a dump from a file. The file is opened before the configuration is looked at. -/
def ofFile (path : String) (file : File) (config : Config) : Reading :=
  let opened : Notice := .dumpOpened path
  match file.open? with
  | .error reason => ⟨.error (.file reason), #[opened]⟩
  | .ok source =>
    let reading := ofSource source config
    { reading with notices := #[opened] ++ reading.notices }

end IntervalDump.Dump
