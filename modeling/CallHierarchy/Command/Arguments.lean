import CallHierarchy.Command.Run
import CallHierarchy.Text.Decimal

/-!
# Command line arguments

Options are given by a letter or by a name. The value of an option is attached
to it or is the next argument; in the second place it may not look like an
option. After `--` all arguments are files. A variable of the environment can
stand in for a missing option.
-/

namespace CallHierarchy.Command

/-- Why a command line cannot be understood, or asks for something else than an analysis. -/
inductive Refusal where
  | help
  | version
  | unknownOption (text : String)
  | missingValue (option : String)
  | repeatedOption (option : String)
  | invalidValue (option : String) (value : String)
  | missingConfig
  deriving DecidableEq, Repr

/-- The options that take a value. -/
inductive Setting where
  | glob
  | config
  | output
  | format
  | jobs
  deriving DecidableEq, Repr

namespace Setting

/-- The name of an option. -/
def name : Setting → String
  | .glob => "glob"
  | .config => "tsconfig"
  | .output => "output"
  | .format => "format"
  | .jobs => "jobs"

/-- The letter of an option. -/
def letter : Setting → Char
  | .glob => 'g'
  | .config => 't'
  | .output => 'o'
  | .format => 'f'
  | .jobs => 'j'

/-- All options. -/
def all : List Setting := [.glob, .config, .output, .format, .jobs]

/-- The environment variable that stands in for an option. -/
def variableName? : Setting → Option String
  | .glob => some "SRC_PATHS"
  | .config => some "TS_CONFIG_PATH"
  | _ => none

end Setting

/-- What a single argument is. -/
inductive Argument where
  /-- An option, and its value if that is attached. -/
  | option (setting : Setting) (value : Option String)
  | refused (refusal : Refusal)
  /-- The mark after which only files come. -/
  | endOfOptions
  | plain (text : String)

namespace Argument

/-- Reads a named option, `--` taken off. -/
def ofLong (text : List Char) : Argument :=
  let name := String.ofList (text.takeWhile (· ≠ '='))
  let value := match text.dropWhile (· ≠ '=') with
    | [] => none
    | _ :: value => some (String.ofList value)
  match Setting.all.find? (·.name = name), name, value with
  | some setting, _, value => .option setting value
  | none, "help", none => .refused .help
  | none, "version", none => .refused .version
  | none, _, _ => .refused (.unknownOption ("--" ++ String.ofList text))

/-- Reads an option given by a letter, with what is attached to it. -/
def ofShort (letter : Char) (attached : List Char) : Argument :=
  let value := match attached with
    | [] => none
    | '=' :: value => some (String.ofList value)
    | value => some (String.ofList value)
  match Setting.all.find? (·.letter = letter), letter with
  | some setting, _ => .option setting value
  | none, 'h' => .refused .help
  | none, 'V' => .refused .version
  | none, _ => .refused (.unknownOption (String.ofList ['-', letter]))

/-- Reads an argument. A single hyphen is no option. -/
def ofText (text : String) : Argument :=
  match text.toList with
  | ['-', '-'] => .endOfOptions
  | '-' :: '-' :: long => ofLong long
  | '-' :: letter :: attached => ofShort letter attached
  | _ => .plain text

end Argument

/-- What has been read of a command line, in order. -/
structure Reading where
  files : List Path
  settings : List (Setting × String)

/-- A path. It may not be empty. -/
def readPath (option text : String) : Except Refusal Path :=
  if text = "" then .error (.invalidValue option text) else .ok ⟨text⟩

/-- A format. -/
def readFormat (text : String) : Except Refusal Format :=
  match Format.ofName? text with
  | some format => .ok format
  | none => .error (.invalidValue Setting.format.name text)

/-- A number of workers: digits, with or without a plus sign, below 2 to the power of 64. -/
def readJobs (text : String) : Except Refusal Nat :=
  let digits := match text.toList with
    | '+' :: digits => digits
    | digits => digits
  match (Text.decimal? digits).filter (· < UInt64.size) with
  | some jobs => .ok jobs
  | none => .error (.invalidValue Setting.jobs.name text)

/-- Refuses a value that an option cannot have. -/
def Setting.check (setting : Setting) (value : String) : Except Refusal Unit :=
  match setting with
  | .glob => .ok ()
  | .config | .output => discard (readPath setting.name value)
  | .format => discard (readFormat value)
  | .jobs => discard (readJobs value)

/-- Adds the value of an option. Only globs may be given more than once. -/
def Reading.set (reading : Reading) (setting : Setting) (value : String) :
    Except Refusal Reading :=
  if setting ≠ .glob && reading.settings.any (·.1 == setting) then
    .error (.repeatedOption setting.name)
  else do
    setting.check value
    return { reading with settings := reading.settings ++ [(setting, value)] }

/-- Adds a file. -/
def Reading.add (reading : Reading) (text : String) : Except Refusal Reading := do
  return { reading with files := reading.files ++ [← readPath "files" text] }

/-- Reads arguments. What comes first decides: a bad value before a call for help is refused. -/
def readArguments (reading : Reading) : List String → Except Refusal Reading
  | [] => .ok reading
  | argument :: rest =>
    match Argument.ofText argument with
    | .plain text => do readArguments (← reading.add text) rest
    | .endOfOptions => rest.foldlM Reading.add reading
    | .refused refusal => .error refusal
    | .option setting (some value) => do readArguments (← reading.set setting value) rest
    | .option setting none =>
      match rest with
      | [] => .error (.missingValue setting.name)
      | value :: rest =>
        match Argument.ofText value with
        | .plain value => do readArguments (← reading.set setting value) rest
        | _ => .error (.missingValue setting.name)

/-- The values of an option, or else that of the variable that stands in for it. -/
def valuesOf (environment : String → Option String) (reading : Reading) (setting : Setting) :
    List String :=
  match (reading.settings.filter (·.1 == setting)).map (·.2) with
  | [] => (setting.variableName?.bind environment).toList
  | values => values

/-- Reads the value of an option that may be missing. -/
def readOptional {α : Type} (read : String → Except Refusal α) :
    List String → Except Refusal (Option α)
  | [] => .ok none
  | text :: _ => return some (← read text)

/-- Reads a command line, given the variables of the environment. -/
def Arguments.parse (environment : String → Option String) (arguments : List String) :
    Except Refusal Arguments := do
  let reading ← readArguments ⟨[], []⟩ arguments
  let values := valuesOf environment reading
  let config ← readOptional (readPath Setting.config.name) (values .config)
  let output ← readOptional (readPath Setting.output.name) (values .output)
  let format ← readOptional readFormat (values .format)
  let jobs ← readOptional readJobs (values .jobs)
  match config with
  | none => .error .missingConfig
  | some config =>
    return {
      files := reading.files
      globs := values .glob
      config
      output
      format := format.getD .json
      jobs }

/-- How the program is used. -/
def usage : String :=
  "Usage: tcg [OPTIONS] --tsconfig <TSCONFIG> [FILES]...\n"

/-- What the program does and how it is used. -/
def help : String :=
  "Hierarchical, symbol-resolved call graph extraction for TypeScript and JavaScript projects.\n" ++
  "\n" ++ usage ++
  "\nArguments:\n" ++
  "  [FILES]...  Source files to analyze\n" ++
  "\nOptions:\n" ++
  "  -g, --glob <GLOBS>         Glob pattern selecting source files (can specify multiple)\n" ++
  "  -t, --tsconfig <TSCONFIG>  Project tsconfig.json\n" ++
  "  -o, --output <OUTPUT>      Output file path (stdout if omitted)\n" ++
  "  -f, --format <FORMAT>      Output format: json, dot or text\n" ++
  "  -j, --jobs <JOBS>          Worker threads for reading and parsing\n" ++
  "  -h, --help                 Print help\n" ++
  "  -V, --version              Print version\n"

/-- The name and version of the program. -/
def version : String :=
  "ts-callgraph 0.1.0\n"

/-- The answer to a command line that asks for something else than an analysis. -/
def answer : Refusal → Answer
  | .help => ⟨0, help, ""⟩
  | .version => ⟨0, version, ""⟩
  | _ => ⟨2, "", usage⟩

end CallHierarchy.Command
