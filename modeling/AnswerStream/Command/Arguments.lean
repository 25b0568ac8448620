import AnswerStream.Chat.Config
import AnswerStream.Command.Usage

/-!
# Reading the command line

Arguments are read from left to right.  An option that takes a value takes it
from behind an equals sign, or else the next argument, unless that looks like an
option itself.  Two dashes end the options; what follows them is a file even if
it starts with a dash.

## Which complaint comes first

A value that was read is put on record only when the next option or file is met,
or at the end, and complaints about it arise then: that it is missing, that it is
given twice, or that it is an empty path.  A word that is not understood is
complained about at once, and so is a flag with a value.  That a required option
is missing is seen last.
-/

namespace AnswerStream
namespace Command

/-- Why a command line is not carried out as it stands. -/
inductive Stop where
  /-- An option is given twice. -/
  | argumentConflict
  /-- Help was asked for. -/
  | displayHelp (text : String)
  /-- Nothing was asked for. -/
  | displayHelpOnMissing
  /-- The version was asked for. -/
  | displayVersion
  /-- There is no such subcommand. -/
  | invalidSubcommand
  /-- A value is missing, or is an empty path. -/
  | invalidValue
  /-- A required option is missing. -/
  | missingRequired
  /-- A flag has a value. -/
  | tooManyValues
  /-- A word is not understood. -/
  | unknownArgument
  deriving DecidableEq

/-- The name of a stop. -/
def Stop.name : Stop → String
  | argumentConflict => "ArgumentConflict"
  | displayHelp _ => "DisplayHelp"
  | displayHelpOnMissing => "DisplayHelpOnMissingArgumentOrSubcommand"
  | displayVersion => "DisplayVersion"
  | invalidSubcommand => "InvalidSubcommand"
  | invalidValue => "InvalidValue"
  | missingRequired => "MissingRequiredArgument"
  | tooManyValues => "TooManyValues"
  | unknownArgument => "UnknownArgument"

/-- An argument by its outward form. -/
inductive Form where
  /-- Two dashes. -/
  | divider
  /-- A long option, and the value behind its equals sign. -/
  | long (name : String) (value : Option String)
  /-- One-letter options, and what follows the first of them. -/
  | short (first : Char) (rest : List Char)
  /-- Anything else. -/
  | plain
  deriving DecidableEq

/-- The form of an argument.  A single dash is nothing special. -/
def Form.of (arg : String) : Form :=
  match arg.toList with
  | ['-', '-'] => .divider
  | '-' :: '-' :: cs =>
    .long (String.ofList (cs.takeWhile (· ≠ '=')))
      (match cs.dropWhile (· ≠ '=') with
        | [] => none
        | _ :: value => some (String.ofList value))
  | '-' :: c :: cs => .short c cs
  | _ => .plain

/-- Arguments that were read. -/
structure Reading where
  /-- The values on record, in order. -/
  values : List (String × String) := []
  /-- What was met last and is not on record, with its value once that is known. -/
  pending : Option (Param × Option String) := none
  /-- Whether a file was met. -/
  fileMet : Bool := false
  /-- Whether the options have ended. -/
  divided : Bool := false

namespace Reading

/-- Put a value on record. -/
def store (p : Param) (value : String) (r : Reading) : Except Stop Reading :=
  if !p.many && r.values.any fun v => v.1 == p.name then .error .argumentConflict
  else if p.takes = .path ∧ value = "" then .error .invalidValue
  else .ok { r with values := r.values ++ [(p.name, value)] }

/-- Put on record what was met last. -/
def settle (r : Reading) : Except Stop Reading :=
  match r.pending with
  | none => .ok r
  | some (_, none) => .error .invalidValue
  | some (p, some value) => { r with pending := none }.store p value

/-- Read an option, with a value if one is attached to it. -/
def option (p : Param) (attached : Option String) (r : Reading) : Except Stop Reading := do
  let r ← r.settle
  match p.takes, attached with
  | .flag, _ => r.store p ""
  | _, some value => r.store p value
  | _, none => return { r with pending := some (p, none) }

/-- Read a long option. -/
def long (s : Subcommand) (name : String) (value : Option String) (r : Reading) :
    Except Stop Reading :=
  if name = "help" then
    match value with
    | some _ => .error .tooManyValues
    | none => do
      let _ ← r.settle
      throw (.displayHelp (Usage.ofSubcommand s))
  else
    match s.options.find? fun p => p.name == name with
    | none => .error .unknownArgument
    | some p => if p.takes = .flag ∧ value.isSome then .error .tooManyValues else r.option p value

/-- The value attached to a one-letter option. -/
def attached : List Char → Option String
  | [] => none
  | '=' :: cs => some (String.ofList cs)
  | cs => some (String.ofList cs)

/-- Read a one-letter option.  There are no flags among them but help. -/
def short (s : Subcommand) (first : Char) (rest : List Char) (r : Reading) :
    Except Stop Reading :=
  if first = 'h' then do
    let _ ← r.settle
    throw (.displayHelp (Usage.ofSubcommand s))
  else
    match s.options.find? fun p => p.letter == some first with
    | none => .error .unknownArgument
    | some p => r.option p (attached rest)

/-- Read a file. -/
def file (s : Subcommand) (path : String) (r : Reading) : Except Stop Reading :=
  if s.takesFile && !r.fileMet then do
    let r ← r.settle
    return { r with pending := some (fileParam, some path), fileMet := true }
  else .error .unknownArgument

/-- Read an argument that is no option: the value that an option waits for, or a
file. -/
def plain (s : Subcommand) (arg : String) (r : Reading) : Except Stop Reading :=
  match r.pending with
  | some (p, none) => .ok { r with pending := some (p, some arg) }
  | _ => r.file s arg

/-- Read one argument. -/
def step (s : Subcommand) (r : Reading) (arg : String) : Except Stop Reading :=
  if r.divided then r.file s arg
  else
    match Form.of arg with
    | .divider => .ok { r with divided := true }
    | .long name value => r.long s name value
    | .short first rest => r.short s first rest
    | .plain => r.plain s arg

end Reading

/-- The values that the arguments of a subcommand give. -/
def Subcommand.read (s : Subcommand) (args : List String) :
    Except Stop (List (String × String)) := do
  let r ← args.foldlM (Reading.step s) {}
  let r ← r.settle
  if s.options.any fun p => p.required && !r.values.any fun v => v.1 == p.name then
    throw .missingRequired
  return r.values

/-! ## What is asked for -/

/-- What a command line asks for. -/
inductive Arguments where
  /-- Render a text from a file or the standard input. -/
  | render (file : Option String) (noHighlight typing : Bool)
  /-- Mark up code from a file or the standard input. -/
  | highlight (lang : String) (file : Option String)
  /-- Chat with a service. -/
  | chat (baseUrl session : String) (images : List String) (noReferences : Bool)
  deriving DecidableEq

namespace Arguments

/-- What the values of a subcommand ask for. -/
def ofValues (s : Subcommand) (values : List (String × String)) : Arguments :=
  let value name := values.lookup name
  let flag name := (value name).isSome
  if s = Grammar.render then .render (value "file") (flag "no-highlight") (flag "typing")
  else if s = Grammar.highlight then .highlight ((value "lang").getD "") (value "file")
  else
    .chat ((value "base-url").getD "") ((value "session").getD "")
      ((values.filter fun v => v.1 == "image").map Prod.snd) (flag "no-references")

/-- The help that the arguments of the subcommand for help ask for. -/
def helpFor : List String → Stop
  | [] => .displayHelp Usage.ofProgram
  | [name] =>
    if name = Grammar.help.name then .displayHelp Usage.ofHelp
    else
      match Grammar.find? name with
      | some s => .displayHelp (Usage.ofSubcommand s)
      | none => .invalidSubcommand
  | _ => .invalidSubcommand

/-- Why a command line without a subcommand is not carried out, once the options
have ended. -/
def afterDivider : List String → Stop
  | [] => .displayHelpOnMissing
  | arg :: _ =>
    if arg = Grammar.help.name ∨ (Grammar.find? arg).isSome then .unknownArgument
    else .invalidSubcommand

/-- Why a command line whose first argument is no subcommand is not carried out. -/
def withoutSubcommand (arg : String) (rest : List String) : Stop :=
  match Form.of arg with
  | .divider => afterDivider rest
  | .long name value =>
    if name = "help" ∨ name = "version" then
      if value.isSome then .tooManyValues
      else if name = "help" then .displayHelp Usage.ofProgram
      else .displayVersion
    else .unknownArgument
  | .short 'h' _ => .displayHelp Usage.ofProgram
  | .short 'V' _ => .displayVersion
  | .short _ _ => .unknownArgument
  | .plain => .invalidSubcommand

/-- What a command line asks for. -/
def parse : List String → Except Stop Arguments
  | [] => .error .displayHelpOnMissing
  | arg :: rest =>
    if arg = Grammar.help.name then .error (helpFor rest)
    else
      match Grammar.find? arg with
      | some s => (s.read rest).map (ofValues s)
      | none => .error (withoutSubcommand arg rest)

/-- The configuration of a chat, built. -/
def config? : Arguments → Option (Except Chat.Failure Chat.Config)
  | chat baseUrl session _ noReferences =>
    some (Chat.Config.build { baseUrl, sessionId := session, disableReferences := noReferences })
  | _ => none

end Arguments

end Command
end AnswerStream
