/-!
# The grammar of the command line

The program has subcommands, and each has options and perhaps a file.  An option
is a flag or takes a value; a value may be a path, which cannot be empty.  Some
options have to be given and some may be given more than once.
-/

namespace AnswerStream
namespace Command

/-- What an option takes. -/
inductive Takes where
  /-- Nothing. -/
  | flag
  /-- A text. -/
  | text
  /-- A path. -/
  | path
  deriving DecidableEq

/-- An option, or the file of a subcommand. -/
structure Param where
  /-- Its name. -/
  name : String
  /-- Its one-letter name. -/
  letter : Option Char := none
  /-- What it takes. -/
  takes : Takes := .flag
  /-- Whether it has to be given. -/
  required : Bool := false
  /-- Whether it may be given more than once. -/
  many : Bool := false
  /-- What it is for. -/
  help : String := ""
  deriving DecidableEq

/-- A subcommand. -/
structure Subcommand where
  /-- Its name. -/
  name : String
  /-- What it does. -/
  help : String
  /-- Its options. -/
  options : List Param
  /-- Whether it takes a file. -/
  takesFile : Bool
  deriving DecidableEq

/-- The file of a subcommand. -/
def fileParam : Param := { name := "file", takes := .path }

namespace Grammar

/-- The name of the program. -/
def programName : String := "chat-widget"

/-- The version of the program. -/
def version : String := "0.1.0"

/-- What the program does. -/
def about : String := "Render, highlight and chat through the chat widget text engine"

/-- Render a text. -/
def render : Subcommand where
  name := "render"
  help := "Render Markdown from FILE (or stdin) to sanitized HTML"
  options :=
    [{ name := "no-highlight", help := "Leave fenced code blocks unhighlighted" },
     { name := "typing", help := "Render as a streaming answer, typing cursor included" }]
  takesFile := true

/-- Mark up code. -/
def highlight : Subcommand where
  name := "highlight"
  help := "Syntax-highlight FILE (or stdin)"
  options :=
    [{ name := "lang", letter := some 'l', takes := .text, required := true,
       help := "Language name or alias (js, py, rust, yaml, ...)" }]
  takesFile := true

/-- Chat with a service. -/
def chat : Subcommand where
  name := "chat"
  help := "Interactive terminal chat against a running service"
  options :=
    [{ name := "base-url", takes := .text, required := true,
       help := "Service root, e.g. https://bots.example.com" },
     { name := "session", takes := .text, required := true, help := "Widget session id" },
     { name := "image", takes := .path, many := true,
       help := "Image to attach to the first question (repeatable)" },
     { name := "no-references", help := "Hide references on answers" }]
  takesFile := false

/-- The subcommands. -/
def subcommands : List Subcommand := [render, highlight, chat]

/-- The subcommand that explains the others. -/
def help : Subcommand where
  name := "help"
  help := "Print this message or the help of the given subcommand(s)"
  options := []
  takesFile := false

/-- The subcommand of a name. -/
def find? (name : String) : Option Subcommand := subcommands.find? fun s => s.name == name

end Grammar

end Command
end AnswerStream
