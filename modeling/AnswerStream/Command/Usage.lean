import AnswerStream.Command.Grammar

/-!
# Help texts

The help of the program lists its subcommands, that of a subcommand its options.
Names stand in one column and explanations in another; an option without a
one-letter name is indented as if it had one.
-/

namespace AnswerStream
namespace Command
namespace Usage

/-- A text filled up with spaces. -/
def pad (width : Nat) (s : String) : String :=
  s ++ String.ofList (List.replicate (width - s.length) ' ')

/-- Rows of two columns, indented. -/
def columns (rows : List (String × String)) : String :=
  let width := rows.foldl (fun w r => max w r.1.length) 0
  String.join (rows.map fun r => "  " ++ pad width r.1 ++ "  " ++ r.2 ++ "\n")

/-- A section of a help text. -/
def titled (title : String) (rows : List (String × String)) : String :=
  if rows.isEmpty then "" else "\n" ++ title ++ ":\n" ++ columns rows

/-- What stands for the value of an option. -/
def placeholder (p : Param) : String :=
  " <" ++ String.ofList (p.name.toList.map fun c => if c = '-' then '_' else c.toUpper) ++ ">"

/-- An option with its value. -/
def longForm (p : Param) : String :=
  "--" ++ p.name ++ (if p.takes = .flag then "" else placeholder p)

/-- The row of an option. -/
def optionRow (p : Param) : String × String :=
  ((match p.letter with
    | some c => "-" ++ String.singleton c ++ ", "
    | none => "    ") ++ longForm p, p.help)

/-- The row of the option that shows help. -/
def helpRow : String × String := ("-h, --help", "Print help")

/-- The row of the option that shows the version. -/
def versionRow : String × String := ("-V, --version", "Print version")

/-- How a subcommand is called. -/
def synopsis (s : Subcommand) : String :=
  Grammar.programName ++ " " ++ s.name ++
    (if s.options.any fun p => !p.required then " [OPTIONS]" else "") ++
    String.join ((s.options.filter Param.required).map fun p => " " ++ longForm p) ++
    (if s.takesFile then " [FILE]" else "")

/-- The help of a subcommand. -/
def ofSubcommand (s : Subcommand) : String :=
  s.help ++ "\n\nUsage: " ++ synopsis s ++ "\n" ++
    titled "Arguments" (if s.takesFile then [("[FILE]", "")] else []) ++
    titled "Options" (s.options.map optionRow ++ [helpRow])

/-- The help of the program. -/
def ofProgram : String :=
  Grammar.about ++ "\n\nUsage: " ++ Grammar.programName ++ " <COMMAND>\n" ++
    titled "Commands"
      ((Grammar.subcommands ++ [Grammar.help]).map fun s => (s.name, s.help)) ++
    titled "Options" [helpRow, versionRow]

/-- The help of the subcommand that explains the others. -/
def ofHelp : String :=
  Grammar.help.help ++ "\n\nUsage: " ++ Grammar.programName ++ " help [COMMAND]...\n" ++
    titled "Arguments" [("[COMMAND]...", "Print help for the subcommand(s)")]

/-- The version of the program. -/
def version : String := Grammar.programName ++ " " ++ Grammar.version ++ "\n"

end Usage
end Command
end AnswerStream
