import AnswerStream.Highlight.Css
import AnswerStream.Highlight.Expression
import AnswerStream.Highlight.Html
import AnswerStream.Highlight.Keyword
import AnswerStream.Highlight.Yaml

/-!
# Languages

Each language has a name, other names by which a reader may call it, and a
grammar.  Sixteen of the languages share one grammar and differ only in its
profile; style sheets, settings and documents have grammars of their own.
-/

namespace AnswerStream
namespace Highlight

open Text

/-- The languages that can be marked up. -/
inductive Language where
  | javaScript
  | typeScript
  | json
  | java
  | c
  | cpp
  | cSharp
  | go
  | rust
  | swift
  | kotlin
  | php
  | python
  | shell
  | visualBasic
  | sql
  | css
  | yaml
  | html
  deriving DecidableEq

/-- How code of a language is read. -/
inductive Grammar where
  /-- Words, strings and comments. -/
  | expression (p : Profile)
  | styleSheet
  | settings
  | document

namespace Language

/-- All languages. -/
def all : List Language :=
  [javaScript, typeScript, json, java, c, cpp, cSharp, go, rust, swift, kotlin, php, python,
   shell, visualBasic, sql, css, yaml, html]

/-- No language is missing from the list. -/
theorem mem_all (l : Language) : l ∈ all := by
  cases l <;> decide

/-- The name of a language. -/
def name : Language → String
  | javaScript => "javascript"
  | typeScript => "typescript"
  | json => "json"
  | java => "java"
  | c => "c"
  | cpp => "cpp"
  | cSharp => "csharp"
  | go => "go"
  | rust => "rust"
  | swift => "swift"
  | kotlin => "kotlin"
  | php => "php"
  | python => "python"
  | shell => "shell"
  | visualBasic => "vb"
  | sql => "sql"
  | css => "css"
  | yaml => "yaml"
  | html => "html"

/-- The other names of a language. -/
def aliases : Language → List String
  | javaScript => ["js", "jsx", "mjs", "node"]
  | typeScript => ["ts", "tsx"]
  | json => []
  | java => []
  | c => ["h"]
  | cpp => ["c++", "cc", "hpp"]
  | cSharp => ["cs", "c#"]
  | go => ["golang"]
  | rust => ["rs"]
  | swift => []
  | kotlin => ["kt"]
  | php => []
  | python => ["py"]
  | shell => ["bash", "sh", "zsh"]
  | visualBasic => ["vbnet", "vbscript", "vba"]
  | sql => []
  | css => ["scss", "less"]
  | yaml => ["yml"]
  | html => ["htm", "xml", "vue", "svg"]

/-- The language that a tag names, in any case and with white space around it. -/
def ofTag? (tag : String) : Option Language :=
  let word := String.ofList ((trim tag.toList).map Char.toLower)
  all.find? fun l => l.name == word || l.aliases.contains word

/-- How code of a language is read. -/
def grammar : Language → Grammar
  | javaScript =>
    .expression
      { keywords := Keyword.javaScript, quotes := ['"', '\x27', '\x60'], regexLiterals := true }
  | typeScript =>
    .expression
      { keywords := Keyword.javaScript ++ Keyword.typeScriptExtra,
        quotes := ['"', '\x27', '\x60'], regexLiterals := true }
  | json => .expression { keywords := Keyword.json, quotes := ['"'] }
  | java => .expression { keywords := Keyword.java }
  | c => .expression { keywords := Keyword.c }
  | cpp => .expression { keywords := Keyword.c ++ Keyword.cppExtra }
  | cSharp => .expression { keywords := Keyword.cSharp }
  | go => .expression { keywords := Keyword.go, quotes := ['"', '\x27', '\x60'] }
  | rust => .expression { keywords := Keyword.rust, quotes := ['"'] }
  | swift => .expression { keywords := Keyword.swift }
  | kotlin => .expression { keywords := Keyword.kotlin }
  | php => .expression { keywords := Keyword.php, lineComments := ["//", "#"] }
  | python =>
    .expression { keywords := Keyword.python, lineComments := ["#"], blockComment := none }
  | shell =>
    .expression { keywords := Keyword.shell, lineComments := ["#"], blockComment := none }
  | visualBasic =>
    .expression
      { keywords := Keyword.visualBasic, lineComments := ["'"], blockComment := none,
        quotes := ['"'] }
  | sql =>
    .expression
      { keywords := Keyword.sql, lineComments := ["--"], quotes := ['\x27', '"'],
        caseInsensitive := true }
  | css => .styleSheet
  | yaml => .settings
  | html => .document

/-- The language of an embedded body. -/
def ofEmbedding : Html.Embedding → Language
  | .script => javaScript
  | .style => css

/-- The markup of code in a language that is not a document.  Documents are read
without their embedded bodies. -/
def runFlat (l : Language) (code : String) : String :=
  match l.grammar with
  | .expression p => (Expression.table p l.name).run code
  | .styleSheet => Css.table.run code
  | .settings => Yaml.table.run code
  | .document => Html.table.run code

/-- The markup of code in a language. -/
def run (l : Language) (code : String) : String :=
  match l.grammar with
  | .document => Html.highlight (fun e => (ofEmbedding e).runFlat) code
  | _ => l.runFlat code

/-- The summary of a language's rule table. -/
def summary (l : Language) : Scan.Summary :=
  match l.grammar with
  | .expression p => (Expression.table p l.name).summary Expression.State.label
  | .styleSheet => Css.table.summary Css.State.label
  | .settings => Yaml.table.summary Yaml.State.label
  | .document => Html.table.summary Html.State.label

end Language

/-- The markup of code under a tag.  Under a tag that names no language, code is
plain text. -/
def highlight (tag code : String) : String :=
  match Language.ofTag? tag with
  | some l => l.run code
  | none => escape code

end Highlight
end AnswerStream
