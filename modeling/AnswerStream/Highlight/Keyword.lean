/-!
# Keywords

The words that each notation keeps for itself.
-/

namespace AnswerStream
namespace Highlight
namespace Keyword

/-- The words of ECMAScript. -/
def javaScript : List String :=
  ["async", "await", "break", "case", "catch", "class", "const", "continue", "debugger",
   "default", "delete", "do", "else", "export", "extends", "false", "finally", "for", "from",
   "function", "get", "if", "import", "in", "instanceof", "let", "new", "null", "of", "return",
   "set", "static", "super", "switch", "this", "throw", "true", "try", "typeof", "undefined",
   "var", "void", "while", "with", "yield"]

/-- The words of the typed dialect of ECMAScript, beyond its own. -/
def typeScriptExtra : List String :=
  ["abstract", "any", "as", "boolean", "declare", "enum", "implements", "interface", "keyof",
   "namespace", "never", "number", "private", "protected", "public", "readonly", "string",
   "type", "unknown"]

/-- The words of JSON: its three constants. -/
def json : List String :=
  ["true", "false", "null"]

/-- The words of Java. -/
def java : List String :=
  ["abstract", "assert", "boolean", "break", "byte", "case", "catch", "char", "class", "const",
   "continue", "default", "do", "double", "else", "enum", "extends", "false", "final", "finally",
   "float", "for", "goto", "if", "implements", "import", "instanceof", "int", "interface",
   "long", "native", "new", "null", "package", "private", "protected", "public", "record",
   "return", "short", "static", "super", "switch", "synchronized", "this", "throw", "throws",
   "transient", "true", "try", "var", "void", "volatile", "while"]

/-- The words of C. -/
def c : List String :=
  ["auto", "break", "case", "char", "const", "continue", "default", "do", "double", "else",
   "enum", "extern", "float", "for", "goto", "if", "inline", "int", "long", "register",
   "restrict", "return", "short", "signed", "sizeof", "static", "struct", "switch", "typedef",
   "union", "unsigned", "void", "volatile", "while", "NULL"]

/-- The words of C++ beyond those of C. -/
def cppExtra : List String :=
  ["bool", "catch", "class", "constexpr", "delete", "explicit", "false", "friend", "mutable",
   "namespace", "new", "noexcept", "nullptr", "operator", "override", "private", "protected",
   "public", "template", "this", "throw", "true", "try", "typename", "using", "virtual"]

/-- The words of C#. -/
def cSharp : List String :=
  ["abstract", "as", "async", "await", "base", "bool", "break", "byte", "case", "catch", "char",
   "class", "const", "continue", "decimal", "default", "delegate", "do", "double", "else",
   "enum", "event", "false", "finally", "float", "for", "foreach", "get", "if", "in", "int",
   "interface", "internal", "is", "lock", "long", "namespace", "new", "null", "object", "out",
   "override", "private", "protected", "public", "readonly", "ref", "return", "sealed", "set",
   "static", "string", "struct", "switch", "this", "throw", "true", "try", "typeof", "using",
   "var", "virtual", "void", "while"]

/-- The words of Go. -/
def go : List String :=
  ["break", "case", "chan", "const", "continue", "default", "defer", "else", "fallthrough",
   "false", "for", "func", "go", "goto", "if", "import", "interface", "iota", "map", "nil",
   "package", "range", "return", "select", "struct", "switch", "true", "type", "var"]

/-- The words of Rust. -/
def rust : List String :=
  ["as", "async", "await", "break", "const", "continue", "crate", "dyn", "else", "enum",
   "extern", "false", "fn", "for", "if", "impl", "in", "let", "loop", "match", "mod", "move",
   "mut", "pub", "ref", "return", "self", "Self", "static", "struct", "super", "trait", "true",
   "type", "unsafe", "use", "where", "while"]

/-- The words of Swift. -/
def swift : List String :=
  ["as", "break", "case", "catch", "class", "continue", "default", "defer", "do", "else", "enum",
   "extension", "false", "fileprivate", "for", "func", "guard", "if", "import", "in", "init",
   "internal", "is", "let", "nil", "private", "protocol", "public", "repeat", "return", "self",
   "static", "struct", "switch", "throw", "throws", "true", "try", "var", "where", "while"]

/-- The words of Kotlin. -/
def kotlin : List String :=
  ["as", "break", "class", "continue", "data", "do", "else", "false", "for", "fun", "if",
   "import", "in", "interface", "is", "null", "object", "override", "package", "private",
   "public", "return", "sealed", "super", "this", "throw", "true", "try", "val", "var", "when",
   "while"]

/-- The words of PHP. -/
def php : List String :=
  ["abstract", "array", "as", "break", "case", "catch", "class", "const", "continue", "default",
   "do", "echo", "else", "elseif", "extends", "false", "final", "finally", "fn", "for",
   "foreach", "function", "global", "if", "implements", "include", "interface", "match",
   "namespace", "new", "null", "private", "protected", "public", "require", "return", "static",
   "switch", "throw", "true", "try", "use", "while"]

/-- The words of Python. -/
def python : List String :=
  ["False", "None", "True", "and", "as", "assert", "async", "await", "break", "class",
   "continue", "def", "del", "elif", "else", "except", "finally", "for", "from", "global", "if",
   "import", "in", "is", "lambda", "nonlocal", "not", "or", "pass", "raise", "return", "self",
   "try", "while", "with", "yield"]

/-- The words of the shell. -/
def shell : List String :=
  ["case", "do", "done", "echo", "elif", "else", "esac", "exit", "export", "fi", "for",
   "function", "if", "in", "local", "read", "return", "set", "then", "until", "while"]

/-- The words of Visual Basic. -/
def visualBasic : List String :=
  ["And", "As", "Boolean", "ByRef", "ByVal", "Call", "Case", "Class", "Const", "Dim", "Do",
   "Double", "Each", "Else", "ElseIf", "End", "Exit", "False", "For", "Function", "If", "In",
   "Integer", "Is", "Loop", "Me", "Module", "New", "Next", "Not", "Nothing", "Object", "Or",
   "Private", "Public", "ReDim", "Return", "Select", "Set", "String", "Sub", "Then", "To",
   "True", "Until", "Wend", "While", "With"]

/-- The words of SQL, in lower case; they are matched in any case. -/
def sql : List String :=
  ["add", "all", "alter", "and", "as", "asc", "between", "by", "case", "create", "delete",
   "desc", "distinct", "drop", "else", "end", "exists", "from", "group", "having", "in", "index",
   "inner", "insert", "into", "is", "join", "left", "like", "limit", "not", "null", "on", "or",
   "order", "outer", "primary", "key", "right", "select", "set", "table", "then", "union",
   "update", "values", "when", "where", "with"]

end Keyword
end Highlight
end AnswerStream
