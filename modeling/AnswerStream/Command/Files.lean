import AnswerStream.Chat.Failure
import AnswerStream.Text.Base64
import AnswerStream.Text.Search

/-!
# Files

A directory holds files by name.  A path leads to one of them, or fails as the
path of a file fails: there may be no such file, the path may lead to a directory
or through a file, or it may be no path at all.

Images are read into addresses that carry their content.  Whether a file is an
image is told by its extension.
-/

namespace AnswerStream
namespace Command

open Chat Text

/-! ## Paths -/

/-- The parts of a path that lead anywhere. -/
def pathParts (path : String) : List (List Char) :=
  (splitOn '/' path.toList).filter fun part => part ≠ [] ∧ part ≠ ['.']

/-- The name at the end of a path. -/
def fileName? (path : String) : Option (List Char) :=
  match (pathParts path).getLast? with
  | none => none
  | some part => if part = ['.', '.'] then none else some part

/-- The extension of a path: what follows the last point of its name, if something
stands before that. -/
def extension? (path : String) : Option (List Char) := do
  let name ← fileName? path
  let reversed := name.reverse
  let ext := reversed.takeWhile (· ≠ '.')
  match reversed.dropWhile (· ≠ '.') with
  | _ :: _ :: _ => some ext.reverse
  | _ => none

/-! ## A directory -/

/-- A directory: the content of its files, by name. -/
abbrev Directory := List (String × List UInt8)

namespace Directory

/-- How many bytes the name of a file may have. -/
def nameLimit : Nat := 255

/-- How many bytes a path may have. -/
def pathLimit : Nat := 4095

/-- Read the file at a path. -/
def read (d : Directory) (path : String) : Except Fault (List UInt8) :=
  if path.toList.contains '\x00' then .error .notAPath
  else if path = "" then .error .missing
  else if pathLimit < path.utf8ByteSize then .error .tooLong
  else
    match pathParts path with
    | [] => .error .isDirectory
    | name :: rest =>
      if nameLimit < (String.ofList name).utf8ByteSize then .error .tooLong
      else if path.toList.head? = some '/' then .error .missing
      else if name = ['.', '.'] then .error (if rest.isEmpty then .isDirectory else .missing)
      else
        match d.lookup (String.ofList name) with
        | none => .error .missing
        | some content =>
          let last := (splitOn '/' path.toList).getLast?
          if rest.isEmpty ∧ last = some name then .ok content else .error .notDirectory

end Directory

/-! ## Texts and images -/

/-- The text of a file. -/
def textOfBytes (bytes : List UInt8) : Except Failure String :=
  match String.fromUTF8? (ByteArray.mk bytes.toArray) with
  | some s => .ok s
  | none => .error (.io .notText)

/-- The type of an image, by the extension of its path in any case. -/
def imageType? (path : String) : Option String :=
  match String.ofList (((extension? path).getD []).map Char.toLower) with
  | "png" => some "image/png"
  | "jpg" => some "image/jpeg"
  | "jpeg" => some "image/jpeg"
  | "gif" => some "image/gif"
  | "webp" => some "image/webp"
  | _ => none

/-- An address that carries content of the given type. -/
def dataUrl (type : String) (bytes : List UInt8) : String :=
  "data:" ++ type ++ ";base64," ++ String.ofList (Base64.encode bytes)

/-- How files are read, where `m` is where reading takes place. -/
abbrev Reader (m : Type → Type) := String → m (Except Fault (List UInt8))

variable {m : Type → Type} [Monad m]

/-- Read a text from a file. -/
def readText (read : Reader m) (path : String) : m (Except Failure String) := do
  match ← read path with
  | .ok bytes => return textOfBytes bytes
  | .error fault => return .error (.io fault)

/-- Read an image as an address that carries it. -/
def imageUrl (read : Reader m) (path : String) : m (Except Failure String) := do
  match imageType? path with
  | none => return .error (.config ("unsupported image type: " ++ path))
  | some type =>
    match ← read path with
    | .ok bytes => return .ok (dataUrl type bytes)
    | .error fault => return .error (.io fault)

/-- Read several images.  The first that fails ends it. -/
def imageUrls (read : Reader m) : List String → m (Except Failure (List String))
  | [] => return .ok []
  | path :: paths => do
    match ← imageUrl read path with
    | .error e => return .error e
    | .ok url =>
      match ← imageUrls read paths with
      | .error e => return .error e
      | .ok urls => return .ok (url :: urls)

end Command
end AnswerStream
