import ModuleLoader.Url.Parse
/-!
File URLs and the paths they stand for. A path is a run of bytes; in a URL each of its components
is percent encoded.
-/
namespace ModuleLoader

open Text (Bytes)

/-- A path. Its bytes need not encode a text. -/
structure FilePath where
  bytes : Bytes
deriving DecidableEq

namespace FilePath

/-- The path that is written so. -/
def ofText (s : String) : FilePath := ⟨Text.utf8Bytes s⟩

instance : Coe String FilePath := ⟨ofText⟩

/-- The path as a text; bytes that encode nothing are replaced. -/
def text (p : FilePath) : String := Text.ofUtf8 p.bytes

/-- The path between double quotes, with what cannot be seen escaped. -/
def quoted (p : FilePath) : String := Text.quotedBytes p.bytes

/-- The path with a dot and an extension behind it. -/
def withExtension (p : FilePath) (extension : String) : FilePath :=
  ⟨p.bytes ++ Text.utf8 ('.' :: extension.toList)⟩

end FilePath

namespace Url

/-- The components of an absolute path; empty ones and single dots are none. -/
def pathComponents (path : String) : List (List Char) :=
  (splitOn '/' path.toList).filter fun part => part ≠ [] ∧ part ≠ ['.']

/-- The URL of a directory, which ends in a slash. A relative path has none. -/
def ofDirectory? (path : String) : Option Url :=
  match path.toList with
  | '/' :: _ =>
    let parts := (pathComponents path).map fun part => String.ofList (encode fileNameSet part)
    some { scheme := "file", authority := some {}, path := .segments (parts ++ [""]) }
  | _ => none

/-- A path that ends in a drive letter gets a slash behind it. -/
def closeDrive (bytes : Bytes) : Bytes :=
  match bytes.reverse with
  | mark :: letter :: _ :: _ =>
    if (mark = 58 || mark = 124) &&
        (Text.inRange letter 65 90 || Text.inRange letter 97 122)
    then bytes ++ [47] else bytes
  | _ => bytes

/-- The path that a URL stands for: that of its decoded segments, if no other host is named. -/
def toFilePath? (u : Url) : Option FilePath :=
  match u.path with
  | .rootless _ => none
  | .segments [] => none
  | .segments parts =>
    match (u.authority.map Authority.host).getD .empty with
    | .empty | .domain "localhost" =>
      some ⟨closeDrive (parts.flatMap fun part => 47 :: decode (Text.utf8Bytes part))⟩
    | _ => none

/-- A path put in place of that of a URL with segments: read anew, with no query in it. -/
def setPath (u : Url) (path : String) : Url :=
  let cs := path.toList.filter fun c => !isTabOrNewline c
  let encoded := cs.flatMap fun c => if endsPath c then encodeChar pathSet c else [c]
  { u with path := .segments (rootPath u.kind encoded) }

end Url

end ModuleLoader
