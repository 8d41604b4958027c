import ModuleLoader.LoadError
import ModuleLoader.Location
/-!
Sources of modules. The eval module has the text that was supplied for it, a data URL holds its
bytes, and a file URL names a file; no other URL has a source.
-/
namespace ModuleLoader

open Text (Bytes)

/-- Text behind the scheme of a URL and in front of its fragment; the body of data may hold `?`. -/
def Url.pathAndQuery (u : Url) : String := u.path.text ++ u.queryText

/--
Whether the description of data says that its body is base64, in any case. Spaces, the only blanks
that a URL can hold, may follow.
-/
def saysBase64 (header : List Char) : Bool :=
  let trimmed := (header.reverse.dropWhile (· = ' ')).reverse
  ";base64".toList.isSuffixOf (trimmed.map Char.toLower)

/-- Blanks that a base64 body may hold anywhere. -/
def isBodyBlank (b : UInt8) : Bool := b = 9 || b = 10 || b = 12 || b = 13 || b = 32

/-- The bytes that a data URL holds. -/
def Url.data (u : Url) : Except LoadError Bytes :=
  if u.scheme ≠ "data" then .error (.invalidData u .notData)
  else
    let cs := u.pathAndQuery.toList
    match cs.dropWhile (· ≠ ',') with
    | [] => .error (.invalidData u .noComma)
    | _ :: body =>
      let bytes := Url.decode (Text.utf8 body)
      if saysBase64 (cs.takeWhile (· ≠ ',')) then
        match Base64.decode (bytes.filter fun b => !isBodyBlank b) with
        | .ok bytes => .ok bytes
        | .error fault => .error (.invalidData u (.base64 fault))
      else .ok bytes

/-- Where the source of a module is. -/
inductive SourcePlace
  /-- The text is here already, or cannot be had. -/
  | here (source : Except LoadError String)
  | file (path : FilePath)

/-- The text of some bytes. -/
def sourceText (u : Url) (bytes : Bytes) : Except LoadError String :=
  match Text.ofUtf8? bytes with
  | some text => .ok text
  | none => .error (.invalidEncoding u)

/-- Where the source of a URL is; `supplied` is the text for the eval module. -/
def Url.sourcePlace (u : Url) (supplied : Option String) : SourcePlace :=
  if u = Url.evalModule then
    .here (match supplied with
      | some text => .ok text
      | none => .error .noEvalSource)
  else if u.scheme = "data" then
    .here (do sourceText u (← u.data))
  else if u.scheme = "file" then
    match u.toFilePath? with
    | some path => .file path
    | none => .here (.error (.noLocalPath u))
  else .here (.error (.unimplemented (.scheme u)))

/-- The source that a read of the file system gives. -/
def sourceOfRead (u : Url) (path : FilePath) (answer : Except ReadFault Bytes) :
    Except LoadError String :=
  match answer with
  | .ok bytes => sourceText u bytes
  | .error fault => .error (.unreadable path fault)

/-- The source of a URL. -/
def Url.source (u : Url) (files : Files) (supplied : Option String) : Except LoadError String :=
  match u.sourcePlace supplied with
  | .here source => source
  | .file path => sourceOfRead u path (files.read path)

/-- The paths that are read for the source of a URL. -/
def Url.readPaths (u : Url) (supplied : Option String) : List FilePath :=
  match u.sourcePlace supplied with
  | .here _ => []
  | .file path => [path]

end ModuleLoader
