import ModuleLoader.Toml.Document
import ModuleLoader.Url.FilePath
/-!
The configuration of a loader: where relative specifiers start, and how specifiers are told apart.
Every setting has a default. A configuration file is TOML, in which unknown keys say nothing.
-/
namespace ModuleLoader

inductive ConfigError
  /-- The file cannot be read as text. -/
  | unreadable
  /-- The text is no TOML document, or a setting has the wrong kind of value. -/
  | malformed
  | noProbes
  | emptyPrefix
  | badExtension (extension : String)
  | emptyEvalSpecifier
  | relativeDirectory (path : String)
deriving DecidableEq, Repr

namespace ConfigError

/-- The message for an error that a value causes; the others have no fixed text. -/
def message : ConfigError → String
  | unreadable | malformed => ""
  | noProbes => "Invalid configuration: max-concurrent-probes must be at least 1"
  | emptyPrefix => "Invalid configuration: builtin-prefix cannot be empty"
  | badExtension extension =>
    "Invalid configuration: source-extension must be a bare extension, got '" ++ extension ++ "'"
  | emptyEvalSpecifier => "Invalid configuration: eval-specifier cannot be empty"
  | relativeDirectory path => "Working directory is not an absolute path: " ++ path

end ConfigError

structure Config where
  /-- Where a specifier starts that no module imports; the working directory if not set. -/
  baseUrl : Option Url := none
  /-- The working directory, where code without a place starts. -/
  cwd : Option String := none
  /-- What may be left out at the end of a path, without its dot. -/
  sourceExtension : String := "js"
  builtinPrefix : String := "@rt/"
  evalSpecifier : String := "[eval]"
  maxProbes : Nat := 10
deriving DecidableEq, Repr

namespace Config

/-- The first setting with which no loader can work. -/
def validate (config : Config) : Except ConfigError Unit :=
  if config.maxProbes = 0 then .error .noProbes
  else if config.builtinPrefix = "" then .error .emptyPrefix
  else if config.sourceExtension = "" ∨ config.sourceExtension.toList.head? = some '.' then
    .error (.badExtension config.sourceExtension)
  else if config.evalSpecifier = "" then .error .emptyEvalSpecifier
  else .ok ()

/-- The URL of the working directory. -/
def cwdUrl (config : Config) : Except ConfigError Url :=
  let cwd := config.cwd.getD ""
  match Url.ofDirectory? cwd with
  | some url => .ok url
  | none => .error (.relativeDirectory cwd)

/-- The URL from which specifiers start that no module imports. -/
def baseOrCwdUrl (config : Config) : Except ConfigError Url :=
  match config.baseUrl with
  | some url => .ok url
  | none => config.cwdUrl

/-- The configuration with a working directory if it names none. -/
def withCwd (config : Config) (cwd : String) : Config :=
  { config with cwd := some (config.cwd.getD cwd) }

/-- Two paths with the same components lead to the same place. -/
def samePath (a b : String) : Bool :=
  a.startsWith "/" == b.startsWith "/" && Url.pathComponents a == Url.pathComponents b

/-- Whether all settings are the defaults but for a working directory. -/
def isDefaultAt (config : Config) (cwd : String) : Bool :=
  decide ({ config with cwd := none } = {}) && config.cwd.any fun path => samePath path cwd

/-! ## Reading -/

/-- The value of a setting, if it has the right kind of value. -/
def setting {α : Type} (entries : Toml.Entries) (key : String) (fallback : α)
    (read : Toml.Item → Option α) : Except ConfigError α :=
  match entries.lookup key with
  | none => .ok fallback
  | some item =>
    match read item with
    | some a => .ok a
    | none => .error .malformed

def textOf? : Toml.Item → Option String
  | .text s => some s
  | _ => none

def countOf? : Toml.Item → Option Nat
  | .integer n => if 0 ≤ n then some n.toNat else none
  | _ => none

def urlOf? (item : Toml.Item) : Option Url := do
  (Url.parse (← textOf? item)).toOption

/-- The configuration that a TOML document gives. -/
def ofToml (document : String) : Except ConfigError Config := do
  let entries ← match Toml.parse document with
    | some entries => pure entries
    | none => throw .malformed
  let config : Config := {
    baseUrl := ← setting entries "base-url" none fun item => (urlOf? item).map some
    cwd := ← setting entries "cwd" none fun item => (textOf? item).map some
    sourceExtension := ← setting entries "source-extension" "js" textOf?
    builtinPrefix := ← setting entries "builtin-prefix" "@rt/" textOf?
    evalSpecifier := ← setting entries "eval-specifier" "[eval]" textOf?
    maxProbes := ← setting entries "max-concurrent-probes" 10 countOf? }
  config.validate
  return config

/-- The configuration that a file gives. -/
def ofBytes (bytes : Text.Bytes) : Except ConfigError Config :=
  match Text.ofUtf8? bytes with
  | some document => ofToml document
  | none => .error .unreadable

end Config

end ModuleLoader
