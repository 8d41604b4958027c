import ModuleLoader.Config
import ModuleLoader.LoadError
import ModuleLoader.Location
/-!
From a specifier to a canonical URL. The eval specifier and specifiers with the builtin prefix have
fixed URLs. All others are joined to the URL of the importing module; a local one then leads to the
file of that path or, failing that, of that path with the source extension behind it.
-/
namespace ModuleLoader

/-- What kind of module a URL stands for. -/
inductive Format
  | js
  | builtin
  | remote
deriving DecidableEq, Repr

def Format.name : Format → String
  | js => "js"
  | builtin => "builtin"
  | remote => "remote"

/-- A canonical URL and the kind of module that it stands for. -/
structure Resolved where
  url : Url
  format : Format
deriving DecidableEq, Repr

/-- What a resolver goes by. -/
structure Settings where
  baseUrl : Url
  cwdUrl : Url
  sourceExtension : String
  builtinPrefix : String
  evalSpecifier : String
  /-- How many files may be asked for at once. -/
  maxProbes : Nat
deriving DecidableEq, Repr

/-- The settings that a configuration gives. -/
def Settings.ofConfig (config : Config) : Except ConfigError Settings := do
  config.validate
  return {
    baseUrl := ← config.baseOrCwdUrl
    cwdUrl := ← config.cwdUrl
    sourceExtension := config.sourceExtension
    builtinPrefix := config.builtinPrefix
    evalSpecifier := config.evalSpecifier
    maxProbes := config.maxProbes }

/-- A local URL and the two paths that it can stand for. -/
structure Candidates where
  specifier : String
  url : Url
  literal : FilePath
  extended : FilePath
  sourceExtension : String
deriving DecidableEq

/-- Where a specifier leads as far as that can be told without asking for files. -/
inductive Target
  | settled (result : Except LoadError Resolved)
  | candidates (c : Candidates)

/-- The URL with the extension behind its path. -/
def Candidates.extendedUrl (c : Candidates) : Url :=
  c.url.setPath (c.url.path.text ++ "." ++ c.sourceExtension)

/-- The outcome for what is found out about the two paths; the literal one comes first. -/
def Candidates.conclude (c : Candidates) (literal extended : Bool) : Except LoadError Resolved :=
  if literal then .ok ⟨c.url, .js⟩
  else if extended then .ok ⟨c.extendedUrl, .js⟩
  else .error (.notFound c.specifier [c.literal, c.extended])

namespace Settings

/-- Where a specifier starts: no code without a place is a place to start from. -/
def start (settings : Settings) : Option Url → Url
  | some referrer => if referrer.isVirtual then settings.cwdUrl else referrer
  | none => settings.baseUrl

def isPrefix (front text : String) : Bool := front.toList.isPrefixOf text.toList

/-- Where a URL leads to which a specifier was joined. -/
def targetOf (settings : Settings) (specifier : String) (url : Url) : Target :=
  if url.scheme = "file" then
    match url.toFilePath? with
    | none => .settled (.error (.noLocalPath url))
    | some path =>
      .candidates {
        specifier, url
        literal := path
        extended := path.withExtension settings.sourceExtension
        sourceExtension := settings.sourceExtension }
  else if url.scheme = "data" then .settled (.ok ⟨url, .js⟩)
  else .settled (.ok ⟨url, .remote⟩)

/-- Where a specifier leads, without asking for files. -/
def target (settings : Settings) (specifier : String) (referrer : Option Url) : Target :=
  if specifier = settings.evalSpecifier then .settled (.ok ⟨Url.evalModule, .js⟩)
  else if isPrefix settings.builtinPrefix specifier then
    match Url.parse ("builtin:" ++ specifier) with
    | .ok url => .settled (.ok ⟨url, .builtin⟩)
    | .error fault => .settled (.error (.invalidSpecifier specifier fault))
  else
    match (settings.start referrer).join specifier with
    | .ok url => settings.targetOf specifier url
    | .error fault => .settled (.error (.invalidSpecifier specifier fault))

/-- The outcome for a specifier when all files are known. -/
def resolve (settings : Settings) (files : Files) (specifier : String) (referrer : Option Url) :
    Except LoadError Resolved :=
  match settings.target specifier referrer with
  | .settled result => result
  | .candidates c => c.conclude (files.hasFile c.literal) (files.hasFile c.extended)

/-- The paths that are asked for. -/
def probes (settings : Settings) (specifier : String) (referrer : Option Url) : List FilePath :=
  match settings.target specifier referrer with
  | .settled _ => []
  | .candidates c => [c.literal, c.extended]

end Settings

end ModuleLoader
