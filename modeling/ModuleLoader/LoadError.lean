import ModuleLoader.Base64
import ModuleLoader.Files
import ModuleLoader.Script.Error
/-!
Everything that can go wrong with a module, from its specifier to its body, and the message for it.
An error is kept and handed out again whenever the step that failed is asked for.
-/
namespace ModuleLoader

open Script (ScriptError)

/-- A kind of module or URL that nothing handles. -/
inductive Unhandled
  /-- Modules that are not local have no source to read. -/
  | remoteModule (url : Url)
  /-- No source can be had over the scheme of the URL. -/
  | scheme (url : Url)
  /-- Nothing answers for the specifier. -/
  | specifier (text : String)
deriving DecidableEq

def Unhandled.message : Unhandled → String
  | remoteModule url => "no translator for remote module " ++ url.text
  | scheme url => "loading source over the '" ++ url.scheme ++ "' scheme (" ++ url.text ++ ")"
  | specifier text => text

/-- What is wrong with a URL that should hold its data. -/
inductive DataFault
  | notData
  | noComma
  | base64 (fault : Base64.Fault)
deriving DecidableEq

def DataFault.message (url : Url) : DataFault → String
  | notData => url.text
  | noComma => "missing ',' in " ++ url.text
  | base64 fault => url.text ++ ": " ++ fault.message

/-- Why a source is no module. -/
inductive CompileFault
  | script (error : ScriptError)
  | line (text : String)

def CompileFault.message : CompileFault → String
  | script error => error.message
  | line text => "unexpected line '" ++ text ++ "'"

inductive LinkFault
  | unloaded (specifier : String)
  | declared

def LinkFault.message : LinkFault → String
  | unloaded specifier => "dependency '" ++ specifier ++ "' is no longer loaded"
  | declared => "link failed"

inductive InstantiateFault
  | unlinked
  | dependencyUnlinked (specifier : String)
  | declared

def InstantiateFault.message : InstantiateFault → String
  | unlinked => "module has not been linked"
  | dependencyUnlinked specifier => "dependency '" ++ specifier ++ "' has not been linked"
  | declared => "instantiate failed"

inductive EvaluateFault
  | uninstantiated
  | script (fault : Script.Fault)
  | told (message : String)

def EvaluateFault.message : EvaluateFault → String
  | uninstantiated => "module has not been instantiated"
  | script fault => fault.message
  | told message => message

inductive LoadError
  | invalidSpecifier (specifier : String) (fault : Url.Fault)
  | notFound (specifier : String) (tried : List FilePath)
  | noLocalPath (url : Url)
  | unimplemented (what : Unhandled)
  | unreadable (path : FilePath) (fault : ReadFault)
  | invalidEncoding (url : Url)
  | invalidData (url : Url) (fault : DataFault)
  | noEvalSource
  | evalAlreadyLoaded
  | unknownBuiltin (id : String)
  | duplicateComponent (id : String)
  | compile (url : Url) (fault : CompileFault)
  | link (url : Url) (fault : LinkFault)
  | instantiate (url : Url) (fault : InstantiateFault)
  | evaluate (url : Url) (fault : EvaluateFault)
  | unknownExport (url : Url) (name : String)
  | loaderDropped

namespace LoadError

def message : LoadError → String
  | invalidSpecifier specifier fault =>
    "Invalid module specifier '" ++ specifier ++ "': " ++ fault.message
  | notFound specifier tried =>
    "Cannot find module '" ++ specifier ++ "' (tried: [" ++
      ", ".intercalate (tried.map FilePath.quoted) ++ "])"
  | noLocalPath url => "URL does not denote a local file path: " ++ url.text
  | unimplemented what => "Unimplemented: " ++ what.message
  | unreadable path fault => "Failed to read " ++ path.text ++ ": " ++ fault.message
  | invalidEncoding url => "Module source is not valid UTF-8: " ++ url.text
  | invalidData url fault => "Invalid data URL: " ++ fault.message url
  | noEvalSource => "No eval source has been supplied"
  | evalAlreadyLoaded => "The eval module has already been loaded"
  | unknownBuiltin id => "Unknown builtin module '" ++ id ++ "'"
  | duplicateComponent id => "Builtin module '" ++ id ++ "' is already registered"
  | compile url fault => "Failed to compile " ++ url.text ++ ": " ++ fault.message
  | link url fault => "Failed to link " ++ url.text ++ ": " ++ fault.message
  | instantiate url fault => "Failed to instantiate " ++ url.text ++ ": " ++ fault.message
  | evaluate url fault => "Error evaluating " ++ url.text ++ ": " ++ fault.message
  | unknownExport url name => "Module " ++ url.text ++ " has no export named '" ++ name ++ "'"
  | loaderDropped => "Module loader has been dropped"

/-- Whether the error says that a specifier leads to no module. -/
def isResolution : LoadError → Bool
  | invalidSpecifier .. | notFound .. | noLocalPath _ => true
  | _ => false

end LoadError

end ModuleLoader
