import ModuleLoader.Url.Basic
/-!
Locations without a place: the module that is handed to a loader as a text, and code typed at a
prompt. What they import is looked up from the working directory.
-/
namespace ModuleLoader.Url

/-- The URL of the module whose source is supplied as a text. -/
def evalModule : Url := { scheme := "internal", path := .rootless "[eval]" }

/-- The URL of code typed at a prompt. -/
def prompt : Url := { scheme := "internal", path := .rootless "[repl]" }

/-- Such a URL tells where code runs, and is no place to look from. -/
def isVirtual (u : Url) : Bool := u = evalModule || u = prompt

end ModuleLoader.Url
