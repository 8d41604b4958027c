import ModuleLoader.Url.Address
import ModuleLoader.Url.Domain
import ModuleLoader.Url.Percent
/-!
URLs in canonical form, as a record of their parts. All parts are stored encoded; two URLs are the
same exactly if they print the same.
-/
namespace ModuleLoader

namespace Url

inductive Host
  | empty
  | domain (name : String)
  | ipv4 (address : Nat)
  | ipv6 (pieces : List Nat)
deriving DecidableEq, Repr

def Host.text : Host → String
  | empty => ""
  | domain name => name
  | ipv4 address => ipv4Text address
  | ipv6 pieces => "[" ++ ipv6Text pieces ++ "]"

/-- What stands between `//` and the path. -/
structure Authority where
  username : String := ""
  password : String := ""
  host : Host := .empty
  port : Option Nat := none
deriving DecidableEq, Repr

def Authority.userinfo (a : Authority) : String :=
  if a.username = "" ∧ a.password = "" then ""
  else a.username ++ (if a.password = "" then "" else ":" ++ a.password) ++ "@"

def Authority.text (a : Authority) : String :=
  a.userinfo ++ a.host.text ++
    (match a.port with
      | some p => ":" ++ toString p
      | none => "")

inductive Path
  /-- A text without structure; nothing can be resolved against it. -/
  | rootless (text : String)
  /-- Each segment stands behind a slash. -/
  | segments (parts : List String)
deriving DecidableEq, Repr

def Path.text : Path → String
  | rootless text => text
  | segments parts => String.join (parts.map ("/" ++ ·))

/-- What is wrong with the text of a URL. -/
inductive Fault
  | relativeWithoutBase
  | relativeWithRootlessBase
  | emptyHost
  | invalidPort
  | invalidIpv4
  | invalidIpv6
  | invalidHostCharacter
  | invalidDomain
deriving DecidableEq, Repr

def Fault.message : Fault → String
  | relativeWithoutBase => "relative URL without a base"
  | relativeWithRootlessBase => "relative URL with a cannot-be-a-base base"
  | emptyHost => "empty host"
  | invalidPort => "invalid port number"
  | invalidIpv4 => "invalid IPv4 address"
  | invalidIpv6 => "invalid IPv6 address"
  | invalidHostCharacter => "invalid domain character"
  | invalidDomain => "invalid international domain name"

end Url

structure Url where
  scheme : String
  authority : Option Url.Authority := none
  path : Url.Path
  query : Option String := none
  fragment : Option String := none
deriving DecidableEq, Repr

namespace Url

/-- Schemes whose URLs always have a host and a path, and take backslashes for slashes. -/
inductive Kind
  | file
  | special
  | plain
deriving DecidableEq, Repr

def Kind.ofScheme (scheme : String) : Kind :=
  if scheme = "file" then .file
  else if ["http", "https", "ws", "wss", "ftp"].contains scheme then .special
  else .plain

def Kind.isSpecial (k : Kind) : Bool := k != .plain

def kind (u : Url) : Kind := .ofScheme u.scheme

def defaultPort? (scheme : String) : Option Nat :=
  match scheme with
  | "http" | "ws" => some 80
  | "https" | "wss" => some 443
  | "ftp" => some 21
  | _ => none

def isRootless (u : Url) : Bool :=
  match u.path with
  | .rootless _ => true
  | .segments _ => false

/--
What separates the scheme from the path. Without an authority, a path that starts with two slashes
would be taken for one, so `/.` stands in front of it.
-/
def authorityText (u : Url) : String :=
  match u.authority with
  | some a => "//" ++ a.text
  | none =>
    match u.path with
    | .segments ("" :: _ :: _) => "/."
    | _ => ""

def queryText (u : Url) : String :=
  match u.query with
  | some q => "?" ++ q
  | none => ""

def fragmentText (u : Url) : String :=
  match u.fragment with
  | some f => "#" ++ f
  | none => ""

def text (u : Url) : String :=
  u.scheme ++ ":" ++ u.authorityText ++ u.path.text ++ u.queryText ++ u.fragmentText

instance : ToString Url := ⟨text⟩

end Url

end ModuleLoader
