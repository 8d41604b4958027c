import ModuleLoader.Url.Basic
/-!
Reading URLs, alone or against a base. Blanks and controls around the text and all tabs and
newlines in it do not count.
-/
namespace ModuleLoader.Url

/-! ## Small pieces of input -/

def isTabOrNewline (c : Char) : Bool := c = '\t' || c = '\n' || c = '\r'

def isControlOrSpace (c : Char) : Bool := c.toNat ≤ 0x20

/-- The characters that count. -/
def significant (s : String) : List Char :=
  let inner := (s.toList.dropWhile isControlOrSpace).reverse.dropWhile isControlOrSpace
  inner.reverse.filter fun c => !isTabOrNewline c

def isSlash (k : Kind) (c : Char) : Bool := c = '/' || (k.isSpecial && c = '\\')

def isAnySlash (c : Char) : Bool := c = '/' || c = '\\'

/-- A path ends where a query or a fragment starts. -/
def endsPath (c : Char) : Bool := c = '?' || c = '#'

/-- Splits at every character of a class; there is always one part more than such characters. -/
def splitWhere (p : Char → Bool) : List Char → List (List Char)
  | [] => [[]]
  | c :: cs =>
    if p c then [] :: splitWhere p cs
    else match splitWhere p cs with
      | [] => [[c]]
      | part :: parts => (c :: part) :: parts

/-- The scheme in lower case and what stands behind its colon. -/
def scheme? (cs : List Char) : Option (String × List Char) :=
  let name := cs.takeWhile fun c => c.isAlphanum || c = '+' || c = '-' || c = '.'
  match name, cs.drop name.length with
  | first :: _, ':' :: rest =>
    if first.isAlpha then some (String.ofList (name.map Char.toLower), rest) else none
  | _, _ => none

/-! ## Paths -/

def isDriveLetter (part : String) : Bool :=
  match part.toList with
  | [c, d] => c.isAlpha && (d = ':' || d = '|')
  | _ => false

def isNormalDriveLetter (part : String) : Bool :=
  match part.toList with
  | [c, ':'] => c.isAlpha
  | _ => false

/-- Whether the text starts with a drive letter that is a segment by itself. -/
def startsWithDriveLetter : List Char → Bool
  | c :: d :: rest =>
    c.isAlpha && (d = ':' || d = '|') &&
      (match rest with
        | [] => true
        | e :: _ => isAnySlash e || endsPath e)
  | _ => false

/-- `.`, also encoded. -/
def isSingleDot (part : String) : Bool := [".", "%2e"].contains (part.map Char.toLower)

/-- `..`, also encoded. -/
def isDoubleDot (part : String) : Bool :=
  ["..", "%2e%2e", "%2e.", ".%2e"].contains (part.map Char.toLower)

/-- Removes the last segment; a drive letter stays. -/
def parent (done : List String) : List String :=
  match done.getLast? with
  | none => []
  | some last => if isDriveLetter last then done else done.dropLast

/-- The first segment of a file path; a drive letter is written with a colon. -/
def firstFileSegment (part : String) : String :=
  match part.toList with
  | [c, '|'] => if c.isAlpha then String.ofList [c, ':'] else part
  | _ => part

/-- Appends a segment to those before it; behind dots at the end stands an empty segment. -/
def appendSegment (k : Kind) (done : List String) (part : String) (isLast : Bool) : List String :=
  let behind := if isLast then [""] else []
  if isDoubleDot part then parent done ++ behind
  else if isSingleDot part then done ++ behind
  else if k = .file ∧ done = [] then [firstFileSegment part]
  else done ++ [part]

def appendSegments (k : Kind) (done : List String) : List String → List String
  | [] => done
  | [part] => appendSegment k done part true
  | part :: rest => appendSegments k (appendSegment k done part false) rest

/-- The path of a file starts with one slash only. -/
def withoutLeadingEmpty (parts : List String) : List String :=
  match parts.dropWhile (· = "") with
  | [] => [""]
  | parts => parts

/-- The segments of `cs`, which stands behind a slash, appended to those of a base. -/
def pathFrom (k : Kind) (done : List String) (cs : List Char) : List String :=
  let parts := (splitWhere (isSlash k) cs).map fun part => String.ofList (encode pathSet part)
  let full := appendSegments k done parts
  if k = .file then withoutLeadingEmpty full else full

/-- The path behind an authority; its first slash belongs to no segment. -/
def rootPath (k : Kind) (cs : List Char) : List String :=
  match cs with
  | [] => if k.isSpecial then [""] else []
  | c :: rest => if isSlash k c then pathFrom k [] rest else pathFrom k [] cs

/-! ## Query and fragment -/

/-- Query and fragment of what stands behind the path. -/
def withTail (k : Kind) (u : Url) (cs : List Char) : Url :=
  match cs with
  | '?' :: rest =>
    let query := rest.takeWhile (· ≠ '#')
    let set := if k.isSpecial then specialQuerySet else querySet
    { u with
      query := some (String.ofList (encode set query))
      fragment := match rest.drop query.length with
        | _ :: fragment => some (String.ofList (encode fragmentSet fragment))
        | [] => none }
  | '#' :: rest =>
    { u with query := none, fragment := some (String.ofList (encode fragmentSet rest)) }
  | _ => { u with query := none, fragment := none }

/-- Splits what stands before the first character that ends a path from the rest. -/
def splitPath (cs : List Char) : List Char × List Char :=
  let path := cs.takeWhile fun c => !endsPath c
  (path, cs.drop path.length)

/-! ## Authorities -/

/-- A host in brackets, if it is one. -/
def bracketed? (cs : List Char) : Option (Except Fault Host) :=
  match cs with
  | '[' :: rest =>
    some (if rest.getLast? = some ']' then
      match ipv6? rest.dropLast with
      | some pieces => .ok (.ipv6 pieces)
      | none => .error .invalidIpv6
    else .error .invalidIpv6)
  | _ => none

/-- The host of a special scheme. -/
def specialHost (cs : List Char) : Except Fault Host :=
  match bracketed? cs with
  | some host => host
  | none =>
    match domainToAscii? (decode (Text.utf8 cs)) with
    | none => .error .invalidDomain
    | some [] => .error .emptyHost
    | some name =>
      if endsInNumber name then
        match ipv4? name with
        | some address => .ok (.ipv4 address)
        | none => .error .invalidIpv4
      else .ok (.domain (String.ofList name))

def forbiddenInHost (c : Char) : Bool :=
  ['\x00', '\t', '\n', '\r', ' ', '#', '/', ':', '<', '>', '?', '@', '[', '\\', ']', '^', '|'].contains c

/-- The host of any other scheme: a text, only encoded. -/
def plainHost (cs : List Char) : Except Fault Host :=
  match bracketed? cs with
  | some host => host
  | none =>
    if cs.any forbiddenInHost then .error .invalidHostCharacter
    else if cs = [] then .ok .empty
    else .ok (.domain (String.ofList (encode controlSet cs)))

/-- Where a host ends: at a colon outside of brackets, or where the path starts. -/
def hostLength (k : Kind) (inBrackets : Bool) : List Char → Nat
  | [] => 0
  | c :: cs =>
    if (c = ':' && !inBrackets) || isSlash k c || endsPath c then 0
    else hostLength k (if c = '[' then true else if c = ']' then false else inBrackets) cs + 1

/-- The port behind a colon; the port that the scheme implies is not kept. -/
def readPort (scheme : String) (cs : List Char) : Except Fault (Option Nat × List Char) :=
  let digits := cs.takeWhile Char.isDigit
  let rest := cs.drop digits.length
  let n := (numeral? 10 digits).getD 0
  if 65535 < n then .error .invalidPort
  else
    let ends := match rest with
      | [] => true
      | c :: _ => isAnySlash c || endsPath c
    if !ends then .error .invalidPort
    else .ok (if digits.isEmpty || defaultPort? scheme = some n then none else some n, rest)

/-- User name and password; only the first colon separates them. -/
def credentials (cs : List Char) : String × String :=
  let username := cs.takeWhile (· ≠ ':')
  (String.ofList (encode userinfoSet username),
    String.ofList (encode userinfoSet (cs.drop (username.length + 1))))

/-- Splits at the last `@` in front of the path: what stands before it, and behind it. -/
def splitUserinfo (k : Kind) (cs : List Char) : Option (List Char) × List Char :=
  let front := cs.takeWhile fun c => !(isSlash k c || endsPath c)
  if front.contains '@' then
    let behind := (front.reverse.takeWhile (· ≠ '@')).length
    let length := front.length - behind - 1
    (some (front.take length), cs.drop (length + 1))
  else (none, cs)

/-- What stands behind `//`, up to the path. -/
def readAuthority (scheme : String) (cs : List Char) : Except Fault (Authority × List Char) := do
  let k := Kind.ofScheme scheme
  let (userinfo, cs) := splitUserinfo k cs
  let ended := match cs with
    | [] => false
    | c :: _ => isSlash k c || endsPath c
  if userinfo = some [] ∧ ended = true then throw .emptyHost
  let (username, password) := credentials (userinfo.getD [])
  let length := hostLength k false cs
  let (hostText, rest) := (cs.take length, cs.drop length)
  if k = .special ∧ hostText = [] then throw .emptyHost
  let host ← if k.isSpecial then specialHost hostText else plainHost hostText
  if host = .empty ∧ rest.head? = some ':' then throw .emptyHost
  let (port, rest) ← match rest with
    | ':' :: behind => readPort scheme behind
    | rest => pure (none, rest)
  let a : Authority := { username, password, host, port }
  if host = .empty ∧ a.userinfo ≠ "" then throw .emptyHost
  return (a, rest)

/-! ## Whole URLs -/

/-- A URL behind `scheme://`. -/
def hierarchical (scheme : String) (cs : List Char) : Except Fault Url := do
  let k := Kind.ofScheme scheme
  let (a, rest) ← readAuthority scheme cs
  let (path, rest) := splitPath rest
  return withTail k { scheme, authority := some a, path := .segments (rootPath k path) } rest

/-- A URL behind the colon of a scheme that is not special. -/
def plain (scheme : String) (cs : List Char) : Except Fault Url :=
  match cs with
  | '/' :: '/' :: rest => hierarchical scheme rest
  | '/' :: rest =>
    let (path, rest) := splitPath rest
    .ok (withTail .plain { scheme, path := .segments (pathFrom .plain [] path) } rest)
  | cs =>
    let (path, rest) := splitPath cs
    .ok (withTail .plain { scheme, path := .rootless (String.ofList (encode controlSet path)) } rest)

def parts (u : Url) : List String :=
  match u.path with
  | .segments parts => parts
  | .rootless _ => []

/-- The URL with other segments, and query and fragment from `cs`. -/
def withPath (u : Url) (parts : List String) (cs : List Char) : Url :=
  withTail u.kind { u with path := .segments parts } cs

/-- A relative reference against a base that has segments. -/
def relative (base : Url) (cs : List Char) : Except Fault Url :=
  let k := base.kind
  match cs with
  | [] => .ok { base with fragment := none }
  | '?' :: _ => .ok (withTail k base cs)
  | '#' :: rest => .ok { base with fragment := some (String.ofList (encode fragmentSet rest)) }
  | c :: rest =>
    if isAnySlash c then
      if (rest.head?.map isAnySlash).getD false then
        let behind := if c = '/' ∧ rest.head? = some '/' then rest.drop 1 else rest.dropWhile isAnySlash
        hierarchical base.scheme behind
      else
        let (path, tail) := splitPath rest
        .ok (withPath base (pathFrom k [] path) tail)
    else
      let (path, tail) := splitPath cs
      .ok (withPath base (pathFrom k base.parts.dropLast path) tail)

/-- The segments of a file URL that a relative path continues, and a drive letter it is joined to. -/
def directory (parts : List String) : List String × String :=
  match parts.getLast? with
  | none => ([], "")
  | some last =>
    if isNormalDriveLetter last then
      if (parts.filter (· ≠ "")).length = 1 then ([last], "") else (parts.dropLast, last)
    else (parts.dropLast, "")

def emptyAuthority : Authority := {}

/-- A file URL with this path, and an empty host if the path starts with a drive letter. -/
def filePath (host : Host) (parts : List String) (cs : List Char) : Url :=
  let drive := (parts.head?.map isNormalDriveLetter).getD false
  withTail .file
    { scheme := "file"
      authority := some { emptyAuthority with host := if drive then .empty else host }
      path := .segments parts } cs

/-- The host of a file URL; a drive letter is none, and the local host is the empty one. -/
def fileHost (cs : List Char) : Except Fault (Host × List Char) :=
  let text := cs.takeWhile fun c => !(isAnySlash c || endsPath c)
  if isDriveLetter (String.ofList text) then .ok (.empty, cs)
  else if text = [] then .ok (.empty, cs)
  else do
    let host ← specialHost text
    return (if host = .domain "localhost" then .empty else host, cs.drop text.length)

/-- A URL behind `file:`, or a relative reference against a file URL. -/
def file (base : Option Url) (cs : List Char) : Except Fault Url :=
  match cs with
  | c :: d :: rest =>
    if isAnySlash c ∧ isAnySlash d then do
      let (host, rest) ← fileHost rest
      let (path, tail) := splitPath rest
      return filePath host (rootPath .file path) tail
    else oneSlash base cs
  | cs => oneSlash base cs
where
  oneSlash (base : Option Url) (cs : List Char) : Except Fault Url :=
    match cs, base with
    | c :: rest, base =>
      if isAnySlash c then
        let (path, tail) := splitPath rest
        if startsWithDriveLetter rest then .ok (filePath .empty (pathFrom .file [] path) tail)
        else
          match base with
          | none => .ok (filePath .empty (pathFrom .file [] path) tail)
          | some b =>
            let first := b.parts.head?.getD ""
            if isNormalDriveLetter first then .ok (filePath .empty (pathFrom .file [first] path) tail)
            else .ok (filePath ((b.authority.map Authority.host).getD .empty) (pathFrom .file [] path) tail)
      else bare base cs
    | cs, base => bare base cs
  bare (base : Option Url) (cs : List Char) : Except Fault Url :=
    match base, cs with
    | some b, [] => .ok { b with fragment := none }
    | some b, '?' :: rest => .ok (withTail .file b ('?' :: rest))
    | some b, '#' :: rest => .ok { b with fragment := some (String.ofList (encode fragmentSet rest)) }
    | some b, cs =>
      let (path, tail) := splitPath cs
      if startsWithDriveLetter cs then .ok (filePath .empty (pathFrom .file [] path) tail)
      else
        let (done, drive) := directory b.parts
        .ok (withPath b (pathFrom .file done (drive.toList ++ path)) tail)
    | none, cs =>
      let (path, tail) := splitPath cs
      .ok (filePath .empty (pathFrom .file [] path) tail)

/-- A URL behind the colon of a special scheme other than `file`. -/
def special (base : Option Url) (scheme : String) (cs : List Char) : Except Fault Url :=
  let slashes := (cs.takeWhile isAnySlash).length
  match base with
  | some b =>
    if slashes < 2 ∧ b.scheme = scheme then relative b cs
    else hierarchical scheme (cs.drop slashes)
  | none => hierarchical scheme (cs.drop slashes)

/-- Reads a URL, or a reference relative to a base. -/
def parseWith (base : Option Url) (s : String) : Except Fault Url :=
  let cs := significant s
  match scheme? cs with
  | some (scheme, rest) =>
    match Kind.ofScheme scheme with
    | .file => file (base.filter (·.scheme = "file")) rest
    | .special => special base scheme rest
    | .plain => plain scheme rest
  | none =>
    match base with
    | none => .error .relativeWithoutBase
    | some b =>
      match cs with
      | '#' :: rest => .ok { b with fragment := some (String.ofList (encode fragmentSet rest)) }
      | cs =>
        if b.isRootless then .error .relativeWithRootlessBase
        else if b.kind = .file then file (some b) cs
        else relative b cs

def parse (s : String) : Except Fault Url := parseWith none s

/-- Resolves a reference against this URL. -/
def join (base : Url) (reference : String) : Except Fault Url := parseWith (some base) reference

end ModuleLoader.Url
