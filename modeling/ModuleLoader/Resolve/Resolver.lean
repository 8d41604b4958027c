import ModuleLoader.Resolve.Limiter
import ModuleLoader.Resolve.Settings
/-!
A resolver at work on many requests at once. Each request for a local module asks for both of its
paths at the same time, as far as the limiter lets it; the file system answers in any order.
-/
namespace ModuleLoader

structure RequestId where
  index : Nat
deriving DecidableEq, Repr

/-- Which of the two paths of a request. -/
inductive Candidate
  | literal
  | extended
deriving DecidableEq, Repr

/-- A question to the file system: whether a path of a request is that of a file. -/
structure Probe where
  request : RequestId
  candidate : Candidate
deriving DecidableEq, Repr

/-- How far a question has come. One that is asked waits for a permit or for its answer. -/
inductive Inquiry
  | unasked
  | asked
  | answered (found : Bool)
deriving DecidableEq, Repr

def Inquiry.found? : Inquiry → Option Bool
  | answered found => some found
  | _ => none

/-- A request for a local module, with its two questions. -/
structure Probing where
  candidates : Candidates
  literal : Inquiry := .unasked
  extended : Inquiry := .unasked

namespace Probing

def path (p : Probing) : Candidate → FilePath
  | .literal => p.candidates.literal
  | .extended => p.candidates.extended

def inquiry (p : Probing) : Candidate → Inquiry
  | .literal => p.literal
  | .extended => p.extended

def withInquiry (p : Probing) (inquiry : Inquiry) : Candidate → Probing
  | .literal => { p with literal := inquiry }
  | .extended => { p with extended := inquiry }

/-- The first question that is not asked yet. -/
def firstUnasked? (p : Probing) : Option Candidate :=
  if p.literal = .unasked then some .literal
  else if p.extended = .unasked then some .extended
  else none

end Probing

inductive Request
  | probing (p : Probing)
  | settled (result : Except LoadError Resolved)
  /-- Nobody wants to know any more. -/
  | abandoned

/-- The outcome of a request, once it has one. -/
def Request.outcome? : Request → Option (Except LoadError Resolved)
  | probing p => do return p.candidates.conclude (← p.literal.found?) (← p.extended.found?)
  | settled result => some result
  | abandoned => none

structure Resolver where
  settings : Settings
  limiter : Limiter Probe
  requests : Array Request := #[]

namespace Resolver

def ofSettings (settings : Settings) : Resolver :=
  { settings, limiter := { free := settings.maxProbes } }

def outcome? (r : Resolver) (id : RequestId) : Option (Except LoadError Resolved) :=
  (r.requests[id.index]?).bind Request.outcome?

def probing? (r : Resolver) (id : RequestId) : Option Probing :=
  match r.requests[id.index]? with
  | some (.probing p) => some p
  | _ => none

/-- Starts a request. -/
def ask (r : Resolver) (specifier : String) (referrer : Option Url) : Resolver × RequestId :=
  let request := match r.settings.target specifier referrer with
    | .settled result => Request.settled result
    | .candidates candidates => .probing { candidates }
  ({ r with requests := r.requests.push request }, ⟨r.requests.size⟩)

/-- The question that a request asks next. -/
def unasked? (r : Resolver) (id : RequestId) : Option Probe := do
  return ⟨id, ← (← r.probing? id).firstUnasked?⟩

def setInquiry (r : Resolver) (probe : Probe) (inquiry : Inquiry) : Resolver :=
  { r with
    requests := r.requests.modify probe.request.index fun
      | .probing p => .probing (p.withInquiry inquiry probe.candidate)
      | request => request }

/-- Asks a question, as soon as there is a permit. -/
def acquire? (r : Resolver) (probe : Probe) : Option Resolver := do
  let p ← r.probing? probe.request
  if p.inquiry probe.candidate = .unasked then
    return { r.setInquiry probe .asked with limiter := r.limiter.acquire probe }
  else none

/-- The questions that the file system has not answered yet: those that hold a permit. -/
def outstanding (r : Resolver) : List Probe := r.limiter.holders

/-- The file system answers a question; its permit is free again. -/
def answer? (r : Resolver) (files : Files) (probe : Probe) : Option Resolver := do
  let p ← r.probing? probe.request
  if r.outstanding.elem probe then
    let found := files.hasFile (p.path probe.candidate)
    return { r.setInquiry probe (.answered found) with limiter := r.limiter.release probe }
  else none

/-- Drops a request without an outcome, and its questions with it. -/
def abandon (r : Resolver) (id : RequestId) : Resolver :=
  match r.outcome? id with
  | some _ => r
  | none =>
    { r with
      requests := r.requests.modify id.index fun _ => .abandoned
      limiter := (r.limiter.withdraw ⟨id, .literal⟩).withdraw ⟨id, .extended⟩ }

/-! ## Many requests, no other work -/

/-- What can happen to a resolver. -/
inductive Event
  | ask (specifier : String) (referrer : Option Url)
  | acquire (probe : Probe)
  | answer (probe : Probe)
deriving DecidableEq

/-- The resolver after an event, if it can happen. -/
def step? (files : Files) (r : Resolver) : Event → Option Resolver
  | .ask specifier referrer => some (r.ask specifier referrer).1
  | .acquire probe => r.acquire? probe
  | .answer probe => r.answer? files probe

/--
What happens next when nothing new is asked: all questions are asked in order, and then the oldest
one is answered. A prompt file system answers each one at once.
-/
def next? (promptly : Bool) (r : Resolver) : Option Event :=
  let unasked := ((List.range r.requests.size).findSome? fun i => r.unasked? ⟨i⟩).map Event.acquire
  let oldest := r.outstanding.head?.map Event.answer
  if promptly then oldest.or unasked else unasked.or oldest

/-- The states of a resolver up to the one in which nothing is left to do, at most `count` on. -/
def run (files : Files) (promptly : Bool) (r : Resolver) : Nat → List Resolver
  | 0 => [r]
  | count + 1 =>
    match (r.next? promptly).bind (r.step? files) with
    | none => [r]
    | some next => r :: run files promptly next count

/-- Asks for specifiers, without a referrer. -/
def askAll (r : Resolver) (specifiers : List String) : Resolver :=
  specifiers.foldl (fun r specifier => (r.ask specifier none).1) r

/-- Resolves specifiers at the same time; each has two questions, asked and answered once. -/
def resolveAll (files : Files) (promptly : Bool) (r : Resolver) (specifiers : List String) :
    List Resolver :=
  (r.askAll specifiers).run files promptly (4 * specifiers.length)

end Resolver

end ModuleLoader
