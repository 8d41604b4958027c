import ModuleLoader.Loader.Job
import ModuleLoader.Loader.Stats
/-!
The map of modules: the jobs of a loader in the order in which they were made, with an index of their
URLs. A job carries its own place in that order. The map only grows.
-/
namespace ModuleLoader

structure ModuleMap where
  jobs : Array Job := #[]
  /-- Which job is the one for a URL; what was filed last counts. -/
  byUrl : List (Url × JobId) := []
  hits : Nat := 0
  misses : Nat := 0

namespace ModuleMap

def job? (map : ModuleMap) (id : JobId) : Option Job := map.jobs[id.index]?

/-- The job for a URL. -/
def find? (map : ModuleMap) (url : Url) : Option JobId := map.byUrl.lookup url

/-- Looks for the job for a URL, and counts whether there is one. -/
def lookup (map : ModuleMap) (url : Url) : ModuleMap × Option JobId :=
  match map.find? url with
  | some id => ({ map with hits := map.hits + 1 }, some id)
  | none => ({ map with misses := map.misses + 1 }, none)

/-- What the next job has to carry. -/
def nextId (map : ModuleMap) : JobId := ⟨map.jobs.size⟩

/-- Adds a job and files it under its URL. -/
def insert (map : ModuleMap) (job : Job) : ModuleMap :=
  { map with jobs := map.jobs.push job, byUrl := (job.url, job.id) :: map.byUrl }

def stats (map : ModuleMap) : Stats := ⟨map.jobs.size, map.hits, map.misses⟩

def urls (map : ModuleMap) : List Url := map.jobs.toList.map Job.url

end ModuleMap

end ModuleLoader
