/-!
How often a loader found what it was asked for among the modules it had.
-/
namespace ModuleLoader

structure Stats where
  entries : Nat
  hits : Nat
  misses : Nat
deriving DecidableEq, Repr

/-- The share of hits in all lookups; none at all are no hits. -/
def Stats.hitRatio (s : Stats) : Float :=
  if s.hits + s.misses = 0 then 0 else Float.ofNat s.hits / Float.ofNat (s.hits + s.misses)

end ModuleLoader
