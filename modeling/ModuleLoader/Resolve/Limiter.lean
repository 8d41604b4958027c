/-!
A limiter hands out a fixed number of permits. Whoever finds none waits, and a permit that is given
back goes to the one who has waited longest.
-/
namespace ModuleLoader

/-- The permits of a limiter: free, held, and waited for, the longest wait first. -/
structure Limiter (α : Type) where
  free : Nat
  holders : List α := []
  waiting : List α := []
deriving Repr

namespace Limiter

variable {α : Type} [BEq α]

/-- Takes a permit, or a place at the end of the line. -/
def acquire (l : Limiter α) (a : α) : Limiter α :=
  if l.free = 0 then { l with waiting := l.waiting ++ [a] }
  else { l with free := l.free - 1, holders := l.holders ++ [a] }

/-- Gives a permit back, which goes to the head of the line. -/
def release (l : Limiter α) (a : α) : Limiter α :=
  if l.holders.elem a then
    match l.waiting with
    | next :: rest => { l with holders := l.holders.erase a ++ [next], waiting := rest }
    | [] => { l with free := l.free + 1, holders := l.holders.erase a }
  else l

/-- Withdraws from the limiter, whether holding a permit or waiting for one. -/
def withdraw (l : Limiter α) (a : α) : Limiter α :=
  { l with waiting := l.waiting.erase a }.release a

/-- All permits, free or held. -/
def permits (l : Limiter α) : Nat := l.free + l.holders.length

end Limiter

end ModuleLoader
