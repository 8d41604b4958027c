/-!
What a TOML document holds: tables of items under distinct keys. A table remembers how it came to
be, for that decides who may still add to it: a table with a header is complete under its header, one
that was only implied by a longer header can get its own header later, and one that dotted keys made
can only grow by dotted keys or deeper headers.
-/
namespace ModuleLoader.Toml

inductive Origin
  | header
  | implied
  | dotted
deriving DecidableEq, Repr

inductive Item
  | text (s : String)
  | integer (n : Int)
  | float (x : Float)
  | boolean (b : Bool)
  /-- A date, a time of day or both, as written. -/
  | moment (s : String)
  | array (items : List Item)
  /-- A table in braces, to which nothing can be added from outside. -/
  | closed (entries : List (String × Item))
  | table (origin : Origin) (entries : List (String × Item))
  /-- Tables with one header, written repeatedly. -/
  | tables (all : List (List (String × Item)))
deriving Inhabited

abbrev Entries := List (String × Item)

/-- Puts an item under a key, in place of an earlier one. -/
def Entries.put (entries : Entries) (key : String) (item : Item) : Entries :=
  entries.filter (·.1 ≠ key) ++ [(key, item)]

/-- Adds an item under a key that is not taken. -/
def Entries.add (entries : Entries) (key : String) (item : Item) : Option Entries :=
  match entries.lookup key with
  | some _ => none
  | none => some (entries ++ [(key, item)])

/--
Changes the table at the end of a path, and makes the tables on the way that are not there.
A dotted path leads through no table that has a header of its own; a header path does. Of tables
with one header the last is meant.
-/
def Entries.alter (dotted : Bool) (change : Origin → Entries → Option Entries) (origin : Origin)
    (entries : Entries) : List String → Option Entries
  | [] => change origin entries
  | key :: path =>
    match entries.lookup key with
    | none => do
      let made := if dotted then Origin.dotted else Origin.implied
      let inner ← alter dotted change made [] path
      return entries ++ [(key, .table made inner)]
    | some (.table inside inner) =>
      if dotted ∧ inside = .header then none
      else do return entries.put key (.table inside (← alter dotted change inside inner path))
    | some (.tables all) =>
      match all.getLast? with
      | none => none
      | some last => do
        let last ← alter dotted change .header last path
        return entries.put key (.tables (all.dropLast ++ [last]))
    | some _ => none

/--
Adds an item under a dotted key. The table that gets it is the one at hand if the key has no dots,
and otherwise one that dotted keys made.
-/
def Entries.addDotted (entries : Entries) (path : List String) (key : String) (item : Item) :
    Option Entries :=
  entries.alter true
    (fun origin inner => if path ≠ [] ∧ origin ≠ .dotted then none else inner.add key item)
    .header path

/-- Opens the table of a header and fills it. -/
def Entries.openTable (entries : Entries) (path : List String) (key : String)
    (fill : Entries → Option Entries) : Option Entries :=
  entries.alter false
    (fun _ inner =>
      match inner.lookup key with
      | none => do return inner ++ [(key, .table .header (← fill []))]
      | some (.table .implied old) => do return inner.put key (.table .header (← fill old))
      | some _ => none)
    .header path

/-- Opens one more of the tables with one header and fills it. -/
def Entries.openNextTable (entries : Entries) (path : List String) (key : String)
    (fill : Entries → Option Entries) : Option Entries :=
  entries.alter false
    (fun _ inner =>
      match inner.lookup key with
      | none => do return inner ++ [(key, .tables [← fill []])]
      | some (.tables all) => do return inner.put key (.tables (all ++ [← fill []]))
      | some _ => none)
    .header path

end ModuleLoader.Toml
