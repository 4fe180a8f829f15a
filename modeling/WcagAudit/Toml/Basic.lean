/-!
TOML documents as trees of tables. A table remembers how it came about, because that decides who may
still add to it: a table written in braces is closed, one with a header cannot be reached by dotted
keys, and one that only stands on the way to another may get a header of its own later.
-/

namespace WcagAudit

inductive Toml.Origin where
  | header
  | implied
  | dotted
  | closed
  deriving DecidableEq

inductive Toml where
  | string (s : String)
  | scalar
  | moment
  | array (items : List Toml)
  | table (origin : Toml.Origin) (entries : List (String × Toml))
  | tables (items : List (List (String × Toml)))

namespace Toml

abbrev Entries := List (String × Toml)

def put (entries : Entries) (key : String) (x : Toml) : Entries :=
  if entries.any (·.1 == key) then entries.map fun e => if e.1 == key then (key, x) else e
  else entries ++ [(key, x)]

def passable (dotted : Bool) : Origin → Bool
  | .closed => false
  | .header => !dotted
  | .implied | .dotted => true

/-- Changes the table at the end of a path and makes the missing tables on the way. A path goes on in
the last of several tables of one name. -/
def change (dotted : Bool) (f : Origin → Entries → Option Entries) :
    List String → Origin → Entries → Option Entries
  | [], origin, entries => f origin entries
  | key :: path, _, entries =>
    match entries.lookup key with
    | none => do
      let origin := if dotted then .dotted else .implied
      return put entries key (.table origin (← change dotted f path origin []))
    | some (.table origin inner) =>
      if passable dotted origin then do
        return put entries key (.table origin (← change dotted f path origin inner))
      else none
    | some (.tables items) =>
      match items.getLast? with
      | some last => do
        return put entries key (.tables (items.dropLast ++ [← change dotted f path .header last]))
      | none => none
    | some _ => none

/-- Adds a value under a key that has none. Dotted keys end in a table that dotted keys have made. -/
def insert (path : List String) (key : String) (x : Toml) (origin : Origin) (entries : Entries) :
    Option Entries :=
  change true (fun origin entries =>
    if (origin == .dotted) == path.isEmpty || (entries.lookup key).isSome then none
    else some (put entries key x)) path origin entries

/-- A header: its table is new, or has so far only been on the way of another. -/
def openTable (path : List String) (key : String) (root : Entries) : Option Entries :=
  change false (fun _ entries =>
    match entries.lookup key with
    | none => some (put entries key (.table .header []))
    | some (.table .implied inner) => some (put entries key (.table .header inner))
    | some _ => none) path .header root

def openItem (path : List String) (key : String) (root : Entries) : Option Entries :=
  change false (fun _ entries =>
    match entries.lookup key with
    | none => some (put entries key (.tables [[]]))
    | some (.tables items) => some (put entries key (.tables (items ++ [[]])))
    | some _ => none) path .header root

def insertUnder (header path : List String) (key : String) (x : Toml) (root : Entries) :
    Option Entries :=
  change false (insert path key x) header .header root

end Toml
end WcagAudit
