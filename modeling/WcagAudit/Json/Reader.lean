import WcagAudit.Json.Basic

namespace WcagAudit.Json

/-- The member of that name, if there is just one. Two of one name are an error. -/
def member? (members : List (String × Json)) (name : String) : Option (Option Json) :=
  match members.filter (·.1 == name) with
  | [] => some none
  | [(_, x)] => some (some x)
  | _ => none

def record? (names : List String) : Json → Option (List (Option Json))
  | object members => names.mapM (member? members)
  | array items => if items.length = names.length then some (items.map some) else none
  | _ => none

def last? (j : Json) (name : String) : Option Json :=
  match j with
  | object members => (members.filter (·.1 == name)).getLast?.map (·.2)
  | _ => none

def get (j : Json) (name : String) : Json := (j.last? name).getD null

def string? : Json → Option String
  | string s => some s
  | _ => none

def bool? : Json → Option Bool
  | bool b => some b
  | _ => none

def count? : Json → Option Nat
  | number n => n.toNat?.bind fun n => if n < Nat.pow 2 64 then some n else none
  | _ => none

def list? (read : Json → Option α) : Json → Option (List α)
  | array items => items.mapM read
  | _ => none

/-- The name of a case without data. -/
def case? : Json → Option String
  | string s => some s
  | object [(s, null)] => some s
  | _ => none

def required? (read : Json → Option α) (field : Option Json) : Option α := field.bind read

def optional? (read : Json → Option α) : Option Json → Option (Option α)
  | none | some null => some none
  | some x => (read x).map some

end WcagAudit.Json
