import WcagAudit.Toml.Scalar

namespace WcagAudit.Toml

def skipGap : (inComment : Bool) → List Char → List Char
  | _, [] => []
  | _, '\n' :: t => skipGap false t
  | _, '\r' :: '\n' :: t => skipGap false t
  | true, c :: t => if isPlain c then skipGap true t else c :: t
  | false, c :: t =>
    if isSpace c then skipGap false t else if c = '#' then skipGap true t else c :: t

def lineEnd? (t : List Char) : Option (List Char) :=
  let t := match skipSpace t with
    | '#' :: t => t.dropWhile isPlain
    | t => t
  match t with
  | [] => some []
  | '\n' :: t | '\r' :: '\n' :: t => some t
  | _ => none

def isBare (c : Char) : Bool := c.isAlphanum || c == '-' || c == '_'

def simpleKey? (t : List Char) : Option (String × List Char) :=
  match t with
  | '"' :: t => (basicBody t).map fun (s, t) => (String.ofList s, t)
  | '\x27' :: t => (literalBody t).map fun (s, t) => (String.ofList s, t)
  | t =>
    match t.takeWhile isBare with
    | [] => none
    | s => some (String.ofList s, t.dropWhile isBare)

def keyParts? : (fuel : Nat) → List Char → Option (List String × List Char)
  | 0, _ => none
  | fuel + 1, t => do
    let (key, t) ← simpleKey? (skipSpace t)
    match skipSpace t with
    | '.' :: t =>
      let (keys, t) ← keyParts? fuel t
      return (key :: keys, t)
    | t => return ([key], t)

def key? (t : List Char) : Option ((List String × String) × List Char) := do
  let (keys, t) ← keyParts? (t.length + 1) t
  let last ← keys.getLast?
  if keys.length < 80 then return ((keys.dropLast, last), t) else none

abbrev Reader (α : Type) := List Char → Option (α × List Char)

def items? (value : Reader Toml) : (fuel : Nat) → Reader (List Toml)
  | 0, _ => none
  | fuel + 1, t =>
    match skipGap false t with
    | ']' :: t => some ([], t)
    | t => do
      let (x, t) ← value t
      match skipGap false t with
      | ']' :: t => return ([x], t)
      | ',' :: t =>
        let (xs, t) ← items? value fuel t
        return (x :: xs, t)
      | _ => none

def pair? (value : Reader Toml) (t : List Char) : Option ((List String × String × Toml) × List Char) := do
  let ((path, key), t) ← key? t
  match t with
  | '=' :: t =>
    let (x, t) ← value (skipSpace t)
    return ((path, key, x), t)
  | _ => none

def entries? (value : Reader Toml) : (fuel : Nat) → Entries → Reader Entries
  | 0, _, _ => none
  | fuel + 1, entries, t => do
    let ((path, key, x), t) ← pair? value t
    let entries ← insert path key x .closed entries
    match skipSpace t with
    | '\x7d' :: t => return (entries, t)
    | ',' :: t => entries? value fuel entries t
    | _ => none

def value? : (depth : Nat) → Reader Toml
  | 0, t => leaf? t
  | depth + 1, t =>
    match t with
    | '[' :: t => (items? (value? depth) (t.length + 1) t).map fun (xs, t) => (.array xs, t)
    | '\x7b' :: t =>
      match skipSpace t with
      | '\x7d' :: t => some (.table .closed [], t)
      | _ =>
        (entries? (value? depth) (t.length + 1) [] t).map fun (es, t) => (.table .closed es, t)
    | t => leaf? t
where
  leaf? (t : List Char) : Option (Toml × List Char) :=
    match string? t with
    | some (s, t) => some (.string (String.ofList s), t)
    | none => scalar? t

def headerEnd? (double : Bool) : List Char → Option (List Char)
  | ']' :: ']' :: t => if double then lineEnd? t else none
  | ']' :: t => if double then none else lineEnd? t
  | _ => none

def lines? : (fuel : Nat) → (header : List String) → (root : Entries) → List Char → Option Entries
  | 0, _, _, _ => none
  | fuel + 1, header, root, t =>
    match skipSpace t with
    | [] => some root
    | '\n' :: t | '\r' :: '\n' :: t => lines? fuel header root t
    | '#' :: t => do lines? fuel header root (← lineEnd? ('#' :: t))
    | '[' :: '[' :: t => do
      let ((path, key), t) ← key? t
      lines? fuel (path ++ [key]) (← openItem path key root) (← headerEnd? true t)
    | '[' :: t => do
      let ((path, key), t) ← key? t
      lines? fuel (path ++ [key]) (← openTable path key root) (← headerEnd? false t)
    | t => do
      let ((path, key, x), t) ← pair? (value? 79) t
      lines? fuel header (← insertUnder header path key x root) (← lineEnd? t)

def parse? (t : List Char) : Option Entries :=
  match t with
  | '\ufeff' :: t => lines? (t.length + 1) [] [] t
  | t => lines? (t.length + 1) [] [] t

end WcagAudit.Toml
