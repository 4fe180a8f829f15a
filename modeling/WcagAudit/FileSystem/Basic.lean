import WcagAudit.Path

namespace WcagAudit

inductive Node where
  | file (content : ByteArray)
  | directory (entries : List (FileName × Node))

structure FileSystem where
  root : Node := .directory []
  current : List FileName := []

inductive IoError where
  | notFound
  | fileExists
  | notDirectory
  | isDirectory
  | nameTooLong
  | nulInName
  | invalidText
  deriving DecidableEq, Repr

def IoError.message : IoError → String
  | notFound => "No such file or directory (os error 2)"
  | fileExists => "File exists (os error 17)"
  | notDirectory => "Not a directory (os error 20)"
  | isDirectory => "Is a directory (os error 21)"
  | nameTooLong => "File name too long (os error 36)"
  | nulInName => "file name contained an unexpected NUL byte"
  | invalidText => "stream did not contain valid UTF-8"

namespace Node

def at? : Node → List FileName → Option Node
  | n, [] => some n
  | file _, _ :: _ => none
  | directory entries, name :: names => (entries.lookup name).bind (·.at? names)

def isDirectory : Node → Bool
  | directory _ => true
  | file _ => false

def setEntry (entries : List (FileName × Node)) (name : FileName) (n : Node) :
    List (FileName × Node) :=
  if entries.any (·.1 == name) then entries.map fun e => if e.1 == name then (name, n) else e
  else entries ++ [(name, n)]

def changeEntries (f : List (FileName × Node) → List (FileName × Node)) :
    Node → List FileName → Node
  | file content, _ => file content
  | directory entries, [] => directory (f entries)
  | directory entries, name :: names =>
    match entries.lookup name with
    | some n => directory (setEntry entries name (n.changeEntries f names))
    | none => directory entries

end Node

namespace FileSystem

def tooLong (p : Path) : Bool := 4096 ≤ p.bytes.length

/-- Where the pieces of a path lead from a place, given by the names on the way to it. -/
def follow (root : Node) : List FileName → List FileName → Except IoError (List FileName)
  | place, [] => .ok place
  | place, piece :: pieces =>
    match root.at? place with
    | some (.directory entries) =>
      if piece = [] || piece = [Path.dot] then follow root place pieces
      else if piece = [Path.dot, Path.dot] then follow root place.dropLast pieces
      else if 255 < piece.length then .error .nameTooLong
      else if (entries.lookup piece).isSome then follow root (place ++ [piece]) pieces
      else .error .notFound
    | _ => .error .notDirectory

def start (fs : FileSystem) (p : Path) : Except IoError (List FileName × List FileName) :=
  if p.bytes.contains 0 then .error .nulInName
  else if p.bytes.isEmpty then .error .notFound
  else if tooLong p then .error .nameTooLong
  else .ok (if p.bytes.head? = some Path.slash then [] else fs.current, piecesBy Path.isSlash p.bytes)

def locate (fs : FileSystem) (p : Path) : Except IoError (List FileName) := do
  let (place, pieces) ← fs.start p
  follow fs.root place pieces

def node (fs : FileSystem) (p : Path) : Except IoError Node := do
  match fs.root.at? (← fs.locate p) with
  | some n => return n
  | none => throw .notFound

def pathExists (fs : FileSystem) (p : Path) : Bool := (fs.locate p).toOption.isSome

def isDirectory (fs : FileSystem) (p : Path) : Bool :=
  match fs.node p with
  | .ok n => n.isDirectory
  | .error _ => false

def decode (content : ByteArray) : Except IoError (List Char) :=
  match String.fromUTF8? content with
  | some s => .ok s.toList
  | none => .error .invalidText

def readText (fs : FileSystem) (p : Path) : Except IoError (List Char) := do
  match ← fs.node p with
  | .file content => decode content
  | .directory _ => throw .isDirectory

/-- The place of the directory that the last name of a path stands in, and that name. The second
component of the result tells whether a slash follows the name. -/
def target (fs : FileSystem) (p : Path) : Except IoError (List FileName × Option FileName × Bool) := do
  let (place, pieces) ← fs.start p
  let bare := (pieces.reverse.dropWhile (· == [])).reverse
  match bare.getLast? with
  | none => return ([], none, true)
  | some name =>
    if name = [Path.dot] || name = [Path.dot, Path.dot] then
      let place ← follow fs.root place pieces
      return (place, none, true)
    else
      let parent ← follow fs.root place bare.dropLast
      if (fs.root.at? parent).any Node.isDirectory then
        if 255 < name.length then throw .nameTooLong
        return (parent, some name, bare.length < pieces.length)
      else throw .notDirectory

def setNode (fs : FileSystem) (parent : List FileName) (name : FileName) (n : Node) : FileSystem :=
  { fs with root := fs.root.changeEntries (Node.setEntry · name n) parent }

def write (fs : FileSystem) (p : Path) (content : ByteArray) : Except IoError FileSystem := do
  match ← fs.target p with
  | (parent, some name, false) =>
    if (fs.root.at? (parent ++ [name])).any Node.isDirectory then throw .isDirectory
    else return fs.setNode parent name (.file content)
  | _ => throw .isDirectory

def makeDirectory (fs : FileSystem) (p : Path) : Except IoError FileSystem := do
  match ← fs.target p with
  | (parent, some name, _) =>
    if (fs.root.at? (parent ++ [name])).isSome then throw .fileExists
    else return fs.setNode parent name (.directory [])
  | _ => throw .fileExists

/-- Makes the directory at the end of the path `up.reverse` and those on the way that are missing.
What has been made stays when a later step fails. -/
def makeAll (fs : FileSystem) : (up : List Path.Component) → Except IoError Unit × FileSystem
  | [] => (.ok (), fs)
  | c :: up =>
    let p := Path.ofComponents (c :: up).reverse
    match fs.makeDirectory p with
    | .ok fs => (.ok (), fs)
    | .error .notFound =>
      match fs.makeAll up with
      | (.ok (), fs) =>
        match fs.makeDirectory p with
        | .ok fs => (.ok (), fs)
        | .error e => (if fs.isDirectory p then .ok () else .error e, fs)
      | failed => failed
    | .error e => (if fs.isDirectory p then .ok () else .error e, fs)

def writeAll (fs : FileSystem) (p : Path) (content : ByteArray) : Except IoError Unit × FileSystem :=
  match fs.makeAll p.parent.reverse with
  | (.ok (), fs) =>
    match fs.write p content with
    | .ok fs => (.ok (), fs)
    | .error e => (.error e, fs)
  | failed => failed

end FileSystem
end WcagAudit
