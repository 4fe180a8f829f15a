import WcagAudit.Text.Blank
import WcagAudit.Text.Utf8

namespace WcagAudit

structure Path where
  bytes : List UInt8
  deriving DecidableEq

abbrev FileName := List UInt8

namespace Path

inductive Component where
  | root
  | current
  | parent
  | name (s : FileName)
  deriving DecidableEq

def ofString (s : String) : Path := ⟨Utf8.ofString s⟩

def isText (p : Path) : Bool := (Utf8.decode? p.bytes).isSome

def display (p : Path) : String := String.ofList (Utf8.decodeLossy p.bytes)

def slash : UInt8 := 0x2F

def dot : UInt8 := 0x2E

def isSlash (b : UInt8) : Bool := b == slash

def inner? (piece : FileName) : Option Component :=
  if piece = [] || piece = [dot] then none
  else if piece = [dot, dot] then some .parent
  else some (.name piece)

/-- The first piece of a path is a dot only if it stands for the current directory, and empty only if
the path is empty or starts at the root. -/
def components (p : Path) : List Component :=
  match piecesBy isSlash p.bytes with
  | [] | [[]] => []
  | piece :: pieces =>
    (if piece = [] then some .root else if piece = [dot] then some .current else inner? piece).toList ++
      pieces.filterMap inner?

def same (p q : Path) : Bool := p.components == q.components

def sameFile : Option Path → Option Path → Bool
  | some p, some q => same p q
  | none, none => true
  | _, _ => false

def fileName? (p : Path) : Option FileName :=
  match p.components.getLast? with
  | some (.name s) => some s
  | _ => none

/-- What follows the last dot of a file name, unless the name starts with that dot. -/
def extensionOf? (name : FileName) : Option (List UInt8) :=
  let front := name.reverse.dropWhile (· != dot)
  if front = [] || front = [dot] then none else some (name.reverse.takeWhile (· != dot)).reverse

def extension? (p : Path) : Option (List UInt8) := p.fileName?.bind extensionOf?

def Component.bytes : Component → List UInt8
  | root => []
  | current => [dot]
  | parent => [dot, dot]
  | name s => s

def ofComponents : List Component → Path
  | [.root] => ⟨[slash]⟩
  | components => ⟨[slash].intercalate (components.map Component.bytes)⟩

def parent (p : Path) : List Component := p.components.dropLast

def join (p : Path) (name : FileName) : Path :=
  if p.bytes = [] || p.bytes.getLast? = some slash then ⟨p.bytes ++ name⟩
  else ⟨p.bytes ++ slash :: name⟩

end Path
end WcagAudit
