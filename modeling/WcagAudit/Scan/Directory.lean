import WcagAudit.Config.Basic
import WcagAudit.FileSystem.Basic
import WcagAudit.Scan.Markup

/-!
The rules at work on files: on one, or on all below a directory that the configuration selects. A
directory is read depth first, its entries in the order of their names. Excluded and hidden
directories are not entered, but the place where a scan starts is. What cannot be read is passed over
with a notice.
-/

namespace WcagAudit

def FileName.inOrder : FileName → FileName → Bool
  | [], _ => true
  | _ :: _, [] => false
  | b :: s, c :: t => b < c || b == c && inOrder s t

def sortEntries (entries : List (FileName × α)) : List (FileName × α) :=
  entries.mergeSort fun a b => FileName.inOrder a.1 b.1

/-- A name that is no text counts as empty, so it is neither excluded nor hidden, and so does an
extension that is none. -/
def textOrEmpty (name : List UInt8) : List Char := (Utf8.decode? name).getD []

def Selection.enters (s : Selection) (name : FileName) : Bool :=
  !s.excludesDirectory (textOrEmpty name) && (textOrEmpty name).head? != some '.'

inductive Visit where
  | file (p : Path)
  | unreadable (p : Path) (e : IoError)

mutual

def Node.walk (s : Selection) (p : Path) (n : Node) : List Visit :=
  match n with
  | .file _ => [.file p]
  | .directory entries =>
    if FileSystem.tooLong p then [.unreadable p .nameTooLong]
    else (sortEntries (walkInside s p entries)).flatMap (·.2)

def walkInside (s : Selection) (p : Path) (entries : List (FileName × Node)) :
    List (FileName × List Visit) :=
  match entries with
  | [] => []
  | (name, n) :: entries =>
    (name, if !n.isDirectory || s.enters name then n.walk s (p.join name) else []) ::
      walkInside s p entries

end

def scanFile (fs : FileSystem) (p : Path) (c : Config) : Except IoError Report := do
  return scanMarkup (some p) (← fs.readText p) c.level

inductive Notice where
  | scanning (directory : Path)
  | unreadable (place : Path) (e : IoError)
  | skipping (file : Path) (e : IoError)
  | scanned (files : UInt64) (failed : Nat)

def Notice.message : Notice → String
  | scanning directory => "Scanning directory: " ++ directory.display
  | unreadable place e =>
    "Skipping unreadable entry: IO error for operation on " ++ place.display ++ ": " ++ e.message
  | skipping file e => "Skipping " ++ file.display ++ ": " ++ e.message
  | scanned files failed => s!"Scanned {files} files, {failed} rule(s) failed"

def Selection.takes (s : Selection) (p : Path) : Bool :=
  s.includesExtension (textOrEmpty (p.extension?.getD []))

/-- The report on what a walk meets, or why there is none. Files that are not selected are passed over
in silence. -/
def Visit.outcome? (fs : FileSystem) (c : Config) : Visit → Option (Except Notice Report)
  | file p => if c.scan.takes p then some ((scanFile fs p c).mapError (.skipping p)) else none
  | unreadable p e => some (.error (.unreadable p e))

def complaint? : Except Notice α → Option Notice
  | .ok _ => none
  | .error notice => some notice

def visits (fs : FileSystem) (p : Path) (s : Selection) : List Visit :=
  match fs.node p with
  | .ok n => n.walk s p
  | .error e => [.unreadable p e]

def scanDirectory (fs : FileSystem) (p : Path) (c : Config) : Report × List Notice :=
  let outcomes := (visits fs p c.scan).filterMap (Visit.outcome? fs c)
  let report := (outcomes.filterMap Except.toOption).foldl Report.merge .empty
  (report, .scanning p :: outcomes.filterMap complaint? ++
    [.scanned report.filesScanned report.failed.length])

end WcagAudit
