import WcagAudit.Command.Arguments
import WcagAudit.Config.File
import WcagAudit.Decimal.Fixed
import WcagAudit.Scan.Directory

namespace WcagAudit.Command

structure Outcome where
  exit : Nat := 0
  stdout : String := ""
  error : Option String := none
  written : Option Path := none
  files : FileSystem

def writtenNotice (p : Path) : String := "Report written to " ++ p.display

def Outcome.failed (fs : FileSystem) (message : String) : Outcome :=
  { exit := 1, error := some message, files := fs }

def exitOf (good : Bool) : Nat := if good then 0 else 1

def deliver (fs : FileSystem) (exit : Nat) (text : String) : (output : Option Path) → Outcome
  | none => { exit, stdout := text ++ "\n", files := fs }
  | some p =>
    match fs.write p text.toUTF8 with
    | .ok files => { exit, written := some p, files }
    | .error e => .failed fs e.message

/-- Each finding gets its stamp where it leaves the program. -/
def publish (stamp : Nat → Stamp) (fs : FileSystem) (report : Report) (format : Format)
    (output : Option Path) : Outcome :=
  match (report.stamped stamp).render format with
  | .ok text => deliver fs (exitOf !report.blocksRelease) text output
  | .error e => .failed fs e.message

def runCheck (stamp : Nat → Stamp) (fs : FileSystem) (c : Config) (directory : Path)
    (format : Format) (output : Option Path) : Outcome :=
  publish stamp fs (scanDirectory fs directory c).1 format output

def runAnalyze (stamp : Nat → Stamp) (fs : FileSystem) (c : Config) (file : Path) (format : Format) :
    Outcome :=
  match scanFile fs file c with
  | .ok report => publish stamp fs report format none
  | .error e => .failed fs (Failure.io e).message

def contrastLines (c : Color.Comparison) : List String :=
  let first := String.ofList c.first
  let second := String.ofList c.second
  [s!"{first} ({(Color.detect c.first).name}) vs {second} ({(Color.detect c.second).name})",
    s!"Contrast ratio: {fixedDecimal 2 c.ratio}:1",
    (if c.passes then "PASS" else "FAIL") ++ " (WCAG 1.4.3 AA normal text requires 4.5:1)"]

def unlines (lines : List String) : String := String.join (lines.map (· ++ "\n"))

def runContrast (fs : FileSystem) (first second : List Char) : Outcome :=
  match Color.compare first second with
  | .ok c => { exit := exitOf c.passes, stdout := unlines (contrastLines c), files := fs }
  | .error e => .failed fs e.message

def ruleLine (r : Rule) : String :=
  " ".intercalate [Report.padTo 38 r.id, Report.padTo 7 r.info.criterion,
    Report.padTo 3 r.info.level.name, Report.padTo 8 r.info.severity.title, r.info.name]

def runInit (fs : FileSystem) (p : Path) : Outcome :=
  match Config.writeDefault fs p with
  | (.ok (), files) => { stdout := s!"Created configuration file: {p.display}\n", files }
  | (.error e, files) => .failed files (Failure.io e).message

/-- A level on the command line goes before the one of the configuration. -/
def effective (c : Config) (level : Option Level) : Config := { c with level := level.getD c.level }

def runTask (stamp : Nat → Stamp) (fs : FileSystem) (c : Config) : Task → Outcome
  | .check directory level format output =>
    runCheck stamp fs (effective c level) directory format output
  | .analyze file level format => runAnalyze stamp fs (effective c level) file format
  | .contrast first second => runContrast fs first second
  | .rules => { stdout := unlines (Rule.catalogue.map ruleLine), files := fs }
  | .init p => runInit fs p

def runInvocation (stamp : Nat → Stamp) (fs : FileSystem) (i : Invocation) : Outcome :=
  match Config.load fs i.config with
  | .ok c => runTask stamp fs c i.task
  | .error e => .failed fs e.message

def run (stamp : Nat → Stamp) (fs : FileSystem) (arguments : List Argument) : Outcome :=
  match parse arguments with
  | .ok i => runInvocation stamp fs i
  | .error .version => { stdout := s!"{Finding.toolName} {Sarif.version}\n", files := fs }
  | .error .help => { files := fs }
  | .error .usage => { exit := 2, files := fs }

end WcagAudit.Command
