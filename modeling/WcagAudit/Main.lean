import WcagAudit.Command.Run
import Std.Time.DateTime.Timestamp

namespace WcagAudit

def kind? (p : Path) : IO (Option IO.FS.FileType) :=
  try return some (← (← IO.FS.realPath p.display).metadata).type
  catch _ => return none

def copyNode (fs : FileSystem) (p : Path) : IO FileSystem := do
  let copied ← match ← kind? p with
    | some .dir => pure (fs.makeDirectory p)
    | some _ => fs.write p <$> IO.FS.readBinFile p.display
    | none => pure (.ok fs)
  return copied.toOption.getD fs

def copyPath (fs : FileSystem) (p : Path) : IO FileSystem :=
  (List.range p.components.length).foldlM
    (fun fs n => copyNode fs (.ofComponents (p.components.take (n + 1)))) fs

partial def copyBelow (s : Selection) (fs : FileSystem) (p : Path) : IO FileSystem := do
  let directory ← IO.FS.realPath p.display
  (← directory.readDir).foldlM (fun fs entry => do
    let name := Utf8.ofString entry.fileName
    let p := p.join name
    match (← entry.path.symlinkMetadata).type with
    | .dir => if s.enters name then copyBelow s (← copyNode fs p) p else return fs
    | .file => if s.takes p then copyNode fs p else return fs
    | _ => return fs) fs

def copyCurrent : IO FileSystem := do
  let here : Path := .ofString (← IO.currentDir).toString
  return { (({} : FileSystem).makeAll here.components.reverse).2 with
    current := here.components.tail.map Path.Component.bytes }

def copyFor (i : Command.Invocation) : IO FileSystem := do
  let fs ← copyPath (← copyCurrent) i.config
  match i.task with
  | .check directory _ _ output =>
    let fs ← copyPath fs directory
    let selection := ((Config.load fs i.config).toOption.getD .default).scan
    let fs ← if fs.isDirectory directory then copyBelow selection fs directory else pure fs
    output.elim (pure fs) (copyPath fs)
  | .analyze file .. => copyPath fs file
  | .init p => copyPath fs p
  | .contrast .. | .rules => return fs

def Command.Task.target? : Command.Task → Option Path
  | check _ _ _ output => output
  | init p => some p
  | _ => none

def FileSystem.content? (fs : FileSystem) (p : Path) : Option ByteArray :=
  match fs.node p with
  | .ok (.file content) => some content
  | _ => none

def writeBack (before after : FileSystem) (p : Path) : IO Unit := do
  let parent := Path.ofComponents p.parent
  if after.isDirectory parent && !before.isDirectory parent then IO.FS.createDirAll parent.display
  if let some content := after.content? p then
    if before.content? p != some content then IO.FS.writeBinFile p.display content

def stamps : IO (Nat → Stamp) := do
  let bytes ← IO.getRandomBytes 16
  let start := bytes.toList.foldl (fun n b => 256 * n + b.toNat) 0
  let now ← Std.Time.Timestamp.now
  let createdAt := Instant.ofUnix now.toNanosecondsSinceUnixEpoch.toInt.toNat
  return fun n => ⟨.ofRandom (start + n), createdAt⟩

def execute (i : Command.Invocation) : IO UInt32 := do
  let files ← copyFor i
  let outcome := Command.runInvocation (← stamps) files i
  i.task.target?.forM (writeBack files outcome.files)
  IO.print outcome.stdout
  outcome.written.forM fun p => IO.eprintln (Command.writtenNotice p)
  outcome.error.forM fun message => IO.eprintln ("Error: " ++ message)
  return outcome.exit.toUInt32

end WcagAudit

open WcagAudit in
def main (arguments : List String) : IO UInt32 := do
  let arguments := arguments.map Utf8.ofString
  match Command.parse arguments with
  | .ok i =>
    try execute i
    catch e =>
      IO.eprintln s!"Error: {e}"
      return 1
  | .error .help =>
    IO.print Command.usage
    return 0
  | .error .usage =>
    IO.eprint Command.usage
    return 2
  | .error .version =>
    IO.print (Command.run (fun _ => .unset) {} arguments).stdout
    return 0
