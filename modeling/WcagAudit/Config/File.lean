import WcagAudit.Config.Toml
import WcagAudit.Failure

namespace WcagAudit

namespace Config

def ofText (p : Path) (t : List Char) : Except Failure Config :=
  match ofTomlText? t with
  | none => .error .toml
  | some c => if c.scan.extensions.isEmpty then .error (.noExtensions p) else .ok c

def load (fs : FileSystem) (p : Path) : Except Failure Config :=
  if fs.pathExists p then
    match fs.readText p with
    | .ok t => ofText p t
    | .error e => .error (.io e)
  else .ok default

def writeDefault (fs : FileSystem) (p : Path) : Except IoError Unit × FileSystem :=
  fs.writeAll p default.toToml.toUTF8

end Config
end WcagAudit
