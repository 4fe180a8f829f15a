import WcagAudit.FileSystem.Basic

namespace WcagAudit

inductive Failure where
  | io (e : IoError)
  | toml
  | noExtensions (p : Path)
  /-- JSON has no strings that are no text. -/
  | json
  deriving DecidableEq

def Failure.message : Failure → String
  | io e => "IO error: " ++ e.message
  | toml => "TOML parse error"
  | noExtensions p =>
    "Configuration error: " ++ p.display ++ ": scan.extensions must list at least one extension"
  | json => "JSON error: path contains invalid UTF-8 characters"

end WcagAudit
