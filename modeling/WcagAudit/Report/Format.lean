import WcagAudit.Failure
import WcagAudit.Report.Sarif
import WcagAudit.Report.Text

namespace WcagAudit

inductive Format where
  | text
  | json
  | sarif
  deriving DecidableEq, Repr

namespace Format

def all : List Format := [text, json, sarif]

def name : Format → String
  | text => "text"
  | json => "json"
  | sarif => "sarif"

def ofName? (s : String) : Option Format := all.find? (·.name == s)

end Format

namespace Report

def paths (r : Report) : List Path := r.verdicts.filterMap (·.file) ++ r.findings.filterMap (·.file)

def render (r : Report) : Format → Except Failure String
  | .text => .ok r.toText
  | .json => if r.paths.all Path.isText then .ok (String.ofList r.toJson.pretty) else .error .json
  | .sarif => .ok (String.ofList (Sarif.ofReport r).pretty)

end Report

end WcagAudit
