import WcagAudit.Finding

namespace WcagAudit

namespace Findings

def bySeverity (findings : List Finding) (s : Severity) : List Finding :=
  findings.filter (·.severity = s)

def errors (findings : List Finding) : List Finding := bySeverity findings .error

def warnings (findings : List Finding) : List Finding := bySeverity findings .warning

def hasErrors (findings : List Finding) : Bool := findings.any (·.severity = .error)

def blocksRelease (findings : List Finding) : Bool := findings.any (·.severity.blocksRelease)

end Findings

structure Report where
  filesScanned : UInt64 := 0
  verdicts : List Verdict := []
  findings : List Finding := []
  deriving DecidableEq

namespace Report

def empty : Report := {}

def record (r : Report) (v : Verdict) (f : Option Finding) : Report :=
  { r with verdicts := r.verdicts ++ [v], findings := r.findings ++ f.toList }

def merge (r s : Report) : Report :=
  ⟨r.filesScanned + s.filesScanned, r.verdicts ++ s.verdicts, r.findings ++ s.findings⟩

def passed (r : Report) : List Verdict := r.verdicts.filter (·.passed)

def failed (r : Report) : List Verdict := r.verdicts.filter (!·.passed)

def verdict? (r : Report) (ruleId : String) (file : Option Path) : Option Bool :=
  (r.verdicts.find? fun v => v.ruleId == ruleId && Path.sameFile v.file file).map (·.passed)

def blocksRelease (r : Report) : Bool := Findings.blocksRelease r.findings

def stamped (r : Report) (stamp : Nat → Stamp) : Report :=
  { r with findings := r.findings.mapIdx fun i f => { f with stamp := stamp i } }

end Report
end WcagAudit
