import WcagAudit.Report.Basic
import WcagAudit.Text.Digits

namespace WcagAudit.Report

def padTo (width : Nat) (s : String) : String := String.ofList (padRight width ' ' s.toList)

def outcome (v : Verdict) : String := if v.passed then "PASS" else "FAIL"

def verdictLine (v : Verdict) : String :=
  s!"  {outcome v}  {padTo 38 v.ruleId}  WCAG {v.criterion} ({v.level.name})"

/-- The name of a file stands above its first verdict in a row. -/
def verdictLines : (above : Option Verdict) → List Verdict → List String
  | _, [] => []
  | above, v :: vs =>
    let line := verdictLine v
    if above.any fun u => Path.sameFile u.file v.file then line :: verdictLines (some v) vs
    else Path.location v.file :: line :: verdictLines (some v) vs

def criterionLines (f : Finding) : List String :=
  match f.criterion, f.level with
  | some criterion, some level => [s!"  WCAG: {criterion} (Level {level.name})"]
  | _, _ => []

def impactLines (f : Finding) : List String :=
  match (f.impact.elim [] Impact.groups) with
  | [] => []
  | groups => ["  Affects: " ++ ", ".intercalate groups]

def findingLines (f : Finding) : List String :=
  [s!"[{f.ruleId}] {f.message}", s!"  Location: {f.location}"] ++ criterionLines f ++
    impactLines f ++ [""]

def sectionLines (findings : List Finding) (s : Severity) : List String :=
  match Findings.bySeverity findings s with
  | [] => []
  | found => s!"--- {s.title} ({found.length}) ---" :: found.flatMap findingLines

def resultLine (r : Report) : String :=
  if r.blocksRelease then "RESULT: RELEASE BLOCKED (errors found)"
  else if r.findings.isEmpty then "RESULT: PASS"
  else "RESULT: PASS WITH WARNINGS"

def summaryLine (r : Report) : String :=
  s!"Files scanned: {r.filesScanned}, rule checks: {r.passed.length} passed, {r.failed.length} failed"

def findingsLine (r : Report) : String :=
  let errors := (Findings.errors r.findings).length
  let warnings := (Findings.warnings r.findings).length
  s!"Findings: {errors} error(s), {warnings} warning(s), {r.findings.length} total"

def bodyLines (r : Report) : List String :=
  match r.verdicts with
  | [] => [s!"Files scanned: {r.filesScanned}", "No rules were evaluated."]
  | verdicts =>
    [summaryLine r, ""] ++ verdictLines none verdicts ++ ["", findingsLine r, ""] ++
      Severity.all.flatMap (sectionLines r.findings) ++ [resultLine r]

def lines (r : Report) : List String := "=== a11ylint WCAG Report ===" :: "" :: bodyLines r

def toText (r : Report) : String := String.join (r.lines.map (· ++ "\n"))

end WcagAudit.Report
