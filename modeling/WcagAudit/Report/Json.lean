import WcagAudit.Json.Parser
import WcagAudit.Json.Reader
import WcagAudit.Report.Basic

namespace WcagAudit

namespace Level

def toJson (l : Level) : Json := .string l.name

def ofJson? (j : Json) : Option Level := j.case?.bind ofName?

end Level

namespace Severity

def toJson (s : Severity) : Json := .string s.name

def ofJson? (j : Json) : Option Severity := j.case?.bind ofName?

end Severity

namespace Impact

def toJson (i : Impact) : Json :=
  .object [("blind", .bool i.blind), ("motor", .bool i.motor), ("cognitive", .bool i.cognitive)]

def ofJson? (j : Json) : Option Impact := do
  let [blind, motor, cognitive] ← j.record? ["blind", "motor", "cognitive"] | none
  return {
    blind := ← Json.required? Json.bool? blind
    motor := ← Json.required? Json.bool? motor
    cognitive := ← Json.required? Json.bool? cognitive }

end Impact

namespace Path

def toJson (p : Path) : Json := .string p.display

def ofJson? (j : Json) : Option Path := j.string?.map ofString

end Path

namespace Uuid

def toJson (u : Uuid) : Json := .string (String.ofList u.text)

def ofJson? (j : Json) : Option Uuid := j.string?.bind fun s => ofText? s.toList

end Uuid

namespace Instant

def toJson (i : Instant) : Json := .string (String.ofList i.text)

def ofJson? (j : Json) : Option Instant := j.string?.bind fun s => ofText? s.toList

end Instant

namespace Verdict

def toJson (v : Verdict) : Json :=
  .object [("rule_id", .string v.ruleId), ("rule_name", .string v.ruleName),
    ("file", .ofOption Path.toJson v.file), ("passed", .bool v.passed),
    ("wcag_criterion", .string v.criterion), ("wcag_level", v.level.toJson)]

def fieldNames : List String :=
  ["rule_id", "rule_name", "file", "passed", "wcag_criterion", "wcag_level"]

def ofJson? (j : Json) : Option Verdict := do
  let [ruleId, ruleName, file, passed, criterion, level] ← j.record? fieldNames | none
  return {
    ruleId := ← Json.required? Json.string? ruleId
    ruleName := ← Json.required? Json.string? ruleName
    file := ← Json.optional? Path.ofJson? file
    passed := ← Json.required? Json.bool? passed
    criterion := ← Json.required? Json.string? criterion
    level := ← Json.required? Level.ofJson? level }

end Verdict

namespace Finding

def toJson (f : Finding) : Json :=
  .object [("id", f.stamp.id.toJson), ("source", .string f.source), ("rule_id", .string f.ruleId),
    ("rule_name", .string f.ruleName), ("severity", f.severity.toJson),
    ("message", .string f.message), ("category", .string f.category),
    ("file", .ofOption Path.toJson f.file), ("created_at", f.stamp.createdAt.toJson),
    ("wcag_criterion", .ofOption .string f.criterion),
    ("wcag_level", .ofOption Level.toJson f.level), ("impact", .ofOption Impact.toJson f.impact)]

def fieldNames : List String :=
  ["id", "source", "rule_id", "rule_name", "severity", "message", "category", "file", "created_at",
    "wcag_criterion", "wcag_level", "impact"]

def ofJson? (j : Json) : Option Finding := do
  let [id, source, ruleId, ruleName, severity, message, category, file, createdAt, criterion, level,
    impact] ← j.record? fieldNames | none
  return {
    stamp := {
      id := ← Json.required? Uuid.ofJson? id
      createdAt := ← Json.required? Instant.ofJson? createdAt }
    source := ← Json.required? Json.string? source
    ruleId := ← Json.required? Json.string? ruleId
    ruleName := ← Json.required? Json.string? ruleName
    severity := ← Json.required? Severity.ofJson? severity
    message := ← Json.required? Json.string? message
    category := ← Json.required? Json.string? category
    file := ← Json.optional? Path.ofJson? file
    criterion := ← Json.optional? Json.string? criterion
    level := ← Json.optional? Level.ofJson? level
    impact := ← Json.optional? Impact.ofJson? impact }

end Finding

namespace Findings

def toJson (findings : List Finding) : Json := .object [("findings", .list Finding.toJson findings)]

def ofJson? (j : Json) : Option (List Finding) := do
  let [findings] ← j.record? ["findings"] | none
  Json.required? (Json.list? Finding.ofJson?) findings

end Findings

namespace Report

def toJson (r : Report) : Json :=
  .object [("files_scanned", .nat r.filesScanned.toNat), ("verdicts", .list Verdict.toJson r.verdicts),
    ("findings", Findings.toJson r.findings)]

def ofJson? (j : Json) : Option Report := do
  let [files, verdicts, findings] ← j.record? ["files_scanned", "verdicts", "findings"] | none
  return {
    filesScanned := (← Json.required? Json.count? files).toUInt64
    verdicts := ← Json.required? (Json.list? Verdict.ofJson?) verdicts
    findings := ← Json.required? Findings.ofJson? findings }

def ofJsonText? (t : List Char) : Option Report := (Json.parse? t).bind ofJson?

end Report
end WcagAudit
