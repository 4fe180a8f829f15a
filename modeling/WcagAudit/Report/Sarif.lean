import WcagAudit.Report.Json
import WcagAudit.Rule.Catalogue

namespace WcagAudit.Sarif

def version : String := "0.1.0"

def text (s : String) : Json := .object [("text", .string s)]

def rule (r : Rule) : Json :=
  .object [("id", .string r.id), ("name", .string r.info.name),
    ("shortDescription", text r.info.description)]

def level : Severity → String
  | .error => "error"
  | .warning => "warning"
  | .info => "note"

def location (p : Path) : Json :=
  .object [("physicalLocation", .object [("artifactLocation", .object [("uri", p.toJson)])])]

def result (f : Finding) : Json :=
  .object [("ruleId", .string f.ruleId), ("level", .string (level f.severity)),
    ("message", text f.message), ("locations", .list location f.file.toList)]

def tool : Json :=
  .object [("driver", .object [("name", .string Finding.toolName), ("version", .string version),
    ("rules", .list rule Rule.catalogue)])]

def ofReport (r : Report) : Json :=
  .object [("$schema", .string "https://json.schemastore.org/sarif-2.1.0.json"),
    ("version", .string "2.1.0"),
    ("runs", .array [.object [("tool", tool), ("results", .list result r.findings)]])]

end WcagAudit.Sarif
