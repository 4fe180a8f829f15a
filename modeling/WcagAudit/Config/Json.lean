import WcagAudit.Config.Basic
import WcagAudit.Report.Json

namespace WcagAudit

def Json.settings? (names : List String) : Json → Option (List (Option Json))
  | .object members => some (names.map (Json.object members).last?)
  | .array items =>
    if items.length ≤ names.length then
      some (items.map some ++ List.replicate (names.length - items.length) none)
    else none
  | _ => none

namespace Selection

def toJson (s : Selection) : Json :=
  .object [("extensions", .list .string s.extensions), ("exclude", .list .string s.exclude)]

def ofJson? (j : Json) : Option Selection := do
  let [extensions, exclude] ← j.settings? ["extensions", "exclude"] | none
  let default : Selection := {}
  return {
    extensions := ← setting? default.extensions (Json.list? Json.string?) extensions
    exclude := ← setting? default.exclude (Json.list? Json.string?) exclude }

end Selection

namespace Log

def toJson (l : Log) : Json :=
  .object [("level", .string l.level), ("format", .string l.format.name)]

def ofJson? (j : Json) : Option Log := do
  let [level, format] ← j.settings? ["level", "format"] | none
  let default : Log := {}
  return {
    level := ← setting? default.level Json.string? level
    format := ← setting? default.format (fun j => j.case?.bind LogFormat.ofName?) format }

end Log

namespace Config

def toJson (c : Config) : Json :=
  .object [("level", c.level.toJson), ("scan", c.scan.toJson), ("log", c.log.toJson)]

def ofJson? (j : Json) : Option Config := do
  let [level, scan, log] ← j.settings? ["level", "scan", "log"] | none
  return {
    level := ← setting? default.level Level.ofJson? level
    scan := ← setting? default.scan Selection.ofJson? scan
    log := ← setting? default.log Log.ofJson? log }

end Config
end WcagAudit
