import WcagAudit.Config.Basic
import WcagAudit.Toml.Parser

namespace WcagAudit

namespace Toml

/-- The named settings of a table, or of an array by position. A date has none of them. -/
def settings? (names : List String) : Toml → Option (List (Option Toml))
  | .table _ entries => some (names.map fun name => entries.lookup name)
  | .array items => some (byPosition items)
  | .tables items => some (byPosition (items.map (.table .header)))
  | .moment => some (names.map fun _ => none)
  | _ => none
where
  byPosition (items : List Toml) : List (Option Toml) :=
    (items.take names.length).map some ++ List.replicate (names.length - items.length) none

def text? : Toml → Option String
  | .string s => some s
  | _ => none

def texts? : Toml → Option (List String)
  | .array items => items.mapM text?
  | _ => none

def isEmpty : Toml → Bool
  | .array items => items.isEmpty
  | .table _ entries => entries.isEmpty
  | _ => false

def case? : Toml → Option String
  | .string s => some s
  | .table _ [(s, x)] => if x.isEmpty then some s else none
  | _ => none

end Toml

namespace Selection

def ofToml? (t : Toml) : Option Selection := do
  let [extensions, exclude] ← t.settings? ["extensions", "exclude"] | none
  let default : Selection := {}
  return {
    extensions := ← setting? default.extensions Toml.texts? extensions
    exclude := ← setting? default.exclude Toml.texts? exclude }

end Selection

namespace Log

def ofToml? (t : Toml) : Option Log := do
  let [level, format] ← t.settings? ["level", "format"] | none
  let default : Log := {}
  return {
    level := ← setting? default.level Toml.text? level
    format := ← setting? default.format (fun t => t.case?.bind LogFormat.ofName?) format }

end Log

namespace Config

def ofEntries? (root : Toml.Entries) : Option Config := do
  return {
    level := ← setting? default.level (fun t => t.case?.bind Level.ofName?) (root.lookup "level")
    scan := ← setting? default.scan Selection.ofToml? (root.lookup "scan")
    log := ← setting? default.log Log.ofToml? (root.lookup "log") }

def ofTomlText? (t : List Char) : Option Config := (Toml.parse? t).bind ofEntries?

def tomlEscape (c : Char) : List Char := if c = '\x7f' then "\\u007f".toList else Json.escape c

def tomlString (s : String) : String :=
  String.ofList ('"' :: s.toList.flatMap tomlEscape ++ ['"'])

def tomlArray (items : List String) : List String :=
  match items with
  | [] => ["[]"]
  | items => "[" :: items.map (fun s => "    " ++ tomlString s ++ ",") ++ ["]"]

def tomlSetting (key : String) : List String → List String
  | [] => []
  | first :: rest => (key ++ " = " ++ first) :: rest

def tomlLines (c : Config) : List String :=
  tomlSetting "level" [tomlString c.level.name] ++ ["", "[scan]"] ++
    tomlSetting "extensions" (tomlArray c.scan.extensions) ++
    tomlSetting "exclude" (tomlArray c.scan.exclude) ++ ["", "[log]"] ++
    tomlSetting "level" [tomlString c.log.level] ++
    tomlSetting "format" [tomlString c.log.format.name]

def toToml (c : Config) : String := String.join (c.tomlLines.map (· ++ "\n"))

end Config
end WcagAudit
