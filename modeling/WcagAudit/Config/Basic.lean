import WcagAudit.Path
import WcagAudit.Rule.Catalogue
import WcagAudit.Text.LetterCase

namespace WcagAudit

structure Selection where
  /-- Without the leading dot. -/
  extensions : List String := Rule.extensions
  exclude : List String :=
    ["node_modules", ".git", "target", "dist", "build", "_build", "vendor", ".next", ".nuxt",
      "coverage"]
  deriving DecidableEq

namespace Selection

def includesExtension (s : Selection) (extension : List Char) : Bool :=
  s.extensions.any fun e => sameAscii e.toList extension

def excludesDirectory (s : Selection) (name : List Char) : Bool :=
  s.exclude.any fun e => e.toList == name

end Selection

inductive LogFormat where
  | pretty
  | compact
  | json
  deriving DecidableEq, Repr

namespace LogFormat

def all : List LogFormat := [pretty, compact, json]

def name : LogFormat → String
  | pretty => "pretty"
  | compact => "compact"
  | json => "json"

def ofName? (s : String) : Option LogFormat := all.find? (·.name == s)

end LogFormat

structure Log where
  level : String := "warn"
  format : LogFormat := .pretty
  deriving DecidableEq

structure Config where
  level : Level := .aa
  scan : Selection := {}
  log : Log := {}
  deriving DecidableEq

namespace Config

def default : Config := {}

def defaultPath : Path := .ofString "a11ylint.toml"

end Config

def setting? (default : α) (read : β → Option α) : Option β → Option α
  | none => some default
  | some x => read x

end WcagAudit
