import WcagAudit.Path
import WcagAudit.Time.Instant
import WcagAudit.Uuid
import WcagAudit.Wcag

namespace WcagAudit

structure Verdict where
  ruleId : String
  ruleName : String
  file : Option Path
  passed : Bool
  criterion : String
  level : Level
  deriving DecidableEq

structure Stamp where
  id : Uuid
  createdAt : Instant
  deriving DecidableEq

def Stamp.unset : Stamp := ⟨.unset, .epoch⟩

structure Finding where
  stamp : Stamp
  source : String
  ruleId : String
  ruleName : String
  severity : Severity
  message : String
  category : String
  file : Option Path
  criterion : Option String
  level : Option Level
  impact : Option Impact
  deriving DecidableEq

def Path.location (file : Option Path) : String := file.elim "<input>" Path.display

namespace Finding

def toolName : String := "a11ylint"

def new (ruleId : String) (severity : Severity) (message : String) : Finding where
  stamp := .unset
  source := toolName
  ruleId := ruleId
  ruleName := ruleId
  severity := severity
  message := message
  category := ""
  file := none
  criterion := none
  level := none
  impact := none

def levelCategory : Level → String
  | .a => "accessibility/wcag-a"
  | .aa => "accessibility/wcag-aa"
  | .aaa => "accessibility/wcag-aaa"

/-- One change to a finding. A criterion brings the category of its level with it. -/
inductive Edit where
  | wcag (criterion : String) (level : Level)
  | category (category : String)
  | ruleName (name : String)
  | file (file : Option Path)
  | impact (impact : Impact)

def edit (f : Finding) : Edit → Finding
  | .wcag criterion level =>
    { f with criterion := some criterion, level := some level, category := levelCategory level }
  | .category category => { f with category }
  | .ruleName ruleName => { f with ruleName }
  | .file file => { f with file }
  | .impact impact => { f with impact := some impact }

def editAll (f : Finding) (edits : List Edit) : Finding := edits.foldl edit f

def location (f : Finding) : String := Path.location f.file

end Finding
end WcagAudit
