import WcagAudit.Report.Basic
import WcagAudit.Rule.Catalogue

namespace WcagAudit

namespace Rule

def verdict (r : Rule) (file : Option Path) (passed : Bool) : Verdict where
  ruleId := r.id
  ruleName := r.info.name
  file := file
  passed := passed
  criterion := r.info.criterion
  level := r.info.level

def finding (r : Rule) (file : Option Path) : Finding :=
  (Finding.new r.id r.info.severity r.info.failureMessage).editAll
    [.wcag r.info.criterion r.info.level, .category r.info.category, .ruleName r.info.name,
      .file file, .impact r.info.impact]

def evaluate (r : Rule) (file : Option Path) (markup : List Char) : Verdict × Option Finding :=
  let passed := r.passes markup
  (r.verdict file passed, if passed then none else some (r.finding file))

/-- A file with an extension has to be a markup file. An extension that is no text counts as absent. -/
def takes (file : Option Path) : Bool :=
  match (file.bind Path.extension?).bind Utf8.decode? with
  | some extension => extensions.any fun e => sameAscii e.toList extension
  | none => true

def applies (r : Rule) (file : Option Path) (level : Level) : Bool := r.inLevel level && takes file

end Rule

def scanMarkup (file : Option Path) (markup : List Char) (level : Level) : Report :=
  let outcomes := (Rule.catalogue.filter (·.applies file level)).map (·.evaluate file markup)
  { filesScanned := 1, verdicts := outcomes.map (·.1), findings := outcomes.filterMap (·.2) }

end WcagAudit
