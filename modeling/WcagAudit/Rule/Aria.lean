import WcagAudit.Rule.Check
import WcagAudit.Rule.Vocabulary

namespace WcagAudit.Aria

open Pattern

def validRoles : List String :=
  ["button", "heading", "alert", "log", "region", "status", "img"]

def landmarkRoles : List String :=
  ["banner", "navigation", "main", "complementary", "contentinfo", "region"]

def conflictingRoles : List (String × String) := [("button", "link"), ("heading", "banner")]

def relationshipAttributes : List String :=
  ["aria-owns", "aria-controls", "aria-activedescendant"]

def labelledTag : Pattern := tagNamed ["button", "input", "select", "a", "img", "iframe"]

def labelAttribute : Pattern :=
  boundary ++ anyName ["aria-label", "aria-labelledby", "aria-describedby"] ++ char '=' ++ quote ++
    someUnquoted ++ quote

def labels (t : List Char) : Check :=
  .each (labelledTag.matchesIn t) (fun m => labelAttribute.occursIn (m.part 0)) fun m =>
    .missingLabel m.text

def requiredInput : Pattern :=
  char '<' ++ ignoringCase "input" ++ boundary ++ muchOfTag ++ ignoringCase "required" ++ boundary ++
    muchOfTag ++ char '>'

def requiredMark : Pattern := boundary ++ attributeIs "aria-required" ["true"]

def required (t : List Char) : Check :=
  .each (requiredInput.matchesIn t) (fun m => requiredMark.occursIn m.text) fun m =>
    .missingRequiredMark m.text

def focusTag : Pattern := tagNamed ["input", "button", "select", "textarea", "a", "div", "span"]

def hidden : Pattern := boundary ++ attributeIs "aria-hidden" ["true"]

def negativeTabindex : Pattern := boundary ++ attributeIs "tabindex" ["-1"]

def focusManagement (t : List Char) : Check :=
  .each (focusTag.matchesIn t)
    (fun m => !(hidden.occursIn (m.part 0) || negativeTabindex.occursIn (m.part 0))) fun m =>
    .hiddenFromFocus m.text

/-- A role runs from behind its quote, if it has one, to the next quote. -/
def roleAttribute : Pattern :=
  ignoringCase "role=" ++ optional quote ++ part unquoted ++ optional quote

def roleValues (t : List Char) : List (List Char) :=
  (roleAttribute.matchesIn t).map fun m => trim (m.part 0)

def rolesAmong (allowed : List String) (fault : List Char → Event) (t : List Char) : Check :=
  .each (roleValues t) (fun role => allowed.any (·.toList == role)) fault

def roles : List Char → Check := rolesAmong validRoles .invalidRole

def landmarks : List Char → Check := rolesAmong landmarkRoles .notLandmark

def property : Pattern :=
  boundary ++ part (ignoringCase "aria-" ++ someLetters) ++ char '=' ++ quote ++
    part someUnquoted ++ quote
where
  isLetter (c : Char) : Bool := (foldLetter c).isLower
  someLetters : Pattern := one isLetter ++ many isLetter

/-- No property without a value is ever seen, so this passes every document. -/
def properties (t : List Char) : Check :=
  return (property.matchesIn t).all fun m => !(m.part 1).isEmpty

def invalidMark : Pattern :=
  ignoringCase "aria-invalid=" ++ optional quote ++ ignoringCase "true" ++ optional quote

def alertRole : Pattern := attributeIs "role" ["alert"]

def errorIdentification (t : List Char) : Check :=
  .once (invalidMark.occursIn t || alertRole.occursIn t) .noErrorIdentification

def liveRegion : Pattern := boundary ++ attributeIs "aria-live" ["polite", "assertive"]

def liveRegions (t : List Char) : Check := .once (liveRegion.occursIn t) .noLiveRegion

def keyboardTag : Pattern := tagNamed ["button", "a", "input", "select", "textarea"]

def numericTabindex : Pattern :=
  boundary ++ ignoringCase "tabindex=" ++ quote ++ digit ++ many Char.isDigit ++ quote

def keyboardNavigation (t : List Char) : Check :=
  .each (keyboardTag.matchesIn t) (fun m => numericTabindex.occursIn (m.part 0)) fun m =>
    .missingTabindex m.text

def reference : Pattern :=
  boundary ++ part (anyName relationshipAttributes) ++ char '=' ++ quote ++ part someUnquoted ++ quote

def idAttribute : Pattern := exactly "id=" ++ quote ++ part unquoted ++ quote

def relationships (t : List Char) : Check :=
  let ids := (idAttribute.matchesIn t).map (·.part 0)
  .each (reference.matchesIn t) (fun m => ids.contains (m.part 1)) fun m =>
    .danglingReference (m.part 0) (m.part 1)

def quotedRole : Pattern := exactly "role=" ++ quote ++ part unquoted ++ quote

/-- A role conflicts when its counterpart stands in quotes anywhere in the document. -/
def roleDuplication (t : List Char) : Check := do
  let quoted := (quotedRole.matchesIn t).map (·.part 0)
  let mut valid := true
  for role in roleValues t do
    for (primary, conflicting) in conflictingRoles do
      if role == primary.toList && quoted.contains conflicting.toList then
        say (.conflictingRoles role conflicting.toList)
        valid := false
  return valid

/-- Six of the checks, of which the later ones are made only if the earlier ones pass. -/
def aggregate (t : List Char) : Check :=
  labels t <&&> required t <&&> roles t <&&> properties t <&&> errorIdentification t <&&> landmarks t

end WcagAudit.Aria
