import WcagAudit.Rule.AltText
import WcagAudit.Rule.Aria
import WcagAudit.Rule.KeyboardAccess
import WcagAudit.Wcag

namespace WcagAudit

inductive Rule where
  | altText
  | aria
  | ariaLabels
  | ariaRequired
  | ariaFocusManagement
  | ariaRoles
  | ariaProperties
  | ariaErrors
  | ariaLandmarks
  | ariaLiveRegions
  | ariaKeyboardNavigation
  | ariaRelationships
  | ariaRoleDuplication
  | keyboardAccess
  deriving DecidableEq, Repr

structure Rule.Info where
  id : String
  name : String
  description : String
  criterion : String
  level : Level
  severity : Severity
  impact : Impact
  failureMessage : String
  category : String

namespace Rule

def catalogue : List Rule :=
  [altText, aria, ariaLabels, ariaRequired, ariaFocusManagement, ariaRoles, ariaProperties,
    ariaErrors, ariaLandmarks, ariaLiveRegions, ariaKeyboardNavigation, ariaRelationships,
    ariaRoleDuplication, keyboardAccess]

def extensions : List String := ["html", "htm", "jsx", "tsx", "svelte", "vue"]

def info : Rule → Info
  | altText =>
    { id := "WCAG-1.1.1-alt-text"
      name := "Non-text Content: Missing Alt"
      description := "Checks <img>, <Image>, <area>, <input type=image> and <video> for an alt attribute (WCAG 1.1.1)"
      criterion := "1.1.1"
      level := .a
      severity := .error
      impact := .onBlind
      failureMessage := "An element that requires a text alternative is missing its alt attribute."
      category := "accessibility/markup" }
  | aria =>
    { id := "WCAG-4.1.2-aria"
      name := "Name, Role, Value: ARIA"
      description := "Labels, required fields, roles, properties, error identification and landmarks together"
      criterion := "4.1.2"
      level := .a
      severity := .error
      impact := .onBlind
      failureMessage := "ARIA usage failed one or more of the labeling, required, roles, properties, error and landmark checks."
      category := "accessibility/aria" }
  | ariaLabels =>
    { id := "WCAG-4.1.2-aria-labels"
      name := "Name, Role, Value: ARIA Labels"
      description := "Interactive elements carry aria-label, aria-labelledby or aria-describedby"
      criterion := "4.1.2"
      level := .a
      severity := .error
      impact := .onBlind
      failureMessage := "Interactive element has no aria-label, aria-labelledby or aria-describedby."
      category := "accessibility/aria" }
  | ariaRequired =>
    { id := "WCAG-3.3.2-aria-required"
      name := "Labels or Instructions: ARIA Required"
      description := "Required inputs carry aria-required=\"true\""
      criterion := "3.3.2"
      level := .a
      severity := .error
      impact := .onBlind
      failureMessage := "Required input is missing aria-required=\"true\"."
      category := "accessibility/aria" }
  | ariaFocusManagement =>
    { id := "WCAG-2.4.3-aria-focus-management"
      name := "Focus Order: ARIA Focus Management"
      description := "Focusable elements are not marked aria-hidden=\"true\" or tabindex=\"-1\""
      criterion := "2.4.3"
      level := .a
      severity := .warning
      impact := .onBlindAndMotor
      failureMessage := "Focusable element is marked aria-hidden=\"true\" or tabindex=\"-1\"."
      category := "accessibility/aria" }
  | ariaRoles =>
    { id := "WCAG-4.1.2-aria-roles"
      name := "Name, Role, Value: ARIA Roles"
      description := "Role values come from the accepted role list"
      criterion := "4.1.2"
      level := .a
      severity := .error
      impact := .onBlind
      failureMessage := "Element uses a role outside the accepted role list."
      category := "accessibility/aria" }
  | ariaProperties =>
    { id := "WCAG-4.1.2-aria-properties"
      name := "Name, Role, Value: ARIA Properties"
      description := "aria-* attributes carry a value"
      criterion := "4.1.2"
      level := .a
      severity := .warning
      impact := .onBlind
      failureMessage := "ARIA attribute has no value."
      category := "accessibility/aria" }
  | ariaErrors =>
    { id := "WCAG-3.3.1-aria-errors"
      name := "Error Identification: ARIA Errors"
      description := "The document identifies errors with aria-invalid or role=\"alert\""
      criterion := "3.3.1"
      level := .a
      severity := .warning
      impact := .onCognitive
      failureMessage := "Document does not identify errors with aria-invalid=\"true\" or role=\"alert\"."
      category := "accessibility/aria" }
  | ariaLandmarks =>
    { id := "WCAG-1.3.1-aria-landmarks"
      name := "Info and Relationships: ARIA Landmarks"
      description := "Role values are landmark roles"
      criterion := "1.3.1"
      level := .a
      severity := .warning
      impact := .onBlind
      failureMessage := "Element uses a role that is not a landmark role."
      category := "accessibility/aria" }
  | ariaLiveRegions =>
    { id := "WCAG-4.1.3-aria-live-regions"
      name := "Status Messages: ARIA Live Regions"
      description := "The document has a polite or assertive aria-live region"
      criterion := "4.1.3"
      level := .aa
      severity := .info
      impact := .onBlind
      failureMessage := "Document has no aria-live=\"polite\" or aria-live=\"assertive\" region."
      category := "accessibility/aria" }
  | ariaKeyboardNavigation =>
    { id := "WCAG-2.1.1-aria-keyboard-navigation"
      name := "Keyboard: ARIA Keyboard Navigation"
      description := "Focusable elements carry a non-negative numeric tabindex"
      criterion := "2.1.1"
      level := .a
      severity := .warning
      impact := .onMotor
      failureMessage := "Focusable element is missing a non-negative tabindex."
      category := "accessibility/aria" }
  | ariaRelationships =>
    { id := "WCAG-1.3.1-aria-relationships"
      name := "Info and Relationships: ARIA Relationships"
      description := "aria-owns, aria-controls and aria-activedescendant reference existing ids"
      criterion := "1.3.1"
      level := .a
      severity := .error
      impact := .onBlind
      failureMessage := "ARIA relationship references an id that does not exist in the document."
      category := "accessibility/aria" }
  | ariaRoleDuplication =>
    { id := "WCAG-4.1.2-aria-role-duplication"
      name := "Name, Role, Value: Conflicting Roles"
      description := "The document does not mix conflicting roles such as button and link"
      criterion := "4.1.2"
      level := .a
      severity := .error
      impact := .onBlind
      failureMessage := "Document mixes conflicting roles (button/link or heading/banner)."
      category := "accessibility/aria" }
  | keyboardAccess =>
    { id := "WCAG-2.1.1-keyboard-access"
      name := "Keyboard: Interactive Element Access"
      description := "Interactive elements need a tabindex or a focus, click or key handler (WCAG 2.1.1)"
      criterion := "2.1.1"
      level := .a
      severity := .error
      impact := .onMotor
      failureMessage := "Interactive element has neither a tabindex nor a focus, click or key handler."
      category := "accessibility/keyboard" }

def id (r : Rule) : String := r.info.id

def check (t : List Char) : Rule → Check
  | altText => AltText.check t
  | aria => Aria.aggregate t
  | ariaLabels => Aria.labels t
  | ariaRequired => Aria.required t
  | ariaFocusManagement => Aria.focusManagement t
  | ariaRoles => Aria.roles t
  | ariaProperties => Aria.properties t
  | ariaErrors => Aria.errorIdentification t
  | ariaLandmarks => Aria.landmarks t
  | ariaLiveRegions => Aria.liveRegions t
  | ariaKeyboardNavigation => Aria.keyboardNavigation t
  | ariaRelationships => Aria.relationships t
  | ariaRoleDuplication => Aria.roleDuplication t
  | keyboardAccess => KeyboardAccess.check t

def outcome (r : Rule) (t : List Char) : Bool × List Event := Id.run ((r.check t).run [])

def passes (r : Rule) (t : List Char) : Bool := (r.outcome t).1

def events (r : Rule) (t : List Char) : List Event := (r.outcome t).2

def inLevel (r : Rule) (level : Level) : Bool := r.info.level ≤ level

end Rule
end WcagAudit
