namespace WcagAudit

inductive Event where
  | missingAlt (tag : List Char)
  | missingLabel (element : List Char)
  | missingRequiredMark (element : List Char)
  | hiddenFromFocus (element : List Char)
  | invalidRole (role : List Char)
  | noErrorIdentification
  | notLandmark (role : List Char)
  | noLiveRegion
  | missingTabindex (element : List Char)
  | danglingReference (name target : List Char)
  | conflictingRoles (role conflicting : List Char)
  | evaluatingAccess (tag : List Char)
  | notOperable (tag : List Char)
  deriving DecidableEq

namespace Event

def isWarning : Event → Bool
  | notOperable _ => true
  | _ => false

def message : Event → String
  | missingAlt _ => "missing alt attribute"
  | missingLabel _ => "missing aria-label, aria-labelledby or aria-describedby"
  | missingRequiredMark _ => "required input without aria-required"
  | hiddenFromFocus _ => "element hidden from focus order"
  | invalidRole _ => "invalid ARIA role"
  | noErrorIdentification => "missing aria-invalid or role=alert for error identification"
  | notLandmark _ => "role is not a landmark"
  | noLiveRegion => "missing aria-live region"
  | missingTabindex _ => "missing non-negative tabindex"
  | danglingReference .. => "relationship references a missing id"
  | conflictingRoles .. => "conflicting roles in document"
  | evaluatingAccess _ => "evaluating keyboard access"
  | notOperable _ => "element is not keyboard accessible"

def fields : Event → List (String × List Char)
  | missingAlt tag | evaluatingAccess tag | notOperable tag => [("tag", tag)]
  | missingLabel element | missingRequiredMark element | hiddenFromFocus element
  | missingTabindex element => [("element", element)]
  | invalidRole role | notLandmark role => [("role", role)]
  | danglingReference name target => [("attribute", name), ("target", target)]
  | conflictingRoles role conflicting => [("role", role), ("conflicting", conflicting)]
  | noErrorIdentification | noLiveRegion => []

end Event

abbrev Check := StateM (List Event) Bool

def say (e : Event) : StateM (List Event) Unit := modify (· ++ [e])

namespace Check

def each (found : List α) (inOrder : α → Bool) (fault : α → Event) : Check := do
  let mut valid := true
  for a in found do
    if !inOrder a then
      say (fault a)
      valid := false
  return valid

def once (found : Bool) (fault : Event) : Check := do
  if !found then say fault
  return found

end Check
end WcagAudit
