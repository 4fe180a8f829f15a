import WcagAudit.Comment
import WcagAudit.Rule.Check
import WcagAudit.Rule.Vocabulary

namespace WcagAudit.KeyboardAccess

open Pattern

def names : List String := ["button", "a", "input", "select", "textarea", "video"]

def buttonDiv : Pattern :=
  ignoringCase "div" ++ boundary ++ littleOfTag ++ attributeIs "role" ["button"]

def interactive : Pattern := firstOf [anyName names ++ boundary, buttonDiv]

def tag : Pattern := char '<' ++ interactive ++ littleOfTag ++ char '>'

def handler : Pattern :=
  anyName ["tabindex=", "onfocus=", "onclick=", "onkeydown=", "onkeyup="]

def check (t : List Char) : Check := do
  let mut accessible := true
  for m in tag.matchesIn (Comment.remove t) do
    say (.evaluatingAccess m.text)
    if !handler.occursIn m.text then
      say (.notOperable m.text)
      accessible := false
  return accessible

end WcagAudit.KeyboardAccess
