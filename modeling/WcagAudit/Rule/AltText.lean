import WcagAudit.Comment
import WcagAudit.Rule.Check
import WcagAudit.Rule.Vocabulary

namespace WcagAudit.AltText

open Pattern

/-- An `input` counts when it is of the type `image`. -/
def imageInput : Pattern :=
  ignoringCase "input" ++ muchOfTag ++ ignoringCase "type=" ++ optional quote ++
    ignoringCase "image" ++ optional quote

def image : Pattern :=
  firstOf [ignoringCase "img", ignoringCase "image", ignoringCase "area", imageInput,
    ignoringCase "video"]

def tag : Pattern := char '<' ++ image ++ muchOfTag ++ char '>'

def alternative : Pattern := exactly "alt=" ++ optional quote ++ unquoted ++ optional quote

def check (t : List Char) : Check :=
  .each (tag.matchesIn (Comment.remove t)) (fun m => alternative.occursIn m.text) fun m =>
    .missingAlt m.text

end WcagAudit.AltText
