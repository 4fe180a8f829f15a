import WcagAudit.Pattern.Search

/-!
Comments in markup: block comments, line comments and markup comments. Markers count wherever they
stand, so the two slashes of an address open a line comment too; a block or markup comment that is
never closed is text.
-/

namespace WcagAudit.Comment

open Pattern

def between (opening closing : String) : Pattern :=
  exactly opening ++ few (fun _ => true) ++ exactly closing

def block : Pattern := between "/*" "*/"

def line : Pattern := exactly "//" ++ many (fun c => c != '\r' && c != '\n')

def markup : Pattern := between "<!--" "-->"

def comment : Pattern := firstOf [block, line, markup]

def remove (t : List Char) : List Char := normalize (comment.eraseIn t)

end WcagAudit.Comment
