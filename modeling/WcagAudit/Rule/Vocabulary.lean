import WcagAudit.Pattern.Search

namespace WcagAudit.Pattern

def isQuote (c : Char) : Bool := c == '"' || c == '\x27'

def quote : Pattern := one isQuote

def unquoted : Pattern := many (!isQuote ·)

def someUnquoted : Pattern := one (!isQuote ·) ++ unquoted

def muchOfTag : Pattern := many (· != '>')

def littleOfTag : Pattern := few (· != '>')

def tagNamed (names : List String) : Pattern :=
  char '<' ++ anyName names ++ boundary ++ part muchOfTag ++ char '>'

def attributeIs (name : String) (values : List String) : Pattern :=
  ignoringCase name ++ char '=' ++ quote ++ anyName values ++ quote

end WcagAudit.Pattern
