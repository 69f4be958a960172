import LiveLayout.Text.Digit
import LiveLayout.Text.Unprintable
/-!
# Quoted text

How a message shows a text it complains about: between quotation marks,
with the marks, backslashes and line breaks of the text escaped, and with
every unprintable character as `\u` and its number in braces.
-/

namespace LiveLayout

namespace Text

/-- One character of a quoted text. -/
def quoteChar (c : Char) : String :=
  if c = '"' then "\\\""
  else if c = '\\' then "\\\\"
  else if c = '\n' then "\\n"
  else if c = '\r' then "\\r"
  else if c = '\t' then "\\t"
  else if c = '\x00' then "\\0"
  else if isUnprintable c then "\\u\x7b" ++ hexadecimal c.toNat ++ "\x7d"
  else c.toString

/-- A text between quotation marks. -/
def quote (s : String) : String :=
  "\"" ++ String.join (s.toList.map quoteChar) ++ "\""

end Text

end LiveLayout
