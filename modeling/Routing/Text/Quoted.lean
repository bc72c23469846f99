import Routing.Text.Hidden
/-!
# Quoted text

A text in double quotes on one line, as file names are shown in error messages: the double quote and
the backslash are escaped, line breaks and tabs have short escapes, and other characters that do not
show by themselves are written by their code.
-/

namespace Routing.Text

/-- The double quote and the backslash are written with a backslash in front. -/
def takesBackslash (c : Char) : Bool :=
  c = '"' || c = '\\'

def quotedChar (c : Char) : List Char :=
  if takesBackslash c then ['\\', c]
  else if c = '\n' then ['\\', 'n']
  else if c = '\r' then ['\\', 'r']
  else if c = '\t' then ['\\', 't']
  else if c.toNat = 0 then ['\\', '0']
  else if isHidden c then ['\\', 'u', '{'] ++ Nat.toDigits 16 c.toNat ++ ['}']
  else [c]

def quoted (s : String) : String :=
  String.ofList ('"' :: s.toList.flatMap quotedChar ++ ['"'])

end Routing.Text
