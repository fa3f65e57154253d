import DecisionLogic.Text.Hidden

/-!
# Quoted text

Text between double quotes, in which a quote, a backslash and the common control characters have a
short escape and every other hidden character is written by its number in braces.
-/

namespace DecisionLogic.Text

/-- The digits of `n` in base sixteen, in lower case, without leading zeros. -/
def hexadecimal (n : Nat) : String :=
  String.ofList (Nat.toDigits 16 n)

def escaped (c : Char) : String :=
  if c = '"' then "\\\""
  else if c = '\\' then "\\\\"
  else if c = '\n' then "\\n"
  else if c = '\r' then "\\r"
  else if c = '\t' then "\\t"
  else if c.toNat = 0 then "\\0"
  else if isHidden c then "\\u\x7b" ++ hexadecimal c.toNat ++ "\x7d"
  else c.toString

def quoted (text : String) : String :=
  "\"" ++ String.join (text.toList.map escaped) ++ "\""

end DecisionLogic.Text
