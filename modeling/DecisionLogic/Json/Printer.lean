import DecisionLogic.Json.Basic
import DecisionLogic.Double.Text
import DecisionLogic.Text.Hexadecimal

/-!
# JSON text of a value

The compact form has no blanks; the indented form puts each item and field on a line of its own,
two spaces deeper than its container.  Only quotes, backslashes and control characters are escaped.
-/

namespace DecisionLogic

namespace Json

/-- Doubles are written positionally while the first digit's exponent is between -5 and 15. -/
def doubleLayout : Double.Layout := ⟨-5, 15⟩

end Json

/-- The text of a number: an integer's numeral, or a double's shortest digits. -/
def Number.text : Number → String
  | .integer n => toString n.val
  | .double x => Double.text Json.doubleLayout x.val

namespace Json

def escapedChar (c : Char) : List Char :=
  if c = '"' then ['\\', '"']
  else if c = '\\' then ['\\', '\\']
  else if c = '\n' then ['\\', 'n']
  else if c = '\r' then ['\\', 'r']
  else if c = '\t' then ['\\', 't']
  else if c.toNat = 8 then ['\\', 'b']
  else if c.toNat = 12 then ['\\', 'f']
  else if c.toNat < 32 then '\\' :: 'u' :: Text.hexDigits 4 c.toNat
  else [c]

def stringText (text : String) : String :=
  String.ofList ('"' :: text.toList.flatMap escapedChar ++ ['"'])

mutual

def appendTo (out : String) : Json → String
  | .null => out ++ "null"
  | .bool true => out ++ "true"
  | .bool false => out ++ "false"
  | .number n => out ++ n.text
  | .string text => out ++ stringText text
  | .array [] => out ++ "[]"
  | .array (item :: items) => appendItems (appendTo (out ++ "[") item) items ++ "]"
  | .object [] => out ++ "\x7b\x7d"
  | .object ((name, value) :: rest) =>
      appendFields (appendTo (out ++ "\x7b" ++ stringText name ++ ":") value) rest ++ "\x7d"

def appendItems (out : String) : List Json → String
  | [] => out
  | item :: items => appendItems (appendTo (out ++ ",") item) items

def appendFields (out : String) : List (String × Json) → String
  | [] => out
  | (name, value) :: rest =>
      appendFields (appendTo (out ++ "," ++ stringText name ++ ":") value) rest

end

def compact (value : Json) : String :=
  appendTo "" value

/-- A lead before the first line of a block and an ending behind its last one. -/
def place (lead ending : String) : List String → List String
  | [] => [lead ++ ending]
  | [line] => [lead ++ line ++ ending]
  | line :: rest => (lead ++ line) :: place "" ending rest

/-- Blocks of lines one below the other, each but the last one ending in a comma. -/
def stack : List (List String) → List String
  | [] => []
  | [block] => block
  | block :: blocks => place "" "," block ++ stack blocks

mutual

/-- The lines of the indented form; the first one carries no indentation of its own. -/
def lines (margin : String) : Json → List String
  | .array (item :: items) =>
      "[" :: stack (itemBlocks (margin ++ "  ") (item :: items)) ++ [margin ++ "]"]
  | .object (field :: fields) =>
      "\x7b" :: stack (fieldBlocks (margin ++ "  ") (field :: fields)) ++ [margin ++ "\x7d"]
  | value => [compact value]

def itemBlocks (margin : String) : List Json → List (List String)
  | [] => []
  | item :: items => place margin "" (lines margin item) :: itemBlocks margin items

def fieldBlocks (margin : String) : List (String × Json) → List (List String)
  | [] => []
  | (name, value) :: rest =>
      place (margin ++ stringText name ++ ": ") "" (lines margin value) :: fieldBlocks margin rest

end

def indented (value : Json) : List String :=
  lines "" value

end Json
end DecisionLogic
