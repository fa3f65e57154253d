import DecisionLogic.Double.Decimal
import DecisionLogic.Options.Setting
import DecisionLogic.Text.Hexadecimal

/-!
# Words of RON

What a value of the notation is made of: blanks and comments, texts, names and numbers.  A reader
gives what it read and what follows.
-/

namespace DecisionLogic.Ron

/-! ## Blanks and comments -/

def isBlank (c : Char) : Bool :=
  c = ' ' || c = '\n' || c = '\t' || c = '\r'

/-- A comment that may be open: none, one up to the end of the line, or a block that is `depth + 1`
comments deep. -/
inductive Comment where
  | none
  | line
  | block (depth : Nat)

/-- What follows blanks and comments, from within a comment.  A block has to end, and a slash has to
start a comment. -/
def skipFrom? : Comment → List Char → Option (List Char)
  | .none, [] => some []
  | .none, '/' :: '/' :: rest => skipFrom? .line rest
  | .none, '/' :: '*' :: rest => skipFrom? (.block 0) rest
  | .none, '/' :: _ => none
  | .none, c :: rest => if isBlank c then skipFrom? .none rest else some (c :: rest)
  | .line, [] => some []
  | .line, c :: rest => if c = '\n' then skipFrom? .none rest else skipFrom? .line rest
  | .block _, [] => none
  | .block 0, '*' :: '/' :: rest => skipFrom? .none rest
  | .block (depth + 1), '*' :: '/' :: rest => skipFrom? (.block depth) rest
  | .block depth, '/' :: '*' :: rest => skipFrom? (.block (depth + 1)) rest
  | .block depth, _ :: rest => skipFrom? (.block depth) rest

def skipBlank? : List Char → Option (List Char) :=
  skipFrom? .none

/-- Whether a comma stands behind blanks, and what follows it and the blanks around it. -/
def readComma? (cs : List Char) : Option (Bool × List Char) := do
  match ← skipBlank? cs with
  | ',' :: rest => return (true, ← skipBlank? rest)
  | rest => return (false, rest)

/-! ## Text -/

/-- The character of an escape behind its backslash, and what follows. -/
def escape? : List Char → Option (Char × List Char)
  | '"' :: rest => some ('"', rest)
  | '\'' :: rest => some ('\'', rest)
  | '\\' :: rest => some ('\\', rest)
  | 'n' :: rest => some ('\n', rest)
  | 'r' :: rest => some ('\r', rest)
  | 't' :: rest => some ('\t', rest)
  | '0' :: rest => some (Char.ofNat 0, rest)
  | 'x' :: a :: b :: rest => (Text.hexNumber? [a, b]).map fun n => (Char.ofNat n, rest)
  | 'u' :: '\x7b' :: rest =>
      let (digits, rest) := rest.span fun c => c ≠ '\x7d'
      if digits.isEmpty ∨ 6 < digits.length then none
      else
        ((Text.hexNumber? digits).bind Text.charAt?).map fun c => (c, rest.drop 1)
  | _ => none

def readText? : Nat → List Char → List Char → Option (String × List Char)
  | 0, _, _ => none
  | _ + 1, _, [] => none
  | _ + 1, before, '"' :: rest => some (String.ofList before.reverse, rest)
  | fuel + 1, before, '\\' :: rest =>
      match escape? rest with
      | some (c, rest) => readText? fuel (c :: before) rest
      | none => none
  | fuel + 1, before, c :: rest => readText? fuel (c :: before) rest

/-- A text without escapes, up to a quote with as many hashes as lead it. -/
def readRaw? (hashes : List Char) (before : List Char) : List Char → Option (String × List Char)
  | [] => none
  | c :: rest =>
      if c = '"' ∧ hashes.isPrefixOf rest then
        some (String.ofList before.reverse, rest.drop hashes.length)
      else readRaw? hashes (c :: before) rest

/-- The character between single quotes, which is itself a quote only if it is escaped. -/
def readChar? : List Char → Option (String × List Char)
  | '\\' :: rest =>
      match escape? rest with
      | some (c, '\'' :: rest) => some (c.toString, rest)
      | _ => none
  | c :: '\'' :: rest => if c = '\'' then none else some (c.toString, rest)
  | _ => none

/-! ## Names -/

def isNameStart (c : Char) : Bool :=
  c.isAlpha || c = '_'

def isNameChar (c : Char) : Bool :=
  c.isAlphanum || c = '_'

def isRawNameChar (c : Char) : Bool :=
  isNameChar c || c = '.' || c = '+' || c = '-'

/-- A name.  Points and signs may stand in it only behind `r#`, and `r` with a quote is none, since
it leads a text. -/
def readName? : List Char → Option (String × List Char)
  | 'r' :: '#' :: rest =>
      let (name, rest) := rest.span isRawNameChar
      if name.isEmpty then none else some (String.ofList name, rest)
  | 'r' :: '"' :: _ => none
  | ['r'] => none
  | [] => none
  | c :: rest =>
      let (name, rest) := rest.span isNameChar
      if isNameStart c && !rest.head?.any isRawNameChar then
        some (String.ofList (c :: name), rest)
      else none

def afterWord? (word : String) (cs : List Char) : Option (List Char) :=
  let (name, rest) := cs.span isNameChar
  if String.ofList name = word then some rest else none

/-! ## Numbers -/

def isSign (c : Char) : Bool :=
  c = '+' || c = '-'

def isWholeChar (c : Char) : Bool :=
  (Text.hexValue? c).isSome || c = '_'

def isRealChar (c : Char) : Bool :=
  c.isDigit || c = '.' || c = 'e' || c = 'E' || c = '_' || isSign c

def greatestWhole : Nat :=
  0xffffffffffffffff

/-- A whole number, with underscores behind its first digit.  Without a sign it has up to 64 bits,
with a sign up to 63. -/
def readWhole? (cs : List Char) : Option (Int × List Char) :=
  let signed := cs.head?.any isSign
  let magnitude := if signed then cs.drop 1 else cs
  let (base, word) :=
    match magnitude with
    | '0' :: 'x' :: rest => (16, rest)
    | '0' :: 'o' :: rest => (8, rest)
    | '0' :: 'b' :: rest => (2, rest)
    | _ => (10, magnitude)
  let (digits, rest) := word.span isWholeChar
  if digits.head? = some '_' then none
  else
    match Text.baseNumber? base (digits.filter fun c => c ≠ '_') with
    | none => none
    | some n =>
        let value : Int := if cs.head? = some '-' then -n else n
        if signed then if Text.isInteger64 value then some (value, rest) else none
        else if n ≤ greatestWhole then some (value, rest)
        else none

def readRealName? (cs : List Char) : Option (Float × List Char) :=
  let signed := cs.head?.any isSign
  let name := if signed then cs.drop 1 else cs
  match afterWord? "inf" name with
  | some rest => some (if cs.head? = some '-' then -(1 / 0) else 1 / 0, rest)
  | none => (afterWord? "NaN" name).map fun rest => (0 / 0, rest)

def readReal? (cs : List Char) : Option (Float × List Char) :=
  match readRealName? cs with
  | some found => some found
  | none =>
      let (word, rest) := cs.span isRealChar
      (Double.read? word).map fun x => (x, rest)

def startsReal (cs : List Char) : Bool :=
  let magnitude := if cs.head?.any isSign then cs.drop 1 else cs
  (magnitude.takeWhile isWholeChar).length < (magnitude.takeWhile isRealChar).length

/-- A number.  What is no whole number of 64 bits is a real, if it is a number at all. -/
def readNumber? (cs : List Char) : Option (Setting × List Char) :=
  match if startsReal cs then none else readWhole? cs with
  | some (n, rest) =>
      some (if Text.isInteger64 n then .integer n else .real (Float.ofInt n), rest)
  | none => (readReal? cs).map fun (x, rest) => (.real x, rest)

end DecisionLogic.Ron
