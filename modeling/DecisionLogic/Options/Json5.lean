import DecisionLogic.Double.Decimal
import DecisionLogic.Json.Fields
import DecisionLogic.Options.Setting
import DecisionLogic.Text.Blank
import DecisionLogic.Text.Hexadecimal
import DecisionLogic.Text.Hidden

/-!
# JSON5

Reading JSON with comments, bare keys, text in single quotes, commas behind the last item, and more
forms of numbers.
-/

namespace DecisionLogic.Json5

/-! ## Blanks and comments -/

def isLineEnd (c : Char) : Bool :=
  c = '\n' || c = '\r' || c.toNat = 0x2028 || c.toNat = 0x2029

def isBlank (c : Char) : Bool :=
  (Text.isBlank c && c.toNat ≠ 0x85) || c.toNat = 0xfeff

inductive Comment where
  | none
  | line
  | block

/-- What follows blanks and comments, from within a comment.  A block has to end. -/
def skipFrom? : Comment → List Char → Option (List Char)
  | .block, [] => none
  | _, [] => some []
  | .none, '/' :: '/' :: rest => skipFrom? .line rest
  | .none, '/' :: '*' :: rest => skipFrom? .block rest
  | .none, c :: rest => if isBlank c then skipFrom? .none rest else some (c :: rest)
  | .line, c :: rest => if isLineEnd c then skipFrom? .none rest else skipFrom? .line rest
  | .block, '*' :: '/' :: rest => skipFrom? .none rest
  | .block, _ :: rest => skipFrom? .block rest

def skipBlank? : List Char → Option (List Char) :=
  skipFrom? .none

/-! ## Text -/

def escape (c : Char) : Char :=
  match c with
  | 'b' => Char.ofNat 8
  | 'f' => Char.ofNat 12
  | 'n' => '\n'
  | 'r' => '\r'
  | 't' => '\t'
  | 'v' => Char.ofNat 11
  | c => c

/-- The character of a unit of 16 bits behind `\u`, and what follows it.  A unit of the upper half
of a surrogate pair is followed by one of the lower half. -/
def readUnit? : List Char → Option (Char × List Char)
  | a :: b :: c :: d :: rest =>
      match Text.hexNumber? [a, b, c, d] with
      | none => none
      | some unit =>
          if unit < 0xd800 ∨ 0xdfff < unit then some (Char.ofNat unit, rest)
          else if 0xdc00 ≤ unit then none
          else
            match rest with
            | '\\' :: 'u' :: a :: b :: c :: d :: rest =>
                match Text.hexNumber? [a, b, c, d] with
                | none => none
                | some low =>
                    if 0xdc00 ≤ low ∧ low < 0xe000 then
                      some (Char.ofNat (0x10000 + (unit - 0xd800) * 0x400 + (low - 0xdc00)), rest)
                    else none
            | _ => none
  | _ => none

def readText? (quote : Char) : Nat → List Char → List Char → Option (String × List Char)
  | 0, _, _ => none
  | _ + 1, _, [] => none
  | fuel + 1, before, '\\' :: rest =>
      match rest with
      | 'u' :: rest =>
          match readUnit? rest with
          | some (c, rest) => readText? quote fuel (c :: before) rest
          | none => none
      | 'x' :: a :: b :: rest =>
          match Text.hexNumber? [a, b] with
          | some n => readText? quote fuel (Char.ofNat n :: before) rest
          | none => none
      | '0' :: rest => readText? quote fuel (Char.ofNat 0 :: before) rest
      | '\r' :: '\n' :: rest => readText? quote fuel before rest
      | c :: rest =>
          if isLineEnd c then readText? quote fuel before rest
          else if c = 'x' ∨ c.isDigit then none
          else readText? quote fuel (escape c :: before) rest
      | [] => none
  | fuel + 1, before, c :: rest =>
      if c = quote then some (String.ofList before.reverse, rest)
      else if isLineEnd c then none
      else readText? quote fuel (c :: before) rest

/-! ## Keys -/

/-- Blocks beyond ASCII that hold signs, arrows and pictures, and no letters. -/
def signBlocks : List (Nat × Nat) := [
  (0x80, 0xa9), (0xab, 0xb4), (0xb6, 0xb9), (0xbb, 0xbf), (0xd7, 0xd7), (0xf7, 0xf7),
  (0x2c2, 0x2c5), (0x2d2, 0x2df), (0x2010, 0x2070), (0x2074, 0x207e), (0x2080, 0x208e),
  (0x20a0, 0x20cf), (0x2190, 0x2bff), (0x2e00, 0x2e2e), (0x2e30, 0x3004), (0x3008, 0x3020),
  (0xff01, 0xff20), (0xff3b, 0xff40), (0xff5b, 0xff65), (0x1f000, 0x1fbff)]

/-- A character that may start a bare key: a letter, a dollar sign or an underscore.  A shown
character beyond ASCII counts as a letter unless its block holds signs. -/
def isNameStart (c : Char) : Bool :=
  c.isAlpha || c = '$' || c = '_' ||
    (127 < c.toNat && !isBlank c && !Text.isHidden c &&
      !signBlocks.any fun (first, last) => first ≤ c.toNat && c.toNat ≤ last)

/-- A mark that combines with the letter before it, or joins two letters. -/
def isMark (c : Char) : Bool :=
  (0x300 ≤ c.toNat && c.toNat ≤ 0x36f) || c.toNat = 0x200c || c.toNat = 0x200d

def isNameChar (c : Char) : Bool :=
  isNameStart c || c.isDigit || isMark c

/-- A bare key behind the characters read `before`, latest first.  Escapes by number may stand in
it. -/
def readName? : Nat → List Char → List Char → Option (String × List Char)
  | 0, _, _ => none
  | fuel + 1, before, '\\' :: 'u' :: rest =>
      match readUnit? rest with
      | some (c, rest) => readName? fuel (c :: before) rest
      | none => none
  | fuel + 1, before, c :: rest =>
      if if before.isEmpty then isNameStart c else isNameChar c then
        readName? fuel (c :: before) rest
      else if before.isEmpty then none
      else some (String.ofList before.reverse, c :: rest)
  | _ + 1, before, [] => if before.isEmpty then none else some (String.ofList before.reverse, [])

def readKey? (cs : List Char) : Option (String × List Char) :=
  match cs with
  | [] => none
  | c :: rest =>
      if c = '"' ∨ c = '\'' then readText? c (cs.length + 1) [] rest
      else readName? (cs.length + 1) [] cs

/-! ## Numbers -/

def isWordChar (c : Char) : Bool :=
  c.isAlphanum || c = '+' || c = '-' || c = '.'

def hexadecimal? (digits : List Char) : Option Setting :=
  if digits.isEmpty then none
  else
    (Text.hexNumber? digits).bind fun n => if n < 0x100000000 then some (.integer n) else none

/-- A finite number with a point or an exponent, or a whole number of 64 bits. -/
def decimal? (negative : Bool) (magnitude : List Char) : Option Setting :=
  match magnitude with
  | '0' :: c :: _ => if c.isDigit then none else decimalOf negative magnitude
  | _ => decimalOf negative magnitude
where
  decimalOf (negative : Bool) (magnitude : List Char) : Option Setting :=
    match Text.digits? magnitude with
    | some n =>
        let value : Int := if negative then -n else n
        if Text.isInteger64 value then some (.integer value) else none
    | none =>
        (Double.readMagnitude? magnitude).bind fun x =>
          if x.isInf then none else some (.real (if negative then -x else x))

def number? (word : List Char) : Option Setting :=
  let (negative, magnitude) := Text.readSign word
  let name := String.ofList magnitude
  if word.head? = some '+' ∧ (name = "Infinity" ∨ name = "NaN") then none
  else if name = "Infinity" then some (.real (if negative then -(1 / 0) else 1 / 0))
  else if name = "NaN" then some (.real (0 / 0))
  else
    match word with
    | '0' :: 'x' :: digits => hexadecimal? digits
    | '0' :: 'X' :: digits => hexadecimal? digits
    | _ => decimal? negative magnitude

def word? (word : List Char) : Option Setting :=
  let name := String.ofList word
  if name = "null" then some .nothing
  else if name = "true" then some (.boolean true)
  else if name = "false" then some (.boolean false)
  else number? word

/-! ## Values -/

mutual

/-- A value and what follows it and the blanks behind it; `fuel` bounds the steps. -/
def readValue? : Nat → List Char → Option (Setting × List Char)
  | 0, _ => none
  | _ + 1, [] => none
  | fuel + 1, c :: rest => do
      if c = '"' ∨ c = '\'' then
        let (text, rest) ← readText? c (rest.length + 1) [] rest
        return (.text text, ← skipBlank? rest)
      else if c = '[' then readItems? fuel [] (← skipBlank? rest)
      else if c = '\x7b' then readFields? fuel [] (← skipBlank? rest)
      else
        let (word, rest) := (c :: rest).span isWordChar
        return (← word? word, ← skipBlank? rest)

/-- The items of an array up to its closing bracket, which a comma may precede. -/
def readItems? : Nat → List Setting → List Char → Option (Setting × List Char)
  | 0, _, _ => none
  | _ + 1, before, ']' :: rest => (skipBlank? rest).map fun rest => (.list before.reverse, rest)
  | fuel + 1, before, cs => do
      match ← readValue? fuel cs with
      | (item, ',' :: rest) => readItems? fuel (item :: before) (← skipBlank? rest)
      | (item, ']' :: rest) => return (.list (item :: before).reverse, ← skipBlank? rest)
      | _ => none

/-- The fields of an object up to its closing brace, which a comma may precede. -/
def readFields? : Nat → Fields Setting → List Char → Option (Setting × List Char)
  | 0, _, _ => none
  | _ + 1, before, '\x7d' :: rest => (skipBlank? rest).map fun rest => (.table before, rest)
  | fuel + 1, before, cs => do
      let (key, rest) ← readKey? cs
      match ← skipBlank? rest with
      | ':' :: rest =>
          match ← readValue? fuel (← skipBlank? rest) with
          | (value, ',' :: rest) =>
              readFields? fuel (before.insert key value) (← skipBlank? rest)
          | (value, '\x7d' :: rest) =>
              return (.table (before.insert key value), ← skipBlank? rest)
          | _ => none
      | _ => none

end

def read? (text : String) : Option (Fields Setting) := do
  let cs ← skipBlank? text.toList
  match ← readValue? (2 * cs.length + 2) cs with
  | (.table fields, []) => return fields
  | _ => none

end DecisionLogic.Json5
