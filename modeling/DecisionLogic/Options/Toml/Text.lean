import DecisionLogic.Text.Hexadecimal

/-!
# Text and keys of TOML

The blanks, comments and line ends between the words of a document, text in quotes, and the keys
that values are assigned to.
-/

namespace DecisionLogic.Toml

/-! ## Characters -/

def isGap (c : Char) : Bool :=
  c = ' ' || c = '\t'

def skipGap (cs : List Char) : List Char :=
  cs.dropWhile isGap

def isForbidden (c : Char) : Bool :=
  (c.toNat < 32 && c ≠ '\t') || c.toNat = 127

def skipComment? : List Char → Option (List Char)
  | '#' :: rest =>
      let (comment, rest) := rest.span fun c => c ≠ '\n' && c ≠ '\r'
      if comment.any isForbidden then none else some rest
  | rest => some rest

def afterNewline? : List Char → Option (List Char)
  | '\n' :: rest => some rest
  | '\r' :: '\n' :: rest => some rest
  | _ => none

/-- What follows the rest of a line in which only blanks and a comment may stand. -/
def endLine? (cs : List Char) : Option (List Char) := do
  match ← skipComment? (skipGap cs) with
  | [] => return []
  | rest => afterNewline? rest

def skipLines? : Nat → List Char → Option (List Char)
  | 0, _ => none
  | fuel + 1, cs => do
      let rest ← skipComment? (skipGap cs)
      match afterNewline? rest with
      | some rest => skipLines? fuel rest
      | none => return rest

/-! ## Strings -/

def charOf? (digits : List Char) : Option Char :=
  (Text.hexNumber? digits).bind Text.charAt?

/-- The character of an escape behind its backslash, and what follows. -/
def escape? : List Char → Option (Char × List Char)
  | 'b' :: rest => some (Char.ofNat 8, rest)
  | 't' :: rest => some ('\t', rest)
  | 'n' :: rest => some ('\n', rest)
  | 'f' :: rest => some (Char.ofNat 12, rest)
  | 'r' :: rest => some ('\r', rest)
  | '"' :: rest => some ('"', rest)
  | '\\' :: rest => some ('\\', rest)
  | 'u' :: rest =>
      if rest.length < 4 then none else (charOf? (rest.take 4)).map fun c => (c, rest.drop 4)
  | 'U' :: rest =>
      if rest.length < 8 then none else (charOf? (rest.take 8)).map fun c => (c, rest.drop 8)
  | _ => none

def readLineText? (quote : Char) : Nat → List Char → List Char → Option (String × List Char)
  | 0, _, _ => none
  | _ + 1, _, [] => none
  | fuel + 1, before, c :: rest =>
      if c = quote then some (String.ofList before.reverse, rest)
      else if c = '\\' ∧ quote = '"' then
        match escape? rest with
        | none => none
        | some (c, rest) => readLineText? quote fuel (c :: before) rest
      else if isForbidden c then none
      else readLineText? quote fuel (c :: before) rest

def skipSpace : List Char → List Char
  | '\r' :: '\n' :: rest => skipSpace rest
  | c :: rest => if isGap c || c = '\n' then skipSpace rest else c :: rest
  | [] => []

/-- What follows blanks and line ends, at least one of these, behind a backslash. -/
def skipFold? (cs : List Char) : Option (List Char) :=
  (afterNewline? (skipGap cs)).map skipSpace

/-- A text over several lines up to its three closing quotes, before which two more may stand. -/
def readBlockText? (quote : Char) : Nat → List Char → List Char → Option (String × List Char)
  | 0, _, _ => none
  | _ + 1, _, [] => none
  | fuel + 1, before, c :: rest =>
      if c = quote then
        let (quotes, after) := (c :: rest).span fun d => d = quote
        if quotes.length < 3 then readBlockText? quote fuel (quotes ++ before) after
        else if quotes.length ≤ 5 then
          some (String.ofList (before.reverse ++ quotes.drop 3), after)
        else none
      else if c = '\\' ∧ quote = '"' then
        match escape? rest with
        | some (c, rest) => readBlockText? quote fuel (c :: before) rest
        | none =>
            match skipFold? rest with
            | none => none
            | some rest => readBlockText? quote fuel before rest
      else
        match afterNewline? (c :: rest) with
        | some rest => readBlockText? quote fuel ('\n' :: before) rest
        | none => if isForbidden c then none else readBlockText? quote fuel (c :: before) rest

/-- The text that starts with a quote; a line end right behind three quotes is left out. -/
def readText? (cs : List Char) : Option (String × List Char) :=
  match cs with
  | a :: b :: c :: rest =>
      if a = b ∧ b = c then
        readBlockText? a (rest.length + 1) [] ((afterNewline? rest).getD rest)
      else readLineText? a (cs.length + 1) [] (b :: c :: rest)
  | a :: rest => readLineText? a (cs.length + 1) [] rest
  | [] => none

/-! ## Keys -/

def isBareKey (c : Char) : Bool :=
  c.isAlphanum || c = '_' || c = '-'

def readKey? (cs : List Char) : Option (String × List Char) :=
  match cs with
  | [] => none
  | c :: rest =>
      if c = '"' ∨ c = '\'' then readLineText? c (cs.length + 1) [] rest
      else
        match cs.span isBareKey with
        | ([], _) => none
        | (key, rest) => some (String.ofList key, rest)

/-- The greatest number of keys in a dotted one, and of containers that may be open at once. -/
def greatestDepth : Nat :=
  79

def readKeysUpTo? : Nat → List Char → Option (List String × List Char)
  | 0, _ => none
  | count + 1, cs => do
      let (key, rest) ← readKey? (skipGap cs)
      match skipGap rest with
      | '.' :: rest =>
          let (keys, rest) ← readKeysUpTo? count rest
          return (key :: keys, rest)
      | rest => return ([key], rest)

def readKeys? (cs : List Char) : Option (List String × List Char) :=
  readKeysUpTo? greatestDepth cs

end DecisionLogic.Toml
