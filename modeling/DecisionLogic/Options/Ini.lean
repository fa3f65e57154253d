import DecisionLogic.Json.Fields
import DecisionLogic.Options.Setting
import DecisionLogic.Text.Blank
import DecisionLogic.Text.Hexadecimal

/-!
# INI

Reading a file of sections.  A line assigns a text to a key, a name in brackets starts a section,
and a line that starts with a semicolon or a hash is a comment.  All values are texts; a section is
a table.
-/

namespace DecisionLogic.Ini

/-- The character whose code point hexadecimal digits write, behind a plus sign or none. -/
def charOf? (digits : List Char) : Option Char :=
  let digits := if digits.head? = some '+' then digits.drop 1 else digits
  (Text.baseNumber? 16 digits).bind Text.charAt?

def escape (c : Char) : Char :=
  match c with
  | '0' => Char.ofNat 0
  | 'a' => Char.ofNat 7
  | 'b' => Char.ofNat 8
  | 't' => '\t'
  | 'r' => '\r'
  | 'n' => '\n'
  | c => c

/-- The characters before the first stop, behind those read `before`, latest first, and what follows
them, starting with the stop.  An escaped line end is left out.  The text may end before a stop only
where `mayEnd` holds. -/
def readUntil? (isStop : Char → Bool) (mayEnd : Bool) (before : List Char) :
    List Char → Option (List Char × List Char)
  | [] => if mayEnd then some (before.reverse, []) else none
  | '\\' :: 'x' :: a :: b :: c :: d :: rest =>
      match charOf? [a, b, c, d] with
      | some c => readUntil? isStop mayEnd (c :: before) rest
      | none => none
  | '\\' :: '\n' :: rest => readUntil? isStop mayEnd before rest
  | ['\\'] => none
  | '\\' :: c :: rest =>
      if c = 'x' then none else readUntil? isStop mayEnd (escape c :: before) rest
  | c :: rest =>
      if isStop c then some (before.reverse, c :: rest)
      else readUntil? isStop mayEnd (c :: before) rest

def isLineEnd (c : Char) : Bool :=
  c = '\n' || c = '\r'

def trimRight (cs : List Char) : List Char :=
  (cs.reverse.dropWhile Text.isBlank).reverse

/-- The rest of a value: parts in quotes, and then the rest of the line without blanks at its end.
`first` tells that no part was read. -/
def readParts? : Nat → Bool → List Char → Option (List Char × List Char)
  | 0, _, _ => none
  | fuel + 1, first, cs => do
      match cs with
      | [] => return ([], [])
      | c :: rest =>
          if c = '"' ∨ c = '\'' then
            let (part, rest) ← readUntil? (fun d => d = c) false [] rest
            let (parts, rest) ← readParts? fuel false (rest.drop 1)
            return (part ++ parts, rest)
          else
            let (part, rest) ← readUntil? isLineEnd true [] (c :: rest)
            return (if first then Text.trimBlank part else trimRight part, rest)

def readValue? (cs : List Char) : Option (String × List Char) := do
  let cs := cs.dropWhile fun c => Text.isBlank c && !isLineEnd c
  let (value, rest) ← readParts? (cs.length + 1) true cs
  return (String.ofList (Text.trimBlank value), rest)

/-- What follows blanks, and whether it starts a line; `fresh` tells whether the blanks do. -/
def skipBlank : Bool → List Char → Bool × List Char
  | fresh, [] => (fresh, [])
  | fresh, c :: rest => if Text.isBlank c then skipBlank (c = '\n') rest else (fresh, c :: rest)

/-- Assign a value to a key of a section, or of the table around the sections. -/
def assign (section? : Option String) (key value : String) (entries : Fields Setting) :
    Fields Setting :=
  match section? with
  | none => entries.insert key (.text value)
  | some name =>
      match entries.find? name with
      | some (.table inner) => entries.insert name (.table (Fields.insert inner key (.text value)))
      | _ => entries.insert name (.table [(key, .text value)])

/-- The lines of a file in a section; `fresh` tells whether a line starts here. -/
def readLines? : Nat → Option String → Fields Setting → Bool → List Char → Option (Fields Setting)
  | 0, _, _, _, _ => none
  | fuel + 1, section?, entries, fresh, cs => do
      match skipBlank fresh cs with
      | (_, []) => return entries
      | (fresh, c :: rest) =>
          if c = ';' ∨ c = '#' then
            if fresh then
              readLines? fuel section? entries true ((rest.dropWhile fun c => c ≠ '\n').drop 1)
            else none
          else if c = '[' then
            let (name, rest) ← readUntil? (fun c => c = ']') false [] rest
            let name := String.ofList (Text.trimBlank name)
            readLines? fuel (some name) (entries.insert name (.table [])) false (rest.drop 1)
          else
            let (key, rest) ← readUntil? (fun c => c = '=' || c = ':') false [] (c :: rest)
            let key := String.ofList (Text.trimBlank key)
            if key.isEmpty then none
            else
              let (value, rest) ← readValue? (rest.drop 1)
              readLines? fuel section? (assign section? key value entries) false rest

def read? (text : String) : Option (Fields Setting) :=
  let cs := text.toList
  readLines? (cs.length + 1) none [] true cs

end DecisionLogic.Ini
