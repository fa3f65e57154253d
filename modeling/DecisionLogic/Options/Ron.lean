import DecisionLogic.Json.Fields
import DecisionLogic.Options.Ron.Word

/-!
# RON

Reading object notation with named structures: `Config(depth: 7, names: ["a"], limit: Some(2))`.  A
structure with named fields and a map are tables, a tuple and a sequence are lists, and a name alone
stands for nothing.
-/

namespace DecisionLogic.Ron

/-! ## The start of a value -/

/-- What stands at the start of a value: all of it, or what opens it, and what follows. -/
inductive Start where
  | whole (setting : Setting) (rest : List Char)
  /-- A value that is there; `closed` tells whether a parenthesis closes it. -/
  | present (closed : Bool) (rest : List Char)
  | items (close : Char) (rest : List Char)
  | fields (rest : List Char)
  | entries (rest : List Char)

def words : List (String × Setting) := [
  ("true", .boolean true),
  ("false", .boolean false),
  ("None", .nothing),
  ("inf", .real (1 / 0)),
  ("NaN", .real (0 / 0))]

def readWord? (cs : List Char) : Option Start :=
  words.findSome? fun (word, setting) => (afterWord? word cs).map (.whole setting)

/-- What opens in a parenthesis: fields if a name and a colon lead them, otherwise a tuple. -/
def readOpened? (cs : List Char) : Option Start := do
  let cs ← skipBlank? cs
  match readName? cs with
  | none => return .items ')' cs
  | some (_, rest) =>
      match ← skipBlank? rest with
      | ':' :: _ => return .fields cs
      | _ :: _ => return .items ')' cs
      | [] => none

/-- What follows the word for a value that is there.  Its value stands in parentheses, which may be
left out where `implicit` holds. -/
def readPresent? (implicit : Bool) (cs : List Char) : Option Start := do
  match ← skipBlank? cs with
  | '(' :: rest => return .present true (← skipBlank? rest)
  | rest => if implicit then return .present false rest else none

def readUnnamed? : List Char → Option Start
  | [] => none
  | '(' :: ')' :: rest => some (.whole .nothing rest)
  | c :: rest =>
      let text? : Option (String × List Char) → Option Start :=
        Option.map fun (text, rest) => .whole (.text text) rest
      if c = '(' then readOpened? rest
      else if c = '[' then (skipBlank? rest).map (.items ']')
      else if c = '\x7b' then (skipBlank? rest).map .entries
      else if c = '"' then text? (readText? (rest.length + 1) [] rest)
      else if c = '\'' then text? (readChar? rest)
      else if c = 'r' then
        match rest.span fun c => c = '#' with
        | (hashes, '"' :: rest) => text? (readRaw? hashes [] rest)
        | _ => none
      else if c.isDigit || isSign c then
        (readNumber? (c :: rest)).map fun (setting, rest) => .whole setting rest
      else if c = '.' then (readReal? (c :: rest)).map fun (x, rest) => .whole (.real x) rest
      else none

/-- The start of a value.  A name is nothing, or the name of a structure. -/
def readStart? (implicit : Bool) (cs : List Char) : Option Start :=
  match readWord? cs with
  | some start => some start
  | none =>
      match afterWord? "Some" cs with
      | some rest => readPresent? implicit rest
      | none =>
          match readName? cs with
          | none => readUnnamed? cs
          | some (_, rest) => do
              match ← skipBlank? rest with
              | '(' :: rest => readOpened? rest
              | rest => return .whole .nothing rest

/-! ## Values -/

/-- Parts with commas between them, up to a closing character, which a comma may precede. -/
def readParts? {α : Type} (readPart? : List Char → Option (α × List Char)) (close : Char) :
    Nat → List α → List Char → Option (List α × List Char)
  | 0, _, _ => none
  | fuel + 1, before, cs => do
      if cs.head? = some close then return (before.reverse, cs.drop 1)
      else
        let (part, rest) ← readPart? cs
        match ← readComma? rest with
        | (true, rest) => readParts? readPart? close fuel (part :: before) rest
        | (false, rest) =>
            if rest.head? = some close then return ((part :: before).reverse, rest.drop 1)
            else none

def readAssigned? (readItem? : List Char → Option (Setting × List Char)) (cs : List Char) :
    Option (Setting × List Char) := do
  match ← skipBlank? cs with
  | ':' :: rest => readItem? (← skipBlank? rest)
  | _ => none

def readField? (readItem? : List Char → Option (Setting × List Char)) (cs : List Char) :
    Option ((String × Setting) × List Char) := do
  let (name, rest) ← readName? cs
  let (value, rest) ← readAssigned? readItem? rest
  return ((name, value), rest)

/-- An entry of a map, whose key is a text and not a text that is marked as there. -/
def readPair? (readItem? : List Char → Option (Setting × List Char)) (cs : List Char) :
    Option ((String × Setting) × List Char) := do
  match afterWord? "Some" cs, ← readItem? cs with
  | none, (.text key, rest) =>
      let (value, rest) ← readAssigned? readItem? rest
      return ((key, value), rest)
  | _, _ => none

/-- The table of some entries, the last one of a key being the one that counts. -/
def tableOf (entries : List (String × Setting)) : Setting :=
  .table (entries.foldl (fun table (key, value) => Fields.insert table key value) [])

/-- The value that opens at a start; `readItem?` reads what stands in it. -/
def readOpen? (readItem? : List Char → Option (Setting × List Char)) :
    Start → Option (Setting × List Char)
  | .whole setting rest => some (setting, rest)
  | .present closed rest => do
      let (setting, rest) ← readItem? rest
      if closed then
        match ← readComma? rest with
        | (_, ')' :: rest) => return (setting, rest)
        | _ => none
      else return (setting, rest)
  | .items close rest =>
      (readParts? readItem? close (rest.length + 1) [] rest).map fun (items, rest) =>
        (.list items, rest)
  | .fields rest =>
      (readParts? (readField? readItem?) ')' (rest.length + 1) [] rest).map fun (fields, rest) =>
        (tableOf fields, rest)
  | .entries rest =>
      (readParts? (readPair? readItem?) '\x7d' (rest.length + 1) [] rest).map fun
        (entries, rest) => (tableOf entries, rest)

/-- A value of at most `levels` levels.  What opens a value is a level, and each part of a list or a
table is one more. -/
def readValue? (implicit : Bool) : Nat → List Char → Option (Setting × List Char)
  | 0, cs =>
      (readStart? implicit cs).bind fun start =>
        match start with
        | .whole setting rest => some (setting, rest)
        | _ => none
  | 1, cs =>
      (readStart? implicit cs).bind fun start =>
        match start with
        | .present .. => readOpen? (readValue? implicit 0) start
        | _ => readOpen? (fun _ => none) start
  | levels + 2, cs =>
      (readStart? implicit cs).bind fun start =>
        match start with
        | .present .. => readOpen? (readValue? implicit (levels + 1)) start
        | _ => readOpen? (readValue? implicit levels) start

/-! ## Documents -/

/-- The names of the extensions, and whether each lets the word for a value that is there do without
parentheses. -/
def extensions : List (String × Bool) := [
  ("unwrap_newtypes", false),
  ("implicit_some", true),
  ("unwrap_variant_newtypes", false)]

def afterWords? : List String → List Char → Option (List Char)
  | [], cs => some cs
  | word :: words, cs =>
      if word.toList.isPrefixOf cs then
        (skipBlank? (cs.drop word.length)).bind (afterWords? words)
      else none

/-- The names of extensions with commas between them, and what follows. -/
def readExtensions? : Nat → Bool → List Char → Option (Bool × List Char)
  | 0, _, _ => none
  | fuel + 1, implicit, cs => do
      let (name, rest) ← readName? cs
      let implicit := implicit || (← Fields.find? extensions name)
      let (more, rest) ← readComma? rest
      if !rest.head?.any isNameChar then return (implicit, rest)
      else if more then readExtensions? fuel implicit rest
      else none

/-- The extensions that lead a text, each list in an attribute of its own. -/
def readHeader? : Nat → Bool → List Char → Option (Bool × List Char)
  | 0, _, _ => none
  | fuel + 1, implicit, cs => do
      if cs.head? = some '#' then
        let rest ← afterWords? ["#", "!", "[", "enable", "("] cs
        let (implicit, rest) ← readExtensions? (rest.length + 1) implicit rest
        readHeader? fuel implicit (← afterWords? [")", "]"] rest)
      else return (implicit, cs)

def greatestLevels : Nat :=
  128

def read? (text : String) : Option (Fields Setting) := do
  let cs ← skipBlank? text.toList
  let (implicit, rest) ← readHeader? (cs.length + 1) false cs
  match ← readValue? implicit greatestLevels rest with
  | (.table fields, rest) =>
      if (← skipBlank? rest).isEmpty then return fields else none
  | _ => none

end DecisionLogic.Ron
