import DecisionLogic.Options.Toml.Table
import DecisionLogic.Options.Toml.Text

/-!
# TOML

Reading a document: a sequence of lines that assign values to keys or open the table to which the
following keys belong.
-/

namespace DecisionLogic.Toml

mutual

/-- A value, in which `levels` more containers may be open at once; `fuel` bounds the steps. -/
def readValue? : Nat → Nat → List Char → Option (Node × List Char)
  | 0, _, _ => none
  | _ + 1, _, [] => none
  | fuel + 1, levels, c :: rest =>
      if c = '"' ∨ c = '\'' then
        (readText? (c :: rest)).map fun (text, rest) => (.scalar (.text text), rest)
      else if c = '[' then
        match levels with
        | 0 => none
        | levels + 1 => readItems? fuel levels [] rest
      else if c = '\x7b' then
        match levels with
        | 0 => none
        | levels + 1 =>
            match skipGap rest with
            | '\x7d' :: rest => some (.table .braces [], rest)
            | rest => readInline? fuel levels [] rest
      else
        let (word, rest) := spanWord (c :: rest)
        match scalar? word with
        | some setting => some (.scalar setting, rest)
        | none => if isMoment word then some (.moment (String.ofList word), rest) else none

/-- The items of an array, which may stand on several lines and end in a comma. -/
def readItems? : Nat → Nat → List Node → List Char → Option (Node × List Char)
  | 0, _, _, _ => none
  | fuel + 1, levels, before, cs =>
      match skipLines? (cs.length + 1) cs with
      | none => none
      | some (']' :: rest) => some (.list before.reverse, rest)
      | some rest =>
          match readValue? fuel levels rest with
          | none => none
          | some (item, rest) =>
              match skipLines? (rest.length + 1) rest with
              | some (',' :: rest) => readItems? fuel levels (item :: before) rest
              | some (']' :: rest) => some (.list (item :: before).reverse, rest)
              | _ => none

def readInline? : Nat → Nat → Entries → List Char → Option (Node × List Char)
  | 0, _, _, _ => none
  | fuel + 1, levels, entries, cs =>
      match readKeys? cs with
      | some (keys, '=' :: rest) =>
          match readValue? fuel levels (skipGap rest) with
          | none => none
          | some (value, rest) =>
              match entries.assign value keys with
              | none => none
              | some entries =>
                  match skipGap rest with
                  | ',' :: rest => readInline? fuel levels entries rest
                  | '\x7d' :: rest => some (.table .braces entries, rest)
                  | _ => none
      | _ => none

end

/-- The names of a header between its brackets, and whether the brackets are double. -/
def readHeader? : List Char → Option (Bool × List String × List Char)
  | '[' :: '[' :: rest => do
      match ← readKeys? rest with
      | (names, ']' :: ']' :: rest) => return (true, names, rest)
      | _ => none
  | '[' :: rest => do
      match ← readKeys? rest with
      | (names, ']' :: rest) => return (false, names, rest)
      | _ => none
  | _ => none

def readLines? : Nat → List String → Entries → List Char → Option Entries
  | 0, _, _, _ => none
  | fuel + 1, header, entries, cs => do
      match ← skipLines? (cs.length + 1) cs with
      | [] => return entries
      | '[' :: rest =>
          let (many, names, rest) ← readHeader? ('[' :: rest)
          let entries ← if many then entries.appendTable names else entries.openTable names
          readLines? fuel names entries (← endLine? rest)
      | rest =>
          match ← readKeys? rest with
          | (keys, '=' :: rest) =>
              let (value, rest) ← readValue? (rest.length + 1) greatestDepth (skipGap rest)
              let entries ← entries.assignIn keys value header
              readLines? fuel header entries (← endLine? rest)
          | _ => none

def read? (text : String) : Option (Fields Setting) := do
  let cs := text.toList
  let cs := if cs.head? = some (Char.ofNat 0xfeff) then cs.drop 1 else cs
  let entries ← readLines? (cs.length + 1) [] [] cs
  match ← entriesToSetting? entries with
  | .table settings => return settings
  | _ => none

end DecisionLogic.Toml
