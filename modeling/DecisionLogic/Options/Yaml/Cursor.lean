import DecisionLogic.Options.Yaml.Token
import DecisionLogic.Text.Hexadecimal

/-!
# Places in a text of YAML

A cursor walks through a text and leaves tokens behind.  It knows its line and column, the columns
of the open blocks, and the place where a key may have started: a scalar is a key only once its
colon is seen, and the tokens that lead the key are put before the scalar then.

The end of the text reads as the character zero, which the text does not hold.
-/

namespace DecisionLogic.Yaml

/-! ## Characters -/

def isBlank (c : Char) : Bool :=
  c = ' ' || c = '\t'

def isBreak (c : Char) : Bool :=
  c = '\n' || c = '\r'

def endMark : Char :=
  Char.ofNat 0

def isLineOver (c : Char) : Bool :=
  isBreak c || c = endMark

def isGap (c : Char) : Bool :=
  isBlank c || isLineOver c

def isFlow (c : Char) : Bool :=
  c = ',' || c = '[' || c = ']' || c = '\x7b' || c = '\x7d'

/-! ## Places -/

structure Place where
  index : Nat
  line : Nat
  column : Nat

structure PossibleKey where
  place : Place
  /-- The place stands in the column of a mapping, so a key has to start there. -/
  required : Bool
  number : Nat

/-- A column that an inner block or value left. -/
structure Indent where
  column : Int
  /-- The inner part is a block, which a token ends. -/
  isBlock : Bool

structure Cursor where
  size : Nat
  rest : List Char
  place : Place
  /-- Only blanks stand before the place in its line. -/
  atMargin : Bool
  tokens : Array Token
  /-- The place where a key may have started, in the block and in each flow, the innermost first. -/
  keys : List (Option PossibleKey)
  keyAllowed : Bool
  /-- The column of the innermost block, which is less than zero outside of blocks. -/
  indent : Int
  indents : List Indent
  flowLevel : Nat
  /-- The place behind a quoted key in a flow, where a colon needs no blank behind it. -/
  adjacentAt : Nat
  inMapping : Bool
  /-- Whether a mapping of one entry is open, in each flow sequence. -/
  pairs : List Bool

def Cursor.start (text : List Char) : Cursor where
  size := text.length
  rest := text
  place := ⟨0, 0, 0⟩
  atMargin := true
  tokens := #[]
  keys := [none]
  keyAllowed := true
  indent := -1
  indents := []
  flowLevel := 0
  adjacentAt := 0
  inMapping := false
  pairs := []

abbrev Walk :=
  StateT Cursor Option

namespace Walk

/-! ## Looking and moving -/

def peek : Walk Char :=
  return (← get).rest.headD endMark

def peekNext : Walk Char :=
  return (← get).rest.tail.headD endMark

def column : Walk Int :=
  return (← get).place.column

def steps : Walk Nat :=
  return (← get).size + 1

def isInFlow : Walk Bool :=
  return 0 < (← get).flowLevel

def require (condition : Bool) : Walk Unit :=
  if condition then pure () else failure

def skipBlanks (count : Nat) : Walk Unit :=
  modify fun s =>
    { s with
      rest := s.rest.drop count
      place := ⟨s.place.index + count, s.place.line, s.place.column + count⟩ }

def skip (count : Nat) : Walk Unit := do
  skipBlanks count
  modify fun s => { s with atMargin := s.atMargin && count = 0 }

def takeWhile (p : Char → Bool) : Walk (List Char) := do
  let taken := (← get).rest.takeWhile p
  skip taken.length
  return taken

def skipBreak : Walk Unit :=
  modify fun s =>
    let count := if ['\r', '\n'].isPrefixOf s.rest then 2 else 1
    { s with
      rest := s.rest.drop count
      place := ⟨s.place.index + count, s.place.line + 1, 0⟩
      atMargin := true }

def skipComment : Walk Unit := do
  let _ ← takeWhile fun c => !isLineOver c

def isMark (mark : String) (rest : List Char) : Bool :=
  mark.toList.isPrefixOf rest && isGap ((rest.drop 3).headD endMark)

def isAtMark : Walk Bool := do
  let s ← get
  return s.place.column = 0 && (isMark "---" s.rest || isMark "..." s.rest)

/-! ## Keys -/

def allowKey (allowed : Bool) : Walk Unit :=
  modify fun s => { s with keyAllowed := allowed }

def setKey (key? : Option PossibleKey) : Walk Unit :=
  modify fun s => { s with keys := key? :: s.keys.drop 1 }

def key? : Walk (Option PossibleKey) :=
  return (← get).keys.headD none

def saveKey : Walk Unit := do
  let s ← get
  if s.keyAllowed then
    let required :=
      s.flowLevel = 0 && s.indent = s.place.column && s.indents.head?.any Indent.isBlock
    setKey (some ⟨s.place, required, s.tokens.size⟩)

def dropKey : Walk Unit := do
  require (!(← key?).any PossibleKey.required)
  setKey none

def greatestKey : Nat :=
  1024

def dropOldKey : Walk Unit := do
  let s ← get
  let isOld := (← key?).any fun key =>
    key.place.line < s.place.line || key.place.index + greatestKey < s.place.index
  if s.flowLevel = 0 && isOld then dropKey

/-! ## Blanks -/

/-- The blanks that separate words in a line. -/
structure Gap where
  hasTab : Bool
  hasSpace : Bool

def skipGap (tabs : Bool) : Walk Gap := do
  let gap := (← get).rest.takeWhile fun c => c = ' ' || (tabs && c = '\t')
  skipBlanks gap.length
  if (← peek) = '#' then
    require (!gap.isEmpty)
    skipComment
  return ⟨gap.contains '\t', gap.contains ' '⟩

/-- Skip the end of a line.  Behind it a key may start, if it is in no flow. -/
def endLine : Walk Unit := do
  skipBreak
  if !(← isInFlow) then allowKey true

def skipToToken : Nat → Walk Unit
  | 0 => pure ()
  | fuel + 1 => do
      let s ← get
      let c ← peek
      if c = '\t' && !s.indents.isEmpty && s.atMargin && s.place.column < s.indent then
        let _ ← skipGap true
        require (isLineOver (← peek))
        skipToToken fuel
      else if isBlank c then
        skipBlanks 1
        skipToToken fuel
      else if isBreak c then
        endLine
        skipToToken fuel
      else if c = '#' then
        skipComment
        skipToToken fuel

/-- Skip the blanks behind the mark of a key, and whether there are some; `found` tells whether some
are skipped. -/
def skipSpace : Nat → Bool → Walk Bool
  | 0, found => return found
  | fuel + 1, found => do
      let c ← peek
      if c = ' ' then
        skipBlanks 1
        skipSpace fuel true
      else if isBreak c then
        endLine
        skipSpace fuel true
      else if c = '#' then
        skipComment
        skipSpace fuel found
      else return found

/-! ## Tokens and blocks -/

def emit (token : Token) : Walk Unit :=
  modify fun s => { s with tokens := s.tokens.push token }

def insert (number : Nat) (token : Token) : Walk Unit :=
  modify fun s => { s with tokens := s.tokens.insertIdxIfInBounds number token }

/-- The columns around those that are deeper than `column`, and the number of blocks that end. -/
def leave (column : Int) : List Indent → Int → Nat → List Indent × Int × Nat
  | [], indent, ended => ([], indent, ended)
  | outer :: indents, indent, ended =>
      if indent ≤ column then (outer :: indents, indent, ended)
      else leave column indents outer.column (if outer.isBlock then ended + 1 else ended)

def unroll (column : Int) : Walk Unit :=
  modify fun s =>
    if 0 < s.flowLevel then s
    else
      let (indents, indent, ended) := leave column s.indents s.indent 0
      { s with indents, indent, tokens := s.tokens ++ Array.replicate ended Token.blockEnd }

def unrollValues : Walk Unit :=
  modify fun s =>
    let values := s.indents.takeWhile fun indent => !indent.isBlock
    { s with
      indent := (values.getLast?.map Indent.column).getD s.indent
      indents := s.indents.drop values.length }

def unrollValue (column : Nat) (s : Cursor) : Cursor :=
  match s.indents with
  | outer :: indents =>
      if s.indent ≤ column && !outer.isBlock then { s with indent := outer.column, indents } else s
  | [] => s

/-- Start a block in a column, unless one is open there; its token stands behind the first `number`
ones. -/
def roll (column number : Nat) (token : Token) : Walk Unit := do
  if !(← isInFlow) then
    modify (unrollValue column)
    let s ← get
    if s.indent < column then
      insert number token
      modify fun s => { s with indents := ⟨s.indent, true⟩ :: s.indents, indent := column }

def rollValue : Walk Unit :=
  modify fun s =>
    if s.flowLevel = 0 && s.indents.head?.any Indent.isBlock then
      { s with indents := ⟨s.indent, false⟩ :: s.indents, indent := s.indent + 1 }
    else s

end Walk
end DecisionLogic.Yaml
