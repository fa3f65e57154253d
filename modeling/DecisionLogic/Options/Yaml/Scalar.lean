import DecisionLogic.Options.Yaml.Cursor

/-!
# Scalars of YAML

A scalar is written plain, in quotes, or as a block of lines.  Ends of lines in a scalar are folded,
except in a literal block: one is a blank, and each further one an end of a line.

Characters that were read are kept with the latest first.
-/

namespace DecisionLogic.Yaml.Walk

def folded (more : Nat) : List Char :=
  if more = 0 then [' '] else List.replicate more '\n'

/-! ## Scalars in quotes -/

def escape? : Char → Option Char
  | '0' => some (Char.ofNat 0)
  | 'a' => some (Char.ofNat 7)
  | 'b' => some (Char.ofNat 8)
  | 't' => some '\t'
  | '\t' => some '\t'
  | 'n' => some '\n'
  | 'v' => some (Char.ofNat 11)
  | 'f' => some (Char.ofNat 12)
  | 'r' => some '\r'
  | 'e' => some (Char.ofNat 27)
  | ' ' => some ' '
  | '"' => some '"'
  | '/' => some '/'
  | '\\' => some '\\'
  | 'N' => some (Char.ofNat 0x85)
  | '_' => some (Char.ofNat 0xa0)
  | 'L' => some (Char.ofNat 0x2028)
  | 'P' => some (Char.ofNat 0x2029)
  | _ => none

def codeLength? : Char → Option Nat
  | 'x' => some 2
  | 'u' => some 4
  | 'U' => some 8
  | _ => none

def takeEscape : Walk Char := do
  skip 1
  let c ← peek
  skip 1
  match codeLength? c with
  | none => escape? c
  | some count =>
      let digits := (← get).rest.take count
      require (digits.length = count)
      skip count
      (Text.hexNumber? digits).bind Text.charAt?

/-- The characters in quotes up to a blank, the end of a line or the closing quote, and whether an
escape leaves the end of a line out. -/
def takeQuotedWord (single : Bool) : Nat → List Char → Walk (List Char × Bool)
  | 0, before => return (before, false)
  | fuel + 1, before => do
      let c ← peek
      let next ← peekNext
      if isGap c then return (before, false)
      else if c = '\'' && single then
        if next = '\'' then
          skip 2
          takeQuotedWord single fuel (c :: before)
        else return (before, false)
      else if c = '"' && !single then return (before, false)
      else if c = '\\' && !single then
        if isBreak next then
          skip 1
          skipBreak
          return (before, true)
        else takeQuotedWord single fuel ((← takeEscape) :: before)
      else
        skip 1
        takeQuotedWord single fuel (c :: before)

/-- The gap between two words in quotes: the blanks, or the ends of lines.  A gap `isFolded` once an
end of a line came or was left out; `ends` counts the ends that are kept. -/
def takeQuotedGap : Nat → Bool → Nat → List Char → Walk (List Char)
  | 0, _, _, blanks => return blanks
  | fuel + 1, isFolded, ends, blanks => do
      let c ← peek
      if isBlank c then
        require (!isFolded || c ≠ '\t' || (← get).indent ≤ (← column))
        skipBlanks 1
        takeQuotedGap fuel isFolded ends (if isFolded then blanks else c :: blanks)
      else if isBreak c then
        skipBreak
        if isFolded then takeQuotedGap fuel true (ends + 1) blanks
        else takeQuotedGap fuel true ends (folded 0)
      else
        return if ends = 0 then blanks else List.replicate ends '\n'

/-- The words in quotes up to the closing quote.  No line in them is indented less than the block
around them. -/
def takeQuoted (quote : Char) : Nat → List Char → Walk (List Char)
  | 0, _ => failure
  | fuel + 1, before => do
      require (!(← isAtMark) && (← peek) ≠ endMark && (← get).indent ≤ (← column))
      let left ← steps
      let (before, isFolded) ← takeQuotedWord (quote = '\'') left before
      if (← peek) = quote then return before
      else takeQuoted quote fuel ((← takeQuotedGap left isFolded 0 []) ++ before)

/-- A scalar in quotes.  Behind it a flow may go on, the line may end, and a key has its colon. -/
def readQuoted (quote : Char) : Walk Unit := do
  saveKey
  allowKey false
  let line := (← get).place.line
  skip 1
  let text ← takeQuoted quote (← steps) []
  skip 1
  let _ ← skipGap true
  let c ← peek
  let inFlow ← isInFlow
  let endsFlow := inFlow && (c = ',' || c = ']' || c = '\x7d')
  let isKey := c = ':' && (inFlow || line = (← get).place.line)
  require (endsFlow || isLineOver c || isKey)
  skipToToken (← steps)
  modify fun s => { s with adjacentAt := s.place.index }
  emit (.scalar false (String.ofList text.reverse))

/-! ## Plain scalars -/

/-- A plain scalar ends before a colon with a gap behind it, and in a flow before what structures
the flow. -/
def endsPlain (inFlow : Bool) (c next : Char) : Bool :=
  (c = ':' && (isGap next || (inFlow && isFlow next))) || (inFlow && isFlow c)

def plainLength (inFlow : Bool) : List Char → Nat
  | [] => 0
  | c :: rest =>
      if isGap c || endsPlain inFlow c (rest.headD endMark) then 0
      else plainLength inFlow rest + 1

/-- The gap between two words of a plain scalar in a block of a column. -/
def takePlainGap (indent : Int) : Nat → Nat → List Char → Walk (List Char)
  | 0, _, blanks => return blanks
  | fuel + 1, ends, blanks => do
      let c ← peek
      let isFolded := (← get).atMargin
      if isBlank c then
        if !isFolded then
          skipBlanks 1
          takePlainGap indent fuel ends (c :: blanks)
        else if c = '\t' && (← column) < indent then
          let _ ← skipGap true
          require (isLineOver (← peek))
          takePlainGap indent fuel ends blanks
        else
          skipBlanks 1
          takePlainGap indent fuel ends blanks
      else if isBreak c then
        skipBreak
        takePlainGap indent fuel (if isFolded then ends + 1 else ends) blanks
      else
        return if isFolded then folded ends else blanks

/-- The words of a plain scalar behind the characters read `before` and a gap. -/
def takePlain (indent : Int) : Nat → List Char → List Char → Walk (List Char)
  | 0, before, _ => return before
  | fuel + 1, before, gap => do
      let inFlow ← isInFlow
      let rest := (← get).rest
      if (← isAtMark) || (← peek) = '#' then return before
      else
        require !(inFlow && (← peek) = '-' && isFlow (← peekNext))
        let length := plainLength inFlow rest
        let word := rest.take length
        skip length
        let before := if length = 0 then before else word.reverse ++ (gap ++ before)
        let c ← peek
        if !isBlank c && !isBreak c then return before
        else
          let gap ← takePlainGap indent (← steps) 0 []
          if !inFlow && (← column) < indent then return before
          else takePlain indent fuel before gap

/-- A plain scalar.  A key may start behind it if it ends with its line. -/
def readPlain : Walk Unit := do
  saveKey
  allowKey false
  unrollValues
  let indent := (← get).indent + 1
  require (!(← isInFlow) || indent ≤ (← column))
  let text ← takePlain indent (← steps) [] []
  if (← get).atMargin then allowKey true
  emit (.scalar true (String.ofList text.reverse))

/-! ## Blocks of lines -/

/-- What happens to the ends of lines at the end of a block. -/
inductive Ending where
  | strip
  | clip
  | keep
deriving DecidableEq

def takeEnding : Walk Ending := do
  let c ← peek
  if c = '-' then
    skip 1
    return .strip
  else if c = '+' then
    skip 1
    return .keep
  else return .clip

/-- The columns of a block relative to the one around it, if they are given, which are not zero. -/
def takeDepth : Walk (Option Nat) := do
  let c ← peek
  if c.isDigit then
    require (c ≠ '0')
    skip 1
    return some (c.toNat - '0'.toNat)
  else return none

def takeHeader : Walk (Ending × Option Nat) := do
  match ← takeDepth with
  | some depth => return (← takeEnding, some depth)
  | none =>
      let ending ← takeEnding
      if ending = .clip then return (ending, none) else return (ending, ← takeDepth)

/-- The number of empty lines before a line of a block that starts in a column; the blanks before
the column are skipped. -/
def skipIndent (indent : Nat) : Nat → Nat → Walk Nat
  | 0, ends => return ends
  | fuel + 1, ends => do
      let s ← get
      let blanks := (s.rest.takeWhile fun c => c = ' ').length
      skipBlanks (min blanks (indent - s.place.column))
      if isBreak (← peek) then
        skipBreak
        skipIndent indent fuel (ends + 1)
      else return ends

/-- The column of the first line of a block, or of a longer empty line before it, and the number of
empty lines before it. -/
def findIndent : Nat → Nat → Nat → Walk (Nat × Nat)
  | 0, deepest, ends => return (deepest, ends)
  | fuel + 1, deepest, ends => do
      skipBlanks ((← get).rest.takeWhile fun c => c = ' ').length
      let deepest := max deepest (← get).place.column
      if isBreak (← peek) then
        skipBreak
        findIndent fuel deepest (ends + 1)
      else return (deepest, ends)

structure Lines where
  text : List Char
  isEnded : Bool
  /-- The number of empty lines behind the last line. -/
  ends : Nat
  isDeeper : Bool

/-- The characters between the last line and the next one.  In a folded block, ends of lines are
folded, unless a blank leads either line. -/
def Lines.gap (lines : Lines) (literal isDeeper : Bool) : List Char :=
  if !literal && lines.isEnded && !lines.isDeeper && !isDeeper then folded lines.ends
  else List.replicate (lines.ends + if lines.isEnded then 1 else 0) '\n'

def takeLines (literal : Bool) (indent : Nat) : Nat → Lines → Walk Lines
  | 0, lines => return lines
  | fuel + 1, lines => do
      let s ← get
      let isOver :=
        s.place.column ≠ indent || s.rest.isEmpty || (indent = 0 && isMark "..." s.rest)
      if isOver then return lines
      else
        let isDeeper := isBlank (← peek)
        let text := lines.gap literal isDeeper ++ lines.text
        let line ← takeWhile fun c => !isLineOver c
        let text := line.reverse ++ text
        if (← get).rest.isEmpty then return ⟨text, false, 0, isDeeper⟩
        else
          skipBreak
          let ends ← skipIndent indent (← steps) 0
          takeLines literal indent fuel ⟨text, true, ends, isDeeper⟩

def Lines.ending (lines : Lines) (ending : Ending) (isLast : Bool) : List Char :=
  match ending with
  | .strip => []
  | .clip => List.replicate clipped '\n'
  | .keep => List.replicate (clipped + lines.ends) '\n'
where
  clipped : Nat :=
    (if lines.isEnded then 1 else 0) + if isLast then 1 else 0

/-- The text of a block that no line makes, where its first line is ended or not. -/
def emptyBlock (ending : Ending) (isEnded : Bool) (ends : Nat) : List Char :=
  match ending with
  | .strip => []
  | .clip => if isEnded then ['\n'] else []
  | .keep => if isEnded then List.replicate (max ends 1) '\n' else []

def takeBlock (literal : Bool) : Walk (List Char) := do
  skip 1
  unrollValues
  let (ending, depth?) ← takeHeader
  let _ ← skipGap true
  require (isLineOver (← peek))
  let isEnded := isBreak (← peek)
  if isEnded then skipBreak
  require ((← peek) ≠ '\t')
  let outer := (← get).indent
  let left ← steps
  let (indent, ends) ←
    match depth? with
    | some depth =>
        let indent := (max outer 0).toNat + depth
        pure (indent, ← skipIndent indent left 0)
    | none => do
        let (deepest, ends) ← findIndent left 0 0
        pure (max deepest (outer + 1).toNat, ends)
  if (← get).rest.isEmpty then
    return emptyBlock ending isEnded ends
  else
    require (!((← column) < indent && outer < (← column)))
    let lines ← takeLines literal indent left ⟨[], false, ends, false⟩
    let s ← get
    let isLast := s.rest.isEmpty && max indent 1 ≤ s.place.column
    return lines.ending ending isLast ++ lines.text

def readBlock (literal : Bool) : Walk Unit := do
  saveKey
  allowKey true
  emit (.scalar false (String.ofList (← takeBlock literal).reverse))

end DecisionLogic.Yaml.Walk
