import DecisionLogic.Options.Yaml.Scalar
import DecisionLogic.Options.Yaml.Tag

/-!
# From a text of YAML to its tokens

The text of a file is cut into tokens one after another.  The first characters of a token tell what
it is.
-/

namespace DecisionLogic.Yaml.Walk

/-! ## Documents -/

def readMark (token : Token) : Walk Unit := do
  unroll (-1)
  dropKey
  allowKey false
  skip 3
  emit token

def readDocumentEnd : Walk Unit := do
  readMark .documentEnd
  let _ ← skipGap true
  require (isLineOver (← peek))

def readEnd : Walk Unit := do
  dropKey
  unroll (-1)

/-! ## Flows -/

def greatestFlow : Nat :=
  255

def endPair : Walk Unit := do
  let s ← get
  if s.pairs.head? = some true then
    modify fun s => { s with inMapping := false, pairs := false :: s.pairs.drop 1 }
    emit .flowMappingEnd

def readFlowStart (token : Token) : Walk Unit := do
  saveKey
  rollValue
  require ((← get).flowLevel < greatestFlow)
  modify fun s => { s with flowLevel := s.flowLevel + 1, keys := none :: s.keys }
  allowKey true
  skip 1
  if token = .flowMappingStart then modify fun s => { s with inMapping := true }
  else modify fun s => { s with pairs := false :: s.pairs }
  let _ ← skipGap true
  emit token

/-- A flow ends.  It may be a key of a flow around it, which needs no blank behind its colon. -/
def readFlowEnd (token : Token) : Walk Unit := do
  dropKey
  modify fun s =>
    if 0 < s.flowLevel then { s with flowLevel := s.flowLevel - 1, keys := s.keys.drop 1 } else s
  allowKey false
  if token = .flowSequenceEnd then
    endPair
    modify fun s => { s with pairs := s.pairs.drop 1 }
  skip 1
  let _ ← skipGap true
  if ← isInFlow then modify fun s => { s with adjacentAt := s.place.index }
  emit token

def readComma : Walk Unit := do
  dropKey
  allowKey true
  endPair
  skip 1
  let _ ← skipGap true
  emit .comma

/-! ## Items, keys and values -/

def readItem : Walk Unit := do
  require (!(← isInFlow) && (← get).keyAllowed)
  let column := (← get).place.column
  skip 1
  roll column (← get).tokens.size .sequenceStart
  let gap ← skipGap true
  require !(gap.hasTab && (← peek) = '-' && isGap (← peekNext))
  let c ← peek
  if isBreak c || isFlow c then rollValue
  dropKey
  allowKey true
  emit .item

def readKey : Walk Unit := do
  let inFlow ← isInFlow
  if inFlow then modify fun s => { s with inMapping := true }
  else
    let s ← get
    require s.keyAllowed
    roll s.place.column s.tokens.size .mappingStart
  dropKey
  allowKey !inFlow
  skip 1
  require (← skipSpace (← steps) false)
  require ((← peek) ≠ '\t')
  emit .key

/-- The value of a key that was found behind it; `isPair` tells whether the key starts a mapping of
one entry. -/
def startValue (isPair : Bool) (line : Nat) (key : PossibleKey) : Walk Unit := do
  insert key.number .key
  if isPair then
    require (line ≤ key.place.line)
    insert key.number .flowMappingStart
  roll key.place.column key.number .mappingStart
  rollValue
  setKey none
  allowKey false

def startLoneValue (isPair : Bool) (column : Nat) : Walk Unit := do
  let inFlow ← isInFlow
  if isPair then emit .flowMappingStart
  if !inFlow then
    let s ← get
    require s.keyAllowed
    roll column s.tokens.size .mappingStart
  rollValue
  allowKey !inFlow

def readValue : Walk Unit := do
  let s ← get
  let isPair := !s.pairs.isEmpty && !s.inMapping
  if isPair then modify fun s => { s with pairs := true :: s.pairs.drop 1 }
  skip 1
  if (← peek) = '\t' then
    let gap ← skipGap true
    let c ← peek
    require (gap.hasSpace || !(c = '-' || isWordChar c))
  match ← key? with
  | some key => startValue isPair s.place.line key
  | none => startLoneValue isPair s.place.column
  emit .value

/-! ## All tokens -/

/-- The colon of a value has a gap behind it, unless it stands in a flow and the flow goes on behind
it or a quoted key or a flow is before it. -/
def isValue (s : Cursor) (next : Char) : Bool :=
  isGap next || (0 < s.flowLevel && (isFlow next || s.place.index = s.adjacentAt))

def flowToken? : Char → Option (Walk Unit)
  | '[' => some (readFlowStart .flowSequenceStart)
  | '\x7b' => some (readFlowStart .flowMappingStart)
  | ']' => some (readFlowEnd .flowSequenceEnd)
  | '\x7d' => some (readFlowEnd .flowMappingEnd)
  | ',' => some readComma
  | _ => none

def readNext (c : Char) : Walk Unit := do
  let s ← get
  let next ← peekNext
  let inFlow := 0 < s.flowLevel
  match flowToken? c with
  | some read => read
  | none =>
      if c = '-' && isGap next then readItem
      else if c = '?' && isGap next then readKey
      else if c = ':' && isValue s next then readValue
      else if c = '*' then readAnchor .alias
      else if c = '&' then readAnchor .anchor
      else if c = '!' then readTag
      else if c = '|' && !inFlow then readBlock true
      else if c = '>' && !inFlow then readBlock false
      else if c = '\'' || c = '"' then readQuoted c
      else if c = '%' || c = '@' || c = '\x60' then failure
      else readPlain

def readContent (c : Char) : Walk Unit := do
  require ((← get).indent ≤ (← column))
  readNext c

def readAll : Nat → Walk Unit
  | 0 => failure
  | fuel + 1 => do
      skipToToken (← steps)
      dropOldKey
      unroll (← column)
      let s ← get
      let isFirst := s.place.column = 0
      match s.rest with
      | [] => readEnd
      | c :: _ =>
          if isFirst && c = '%' then readDirective
          else if isFirst && isMark "---" s.rest then readMark .documentStart
          else if isFirst && isMark "..." s.rest then readDocumentEnd
          else readContent c
          readAll fuel

end Walk

def tokens? (text : String) : Option (List Token) :=
  let cs := text.toList.takeWhile fun c => c ≠ endMark
  (Walk.readAll (cs.length + 1)).run (Cursor.start cs) |>.map fun (_, s) => s.tokens.toList

end DecisionLogic.Yaml
