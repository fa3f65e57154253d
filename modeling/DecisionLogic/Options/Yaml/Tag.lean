import DecisionLogic.Options.Yaml.Cursor

/-!
# Tags, anchors and directives of YAML

A tag is written in full between angle brackets, or as a handle and a suffix, whose leading part a
directive may give.
-/

namespace DecisionLogic.Yaml.Walk

/-! ## Characters -/

def isWordChar (c : Char) : Bool :=
  c.isAlphanum || c = '_' || c = '-'

def isAddressChar (c : Char) : Bool :=
  isWordChar c || c ∈ "#;/?:@&=+$,.!~*'()[]%".toList

def isTagChar (c : Char) : Bool :=
  isAddressChar c && !isFlow c && c ≠ '!'

def isAnchorChar (c : Char) : Bool :=
  !isGap c && !isFlow c && c.toNat ≠ 0xfeff

/-! ## Addresses -/

def byteCount? (byte : Nat) : Option Nat :=
  if byte < 0x80 then some 1
  else if byte < 0xc0 then none
  else if byte < 0xe0 then some 2
  else if byte < 0xf0 then some 3
  else if byte < 0xf8 then some 4
  else none

def takeByte : Walk Nat := do
  match (← get).rest with
  | '%' :: a :: b :: _ =>
      skip 3
      Text.baseNumber? 16 [a, b]
  | _ => failure

/-- Further bytes of an escaped character.  The bytes are put side by side. -/
def takeBytes : Nat → Nat → Walk Nat
  | 0, code => return code
  | count + 1, code => do
      let byte ← takeByte
      require (byte / 0x40 = 2)
      takeBytes count (code * 0x100 + byte)

def takeEscaped : Walk Char := do
  let byte ← takeByte
  let count ← byteCount? byte
  Text.charAt? (← takeBytes (count - 1) byte)

/-- The characters of an address that satisfy a condition, behind those read `before`, latest first.
-/
def takeAddress (p : Char → Bool) : Nat → List Char → Walk (List Char)
  | 0, before => return before.reverse
  | fuel + 1, before => do
      let c ← peek
      if c = '%' then takeAddress p fuel ((← takeEscaped) :: before)
      else if p c then
        skip 1
        takeAddress p fuel (c :: before)
      else return before.reverse

def takeAddressOf (p : Char → Bool) : Walk (List Char) := do
  takeAddress p (← steps) []

/-! ## Tags -/

def takeHandle : Walk (List Char) := do
  require ((← peek) = '!')
  skip 1
  let word ← takeWhile isWordChar
  if (← peek) = '!' then
    skip 1
    return '!' :: word ++ ['!']
  else return '!' :: word

def isClosedHandle (handle : List Char) : Bool :=
  2 ≤ handle.length && handle.getLast? = some '!'

def takeFullTag : Walk Token := do
  skip 2
  let suffix ← takeAddressOf isAddressChar
  require ((← peek) = '>')
  skip 1
  return .tag "" (String.ofList suffix)

/-- A tag by its handle.  What no mark ends is part of the suffix, and a mark alone is a suffix. -/
def takeShortTag : Walk Token := do
  let handle ← takeHandle
  let suffix ← takeAddressOf isTagChar
  if isClosedHandle handle then
    require (!suffix.isEmpty)
    return .tag (String.ofList handle) (String.ofList suffix)
  else
    let suffix := handle.drop 1 ++ suffix
    if suffix.isEmpty then return .tag "" "!"
    else return .tag "!" (String.ofList suffix)

def readTag : Walk Unit := do
  saveKey
  allowKey false
  let tag ← if (← peekNext) = '<' then takeFullTag else takeShortTag
  let c ← peek
  require (isGap c || ((← isInFlow) && isFlow c))
  emit tag

/-! ## Anchors -/

def readAnchor (token : String → Token) : Walk Unit := do
  saveKey
  allowKey false
  skip 1
  let name ← takeWhile isAnchorChar
  require (!name.isEmpty)
  emit (token (String.ofList name))

/-! ## Directives -/

def skipGapChars : Walk Unit := do
  skipBlanks ((← get).rest.takeWhile isBlank).length

def skipNumber : Walk Unit := do
  let digits ← takeWhile Char.isDigit
  require (!digits.isEmpty && digits.length ≤ 9)

def takeVersion : Walk Token := do
  skipGapChars
  skipNumber
  require ((← peek) = '.')
  skip 1
  skipNumber
  return .version

def takeLeading : Walk (List Char) := do
  let c ← peek
  if c = '!' then
    skip 1
    return c :: (← takeAddressOf isAddressChar)
  else
    require (isTagChar c)
    takeAddressOf isAddressChar

def takeTagRule : Walk Token := do
  skipGapChars
  let handle ← takeHandle
  require (isClosedHandle handle || handle = ['!'])
  skipGapChars
  let leading ← takeLeading
  require (isGap (← peek))
  return .tagRule (String.ofList handle) (String.ofList leading)

/-- The rest of a directive of an unknown name, which stands for no handle. -/
def takeUnknown : Walk Token := do
  skipComment
  return .tagRule "" ""

def readDirective : Walk Unit := do
  unroll (-1)
  dropKey
  allowKey false
  skip 1
  let name ← takeWhile isWordChar
  require (!name.isEmpty && isGap (← peek))
  let token ←
    if name = "YAML".toList then takeVersion
    else if name = "TAG".toList then takeTagRule
    else takeUnknown
  let _ ← skipGap true
  let c ← peek
  require (isLineOver c)
  if isBreak c then skipBreak
  emit token

end DecisionLogic.Yaml.Walk
