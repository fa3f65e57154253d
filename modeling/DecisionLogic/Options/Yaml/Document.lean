import DecisionLogic.Json.Fields
import DecisionLogic.Options.Yaml.Node
import DecisionLogic.Options.Yaml.Tokens

/-!
# Documents of YAML

The tokens of a text make the nodes of its documents.  An alias stands for the node whose anchor has
its name; the node of an anchor is known once it is complete.
-/

namespace DecisionLogic.Yaml

structure Builder where
  tokens : List Token
  handles : List (String × String)
  /-- The numbers of the anchors, the latest first. -/
  anchors : List (String × Nat)
  anchorCount : Nat
  nodes : List (Nat × Node)

def Builder.start (tokens : List Token) : Builder where
  tokens := tokens
  handles := []
  anchors := []
  anchorCount := 0
  nodes := []

abbrev Build :=
  StateT Builder Option

namespace Build

def peek? : Build (Option Token) :=
  return (← get).tokens.head?

def skip : Build Unit :=
  modify fun s => { s with tokens := s.tokens.drop 1 }

def isAt (tokens : List Token) : Build Bool :=
  return (← peek?).any fun token => token ∈ tokens

/-! ## Properties -/

/-- What a tag stands for.  A handle with a mark at both ends has to be known. -/
def resolve (handle suffix : String) : Build Tag := do
  let known? := Fields.find? (← get).handles handle
  if handle = "!!" then return ⟨known?.getD Node.commonTags, suffix⟩
  else
    match known? with
    | some leading => return ⟨leading, suffix⟩
    | none => if Walk.isClosedHandle handle.toList then failure else return ⟨handle, suffix⟩

def register (name : String) : Build Nat := do
  let s ← get
  set { s with anchors := (name, s.anchorCount) :: s.anchors, anchorCount := s.anchorCount + 1 }
  return s.anchorCount

def tag? : Build (Option Tag) := do
  match ← peek? with
  | some (.tag handle suffix) =>
      skip
      return some (← resolve handle suffix)
  | _ => return none

def anchor? : Build (Option Nat) := do
  match ← peek? with
  | some (.anchor name) =>
      skip
      return some (← register name)
  | _ => return none

def properties : Build (Option Tag × Option Nat) := do
  match ← anchor? with
  | some anchor => return (← tag?, some anchor)
  | none =>
      match ← tag? with
      | some tag => return (some tag, ← anchor?)
      | none => return (none, none)

/-- The node that a name stands for, which is bad as long as it is not complete. -/
def resolveAlias (name : String) : Build Node := do
  let s ← get
  match Fields.find? s.anchors name with
  | none => failure
  | some number => return (s.nodes.lookup number).getD .bad

def complete (anchor? : Option Nat) (node : Node) : Build Node := do
  match anchor? with
  | some anchor => modify fun s => { s with nodes := (anchor, node) :: s.nodes }
  | none => pure ()
  return node

def mappingOf (nodes : List Node) : Build Node := do
  return .mapping (← Node.entries? [] nodes.reverse)

def empty (tag? : Option Tag) (anchor? : Option Nat) : Build Node := do
  if tag?.isSome || anchor?.isSome then complete anchor? (Node.ofScalar true tag? "")
  else failure

/-! ## Nodes

The nodes of a mapping are its keys and values in turn.  The nodes read are kept with the latest
first; `fuel` bounds the steps. -/

mutual

/-- A node.  A node `inBlock` may be a block, and the dashes of a sequence that is a value may stand
in the column of its key. -/
def node : Nat → Bool → Bool → Build Node
  | 0, _, _ => failure
  | fuel + 1, inBlock, dashes => do
      match ← peek? with
      | some (.alias name) =>
          skip
          resolveAlias name
      | _ =>
          let (tag?, anchor?) ← properties
          match ← peek? with
          | some (.scalar plain text) =>
              skip
              complete anchor? (Node.ofScalar plain tag? text)
          | some .item =>
              if dashes then complete anchor? (.sequence (← dashedItems fuel []))
              else empty tag? anchor?
          | some .flowSequenceStart =>
              skip
              complete anchor? (.sequence (← flowItems fuel []))
          | some .flowMappingStart =>
              skip
              complete anchor? (← flowEntries fuel [])
          | some .sequenceStart =>
              if inBlock then
                skip
                complete anchor? (.sequence (← blockItems fuel []))
              else empty tag? anchor?
          | some .mappingStart =>
              if inBlock then
                skip
                complete anchor? (← blockEntries fuel [])
              else empty tag? anchor?
          | _ => empty tag? anchor?

def nodeOrNull : Nat → Bool → Bool → List Token → Build Node
  | 0, _, _, _ => failure
  | fuel + 1, inBlock, dashes, stops => do
      if ← isAt stops then return .null else node fuel inBlock dashes

def blockItems : Nat → List Node → Build (List Node)
  | 0, _ => failure
  | fuel + 1, before => do
      match ← peek? with
      | some .blockEnd =>
          skip
          return before.reverse
      | some .item =>
          skip
          let item ← nodeOrNull fuel true false [.item, .blockEnd]
          blockItems fuel (item :: before)
      | _ => failure

def dashedItems : Nat → List Node → Build (List Node)
  | 0, _ => failure
  | fuel + 1, before => do
      match ← peek? with
      | some .item =>
          skip
          let item ← nodeOrNull fuel true false [.item, .key, .value, .blockEnd]
          dashedItems fuel (item :: before)
      | _ => return before.reverse

def value : Nat → Bool → List Token → Build Node
  | 0, _, _ => failure
  | fuel + 1, inBlock, stops => do
      match ← peek? with
      | some .value =>
          skip
          nodeOrNull fuel inBlock inBlock stops
      | _ => return .null

def blockEntries : Nat → List Node → Build Node
  | 0, _ => failure
  | fuel + 1, before => do
      let stops := [.key, .value, .blockEnd]
      match ← peek? with
      | some .blockEnd =>
          skip
          mappingOf before
      | some .key =>
          skip
          let key ← nodeOrNull fuel true true stops
          let value ← value fuel true stops
          blockEntries fuel (value :: key :: before)
      | some .value =>
          let value ← value fuel true stops
          blockEntries fuel (value :: .null :: before)
      | _ => failure

def flowItems : Nat → List Node → Build (List Node)
  | 0, _ => failure
  | fuel + 1, before => do
      match ← peek? with
      | some .flowSequenceEnd =>
          skip
          return before.reverse
      | some .key =>
          skip
          let item ← flowPair fuel
          flowItemsEnd fuel (item :: before)
      | _ =>
          let item ← node fuel false false
          flowItemsEnd fuel (item :: before)

def flowItemsEnd : Nat → List Node → Build (List Node)
  | 0, _ => failure
  | fuel + 1, before => do
      match ← peek? with
      | some .flowSequenceEnd =>
          skip
          return before.reverse
      | some .comma =>
          skip
          flowItems fuel before
      | _ => failure

/-- A mapping of one entry, which is an item of a flow.  Where the key is left out, what follows it
is skipped. -/
def flowPair : Nat → Build Node
  | 0 => failure
  | fuel + 1 => do
      if ← isAt [.value, .comma, .flowSequenceEnd] then
        skip
        let value ← value fuel false [.comma, .flowSequenceEnd]
        mappingOf [value, .null]
      else
        let key ← node fuel false false
        let value ← value fuel false [.comma, .flowSequenceEnd]
        mappingOf [value, key]

/-- The mapping of the entries of a flow up to its end, with commas between them. -/
def flowEntries : Nat → List Node → Build Node
  | 0, _ => failure
  | fuel + 1, before => do
      let stops := [.comma, .flowMappingEnd]
      match ← peek? with
      | some .flowMappingEnd =>
          skip
          mappingOf before
      | some .key =>
          skip
          let key ← nodeOrNull fuel false false (.value :: stops)
          let value ← value fuel false stops
          flowEntriesEnd fuel (value :: key :: before)
      | some .value =>
          let value ← value fuel false stops
          flowEntriesEnd fuel (value :: .null :: before)
      | _ =>
          let key ← node fuel false false
          flowEntriesEnd fuel (.null :: key :: before)

def flowEntriesEnd : Nat → List Node → Build Node
  | 0, _ => failure
  | fuel + 1, before => do
      match ← peek? with
      | some .flowMappingEnd =>
          skip
          mappingOf before
      | some .comma =>
          skip
          flowEntries fuel before
      | _ => failure

end

/-! ## Documents -/

def skipDocumentEnds : Build Unit :=
  modify fun s => { s with tokens := s.tokens.dropWhile fun token => token = .documentEnd }

/-- The directives before a document.  The last one tells all handles, and there is one version at
most. -/
def directives : Nat → Bool → Build Unit
  | 0, _ => failure
  | fuel + 1, hasVersion => do
      match ← peek? with
      | some .version =>
          if hasVersion then failure
          skip
          modify fun s => { s with handles := [] }
          directives fuel true
      | some (.tagRule handle leading) =>
          skip
          modify fun s => { s with handles := [(handle, leading)] }
          directives fuel hasVersion
      | _ => pure ()

def isAtDirective : Build Bool := do
  match ← peek? with
  | some .version => return true
  | some (.tagRule ..) => return true
  | _ => return false

/-- The node of a document behind its first mark, which may be left out. -/
def content (fuel : Nat) : Build Node := do
  if (← get).tokens.isEmpty || (← isAtDirective) || (← isAt [.documentStart, .documentEnd]) then
    return .null
  else node fuel true false

/-- The node of a document.  Without its first mark it may come only where `implicit` holds. -/
def document (fuel : Nat) (implicit : Bool) : Build Node := do
  if (← isAtDirective) || (← isAt [.documentStart]) || !implicit then
    directives fuel false
    if ← isAt [.documentStart] then
      skip
      content fuel
    else failure
  else node fuel true false

/-- The end of a document, and whether its mark is there.  A directive comes only behind a mark. -/
def documentEnd : Build Bool := do
  modify fun s => { s with handles := [] }
  if ← isAt [.documentEnd] then
    skip
    return true
  else if ← isAtDirective then failure
  else return false

/-- The nodes of all documents behind those read `before`, latest first. -/
def documents : Nat → Bool → List Node → Build (List Node)
  | 0, _, _ => failure
  | fuel + 1, implicit, before => do
      skipDocumentEnds
      if (← get).tokens.isEmpty then return before.reverse
      else
        let node ← document fuel implicit
        documents fuel (← documentEnd) (node :: before)

end Build

def documents? (tokens : List Token) : Option (List Node) :=
  (Build.documents (4 * tokens.length + 4) true []).run' (Builder.start tokens)

end DecisionLogic.Yaml
