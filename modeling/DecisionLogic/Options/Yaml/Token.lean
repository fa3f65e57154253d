/-!
# Tokens of YAML

The pieces that the text of a file is cut into.  A block has a token at its start and one at its
end, though its text has none: the columns of its lines tell both.  A mapping in a flow has braces,
which an entry in brackets may leave out.
-/

namespace DecisionLogic.Yaml

inductive Token where
  | version
  /-- A directive for what the handle of a tag stands for. -/
  | tagRule (handle leading : String)
  | documentStart
  | documentEnd
  | sequenceStart
  | mappingStart
  | blockEnd
  | flowSequenceStart
  | flowSequenceEnd
  | flowMappingStart
  | flowMappingEnd
  | comma
  | item
  | key
  | value
  | alias (name : String)
  | anchor (name : String)
  | tag (handle suffix : String)
  | scalar (plain : Bool) (text : String)
deriving DecidableEq, Repr

end DecisionLogic.Yaml
