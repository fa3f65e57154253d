import DecisionLogic.Text.Hexadecimal

/-!
# Suspension point identifiers

An identifier is a number of 128 bits, written as 32 hexadecimal digits in groups of 8, 4, 4, 4
and 12.  Reading takes letters of either case, and also accepts the digits without hyphens, and the
groups in braces or behind `urn:uuid:`.
-/

namespace DecisionLogic

structure PointId where
  value : BitVec 128
deriving DecidableEq

namespace PointId

def fresh (n : Nat) : PointId :=
  ⟨BitVec.ofNat 128 n⟩

def digits (id : PointId) : List Char :=
  Text.hexDigits 32 id.value.toNat

def text (id : PointId) : String :=
  let ds := id.digits
  String.ofList (ds.take 8 ++ '-' :: (ds.drop 8).take 4 ++ '-' :: (ds.drop 12).take 4 ++
    '-' :: (ds.drop 16).take 4 ++ '-' :: ds.drop 20)

def ofDigits? (cs : List Char) : Option PointId :=
  if cs.length = 32 then (Text.hexNumber? cs).map fun n => ⟨BitVec.ofNat 128 n⟩ else none

def ofGroups? (cs : List Char) : Option PointId :=
  if cs.length = 36 ∧ cs[8]? = some '-' ∧ cs[13]? = some '-' ∧ cs[18]? = some '-' ∧
      cs[23]? = some '-' then
    ofDigits? (cs.take 8 ++ (cs.drop 9).take 4 ++ (cs.drop 14).take 4 ++ (cs.drop 19).take 4 ++
      cs.drop 24)
  else none

def urnLead : List Char :=
  "urn:uuid:".toList

def read? (text : String) : Option PointId :=
  let cs := text.toList
  if cs.length = 32 then ofDigits? cs
  else if cs.length = 38 ∧ cs.head? = some '\x7b' ∧ cs.getLast? = some '\x7d' then
    ofGroups? (cs.drop 1).dropLast
  else if cs.length = 45 ∧ (cs.take 9).map Char.toLower = urnLead then ofGroups? (cs.drop 9)
  else ofGroups? cs

end PointId
end DecisionLogic
