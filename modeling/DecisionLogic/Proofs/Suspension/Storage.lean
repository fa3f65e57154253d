import DecisionLogic.Json.Printer
import DecisionLogic.Json.Reader
import DecisionLogic.Suspension.Codec
import Mathlib.Algebra.Group.Nat.Defs

/-!
# Stored suspensions read back

Reading the stored form of an outcome gives the outcome back, whatever its values, names and depth:
the embedded JSON is never looked into, so it may hold the field names of the stored form, or whole
stored trees.  On the way the identifiers of points are written as text and read again;
`PointId.read?_text` says that none is changed.
-/

namespace DecisionLogic

/-! ## Identifiers -/

namespace Text

theorem hexValue?_digitChar : ∀ digit < 16, hexValue? (Nat.digitChar digit) = some digit := by
  decide

theorem hexDigits_succ (width n : Nat) :
    hexDigits (width + 1) n = hexDigits width (n / 16) ++ [Nat.digitChar (n % 16)] := by
  have hearlier : ∀ i ∈ List.range width,
      Nat.digitChar (n >>> (4 * (width - i)) % 16) =
        Nat.digitChar ((n / 16) >>> (4 * (width - 1 - i)) % 16) := by
    intro i hi
    have hplaces : 4 * (width - i) = 4 + 4 * (width - 1 - i) := by
      have hlt := List.mem_range.mp hi
      omega
    rw [hplaces, Nat.shiftRight_add, Nat.shiftRight_eq_div_pow n 4]
  unfold hexDigits
  rw [List.range_succ, List.map_append]
  simp only [Nat.add_sub_cancel, List.map_congr_left hearlier]
  simp

theorem hexNumber?_hexDigits (width n : Nat) :
    hexNumber? (hexDigits width n) = some (n % 16 ^ width) := by
  induction width generalizing n with
  | zero => simp [hexDigits, hexNumber?, Nat.mod_one]
  | succ width ih =>
      have hlast := hexValue?_digitChar (n % 16) (Nat.mod_lt n (by decide))
      have hearlier := ih (n / 16)
      unfold hexNumber? at hearlier ⊢
      rw [hexDigits_succ, List.foldlM_append, hearlier, Nat.pow_succ', Nat.mod_mul]
      simp [hlast, Nat.add_comm]

end Text

namespace PointId

@[simp] theorem length_digits (id : PointId) : id.digits.length = 32 :=
  Text.length_hexDigits 32 _

theorem ofDigits?_digits (id : PointId) : ofDigits? id.digits = some id := by
  have hvalue : id.value.toNat % 16 ^ 32 = id.value.toNat := Nat.mod_eq_of_lt id.value.isLt
  unfold ofDigits?
  rw [if_pos id.length_digits, digits, Text.hexNumber?_hexDigits, hvalue]
  simp

theorem ofGroups?_append {a b c d e : List Char} (ha : a.length = 8) (hb : b.length = 4)
    (hc : c.length = 4) (hd : d.length = 4) (he : e.length = 12) :
    ofGroups? (a ++ '-' :: b ++ '-' :: c ++ '-' :: d ++ '-' :: e) =
      ofDigits? (a ++ b ++ c ++ d ++ e) := by
  have hhyphens : (a ++ '-' :: b ++ '-' :: c ++ '-' :: d ++ '-' :: e).length = 36 ∧
      (a ++ '-' :: b ++ '-' :: c ++ '-' :: d ++ '-' :: e)[8]? = some '-' ∧
      (a ++ '-' :: b ++ '-' :: c ++ '-' :: d ++ '-' :: e)[13]? = some '-' ∧
      (a ++ '-' :: b ++ '-' :: c ++ '-' :: d ++ '-' :: e)[18]? = some '-' ∧
      (a ++ '-' :: b ++ '-' :: c ++ '-' :: d ++ '-' :: e)[23]? = some '-' := by
    simp [ha, hb, hc, hd, he]
  unfold ofGroups?
  rw [if_pos hhyphens]
  simp (disch := omega) [List.drop_append, List.drop_eq_nil_of_le, ha, hb, hc, hd]

theorem append_groups (ds : List Char) :
    ds.take 8 ++ (ds.drop 8).take 4 ++ (ds.drop 12).take 4 ++ (ds.drop 16).take 4 ++ ds.drop 20 =
      ds := by
  have hgroup (n : Nat) : (ds.drop n).take 4 ++ ds.drop (n + 4) = ds.drop n := by
    rw [← List.drop_drop, List.take_append_drop]
  simp only [List.append_assoc, hgroup, List.take_append_drop]

theorem read?_text (id : PointId) : read? id.text = some id := by
  have hgroups : ofGroups? id.text.toList = some id := by
    unfold text
    rw [String.toList_ofList, ofGroups?_append (by simp) (by simp) (by simp) (by simp) (by simp),
      append_groups, ofDigits?_digits]
  have hlength : id.text.toList.length = 36 := by simp [text]
  simp [read?, hlength, hgroups]

end PointId

theorem SuspensionPoint.ofFields?_tagged (p : SuspensionPoint) (tag : Json) :
    ofFields? (("t", tag) :: p.fields) = some p := by
  simp [ofFields?, fields, Fields.find?, ofParts?, PointId.read?_text]

/-! ## Trees -/

namespace PartialTree

mutual

theorem ofJson?_toJson (numbered : Bool) : ∀ tree : PartialTree,
    ofJson? numbered tree.toJson = some tree
  | .done value => by simp [toJson, ofJson?, Fields.find?, Kind.ofTag?]
  | .point p => by
      simp [toJson, ofJson?, Fields.find?, Kind.ofTag?, SuspensionPoint.ofFields?_tagged]
  | .sequence items => by
      have hitems : itemsField? [("t", .string "Sequence"), ("items", .array (itemsToJson items))] =
          some items := by
        simp [itemsField?, ofItems?, ofList?_itemsToJson items]
      simp [toJson, ofJson?, Fields.find?, Kind.ofTag?, hitems]
  | .pending logic => by simp [toJson, ofJson?, Fields.find?, Kind.ofTag?]
  | .call operator input args => by
      have hargs : argsField? [("t", .string "Call"), ("operator", .string operator),
          ("input", input), ("args", args.toJson)] = some args := by
        simp [argsField?, ofJson?_toJson true args]
      simp [toJson, ofJson?, Fields.find?, Kind.ofTag?, hargs]

theorem ofList?_itemsToJson : ∀ items : List PartialTree,
    ofList? (itemsToJson items) = some items
  | [] => rfl
  | item :: items => by
      simp [itemsToJson, ofList?, ofJson?_toJson true item, ofList?_itemsToJson items]

end

end PartialTree

theorem Suspension.ofJson?_toJson (suspension : Suspension) :
    Suspension.ofJson? suspension.toJson = some suspension := by
  simp [toJson, ofJson?, Fields.find?, PartialTree.ofJson?_toJson]

/-! ## Outcomes -/

namespace Evaluation

theorem ofJson?_toJson (evaluation : Evaluation) :
    Evaluation.ofJson? evaluation.toJson = some evaluation := by
  cases evaluation with
  | done value => simp [toJson, ofJson?, ofParts?, Fields.find?]
  | suspended suspension =>
      simp [toJson, ofJson?, ofParts?, Fields.find?, Suspension.ofJson?_toJson]

/-- However the stored form is written as text, if reading the text gives the stored form back, then
the outcome comes back too.  A suspension that is restored has the same points in the same order,
and it is continued by the same logic, or refuses the values for the same reason. -/
theorem restored_of_written {Text : Type} {write : Json → Text} {read : Text → Option Json}
    (evaluation : Evaluation)
    (hlayer : read (write evaluation.toJson) = some evaluation.toJson) :
    (read (write evaluation.toJson)).bind ofJson? = some evaluation ∧
      ∀ suspension, evaluation = .suspended suspension →
        ∃ restored, (read (write evaluation.toJson)).bind ofJson? = some (.suspended restored) ∧
          restored.points = suspension.points ∧
          ∀ replacements, restored.toLogic replacements = suspension.toLogic replacements := by
  have hrestored : (read (write evaluation.toJson)).bind ofJson? = some evaluation := by
    rw [hlayer, Option.bind_some, ofJson?_toJson]
  refine ⟨hrestored, ?_⟩
  rintro suspension rfl
  exact ⟨suspension, hrestored, rfl, fun _ => rfl⟩

/-- A point whose input looks like a stored tree itself. -/
def lookalike : Evaluation :=
  .suspended ⟨.point ⟨.fresh 255, "ask", .object [("t", .string "Done")], .null⟩⟩

set_option maxRecDepth 10000 in
theorem restored_of_written_lookalike :
    Json.read? Json.usualLevels lookalike.toJson.compact = some lookalike.toJson ∧
      (Json.read? Json.usualLevels lookalike.toJson.compact).bind ofJson? = some lookalike := by
  have hlayer : Json.read? Json.usualLevels lookalike.toJson.compact = some lookalike.toJson := by
    cbv
  exact ⟨hlayer, (restored_of_written lookalike hlayer).1⟩

end Evaluation
end DecisionLogic
