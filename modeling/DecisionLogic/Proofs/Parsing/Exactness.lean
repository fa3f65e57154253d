import DecisionLogic.Proofs.Continuation.Trees

/-!
# How exactly trees and values match

Reading a value and writing the tree down again gives the value back.  The bounded reader agrees
with the free one on the values that are not nested deeper than its limit, and refuses the others.
Written down and read again, a tree is the same one exactly if no literal in it reads as anything
but a literal.
-/

namespace DecisionLogic

/-! ## Nesting -/

namespace Json

mutual

/-- The levels below a value when it is read as logic: elements and arguments lie one level below
their container, and what is read as a literal is not looked into. -/
def nesting : Json → Nat
  | .array items => itemsNesting items
  | .object [(_, args)] => args.nesting + 1
  | _ => 0

def itemsNesting : List Json → Nat
  | [] => 0
  | item :: items => max (item.nesting + 1) (itemsNesting items)

end

/-- Read as logic, the value is a sequence or an operation. -/
inductive ReadsAsLogic : Json → Prop
  | sequence (items : List Json) : ReadsAsLogic (.array items)
  | operation (name : String) (args : Json) : ReadsAsLogic (.object [(name, args)])

theorem not_readsAsLogic_iff (value : Json) : ¬ value.ReadsAsLogic ↔ value.isInert = true := by
  cases value with
  | array items => exact iff_of_false (fun h => h (.sequence items)) (by simp [isInert])
  | object fields =>
      rcases fields with _ | ⟨⟨name, args⟩, _ | ⟨second, fields⟩⟩
      · exact iff_of_true (by rintro ⟨⟩) rfl
      · exact iff_of_false (fun h => h (.operation name args)) (by simp [isInert])
      · exact iff_of_true (by rintro ⟨⟩) rfl
  | null | bool | number | string => exact iff_of_true (by rintro ⟨⟩) rfl

end Json

namespace Logic

variable {limit : Nat}

/-- The answer of the bounded reader, given the deepest level that it comes to. -/
def limited {α : Type} (limit deepest : Nat) (tree : α) : Except Failure α :=
  if deepest ≤ limit then .ok tree else .error (.nestingTooDeep limit)

theorem limited_of_guard {depth : Nat} (value : Json) :
    (if limit < depth then .error (.nestingTooDeep limit) else .ok (.literal value) :
      Except Failure Logic) = limited limit (depth + 0) (.literal value) := by
  unfold limited
  by_cases hdepth : limit < depth
  · rw [if_pos hdepth, if_neg (by omega)]
  · rw [if_neg hdepth, if_pos (by omega)]

theorem limited_map {α β : Type} (deepest : Nat) (tree : α) (f : α → β) :
    (limited limit deepest tree).map f = limited limit deepest (f tree) := by
  unfold limited
  split
  · rfl
  · rfl

/-- A node that is too deep itself has nothing above the limit below it either. -/
theorem limited_of_too_deep {α : Type} {depth : Nat} (hdepth : limit < depth) (levels : Nat)
    (tree : α) : limited limit (depth + levels) tree = .error (.nestingTooDeep limit) :=
  if_neg (by omega)

mutual

theorem parseAt_eq_limited : ∀ (value : Json) (depth : Nat),
    parseAt limit depth value = limited limit (depth + value.nesting) (parse value)
  | .array items, depth => by
      unfold parseAt
      rw [Json.nesting, parse]
      by_cases hdepth : limit < depth
      · rw [if_pos hdepth, limited_of_too_deep hdepth]
      · rw [if_neg hdepth, parseItemsAt_eq_limited items depth (by omega), limited_map]
  | .object [(name, args)], depth => by
      unfold parseAt
      rw [Json.nesting, parse]
      by_cases hdepth : limit < depth
      · rw [if_pos hdepth, limited_of_too_deep hdepth]
      · rw [if_neg hdepth, parseAt_eq_limited args (depth + 1), limited_map]
        congr 1
        omega
  | .object [], depth => by simpa [parseAt, Json.nesting, parse] using limited_of_guard (.object [])
  | .object (first :: second :: rest), depth => by
      simpa [parseAt, Json.nesting, parse] using
        limited_of_guard (.object (first :: second :: rest))
  | .null, depth => by simpa [parseAt, Json.nesting, parse] using limited_of_guard .null
  | .bool b, depth => by simpa [parseAt, Json.nesting, parse] using limited_of_guard (.bool b)
  | .number n, depth => by simpa [parseAt, Json.nesting, parse] using limited_of_guard (.number n)
  | .string text, depth => by
      simpa [parseAt, Json.nesting, parse] using limited_of_guard (.string text)

theorem parseItemsAt_eq_limited : ∀ (items : List Json) (depth : Nat), depth ≤ limit →
    parseItemsAt limit (depth + 1) items =
      limited limit (depth + Json.itemsNesting items) (parseItems items)
  | [], depth, hdepth => by
      rw [parseItemsAt, Json.itemsNesting, parseItems]
      exact (if_pos hdepth).symm
  | item :: items, depth, hdepth => by
      rw [parseItemsAt, parseAt_eq_limited item, parseItemsAt_eq_limited items depth hdepth,
        Json.itemsNesting, parseItems]
      unfold limited
      by_cases hitem : depth + 1 + item.nesting ≤ limit
      · rw [if_pos hitem]
        by_cases hitems : depth + Json.itemsNesting items ≤ limit
        · rw [if_pos hitems, if_pos (by omega)]
          rfl
        · rw [if_neg hitems, if_neg (by omega)]
          rfl
      · have hdeepest : ¬ depth + max (item.nesting + 1) (Json.itemsNesting items) ≤ limit := by
          omega
        rw [if_neg hitem, if_neg hdeepest]

end

theorem parseBounded_eq_limited (limit : Nat) (value : Json) :
    parseBounded limit value = limited limit value.nesting (parse value) := by
  unfold parseBounded
  rw [parseAt_eq_limited, Nat.zero_add]

/-! ## Trees that are read back -/

mutual

theorem isInert_iff_literals : ∀ node : Logic,
    node.isInert = true ↔ ∀ value, (literal value).Within node → value.isInert = true
  | .literal value => by
      rw [isInert]
      constructor
      · rintro hinert _ ⟨⟩
        exact hinert
      · exact fun hliterals => hliterals value (.self _)
  | .sequence items => by
      rw [isInert, allInert_iff_literals items]
      constructor
      · rintro hitems value (_ | ⟨hitem, hwithin⟩ | _)
        exact hitems _ hitem value hwithin
      · exact fun hliterals item hitem value hwithin => hliterals value (.item hitem hwithin)
  | .operation name args => by
      rw [isInert, isInert_iff_literals args]
      constructor
      · rintro hargs value (_ | _ | hwithin)
        exact hargs value hwithin
      · exact fun hliterals value hwithin => hliterals value (.args hwithin)

theorem allInert_iff_literals : ∀ items : List Logic,
    allInert items = true ↔
      ∀ item ∈ items, ∀ value, (literal value).Within item → value.isInert = true
  | [] => by simp [allInert]
  | item :: items => by
      rw [allInert, Bool.and_eq_true, isInert_iff_literals item, allInert_iff_literals items,
        List.forall_mem_cons]

end

mutual

/-- A tree that is read back as an equal one is read back as itself: a literal that changes
turns into another kind of node. -/
theorem isInert_of_same : ∀ node : Logic, (parse node.toJson).same node = true → node.isInert = true
  | .literal value, hsame => by
      rw [isInert, ← Json.not_readsAsLogic_iff]
      rw [toJson] at hsame
      rintro (items | ⟨name, args⟩)
      · simp [parse, same] at hsame
      · simp [parse, same] at hsame
  | .sequence items, hsame => by
      rw [toJson, parse, same] at hsame
      rw [isInert]
      exact allInert_of_same items hsame
  | .operation name args, hsame => by
      rw [toJson, parse, same, Bool.and_eq_true] at hsame
      rw [isInert]
      exact isInert_of_same args hsame.2

theorem allInert_of_same : ∀ items : List Logic,
    sameItems (parseItems (itemsToJson items)) items = true → allInert items = true
  | [], _ => rfl
  | item :: items, hsame => by
      rw [itemsToJson, parseItems, sameItems, Bool.and_eq_true] at hsame
      rw [allInert, isInert_of_same item hsame.1, allInert_of_same items hsame.2]
      rfl

end

theorem parse_toJson_iff (node : Logic) :
    parse node.toJson = node ↔ ∀ value, (literal value).Within node → ¬ value.ReadsAsLogic := by
  have hplain : parse node.toJson = node ↔ node.isInert = true := plain_iff_isInert node
  rw [hplain, isInert_iff_literals]
  simp only [Json.not_readsAsLogic_iff]

/-- What parsing keeps, what it refuses, and which trees it makes.  A tree that is not read back as
itself is not even read back as an equal one. -/
theorem parse_exact :
    (∀ value : Json, (parse value).toJson = value) ∧
    (∀ (limit : Nat) (value : Json), parseBounded limit value =
      if value.nesting ≤ limit then .ok (parse value) else .error (.nestingTooDeep limit)) ∧
    ∀ node : Logic,
      (parse node.toJson = node ↔ ∀ value, (literal value).Within node → ¬ value.ReadsAsLogic) ∧
      ((∃ value, parse value = node) ↔ parse node.toJson = node) ∧
      ((parse node.toJson).same node = true → parse node.toJson = node) := by
  refine ⟨toJson_parse, parseBounded_eq_limited, fun node => ⟨parse_toJson_iff node, ?_, ?_⟩⟩
  · constructor
    · rintro ⟨value, rfl⟩
      rw [toJson_parse]
    · exact fun hparse => ⟨node.toJson, hparse⟩
  · intro hsame
    have hplain : node.Plain := (plain_iff_isInert node).mpr (isInert_of_same node hsame)
    exact hplain

end Logic
end DecisionLogic
