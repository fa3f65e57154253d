import DecisionLogic.Proofs.Alike.Operator

/-!
# The height of a tree

A tree that was parsed within a limit of levels is not higher than the levels that an evaluation may
use, so no evaluation of it runs out of levels.
-/

namespace DecisionLogic

namespace Logic

mutual

def height : Logic → Nat
  | .literal _ => 1
  | .sequence items => itemsHeight items + 1
  | .operation _ args => args.height + 1

def itemsHeight : List Logic → Nat
  | [] => 0
  | item :: items => max item.height (itemsHeight items)

end

theorem height_pos (node : Logic) : 0 < node.height := by
  cases node with
  | literal value => exact Nat.one_pos
  | sequence items => exact Nat.succ_pos _
  | operation name args => exact Nat.succ_pos _

theorem height_le_itemsHeight {items : List Logic} {item : Logic} (hitem : item ∈ items) :
    item.height ≤ itemsHeight items := by
  induction items with
  | nil => simp at hitem
  | cons first rest ih =>
      rw [itemsHeight]
      rcases List.mem_cons.mp hitem with rfl | hrest
      · exact Nat.le_max_left _ _
      · exact Nat.le_trans (ih hrest) (Nat.le_max_right _ _)

theorem Within.height_le {node other : Logic} (hwithin : node.Within other) :
    node.height ≤ other.height := by
  induction hwithin with
  | self => exact Nat.le_refl _
  | item hitem _ ih =>
      rw [height]
      exact Nat.le_trans ih (Nat.le_succ_of_le (height_le_itemsHeight hitem))
  | args _ ih =>
      rw [height]
      exact Nat.le_succ_of_le ih

theorem height_literal_of_guard {limit depth : Nat} {value : Json} {node : Logic}
    (hparse : (if limit < depth then .error (.nestingTooDeep limit) else .ok (.literal value) :
      Except Failure Logic) = .ok node) : depth + node.height ≤ limit + 1 := by
  split at hparse
  · cases hparse
  · cases hparse
    rw [height]
    omega

mutual

theorem height_of_parseAt {limit : Nat} : ∀ {value : Json} {depth : Nat} {node : Logic},
    parseAt limit depth value = .ok node → depth + node.height ≤ limit + 1
  | .array items, depth, node, hparse => by
      unfold parseAt at hparse
      split at hparse
      · cases hparse
      · cases hitems : parseItemsAt limit (depth + 1) items with
        | error failure => simp [hitems, Except.map] at hparse
        | ok nodes =>
            rw [hitems] at hparse
            cases hparse
            have hheight := itemsHeight_of_parseItemsAt (by omega) hitems
            rw [height]
            omega
  | .object [(name, args)], depth, node, hparse => by
      unfold parseAt at hparse
      split at hparse
      · cases hparse
      · cases hargs : parseAt limit (depth + 1) args with
        | error failure => simp [hargs, Except.map] at hparse
        | ok tree =>
            rw [hargs] at hparse
            cases hparse
            have hheight := height_of_parseAt hargs
            rw [height]
            omega
  | .object [], depth, node, hparse => height_literal_of_guard (by simpa [parseAt] using hparse)
  | .object (_ :: _ :: _), depth, node, hparse =>
      height_literal_of_guard (by simpa [parseAt] using hparse)
  | .null, depth, node, hparse => height_literal_of_guard (by simpa [parseAt] using hparse)
  | .bool _, depth, node, hparse => height_literal_of_guard (by simpa [parseAt] using hparse)
  | .number _, depth, node, hparse => height_literal_of_guard (by simpa [parseAt] using hparse)
  | .string _, depth, node, hparse => height_literal_of_guard (by simpa [parseAt] using hparse)

theorem itemsHeight_of_parseItemsAt {limit : Nat} :
    ∀ {values : List Json} {depth : Nat} {nodes : List Logic}, depth ≤ limit + 1 →
      parseItemsAt limit depth values = .ok nodes → depth + itemsHeight nodes ≤ limit + 1
  | [], depth, nodes, hdepth, hparse => by
      cases hparse
      rw [itemsHeight]
      exact hdepth
  | value :: values, depth, nodes, hdepth, hparse => by
      unfold parseItemsAt at hparse
      cases hfirst : parseAt limit depth value with
      | error failure => simp [hfirst] at hparse
      | ok first =>
          cases hrest : parseItemsAt limit depth values with
          | error failure => simp [hfirst, hrest, Except.map] at hparse
          | ok rest =>
              rw [hfirst, hrest] at hparse
              cases hparse
              have hheight := height_of_parseAt hfirst
              have hheights := itemsHeight_of_parseItemsAt hdepth hrest
              rw [itemsHeight]
              omega

end

theorem height_of_parseBounded {limit : Nat} {value : Json} {node : Logic}
    (hparse : parseBounded limit value = .ok node) : node.height ≤ limit + 1 := by
  have hheight := height_of_parseAt hparse
  omega

end Logic

theorem Engine.run_of_parse {engine : Engine} {logic : Json} {node : Logic}
    (hparse : Logic.parseBounded engine.options.maxDepth logic = .ok node) (data : Json)
    (above : List Json) : engine.run logic data above = engine.runLogic node data above := by
  unfold run
  rw [hparse]
  exact pure_bind node _

end DecisionLogic
