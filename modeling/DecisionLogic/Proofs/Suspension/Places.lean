import DecisionLogic.Suspension.Basic
import Mathlib.Data.List.Forall2

/-!
# Places in partial trees

A place is the way from the root of a tree down to a node.  The points of a tree are listed in the
order of their places, each place once: `node?_places` finds them there, `mem_places` says that none
is left out, and `places_ordered` that they come from left to right.
-/

namespace DecisionLogic.PartialTree

/-- The nodes directly below a node. -/
def parts : PartialTree → List PartialTree
  | .sequence items => items
  | .call _ _ args => [args]
  | _ => []

/-- The node at a place. -/
def node? (tree : PartialTree) : List Nat → Option PartialTree
  | [] => some tree
  | i :: place => tree.parts[i]?.bind fun part => part.node? place

/-- A sequence that is not finished, or a call whose arguments are not. -/
def isOpen : PartialTree → Bool
  | .sequence _ => true
  | .call _ _ _ => true
  | _ => false

mutual

/-- The places of the points, from left to right. -/
def places : PartialTree → List (List Nat)
  | .point _ => [[]]
  | .sequence items => itemPlaces 0 items
  | .call _ _ args => args.places.map (0 :: ·)
  | .done _ => []
  | .pending _ => []

/-- The places in a sequence of the points of its last items, the first of which is number `i`. -/
def itemPlaces (i : Nat) : List PartialTree → List (List Nat)
  | [] => []
  | item :: items => item.places.map (i :: ·) ++ itemPlaces (i + 1) items

end

theorem node?_cons (tree : PartialTree) (i : Nat) (place : List Nat) :
    tree.node? (i :: place) = tree.parts[i]?.bind fun part => part.node? place := rfl

theorem at_root_of_parts_nil {tree part : PartialTree} {place : List Nat}
    (hparts : tree.parts = []) (hplace : tree.node? place = some part) :
    place = [] ∧ tree = part := by
  cases place with
  | nil => exact ⟨rfl, Option.some.inj hplace⟩
  | cons i place => simp [node?_cons, hparts] at hplace

theorem node?_sequence_of_drop {whole items : List PartialTree} {item : PartialTree} {i : Nat}
    (hdrop : whole.drop i = item :: items) (place : List Nat) :
    (sequence whole).node? (i :: place) = item.node? place := by
  have hitem : whole[i]? = some item := by
    have hhead := congrArg (·[0]?) hdrop
    simpa using hhead
  simp [node?_cons, parts, hitem]

theorem drop_succ_of_drop {whole items : List PartialTree} {item : PartialTree} {i : Nat}
    (hdrop : whole.drop i = item :: items) : whole.drop (i + 1) = items := by
  rw [← List.drop_drop, hdrop, List.drop_one, List.tail_cons]

mutual

/-- The points are found at their places, in the same order. -/
theorem node?_places : ∀ tree : PartialTree,
    List.Forall₂ (fun place p => tree.node? place = some (.point p)) tree.places tree.points
  | .done _ => by
      rw [places, points]
      exact .nil
  | .pending _ => by
      rw [places, points]
      exact .nil
  | .point p => by
      rw [places, points]
      exact .cons rfl .nil
  | .sequence items => by
      rw [places, points]
      exact node?_itemPlaces items 0 items rfl
  | .call operator input args => by
      rw [places, points, List.forall₂_map_left_iff]
      exact (node?_places args).imp fun place p hplace => hplace

theorem node?_itemPlaces (whole : List PartialTree) : ∀ (i : Nat) (items : List PartialTree),
    whole.drop i = items →
      List.Forall₂ (fun place p => (sequence whole).node? place = some (.point p))
        (itemPlaces i items) (itemPoints items)
  | i, [], _ => by
      rw [itemPlaces, itemPoints]
      exact .nil
  | i, item :: items, hdrop => by
      rw [itemPlaces, itemPoints]
      refine List.rel_append ?_ (node?_itemPlaces whole (i + 1) items (drop_succ_of_drop hdrop))
      rw [List.forall₂_map_left_iff]
      refine (node?_places item).imp fun place p hplace => ?_
      rw [node?_sequence_of_drop hdrop]
      exact hplace

end

mutual

theorem mem_places : ∀ {tree : PartialTree} {place : List Nat} {p : SuspensionPoint},
    tree.node? place = some (.point p) → place ∈ tree.places
  | .done _, place, p, hplace => by
      obtain ⟨-, hpoint⟩ := at_root_of_parts_nil rfl hplace
      cases hpoint
  | .pending _, place, p, hplace => by
      obtain ⟨-, hpoint⟩ := at_root_of_parts_nil rfl hplace
      cases hpoint
  | .point _, place, p, hplace => by
      obtain ⟨rfl, -⟩ := at_root_of_parts_nil rfl hplace
      simp [places]
  | .sequence items, place, p, hplace => by
      rw [places]
      cases place with
      | nil => cases hplace
      | cons j place => exact mem_itemPlaces 0 rfl (Nat.zero_add j).symm hplace
  | .call operator input args, place, p, hplace => by
      rw [places]
      cases place with
      | nil => cases hplace
      | cons i place =>
          cases i with
          | zero =>
              have hargs : place ∈ args.places := mem_places hplace
              exact List.mem_map_of_mem hargs
          | succ i => simp [node?_cons, parts] at hplace

theorem mem_itemPlaces {whole : List PartialTree} {place : List Nat} {p : SuspensionPoint} :
    ∀ {items : List PartialTree} (i : Nat) {j k : Nat}, whole.drop i = items → j = i + k →
      (sequence whole).node? (j :: place) = some (.point p) → j :: place ∈ itemPlaces i items
  | [], i, j, k, hdrop, hj, hplace => by
      have hnone : whole[j]? = none := by
        rw [hj, ← List.getElem?_drop, hdrop]
        rfl
      simp [node?_cons, parts, hnone] at hplace
  | item :: items, i, j, k, hdrop, hj, hplace => by
      rw [itemPlaces, List.mem_append]
      cases k with
      | zero =>
          obtain rfl : j = i := hj
          rw [node?_sequence_of_drop hdrop] at hplace
          exact .inl (List.mem_map_of_mem (mem_places hplace))
      | succ k =>
          have hshift : j = i + 1 + k := by omega
          exact .inr (mem_itemPlaces (i + 1) (drop_succ_of_drop hdrop) hshift hplace)

end

theorem exists_of_mem_itemPlaces {items : List PartialTree} {i : Nat} {place : List Nat}
    (hplace : place ∈ itemPlaces i items) : ∃ j rest, i ≤ j ∧ place = j :: rest := by
  induction items generalizing i with
  | nil => simp [itemPlaces] at hplace
  | cons item items ih =>
      rw [itemPlaces, List.mem_append] at hplace
      rcases hplace with hfirst | hrest
      · obtain ⟨rest, _, rfl⟩ := List.mem_map.mp hfirst
        exact ⟨i, rest, Nat.le_refl i, rfl⟩
      · obtain ⟨j, rest, hle, rfl⟩ := ih hrest
        exact ⟨j, rest, by omega, rfl⟩

theorem pairwise_map_cons (i : Nat) {places : List (List Nat)}
    (hordered : places.Pairwise (· < ·)) : (places.map (i :: ·)).Pairwise (· < ·) := by
  rw [List.pairwise_map]
  exact hordered.imp fun hlt => List.cons_lt_cons_self.mpr hlt

mutual

/-- The places come in lexicographic order, so no place comes twice. -/
theorem places_ordered : ∀ tree : PartialTree, tree.places.Pairwise (· < ·)
  | .done _ => by simp [places]
  | .pending _ => by simp [places]
  | .point _ => by simp [places]
  | .sequence items => by
      rw [places]
      exact itemPlaces_ordered 0 items
  | .call _ _ args => by
      rw [places]
      exact pairwise_map_cons 0 (places_ordered args)

theorem itemPlaces_ordered : ∀ (i : Nat) (items : List PartialTree),
    (itemPlaces i items).Pairwise (· < ·)
  | i, [] => by simp [itemPlaces]
  | i, item :: items => by
      rw [itemPlaces, List.pairwise_append]
      refine ⟨pairwise_map_cons i (places_ordered item), itemPlaces_ordered (i + 1) items, ?_⟩
      intro first hfirst later hlater
      obtain ⟨rest, _, rfl⟩ := List.mem_map.mp hfirst
      obtain ⟨j, rest', hle, rfl⟩ := exists_of_mem_itemPlaces hlater
      exact List.cons_lt_cons_iff.mpr (.inl (by omega))

end

end DecisionLogic.PartialTree
