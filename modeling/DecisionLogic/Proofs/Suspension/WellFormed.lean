import DecisionLogic.Proofs.Resumption.Standing
import DecisionLogic.Proofs.Suspension.Places
import Mathlib.Data.List.Nodup

/-!
# Well-formed suspensions

A suspension is well formed when it waits for something, in all its open parts, and when each of its
points can be told from the others.  Then the values that continue it are exactly those that name
its points.
-/

namespace DecisionLogic

namespace PartialTree

/-- Below every sequence and every call of the tree there is a point. -/
inductive Anchored : PartialTree → Prop
  | done (value : Json) : Anchored (.done value)
  | point (p : SuspensionPoint) : Anchored (.point p)
  | pending (logic : Json) : Anchored (.pending logic)
  | sequence {items : List PartialTree} (hitems : ∀ item ∈ items, Anchored item)
      (hpoints : itemPoints items ≠ []) : Anchored (.sequence items)
  | call {operator : String} {input : Json} {args : PartialTree} (hargs : Anchored args)
      (hpoints : args.points ≠ []) : Anchored (.call operator input args)

variable {tree part : PartialTree}

theorem Anchored.parts (hanchored : tree.Anchored) (hpart : part ∈ tree.parts) :
    part.Anchored := by
  cases hanchored with
  | sequence hitems _ => exact hitems part hpart
  | call hargs _ => exact List.mem_singleton.mp hpart ▸ hargs
  | done _ | point _ | pending _ => cases hpart

theorem Anchored.node? {place : List Nat} (hanchored : tree.Anchored)
    (hplace : tree.node? place = some part) : part.Anchored := by
  induction place generalizing tree with
  | nil => exact Option.some.inj hplace ▸ hanchored
  | cons i place ih =>
      obtain ⟨next, hnext, hplace⟩ := Option.bind_eq_some_iff.mp hplace
      exact ih (hanchored.parts (List.mem_of_getElem? hnext)) hplace

theorem Anchored.points_ne_nil (hanchored : tree.Anchored) (hopen : tree.isOpen = true) :
    tree.points ≠ [] := by
  cases hanchored with
  | sequence _ hpoints | call _ hpoints => simpa [points] using hpoints
  | done _ | point _ | pending _ => cases hopen

theorem exists_place (hpoints : tree.points ≠ []) :
    ∃ place p, tree.node? place = some (.point p) := by
  have hplaces := node?_places tree
  generalize tree.points = points at hpoints hplaces
  generalize tree.places = places at hplaces
  cases hplaces with
  | nil => exact absurd rfl hpoints
  | cons hplace _ => exact ⟨_, _, hplace⟩

def id? : PartialTree → Option PointId
  | .point p => some p.id
  | _ => none

theorem map_id_places (tree : PartialTree) :
    tree.places.map (fun place => (tree.node? place).bind id?) =
      (tree.points.map SuspensionPoint.id).map some := by
  rw [← List.forall₂_eq_eq_eq, List.map_map, List.forall₂_map_left_iff, List.forall₂_map_right_iff]
  refine (node?_places tree).imp fun place p hplace => ?_
  rw [hplace]
  rfl

/-- Where the identifiers are different, each of them is at one place. -/
theorem eq_of_id_eq (hids : (tree.points.map SuspensionPoint.id).Nodup) {place place' : List Nat}
    {p p' : SuspensionPoint} (hplace : tree.node? place = some (.point p))
    (hplace' : tree.node? place' = some (.point p')) (hid : p.id = p'.id) : place = place' := by
  have hnodup := hids.map (Option.some_injective PointId)
  rw [← map_id_places] at hnodup
  apply List.inj_on_of_nodup_map hnodup (mem_places hplace) (mem_places hplace')
  simp [hplace, hplace', id?, hid]

/-! ## Continuing -/

variable {replacements : Replacements}

mutual

theorem exists_rebuild : ∀ {tree : PartialTree},
    (∀ p ∈ tree.points, (replacements.lookup p.id).isSome) →
      ∃ node, tree.rebuild replacements = .ok (node, tree.points.length)
  | .done value, _ => ⟨.literal value, by simp [rebuild, points]⟩
  | .pending logic, _ => ⟨.parse logic, by simp [rebuild, points]⟩
  | .point p, hanswered => by
      obtain ⟨value, hvalue⟩ := Option.isSome_iff_exists.mp (hanswered p (by simp [points]))
      exact ⟨.literal value, by simp [rebuild, points, hvalue]⟩
  | .sequence items, hanswered => by
      obtain ⟨nodes, hitems⟩ := exists_rebuildItems (by simpa [points] using hanswered)
      exact ⟨.sequence nodes, by simp [rebuild, points, hitems, Except.map]⟩
  | .call operator input args, hanswered => by
      have hargs : ∀ p ∈ args.points, (replacements.lookup p.id).isSome := by
        simpa [points] using hanswered
      obtain ⟨node, hargs⟩ := exists_rebuild hargs
      exact ⟨.operation operator node, by simp [rebuild, points, hargs, Except.map]⟩

theorem exists_rebuildItems : ∀ {items : List PartialTree},
    (∀ p ∈ itemPoints items, (replacements.lookup p.id).isSome) →
      ∃ nodes, rebuildItems replacements items = .ok (nodes, (itemPoints items).length)
  | [], _ => ⟨[], by simp [rebuildItems, itemPoints]⟩
  | item :: items, hanswered => by
      simp only [itemPoints, List.mem_append] at hanswered
      obtain ⟨node, hitem⟩ := exists_rebuild fun p hp => hanswered p (.inl hp)
      obtain ⟨nodes, hitems⟩ := exists_rebuildItems fun p hp => hanswered p (.inr hp)
      exact ⟨node :: nodes, by simp [rebuildItems, itemPoints, hitem, hitems, Except.map]⟩

end

end PartialTree

namespace Suspension

variable {suspension : Suspension}

structure WellFormed (suspension : Suspension) : Prop where
  pointed : ∃ place p, suspension.root.node? place = some (.point p)
  distinct : ∀ place place' p p', suspension.root.node? place = some (.point p) →
    suspension.root.node? place' = some (.point p') → p.id = p'.id → place = place'
  anchored : ∀ place part, suspension.root.node? place = some part → part.isOpen = true →
    ∃ below p, part.node? below = some (.point p)
  /-- The points that are listed are those of the tree, each once and from left to right. -/
  listed : ∃ places, places.Pairwise (· < ·) ∧
    List.Forall₂ (fun place p => suspension.root.node? place = some (.point p)) places
      suspension.points ∧
    ∀ place p, suspension.root.node? place = some (.point p) → place ∈ places

theorem wellFormed (hanchored : suspension.root.Anchored) (hpoints : suspension.points ≠ [])
    (hids : (suspension.points.map SuspensionPoint.id).Nodup) : suspension.WellFormed := by
  refine ⟨PartialTree.exists_place hpoints, fun _ _ _ _ => PartialTree.eq_of_id_eq hids, ?_, ?_⟩
  · intro place part hplace hopen
    exact PartialTree.exists_place ((hanchored.node? hplace).points_ne_nil hopen)
  · exact ⟨suspension.root.places, PartialTree.places_ordered _, PartialTree.node?_places _,
      fun _ _ => PartialTree.mem_places⟩

/-- Values for exactly the points of a suspension fit it. -/
theorem exists_toLogic (hids : (suspension.points.map SuspensionPoint.id).Nodup)
    {replacements : Replacements} (hkeys : (replacements.map Prod.fst).Nodup)
    (hsame : ∀ id, id ∈ replacements.map Prod.fst ↔ id ∈ suspension.points.map SuspensionPoint.id) :
    ∃ node, suspension.toLogic replacements = .ok node := by
  have hanswered : ∀ p ∈ suspension.root.points, (replacements.lookup p.id).isSome := by
    intro p hp
    obtain ⟨entry, hentry, hid⟩ := List.mem_map.mp ((hsame p.id).mpr (List.mem_map_of_mem hp))
    exact List.lookup_isSome_iff.mpr ⟨entry, hentry, by simp [hid]⟩
  obtain ⟨node, hrebuild⟩ := PartialTree.exists_rebuild hanswered
  have hlength : suspension.root.points.length = replacements.length := by
    have hperm := ((List.perm_ext_iff_of_nodup hkeys hids).mpr hsame).length_eq
    simpa [points] using hperm.symm
  exact ⟨node, by simp [toLogic, hrebuild, hlength]⟩

end Suspension
end DecisionLogic
