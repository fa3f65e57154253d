import DecisionLogic.Proofs.Alike.Numbers
import DecisionLogic.Proofs.Resumption.Standing

/-!
# Answering every point

When the identifiers of a suspension are different and every point is answered, the values fit the
suspension and it turns into the logic that continues it.
-/

namespace DecisionLogic

variable {f : Json → Json}

/-- A value for each point, computed from the input of the point. -/
def Suspension.answers (f : Json → Json) (suspension : Suspension) : Replacements :=
  suspension.points.foldl (fun replacements p => replacements.insert p.id (f p.input)) []

theorem Replacements.insert_of_notMem {replacements : Replacements} {id : PointId}
    (hfresh : id ∉ replacements.map Prod.fst) (value : Json) :
    replacements.insert id value = replacements ++ [(id, value)] := by
  have hnone : (replacements.any fun entry => decide (entry.1 = id)) = false := by
    rw [List.any_eq_false]
    intro entry hentry
    have hne : entry.1 ≠ id := fun heq => hfresh (heq ▸ List.mem_map_of_mem hentry)
    simp [hne]
  simp [Replacements.insert, hnone]

theorem foldl_insert_eq_append {points : List SuspensionPoint}
    (hnodup : (points.map SuspensionPoint.id).Nodup) {replacements : Replacements}
    (hapart : ∀ p ∈ points, p.id ∉ replacements.map Prod.fst) :
    points.foldl (fun replacements p => replacements.insert p.id (f p.input)) replacements =
      replacements ++ points.map fun p => (p.id, f p.input) := by
  induction points generalizing replacements with
  | nil => simp
  | cons p rest ih =>
      rw [List.map_cons, List.nodup_cons] at hnodup
      obtain ⟨hp, hrest⟩ := hnodup
      rw [List.foldl_cons, Replacements.insert_of_notMem (hapart p List.mem_cons_self)]
      rw [ih hrest ?_]
      · simp
      · intro q hq
        have hqp : q.id ≠ p.id := fun heq => hp (heq ▸ List.mem_map_of_mem hq)
        have hold := hapart q (List.mem_cons_of_mem _ hq)
        simp only [List.map_append, List.mem_append, not_or]
        exact ⟨hold, by simpa using hqp⟩

theorem Suspension.answers_eq {suspension : Suspension}
    (hnodup : (suspension.points.map SuspensionPoint.id).Nodup) :
    suspension.answers f = suspension.points.map fun p => (p.id, f p.input) := by
  unfold answers
  rw [foldl_insert_eq_append hnodup (by simp), List.nil_append]

theorem lookup_answers {points : List SuspensionPoint}
    (hnodup : (points.map SuspensionPoint.id).Nodup) :
    ∀ p ∈ points, (points.map fun p => (p.id, f p.input)).lookup p.id = some (f p.input) := by
  induction points with
  | nil => simp
  | cons q rest ih =>
      rw [List.map_cons, List.nodup_cons] at hnodup
      obtain ⟨hq, hrest⟩ := hnodup
      intro p hp
      rcases List.mem_cons.mp hp with rfl | hmem
      · simp
      · have hne : (p.id == q.id) = false := by
          rw [beq_eq_false_iff_ne]
          exact fun heq => hq (heq ▸ List.mem_map_of_mem hmem)
        rw [List.map_cons, List.lookup_cons, hne]
        exact ih hrest p hmem

namespace PartialTree

mutual

theorem rebuild_of_answered {replacements : Replacements} : ∀ {tree : PartialTree},
    (∀ p ∈ tree.points, replacements.lookup p.id = some (f p.input)) →
      tree.rebuild replacements = .ok (tree.answer f, tree.points.length)
  | .done value, _ => by simp [rebuild, answer, points]
  | .pending logic, _ => by simp [rebuild, answer, points]
  | .point p, hanswered => by
      have hp := hanswered p (by simp [points])
      simp [rebuild, answer, points, hp]
  | .sequence items, hanswered => by
      have hitems := rebuildItems_of_answered (by simpa [points] using hanswered)
      simp [rebuild, answer, points, hitems, Except.map]
  | .call operator input args, hanswered => by
      have hargs := rebuild_of_answered (by simpa [points] using hanswered)
      simp [rebuild, answer, points, hargs, Except.map]

theorem rebuildItems_of_answered {replacements : Replacements} : ∀ {items : List PartialTree},
    (∀ p ∈ itemPoints items, replacements.lookup p.id = some (f p.input)) →
      rebuildItems replacements items = .ok (answerItems f items, (itemPoints items).length)
  | [], _ => by simp [rebuildItems, answerItems, itemPoints]
  | item :: items, hanswered => by
      simp only [itemPoints, List.mem_append] at hanswered
      have hitem := rebuild_of_answered fun p hp => hanswered p (.inl hp)
      have hitems := rebuildItems_of_answered fun p hp => hanswered p (.inr hp)
      simp [rebuildItems, answerItems, itemPoints, hitem, hitems, Except.map]

end

end PartialTree

theorem Suspension.toLogic_answers {suspension : Suspension}
    (hnodup : (suspension.points.map SuspensionPoint.id).Nodup) :
    suspension.toLogic (suspension.answers f) = .ok (suspension.root.answer f) := by
  have hanswers := answers_eq (f := f) hnodup
  have hrebuild := PartialTree.rebuild_of_answered (f := f)
    (hanswers ▸ lookup_answers hnodup : ∀ p ∈ suspension.root.points,
      (suspension.answers f).lookup p.id = some (f p.input))
  have hlength : suspension.root.points.length = (suspension.answers f).length := by
    rw [hanswers, List.length_map]
    rfl
  simp only [toLogic, hrebuild, hlength, if_true]

/-! ## Identifiers of one run -/

theorem PointId.fresh_add_injective {start i j : Nat} (hi : i < PointId.count)
    (hj : j < PointId.count) (hfresh : PointId.fresh (start + i) = PointId.fresh (start + j)) :
    i = j := by
  have hvalue := congrArg (fun id => id.value.toNat) hfresh
  simp only [PointId.fresh, BitVec.toNat_ofNat] at hvalue
  unfold PointId.count at hi hj
  omega

theorem nodup_fresh_nextNumbers (world : World) {count : Nat} (hcount : count ≤ PointId.count) :
    ((world.nextNumbers count).map PointId.fresh).Nodup := by
  unfold World.nextNumbers
  rw [Multiset.map_map]
  apply Multiset.Nodup.map_on ?_ (Multiset.nodup_range count)
  intro i hi j hj hfresh
  rw [Multiset.mem_range] at hi hj
  exact PointId.fresh_add_injective (by omega) (by omega) hfresh

end DecisionLogic
