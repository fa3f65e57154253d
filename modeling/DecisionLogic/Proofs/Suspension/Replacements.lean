import DecisionLogic.Proofs.Suspension.WellFormed

/-!
# Values for the points of a suspension

Values are checked by counting: every point takes the value of its identifier, and then as many
values must have been taken as were given.  If the identifiers of the points are different, this
compares the identifiers with the keys of the values as sets, and what is left over is counted
exactly.  A suspension that was stored and changed may have one identifier at several points, and
then the counts say nothing about the sets.
-/

namespace DecisionLogic

variable {replacements : Replacements}

theorem Replacements.isSome_lookup_iff {id : PointId} :
    (replacements.lookup id).isSome ↔ id ∈ replacements.map Prod.fst := by
  simp only [List.lookup_isSome_iff, beq_iff_eq, List.mem_map]
  exact exists_congr fun entry => and_congr_right fun _ => eq_comm

/-- The first of the points that has no value. -/
def Replacements.firstUnanswered? (replacements : Replacements) (points : List SuspensionPoint) :
    Option SuspensionPoint :=
  points.find? fun p => (replacements.lookup p.id).isNone

theorem Replacements.answered_of_firstUnanswered?_eq_none {points : List SuspensionPoint}
    (hnone : replacements.firstUnanswered? points = none) :
    ∀ p ∈ points, (replacements.lookup p.id).isSome := by
  intro p hp
  have hanswered := List.find?_eq_none.mp hnone p hp
  simpa [Option.isSome_iff_ne_none] using hanswered

namespace PartialTree

mutual

theorem rebuild_of_unanswered {p : SuspensionPoint} : ∀ {tree : PartialTree},
    replacements.firstUnanswered? tree.points = some p →
      tree.rebuild replacements = .error (.resume (.unanswered p.id p.operator))
  | .done value, hfirst => by simp [points, Replacements.firstUnanswered?] at hfirst
  | .pending logic, hfirst => by simp [points, Replacements.firstUnanswered?] at hfirst
  | .point q, hfirst => by
      obtain ⟨hnone, rfl⟩ : replacements.lookup q.id = none ∧ q = p := by
        simpa [points, Replacements.firstUnanswered?] using hfirst
      simp [rebuild, hnone]
  | .sequence items, hfirst => by
      have hitems := rebuildItems_of_unanswered (by simpa [points] using hfirst)
      simp [rebuild, hitems, Except.map]
  | .call operator input args, hfirst => by
      have hfirst : replacements.firstUnanswered? args.points = some p := by
        simpa [points] using hfirst
      have hargs := rebuild_of_unanswered hfirst
      simp [rebuild, hargs, Except.map]

theorem rebuildItems_of_unanswered {p : SuspensionPoint} : ∀ {items : List PartialTree},
    replacements.firstUnanswered? (itemPoints items) = some p →
      rebuildItems replacements items = .error (.resume (.unanswered p.id p.operator))
  | [], hfirst => by simp [itemPoints, Replacements.firstUnanswered?] at hfirst
  | item :: items, hfirst => by
      unfold Replacements.firstUnanswered? at hfirst
      rw [itemPoints, List.find?_append] at hfirst
      cases hitem : replacements.firstUnanswered? item.points with
      | some q =>
          obtain rfl : q = p := by
            unfold Replacements.firstUnanswered? at hitem
            simpa [hitem] using hfirst
          simp [rebuildItems, rebuild_of_unanswered hitem]
      | none =>
          have hanswered := Replacements.answered_of_firstUnanswered?_eq_none hitem
          obtain ⟨node, hnode⟩ := exists_rebuild hanswered
          have hrest : replacements.firstUnanswered? (itemPoints items) = some p := by
            unfold Replacements.firstUnanswered? at hitem ⊢
            simpa [hitem] using hfirst
          simp [rebuildItems, hnode, rebuildItems_of_unanswered hrest, Except.map]

end

end PartialTree

/-! ## Counting -/

theorem leftOver_eq {used count : Nat} (hused : used ≤ count) (hcount : count < 2 ^ 64) :
    (UInt64.ofNat count - UInt64.ofNat used).toNat = count - used := by
  have hcountWord : (UInt64.ofNat count).toNat = count := UInt64.toNat_ofNat_of_lt' hcount
  have husedWord : (UInt64.ofNat used).toNat = used :=
    UInt64.toNat_ofNat_of_lt' (Nat.lt_of_le_of_lt hused hcount)
  have hle : UInt64.ofNat used ≤ UInt64.ofNat count := by
    rw [UInt64.le_iff_toNat_le, hcountWord, husedWord]
    exact hused
  rw [UInt64.toNat_sub_of_le _ _ hle, hcountWord, husedWord]

/-- Of different keys, those that are no identifiers are as many as the keys exceed the
identifiers by. -/
theorem countP_notMem_eq {keys ids : List PointId} (hkeys : keys.Nodup) (hids : ids.Nodup)
    (hsub : ∀ id ∈ ids, id ∈ keys) :
    ids.length + keys.countP (fun key => decide (key ∉ ids)) = keys.length := by
  have hcommon : (keys.filter fun key => decide (key ∈ ids)).length = ids.length := by
    refine ((List.perm_ext_iff_of_nodup (hkeys.filter _) hids).mpr fun id => ?_).length_eq
    rw [List.mem_filter, decide_eq_true_iff]
    exact ⟨And.right, fun hid => ⟨hsub id hid, hid⟩⟩
  rw [← hcommon, ← List.countP_eq_length_filter]
  have hsplit := List.length_eq_countP_add_countP (fun key => decide (key ∈ ids)) (l := keys)
  simpa only [decide_eq_true_eq] using hsplit.symm

namespace Suspension

variable {suspension : Suspension}

def ids (suspension : Suspension) : List PointId :=
  suspension.points.map SuspensionPoint.id

theorem toLogic_of_firstUnanswered {p : SuspensionPoint}
    (hfirst : replacements.firstUnanswered? suspension.points = some p) :
    suspension.toLogic replacements = .error (.resume (.unanswered p.id p.operator)) := by
  simp [toLogic, PartialTree.rebuild_of_unanswered hfirst]

theorem toLogic_of_answered
    (hanswered : ∀ p ∈ suspension.points, (replacements.lookup p.id).isSome) :
    ∃ node, suspension.root.rebuild replacements = .ok (node, suspension.points.length) ∧
      suspension.toLogic replacements =
        if suspension.points.length = replacements.length then .ok node
        else .error (.resume (.unmatched
          (UInt64.ofNat replacements.length - UInt64.ofNat suspension.points.length).toNat)) := by
  obtain ⟨node, hrebuild⟩ := PartialTree.exists_rebuild hanswered
  refine ⟨node, hrebuild, ?_⟩
  unfold toLogic
  rw [hrebuild]
  rfl

/-- Values that do not fit are refused as such. -/
theorem toLogic_ok_or_resume (suspension : Suspension) (replacements : Replacements) :
    (∃ node, suspension.toLogic replacements = .ok node) ∨
      ∃ problem, suspension.toLogic replacements = .error (.resume problem) := by
  cases hfirst : replacements.firstUnanswered? suspension.points with
  | some p => exact .inr ⟨_, toLogic_of_firstUnanswered hfirst⟩
  | none =>
      obtain ⟨node, -, hlogic⟩ := toLogic_of_answered
        (Replacements.answered_of_firstUnanswered?_eq_none hfirst)
      rw [hlogic]
      split
      · exact .inl ⟨node, rfl⟩
      · exact .inr ⟨_, rfl⟩

theorem toLogic_of_unanswered {before after : List SuspensionPoint} {p : SuspensionPoint}
    (hpoints : suspension.points = before ++ p :: after)
    (hbefore : ∀ q ∈ before, q.id ∈ replacements.map Prod.fst)
    (hp : p.id ∉ replacements.map Prod.fst) :
    suspension.toLogic replacements = .error (.resume (.unanswered p.id p.operator)) := by
  apply toLogic_of_firstUnanswered
  have hskipped : before.find? (fun q => (replacements.lookup q.id).isNone) = none := by
    rw [List.find?_eq_none]
    intro q hq
    have hanswered := Replacements.isSome_lookup_iff.mpr (hbefore q hq)
    simpa [Option.isSome_iff_ne_none] using hanswered
  have hnone : (replacements.lookup p.id).isNone = true := by
    rw [← Option.not_isSome, Bool.not_eq_true', ← Bool.not_eq_true]
    exact fun hsome => hp (Replacements.isSome_lookup_iff.mp hsome)
  unfold Replacements.firstUnanswered?
  rw [hpoints, List.find?_append, hskipped, Option.none_or]
  exact List.find?_cons_of_pos hnone

theorem subset_of_answered
    (hanswered : ∀ p ∈ suspension.points, (replacements.lookup p.id).isSome) :
    ∀ id ∈ suspension.ids, id ∈ replacements.map Prod.fst := by
  intro id hid
  obtain ⟨p, hp, rfl⟩ := List.mem_map.mp hid
  exact Replacements.isSome_lookup_iff.mp (hanswered p hp)

/-- A suspension that is continued has a value for each of its points. -/
theorem subset_of_toLogic {node : Logic} (hlogic : suspension.toLogic replacements = .ok node) :
    ∀ id ∈ suspension.ids, id ∈ replacements.map Prod.fst := by
  cases hfirst : replacements.firstUnanswered? suspension.points with
  | some q =>
      rw [toLogic_of_firstUnanswered hfirst] at hlogic
      cases hlogic
  | none =>
      exact subset_of_answered (Replacements.answered_of_firstUnanswered?_eq_none hfirst)

section Distinct

variable (hids : suspension.ids.Nodup) (hkeys : (replacements.map Prod.fst).Nodup)
  (hsub : ∀ id ∈ suspension.ids, id ∈ replacements.map Prod.fst)

include hids hkeys hsub

/-- The values that belong to no point are those left over when each point has taken one. -/
theorem points_add_surplus :
    suspension.points.length +
      (replacements.map Prod.fst).countP (fun key => decide (key ∉ suspension.ids)) =
        replacements.length := by
  have hcount := countP_notMem_eq hkeys hids hsub
  rwa [ids, List.length_map, List.length_map] at hcount

theorem toLogic_of_surplus (hcount : replacements.length < 2 ^ 64)
    (hsurplus : ∃ key ∈ replacements.map Prod.fst, key ∉ suspension.ids) :
    suspension.toLogic replacements = .error (.resume (.unmatched
      ((replacements.map Prod.fst).countP fun key => decide (key ∉ suspension.ids)))) := by
  have hsplit := points_add_surplus hids hkeys hsub
  have hanswered : ∀ p ∈ suspension.points, (replacements.lookup p.id).isSome := fun p hp =>
    Replacements.isSome_lookup_iff.mpr (hsub p.id (List.mem_map_of_mem hp))
  obtain ⟨node, -, hlogic⟩ := toLogic_of_answered hanswered
  have hpositive : 0 < (replacements.map Prod.fst).countP
      fun key => decide (key ∉ suspension.ids) := by
    obtain ⟨key, hkey, hstray⟩ := hsurplus
    exact List.countP_pos_iff.mpr ⟨key, hkey, by simpa using hstray⟩
  have hne : suspension.points.length ≠ replacements.length := by omega
  rw [hlogic, if_neg hne, leftOver_eq (by omega) hcount]
  congr 3
  omega

end Distinct

/-- Where the identifiers of the points are different, the values fit a suspension exactly if they
are given for its points and for nothing else; otherwise they are refused, the surplus values are
counted, and no point takes more than there are.  A point without a value is reported first, also
where identifiers repeat. -/
theorem toLogic_compares_sets (suspension : Suspension) (replacements : Replacements)
    (hkeys : (replacements.map Prod.fst).Nodup) (hcount : replacements.length < 2 ^ 64) :
    ((∃ node, suspension.toLogic replacements = .ok node) ∨
      ∃ problem, suspension.toLogic replacements = .error (.resume problem)) ∧
    (∀ before p after, suspension.points = before ++ p :: after →
      (∀ q ∈ before, q.id ∈ replacements.map Prod.fst) → p.id ∉ replacements.map Prod.fst →
        suspension.toLogic replacements = .error (.resume (.unanswered p.id p.operator))) ∧
    (suspension.ids.Nodup →
      ((∃ node, suspension.toLogic replacements = .ok node) ↔
        ∀ id, id ∈ replacements.map Prod.fst ↔ id ∈ suspension.ids) ∧
      ((∀ id ∈ suspension.ids, id ∈ replacements.map Prod.fst) →
        (∃ key ∈ replacements.map Prod.fst, key ∉ suspension.ids) →
          suspension.toLogic replacements = .error (.resume (.unmatched
            ((replacements.map Prod.fst).countP fun key => decide (key ∉ suspension.ids))))) ∧
      ∀ node used, suspension.root.rebuild replacements = .ok (node, used) →
        used ≤ replacements.length) := by
  refine ⟨suspension.toLogic_ok_or_resume replacements, fun _ _ _ => toLogic_of_unanswered,
    fun hids => ⟨⟨?_, exists_toLogic hids hkeys⟩, ?_, ?_⟩⟩
  · rintro ⟨node, hlogic⟩ id
    have hsub := subset_of_toLogic hlogic
    refine ⟨fun hkey => ?_, hsub id⟩
    by_contra hstray
    rw [toLogic_of_surplus hids hkeys hsub hcount ⟨id, hkey, hstray⟩] at hlogic
    cases hlogic
  · exact fun hsub => toLogic_of_surplus hids hkeys hsub hcount
  · intro node used hrebuild
    cases hfirst : replacements.firstUnanswered? suspension.points with
    | some p =>
        rw [PartialTree.rebuild_of_unanswered hfirst] at hrebuild
        cases hrebuild
    | none =>
        have hanswered := Replacements.answered_of_firstUnanswered?_eq_none hfirst
        obtain ⟨node', hrebuilt, -⟩ := toLogic_of_answered hanswered
        obtain ⟨rfl, rfl⟩ := Prod.mk.inj (Except.ok.inj (hrebuilt.symm.trans hrebuild))
        have hsplit := points_add_surplus hids hkeys (subset_of_answered hanswered)
        omega

/-- Two points, and a call of which neither argument is known. -/
def paired : Suspension :=
  ⟨.call "cat" .null (.sequence [.point ⟨.fresh 1, "ask", .null, .null⟩,
    .point ⟨.fresh 2, "ask", .null, .null⟩])⟩

theorem toLogic_compares_sets_paired :
    let replacements : Replacements :=
      [(.fresh 2, .null), (.fresh 3, .null), (.fresh 1, .null), (.fresh 4, .null)]
    (replacements.map Prod.fst).Nodup ∧ replacements.length < 2 ^ 64 ∧ paired.ids.Nodup ∧
      paired.toLogic replacements = .error (.resume (.unmatched 2)) := by
  intro replacements
  have hkeys : (replacements.map Prod.fst).Nodup := by decide
  have hcount : replacements.length < 2 ^ 64 := by decide
  have hids : paired.ids = [.fresh 1, .fresh 2] := rfl
  have hdistinct : paired.ids.Nodup := by
    rw [hids]
    decide
  obtain ⟨-, hsurplus, -⟩ :=
    (toLogic_compares_sets paired replacements hkeys hcount).2.2 hdistinct
  refine ⟨hkeys, hcount, hdistinct, hsurplus ?_ ⟨.fresh 3, by decide, ?_⟩⟩
  · rw [hids]
    decide
  · rw [hids]
    decide

/-! ## Repeated identifiers -/

/-- Two points with one identifier. -/
def twinned : Suspension :=
  ⟨.sequence [.point ⟨.fresh 1, "ask", .null, .null⟩, .point ⟨.fresh 1, "ask", .null, .null⟩]⟩

/-- A value for the only identifier is refused, since both points take it and two is more than one;
with a value for no point beside it the count is right again. -/
theorem toLogic_twinned :
    (∀ id, id ∈ [PointId.fresh 1] ↔ id ∈ twinned.ids) ∧
      (∃ node, twinned.root.rebuild [(.fresh 1, .null)] = .ok (node, 2)) ∧
      (∀ node, twinned.toLogic [(.fresh 1, .null)] ≠ .ok node) ∧
      PointId.fresh 2 ∉ twinned.ids ∧
      ∃ node, twinned.toLogic [(.fresh 1, .null), (.fresh 2, .null)] = .ok node := by
  have hids : twinned.ids = [.fresh 1, .fresh 1] := rfl
  refine ⟨?_, ⟨_, rfl⟩, ?_, ?_, ⟨_, rfl⟩⟩
  · intro id
    simp [hids]
  · intro node hlogic
    cases hlogic
  · rw [hids]
    decide

end Suspension
end DecisionLogic
