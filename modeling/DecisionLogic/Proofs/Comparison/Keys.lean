import DecisionLogic.Json.Reader
import DecisionLogic.Proofs.Comparison.Sameness

/-!
# Keys of values that are read

A table that is built by `insert` has each key once, and the reader builds its objects that way.
So no object in a value that is read from text has a key twice.
-/

namespace DecisionLogic

namespace Fields

variable {α : Type} {fields : Fields α} {key : String} {value : α}

theorem of_mem_insert {entry : String × α} (hmem : entry ∈ fields.insert key value) :
    entry = (key, value) ∨ entry ∈ fields := by
  induction fields with
  | nil => exact .inl (List.mem_singleton.mp hmem)
  | cons first rest ih =>
      rw [insert] at hmem
      split at hmem
      next hname =>
        rcases List.mem_cons.mp hmem with rfl | hrest
        · exact .inl (by rw [hname])
        · exact .inr (List.mem_cons_of_mem _ hrest)
      next =>
        rcases List.mem_cons.mp hmem with rfl | hrest
        · exact .inr List.mem_cons_self
        · exact (ih hrest).imp_right (List.mem_cons_of_mem _)

theorem nodup_keys_insert (hkeys : fields.keys.Nodup) (key : String) (value : α) :
    (fields.insert key value).keys.Nodup := by
  induction fields with
  | nil => exact List.nodup_singleton key
  | cons first rest ih =>
      rw [keys, List.map_cons, List.nodup_cons] at hkeys
      rw [insert]
      split
      next => exact List.nodup_cons.mpr hkeys
      next hne =>
        refine List.nodup_cons.mpr ⟨fun hmem => ?_, ih hkeys.2⟩
        obtain ⟨entry, hentry, hname⟩ := List.mem_map.mp hmem
        rcases of_mem_insert hentry with rfl | hrest
        · exact hne hname.symm
        · exact hkeys.1 (List.mem_map.mpr ⟨entry, hrest, hname⟩)

end Fields

namespace Json

theorem DistinctKeys.insert {fields : Fields Json} (hfields : (Json.object fields).DistinctKeys)
    (key : String) {value : Json} (hvalue : value.DistinctKeys) :
    (Json.object (fields.insert key value)).DistinctKeys := by
  cases hfields with
  | object hkeys hvalues =>
      refine .object (Fields.nodup_keys_insert hkeys key value) fun field hmem => ?_
      rcases Fields.of_mem_insert hmem with rfl | hold
      · exact hvalue
      · exact hvalues field hold

theorem DistinctKeys.empty_object : (Json.object []).DistinctKeys :=
  .object List.nodup_nil (by simp)

theorem DistinctKeys.empty_array : (Json.array []).DistinctKeys :=
  .array (by simp)

theorem DistinctKeys.cons {item : Json} {items : List Json}
    (hitems : (Json.array items).DistinctKeys) (hitem : item.DistinctKeys) :
    (Json.array (item :: items)).DistinctKeys := by
  cases hitems with
  | array hitems => exact .array (List.forall_mem_cons.mpr ⟨hitem, hitems⟩)

theorem DistinctKeys.reverse {items : List Json} (hitems : (Json.array items).DistinctKeys) :
    (Json.array items.reverse).DistinctKeys := by
  cases hitems with
  | array hitems => exact .array fun item hmem => hitems item (List.mem_reverse.mp hmem)

namespace Reader

/-- With this fuel the values that are read have no key twice. -/
def ValuesDistinct (fuel : Nat) : Prop :=
  ∀ levels cs value rest, readValue? fuel levels cs = some (value, rest) → value.DistinctKeys

def ItemsDistinct (fuel : Nat) : Prop :=
  ∀ levels before cs value rest, (array before).DistinctKeys →
    readItems? fuel levels before cs = some (value, rest) → value.DistinctKeys

def FieldsDistinct (fuel : Nat) : Prop :=
  ∀ levels before cs value rest, (object before).DistinctKeys →
    readFields? fuel levels before cs = some (value, rest) → value.DistinctKeys

variable {fuel : Nat}

theorem eq_of_readWord? {word : String} {value value' : Json} {cs rest : List Char}
    (hread : readWord? word value cs = some (value', rest)) : value' = value := by
  obtain ⟨_, _, hpair⟩ := Option.map_eq_some_iff.mp hread
  exact (Prod.mk.inj hpair).1.symm

theorem valuesDistinct_succ (hitems : ItemsDistinct fuel) (hfields : FieldsDistinct fuel) :
    ValuesDistinct (fuel + 1) := by
  intro levels cs value rest hread
  rw [readValue?] at hread
  split at hread
  next => cases hread
  next c rest' _ =>
    split at hread
    next =>
      obtain ⟨_, _, hpair⟩ := Option.map_eq_some_iff.mp hread
      cases hpair
      exact .string _
    split at hread
    next =>
      split at hread
      next => cases hread
      next =>
        split at hread
        next =>
          cases hread
          exact .empty_array
        next => exact hitems _ _ _ _ _ .empty_array hread
    split at hread
    next =>
      split at hread
      next => cases hread
      next =>
        split at hread
        next =>
          cases hread
          exact .empty_object
        next => exact hfields _ _ _ _ _ .empty_object hread
    split at hread
    next => exact eq_of_readWord? hread ▸ .null
    split at hread
    next => exact eq_of_readWord? hread ▸ .bool true
    split at hread
    next => exact eq_of_readWord? hread ▸ .bool false
    next =>
      obtain ⟨_, _, hpair⟩ := Option.map_eq_some_iff.mp hread
      cases hpair
      exact .number _

theorem itemsDistinct_succ (hvalues : ValuesDistinct fuel) (hitems : ItemsDistinct fuel) :
    ItemsDistinct (fuel + 1) := by
  intro levels before cs value rest hbefore hread
  rw [readItems?] at hread
  split at hread
  next => cases hread
  next item rest' hitem =>
    have hmore := hbefore.cons (hvalues _ _ _ _ hitem)
    split at hread
    next => exact hitems _ _ _ _ _ hmore hread
    next =>
      cases hread
      exact hmore.reverse
    next => cases hread

theorem fieldsDistinct_succ (hvalues : ValuesDistinct fuel) (hfields : FieldsDistinct fuel) :
    FieldsDistinct (fuel + 1) := by
  intro levels before cs value rest hbefore hread
  rw [readFields?] at hread
  split at hread
  next =>
    split at hread
    next => cases hread
    next key _ _ =>
      split at hread
      next =>
        split at hread
        next => cases hread
        next value' _ hvalue =>
          have hmore := hbefore.insert key (hvalues _ _ _ _ hvalue)
          dsimp only at hread
          split at hread
          next => exact hfields _ _ _ _ _ hmore hread
          next =>
            cases hread
            exact hmore
          next => cases hread
      next => cases hread
  next => cases hread

theorem distinct_readers (fuel : Nat) :
    ValuesDistinct fuel ∧ ItemsDistinct fuel ∧ FieldsDistinct fuel := by
  induction fuel with
  | zero =>
      refine ⟨?_, ?_, ?_⟩
      · intro levels cs value rest hread
        simp [readValue?] at hread
      · intro levels before cs value rest _ hread
        simp [readItems?] at hread
      · intro levels before cs value rest _ hread
        simp [readFields?] at hread
  | succ fuel ih =>
      obtain ⟨hvalues, hitems, hfields⟩ := ih
      exact ⟨valuesDistinct_succ hitems hfields, itemsDistinct_succ hvalues hitems,
        fieldsDistinct_succ hvalues hfields⟩

end Reader

/-- Values that are read have no key twice. -/
theorem distinctKeys_of_read? {levels : Nat} {text : String} {value : Json}
    (hread : read? levels text = some value) : value.DistinctKeys := by
  rw [read?] at hread
  split at hread
  next value' rest hvalue =>
    split at hread
    next =>
      cases hread
      exact (Reader.distinct_readers _).1 _ _ _ _ hvalue
    next => cases hread
  next => cases hread

end Json
end DecisionLogic
