import DecisionLogic.Proofs.Double.Order
import Mathlib

/-!
# Sameness of values

Values are the same by kind and structure, and objects are the same as tables, in whatever order
their keys stand.  Sameness is symmetric and transitive, and a value is the same as itself if no
object in it has a key twice.
-/

namespace DecisionLogic

/-! ## Numbers -/

theorem Number.same_symm (m n : Number) : m.same n = n.same m := by
  cases m with
  | integer i =>
      cases n with
      | integer j => exact BEq.comm
      | double y => rfl
  | double x =>
      cases n with
      | integer j => rfl
      | double y => exact BEq.comm

theorem Number.same_trans {l m n : Number} (hfirst : l.same m = true)
    (hsecond : m.same n = true) : l.same n = true := by
  cases m with
  | integer j =>
      cases l with
      | integer i =>
          cases n with
          | integer k => exact BEq.trans hfirst hsecond
          | double z => cases hsecond
      | double x => cases hfirst
  | double y =>
      cases l with
      | integer i => cases hfirst
      | double x =>
          cases n with
          | integer k => cases hsecond
          | double z => exact BEq.trans hfirst hsecond

/-! ## Tables -/

namespace Fields

variable {α : Type} {fields : Fields α} {key : String} {value : α}

theorem mem_of_find? (hfind : fields.find? key = some value) : (key, value) ∈ fields := by
  induction fields with
  | nil => simp [find?] at hfind
  | cons entry rest ih =>
      rw [find?] at hfind
      split at hfind
      next hname =>
        cases hfind
        rw [← hname]
        exact List.mem_cons_self
      next => exact List.mem_cons_of_mem _ (ih hfind)

theorem find?_of_mem (hkeys : fields.keys.Nodup) (hmem : (key, value) ∈ fields) :
    fields.find? key = some value := by
  induction fields with
  | nil => simp at hmem
  | cons entry rest ih =>
      rw [keys, List.map_cons, List.nodup_cons] at hkeys
      rw [find?]
      rcases List.mem_cons.mp hmem with rfl | hrest
      · exact if_pos rfl
      · have hne : entry.1 ≠ key := by
          intro hname
          rw [hname] at hkeys
          exact hkeys.1 (List.mem_map_of_mem (f := Prod.fst) hrest)
        rw [if_neg hne]
        exact ih hkeys.2 hrest

end Fields

namespace Json

/-- No object in the value has a key twice. -/
inductive DistinctKeys : Json → Prop
  | null : DistinctKeys .null
  | bool (b : Bool) : DistinctKeys (.bool b)
  | number (n : Number) : DistinctKeys (.number n)
  | string (text : String) : DistinctKeys (.string text)
  | array {items : List Json} (hitems : ∀ item ∈ items, DistinctKeys item) :
      DistinctKeys (.array items)
  | object {fields : Fields Json} (hkeys : fields.keys.Nodup)
      (hvalues : ∀ field ∈ fields, DistinctKeys field.2) : DistinctKeys (.object fields)

/-- The items of an array and the values of an object. -/
def parts : Json → List Json
  | .array items => items
  | .object fields => fields.map Prod.snd
  | _ => []

mutual

/-- Whatever holds of a value when it holds of its parts holds of all values. -/
theorem parts_induction {P : Json → Prop}
    (hparts : ∀ value, (∀ part ∈ value.parts, P part) → P value) : ∀ value, P value
  | .null => hparts .null (by simp [parts])
  | .bool b => hparts (.bool b) (by simp [parts])
  | .number n => hparts (.number n) (by simp [parts])
  | .string text => hparts (.string text) (by simp [parts])
  | .array items => hparts (.array items) (items_induction hparts items)
  | .object fields => hparts (.object fields) (fields_induction hparts fields)

theorem items_induction {P : Json → Prop}
    (hparts : ∀ value, (∀ part ∈ value.parts, P part) → P value) :
    ∀ items : List Json, ∀ item ∈ items, P item
  | [] => by simp
  | item :: items =>
      List.forall_mem_cons.mpr ⟨parts_induction hparts item, items_induction hparts items⟩

theorem fields_induction {P : Json → Prop}
    (hparts : ∀ value, (∀ part ∈ value.parts, P part) → P value) :
    ∀ fields : List (String × Json), ∀ part ∈ fields.map Prod.snd, P part
  | [] => by simp
  | (_, value) :: fields =>
      List.forall_mem_cons.mpr ⟨parts_induction hparts value, fields_induction hparts fields⟩

end

/-! ## Parts of same values -/

theorem itemTests_eq (items : List Json) : itemTests items = items.map same := by
  induction items with
  | nil => rfl
  | cons item items ih => rw [itemTests, List.map_cons, ih]

theorem fieldTests_eq (fields : Fields Json) :
    fieldTests fields = fields.map fun field => (field.1, same field.2) := by
  induction fields with
  | nil => rfl
  | cons field fields ih => rw [fieldTests, List.map_cons, ih]

theorem find?_fieldTests (fields : Fields Json) (key : String) :
    (fieldTests fields).find? key = (fields.find? key).map same := by
  induction fields with
  | nil => rfl
  | cons field fields ih =>
      rw [fieldTests, Fields.find?, Fields.find?, ih]
      split
      · rfl
      · rfl

theorem same_array_iff (items others : List Json) :
    (array items).same (.array others) = true ↔
      List.Forall₂ (fun item other => item.same other = true) items others := by
  rw [same, itemTests_eq]
  induction items generalizing others with
  | nil =>
      cases others with
      | nil => simp [sameItems]
      | cons other others => simp [sameItems]
  | cons item items ih =>
      cases others with
      | nil => simp [sameItems]
      | cons other others =>
          rw [List.map_cons, sameItems, Bool.and_eq_true, ih, List.forall₂_cons]

/-- Each entry of one table is found in the other one, with a value that fits. -/
def Covers (fits : Json → Json → Prop) (fields others : Fields Json) : Prop :=
  ∀ key value, (key, value) ∈ fields → ∃ other, others.find? key = some other ∧ fits value other

theorem same_object_iff (fields others : Fields Json) :
    (object fields).same (.object others) = true ↔
      Covers (fun value other => value.same other = true) fields others ∧
        Covers (fun other value => value.same other = true) others fields := by
  rw [same, sameEntries, Bool.and_eq_true, List.all_eq_true, List.all_eq_true, fieldTests_eq]
  refine and_congr ?_ ?_
  · constructor
    · intro hall key value hmem
      have hentry := hall _ (List.mem_map_of_mem hmem)
      dsimp only at hentry
      split at hentry
      next other hother => exact ⟨other, hother, hentry⟩
      next => cases hentry
    · intro hcovers entry hentry
      obtain ⟨⟨key, value⟩, hmem, rfl⟩ := List.mem_map.mp hentry
      obtain ⟨other, hother, hsame⟩ := hcovers key value hmem
      simp only [hother, hsame]
  · rw [← fieldTests_eq]
    constructor
    · intro hall key other hmem
      have hentry := hall _ hmem
      dsimp only at hentry
      rw [find?_fieldTests] at hentry
      cases hfind : Fields.find? fields key with
      | none => simp [hfind] at hentry
      | some value =>
          rw [hfind] at hentry
          exact ⟨value, rfl, hentry⟩
    · intro hcovers entry hmem
      obtain ⟨value, hvalue, hsame⟩ := hcovers entry.1 entry.2 hmem
      rw [find?_fieldTests, hvalue]
      exact hsame

/-- How two values are the same, said of their parts. -/
inductive SameParts : Json → Json → Prop
  | null : SameParts .null .null
  | bool (b : Bool) : SameParts (.bool b) (.bool b)
  | number {m n : Number} (hsame : m.same n = true) : SameParts (.number m) (.number n)
  | string (text : String) : SameParts (.string text) (.string text)
  | array {items others : List Json}
      (hitems : List.Forall₂ (fun item other => item.same other = true) items others) :
      SameParts (.array items) (.array others)
  | object {fields others : Fields Json}
      (hfields : Covers (fun value other => value.same other = true) fields others)
      (hothers : Covers (fun other value => value.same other = true) others fields) :
      SameParts (.object fields) (.object others)

theorem sameParts_of_same {a b : Json} (hsame : a.same b = true) : a.SameParts b := by
  cases a with
  | null => cases b with
    | null => exact .null
    | bool | number | string | array | object => cases hsame
  | bool x => cases b with
    | bool y =>
        obtain rfl := eq_of_beq hsame
        exact .bool x
    | null | number | string | array | object => simp [same] at hsame
  | number m => cases b with
    | number n => exact .number hsame
    | null | bool | string | array | object => simp [same] at hsame
  | string s => cases b with
    | string t =>
        obtain rfl := eq_of_beq hsame
        exact .string s
    | null | bool | number | array | object => simp [same] at hsame
  | array items => cases b with
    | array others => exact .array ((same_array_iff items others).mp hsame)
    | null | bool | number | string | object => simp [same] at hsame
  | object fields => cases b with
    | object others =>
        obtain ⟨hfields, hothers⟩ := (same_object_iff fields others).mp hsame
        exact .object hfields hothers
    | null | bool | number | string | array => simp [same] at hsame

theorem SameParts.same {a b : Json} (hparts : a.SameParts b) : a.same b = true := by
  cases hparts with
  | null => rfl
  | bool b => exact BEq.rfl
  | number hsame => exact hsame
  | string text => exact BEq.rfl
  | array hitems => exact (same_array_iff _ _).mpr hitems
  | object hfields hothers => exact (same_object_iff _ _).mpr ⟨hfields, hothers⟩

theorem mem_parts_of_find? {fields : Fields Json} {key : String} {value : Json}
    (hfind : fields.find? key = some value) : value ∈ (object fields).parts :=
  List.mem_map_of_mem (f := Prod.snd) (Fields.mem_of_find? hfind)

/-! ## Laws -/

theorem same_of_same (a : Json) : ∀ b, a.same b = true → b.same a = true := by
  induction a using parts_induction with
  | hparts a ih =>
    intro b hsame
    apply SameParts.same
    cases sameParts_of_same hsame with
    | null => exact .null
    | bool b => exact .bool b
    | number hsame => exact .number ((Number.same_symm _ _).trans hsame)
    | string text => exact .string text
    | array hitems =>
        refine .array (List.forall₂_iff_get.mpr ⟨hitems.length_eq.symm, fun i hi hj => ?_⟩)
        exact ih _ (List.get_mem _ _) _ (hitems.get hj hi)
    | object hfields hothers =>
        refine .object (fun key other hmem => ?_) fun key value hmem => ?_
        · obtain ⟨value, hvalue, hsame⟩ := hothers key other hmem
          exact ⟨value, hvalue, ih _ (mem_parts_of_find? hvalue) _ hsame⟩
        · obtain ⟨other, hother, hsame⟩ := hfields key value hmem
          exact ⟨other, hother, ih _ (List.mem_map_of_mem (f := Prod.snd) hmem) _ hsame⟩

theorem same_trans (a : Json) :
    ∀ b c, a.same b = true → b.same c = true → a.same c = true := by
  induction a using parts_induction with
  | hparts a ih =>
    intro b c hfirst hsecond
    apply SameParts.same
    cases sameParts_of_same hfirst with
    | null => exact sameParts_of_same hsecond
    | bool b => exact sameParts_of_same hsecond
    | number hfirst =>
        cases sameParts_of_same hsecond with
        | number hsecond => exact .number (Number.same_trans hfirst hsecond)
    | string text => exact sameParts_of_same hsecond
    | array hitems =>
        cases sameParts_of_same hsecond with
        | array hothers =>
            have hlength := hitems.length_eq.trans hothers.length_eq
            refine .array (List.forall₂_iff_get.mpr ⟨hlength, fun i hi hk => ?_⟩)
            have hj := hitems.length_eq ▸ hi
            exact ih _ (List.get_mem _ _) _ _ (hitems.get hi hj) (hothers.get hj hk)
    | object hfields hothers =>
        cases sameParts_of_same hsecond with
        | object hothers' hthirds =>
            refine .object (fun key value hmem => ?_) fun key third hmem => ?_
            · obtain ⟨other, hother, hsame⟩ := hfields key value hmem
              obtain ⟨third, hthird, hsame'⟩ := hothers' key other (Fields.mem_of_find? hother)
              have hpart := List.mem_map_of_mem (f := Prod.snd) hmem
              exact ⟨third, hthird, ih value hpart _ _ hsame hsame'⟩
            · obtain ⟨other, hother, hsame'⟩ := hthirds key third hmem
              obtain ⟨value, hvalue, hsame⟩ := hothers key other (Fields.mem_of_find? hother)
              exact ⟨value, hvalue, ih value (mem_parts_of_find? hvalue) _ _ hsame hsame'⟩

theorem DistinctKeys.same_self {value : Json} (hkeys : value.DistinctKeys) :
    value.same value = true := by
  induction hkeys with
  | null => rfl
  | bool b => exact BEq.rfl
  | number n =>
      cases n with
      | integer i => exact BEq.rfl
      | double x => exact Number.toFloat_beq_self (.double x)
  | string text => exact BEq.rfl
  | array _ ih =>
      rw [same_array_iff, List.forall₂_same]
      exact ih
  | object hkeys _ ih =>
      rw [same_object_iff]
      have hcovers key value hmem :=
        And.intro (Fields.find?_of_mem hkeys hmem) (ih (key, value) hmem)
      exact ⟨fun key value hmem => ⟨value, hcovers key value hmem⟩,
        fun key value hmem => ⟨value, hcovers key value hmem⟩⟩

end Json
end DecisionLogic
