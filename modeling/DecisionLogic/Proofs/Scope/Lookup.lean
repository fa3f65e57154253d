import DecisionLogic.Proofs.Scope.Paths

/-!
# What a lookup finds

A scope keeps a root and the keys that lead to its place, and follows them again whenever its data
is asked for; a lookup follows values side by side with scopes.  Both agree for every scope that a
program can get hold of, because no step of a lookup leaves a place whose keys lead nowhere.
-/

namespace DecisionLogic

/-- The keys of the place lead somewhere, and none of them is the reserved field. -/
structure Place.Sound (place : Place) : Prop where
  leads : place.root.follow? place.keys = some place.data
  permitted : reservedField ∉ place.keys

theorem Json.follow?_concat (value : Json) (keys : List String) (key : String) :
    value.follow? (keys ++ [key]) = (value.follow? keys).bind fun next => next.step? key := by
  induction keys generalizing value with
  | nil => cases hstep : value.step? key <;> simp [follow?, hstep]
  | cons first keys ih =>
      simp only [List.cons_append, follow?]
      cases value.step? first with
      | none => rfl
      | some next => exact ih next

namespace Scope

/-- The scopes that can be had: from data, below another one, above one, or by a lookup. -/
inductive Reachable : Scope → Prop
  | ofData (data : Json) : Reachable (ofData data)
  | withAbove (data : Json) (above : List Json) : Reachable (withAbove data above)
  | child {scope : Scope} (hscope : Reachable scope) (data : Json) : Reachable (scope.child data)
  | parent {scope parent : Scope} (hscope : Reachable scope)
      (hparent : scope.parent? = some parent) : Reachable parent
  | lookup {scope found : Scope} (hscope : Reachable scope) {text : String}
      (hfound : scope.lookup text = .ok (some found)) : Reachable found

/-- The place of the scope is sound, and so are all that enclose it. -/
def Sound (scope : Scope) : Prop :=
  ∀ place ∈ scope.here :: scope.enclosing, place.Sound

/-- The scope found by `keys` from `start` is at `value`, and the places passed on the way enclose
it one by one up to `start`. -/
structure Reaches (start : Scope) (keys : List String) (value : Json) (found : Scope) : Prop where
  data : found.data = value
  depth : found.depth = start.depth + keys.length
  between : ∀ i < keys.length,
    start.data.follow? (keys.take (keys.length - i)) = some (found.ancestor i).data
  above : found.ancestor keys.length = start

/-- What asking `scope` for a text comes to if the text climbs to `start` and goes on with
`rest`. -/
structure Answers (scope : Scope) (text : String) (start : Scope) (rest : List Char) : Prop where
  here : rest = [] →
    scope.lookup text = .ok (some start) ∧ scope.resolve text = .ok start.data
  reserved : rest ≠ [] → reservedField ∈ Path.pieces rest →
    scope.lookup text = .error (.pathSecurity text reservedField) ∧
      scope.resolve text = .error (.pathSecurity text reservedField)
  missing : rest ≠ [] → reservedField ∉ Path.pieces rest →
    start.data.follow? (Path.pieces rest) = none →
      scope.lookup text = .ok none ∧ scope.resolve text = .ok .null
  found : rest ≠ [] → reservedField ∉ Path.pieces rest →
    ∀ value, start.data.follow? (Path.pieces rest) = some value →
      ∃ found, scope.lookup text = .ok (some found) ∧ scope.resolve text = .ok value ∧
        Reaches start (Path.pieces rest) value found

/-! ## Going up -/

theorem ancestor_succ (scope : Scope) (n : Nat) :
    scope.ancestor (n + 1) = (scope.ancestor n).parent?.getD (scope.ancestor n) := by
  induction n generalizing scope with
  | zero => cases hparent : scope.parent? <;> simp [ancestor, hparent]
  | succ n ih =>
      cases hparent : scope.parent? with
      | none =>
          have hstay : ∀ m, scope.ancestor (m + 1) = scope.ancestor m := fun m => by
            simp [ancestor, hparent]
          rw [hstay (n + 1), hstay n]
          exact (hstay n).symm.trans (ih scope)
      | some parent =>
          have hclimb : ∀ m, scope.ancestor (m + 1) = parent.ancestor m := fun m => by
            simp [ancestor, hparent]
          rw [hclimb (n + 1), hclimb n]
          exact ih parent

namespace Sound

variable {scope : Scope}

theorem parent {above : Scope} (hsound : scope.Sound) (hparent : scope.parent? = some above) :
    above.Sound := by
  unfold parent? at hparent
  split at hparent
  next => cases hparent
  next place rest henclosing =>
    obtain rfl := Option.some.inj hparent
    intro other hother
    exact hsound other (by simpa [henclosing] using Or.inr hother)

theorem ancestor (hsound : scope.Sound) (n : Nat) : (scope.ancestor n).Sound := by
  induction n with
  | zero => exact hsound
  | succ n ih =>
      rw [ancestor_succ]
      cases hparent : (scope.ancestor n).parent? with
      | none => exact ih
      | some above => exact ih.parent hparent

/-! ## Going down -/

variable {key : String} {next : Json}

theorem follow?_descend (hsound : scope.Sound) (hstep : scope.data.step? key = some next) :
    (scope.descend key).here.root.follow? (scope.descend key).here.keys = some next := by
  have hhere := (hsound scope.here (List.mem_cons_self ..)).leads
  simp only [descend, Json.follow?_concat, hhere, Option.bind_some]
  exact hstep

theorem data_descend (hsound : scope.Sound) (hstep : scope.data.step? key = some next) :
    (scope.descend key).data = next := by
  simp only [data, Place.data, hsound.follow?_descend hstep, Option.getD_some]

theorem descend (hsound : scope.Sound) (hstep : scope.data.step? key = some next)
    (hkey : key ≠ reservedField) : (scope.descend key).Sound := by
  have hhere := (hsound scope.here (List.mem_cons_self ..)).permitted
  rintro place (- | ⟨-, hplace⟩)
  · exact
      { leads := by
          rw [hsound.follow?_descend hstep]
          exact congrArg some (hsound.data_descend hstep).symm
        permitted := by simp [Scope.descend, hhere, hkey.symm] }
  · exact hsound place hplace

/-- A walk from a sound scope goes as far as its data does. -/
theorem walk? (hsound : scope.Sound) {keys : List String} (hkeys : reservedField ∉ keys)
    {value : Json} (hvalue : scope.data.follow? keys = some value) :
    ∃ found, scope.walk? scope.data keys = some found ∧ found.Sound ∧
      Reaches scope keys value found := by
  induction keys generalizing scope with
  | nil =>
      refine ⟨scope, rfl, hsound, ?_⟩
      exact ⟨Option.some.inj hvalue, rfl, fun i hi => absurd hi (Nat.not_lt_zero i), rfl⟩
  | cons key keys ih =>
      obtain ⟨hkey, hkeys⟩ := List.ne_and_not_mem_of_not_mem_cons hkeys
      obtain ⟨next, hstep, hnext⟩ := Option.bind_eq_some_iff.mp hvalue
      have hdata := hsound.data_descend hstep
      rw [← hdata] at hnext
      obtain ⟨found, hwalk, hfound, hreaches⟩ :=
        ih (hsound.descend hstep hkey.symm) hkeys hnext
      refine ⟨found, ?_, hfound, hreaches.data, ?_, ?_, ?_⟩
      · simp only [Scope.walk?, hstep, Option.bind_some]
        rwa [hdata] at hwalk
      · rw [hreaches.depth, depth_descend, List.length_cons]
        omega
      · intro i hi
        rw [List.length_cons] at hi ⊢
        obtain hlt | rfl := Nat.lt_succ_iff_lt_or_eq.mp hi
        · have hbetween := hreaches.between i hlt
          rw [hdata] at hbetween
          rw [Nat.succ_sub (Nat.le_of_lt hlt), List.take_succ_cons, Json.follow?, hstep, Option.bind_some,
            hbetween]
        · rw [hreaches.above, hdata, Nat.succ_sub (Nat.le_refl _), Nat.sub_self]
          simp [Json.follow?, hstep]
      · rw [List.length_cons, ancestor_succ, hreaches.above, parent?_descend, Option.getD_some]

end Sound

theorem walk?_of_missing {keys : List String} {value : Json} (scope : Scope)
    (hvalue : value.follow? keys = none) : scope.walk? value keys = none := by
  induction keys generalizing scope value with
  | nil => cases hvalue
  | cons key keys ih =>
      simp only [walk?, Json.follow?, Option.bind_eq_none_iff] at hvalue ⊢
      exact fun next hstep => ih _ (hvalue next hstep)

/-! ## Lookups -/

variable {scope : Scope}

theorem Sound.answers (hsound : scope.Sound) {text : String} {ups : Nat} {rest : List Char}
    (hclimbs : Path.Climbs text ups rest) : Answers scope text (scope.ancestor ups) rest where
  here := by
    rintro rfl
    simp [resolve, Scope.lookup, hclimbs.parse_eq, Scope.walk?, Except.map]
  reserved := by
    intro hrest hreserved
    simp [resolve, lookup, hclimbs.parse_eq, hrest, hreserved, Except.map]
  missing := by
    intro hrest hpermitted hmissing
    have hwalk := walk?_of_missing (scope.ancestor ups) hmissing
    simp [resolve, lookup, hclimbs.parse_eq, hrest, hpermitted, hwalk, Except.map]
  found := by
    intro hrest hpermitted value hvalue
    obtain ⟨found, hwalk, -, hreaches⟩ := (hsound.ancestor ups).walk? hpermitted hvalue
    refine ⟨found, ?_, ?_, hreaches⟩ <;>
      simp [resolve, lookup, hclimbs.parse_eq, hrest, hpermitted, hwalk, hreaches.data, Except.map]

theorem sound_of_keyless {places : List Place} (hkeys : ∀ place ∈ places, place.keys = []) :
    ∀ place ∈ places, place.Sound := by
  intro place hplace
  exact ⟨by simp [Place.data, hkeys place hplace, Json.follow?], by simp [hkeys place hplace]⟩

theorem Sound.lookup (hsound : scope.Sound) {text : String} {found : Scope}
    (hfound : scope.lookup text = .ok (some found)) : found.Sound := by
  have hstart := hsound.ancestor (Path.parse text).ups
  simp only [Scope.lookup] at hfound
  split at hfound
  next => cases hfound
  next hpermitted =>
    have hwalk := Except.ok.inj hfound
    cases hvalue : (scope.ancestor (Path.parse text).ups).data.follow? (Path.parse text).keys with
    | none => cases (walk?_of_missing _ hvalue).symm.trans hwalk
    | some value =>
        obtain ⟨other, hother, hsame, -⟩ := hstart.walk? hpermitted hvalue
        obtain rfl := Option.some.inj (hother.symm.trans hwalk)
        exact hsame

theorem Reachable.sound (hscope : Reachable scope) : scope.Sound := by
  induction hscope with
  | ofData data => exact sound_of_keyless (by simp [Scope.ofData])
  | withAbove data above => exact sound_of_keyless (by simp [Scope.withAbove])
  | child _ data ih =>
      rintro place (- | ⟨-, hplace⟩)
      · exact ⟨rfl, List.not_mem_nil⟩
      · exact ih place hplace
  | parent _ hparent ih => exact ih.parent hparent
  | lookup _ hfound ih => exact ih.lookup hfound

/-- The keys of a reachable scope lead to its data and avoid the reserved field, and every text has
the answer that its steps up and its pieces name. -/
theorem reachable_lookup_answers (hscope : Reachable scope) (text : String) :
    (reservedField ∉ scope.here.keys ∧
        scope.here.root.follow? scope.here.keys = some scope.data) ∧
      (∃ ups rest, Path.Climbs text ups rest) ∧
        ∀ ups rest, Path.Climbs text ups rest →
          Answers scope text (scope.ancestor ups) rest := by
  have hsound := hscope.sound
  have hhere := hsound scope.here (List.mem_cons_self ..)
  exact ⟨⟨hhere.permitted, hhere.leads⟩, Path.exists_climbs text,
    fun _ _ hclimbs => hsound.answers hclimbs⟩

/-- From a scope below one that a lookup has found, two steps up lead into the data the lookup has
passed through. -/
theorem reachable_lookup_answers_relative :
    let price := Json.object [("price", .bool true)]
    let order := Json.object [("lines", .array [price])]
    ∃ line, (ofData order).lookup "lines.0" = .ok (some line) ∧
      ∃ found, (line.child .null).lookup "../../0.price" = .ok (some found) ∧
        found.data = .bool true ∧ found.depth = 3 ∧ (found.ancestor 1).data = price := by
  intro price order
  let line := ((ofData order).descend "lines").descend "0"
  have hline : (ofData order).lookup "lines.0" = .ok (some line) := rfl
  have hreachable : Reachable (line.child .null) := .child (.lookup (.ofData order) hline) .null
  have hclimbs : Path.Climbs "../../0.price" 2 "0.price".toList := ⟨by decide, by decide⟩
  have hpieces : Path.pieces "0.price".toList = ["0", "price"] := rfl
  have hstart : (line.child .null).ancestor 2 = (ofData order).descend "lines" := rfl
  have hfollow : ((line.child .null).ancestor 2).data.follow? (Path.pieces "0.price".toList) =
      some (.bool true) := by
    rw [hstart, hpieces]
    rfl
  obtain ⟨found, hlookup, -, hreaches⟩ :=
    ((reachable_lookup_answers hreachable "../../0.price").2.2 2 _ hclimbs).found
      (by decide) (by decide) (.bool true) hfollow
  have hbetween := hreaches.between 1 (by decide)
  rw [hpieces, hstart] at hbetween
  refine ⟨line, hline, found, hlookup, hreaches.data, hreaches.depth, ?_⟩
  exact Option.some.inj (hbetween.symm.trans rfl)

end Scope
end DecisionLogic
