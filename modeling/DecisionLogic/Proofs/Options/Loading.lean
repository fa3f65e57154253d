import DecisionLogic.Options.Load
import DecisionLogic.Proofs.Options.Layers

/-!
# What is loaded for an option

The four layers set things at or below names only, so each option is read from the highest layer
that sets it.  The options are put together from these readings: one that cannot be read fails them
all, and a greatest depth of zero is refused only after all of them have been read.
-/

namespace DecisionLogic

/-! ## Layers set things below names -/

theorem KeyStep.exists_name_pathOf (key : String) :
    ∃ name path, pathOf key = .name name :: path := by
  have hlead : stepsOf? ('.' :: key.toList).length ('.' :: key.toList) = none ∨
      ∃ name path, stepsOf? ('.' :: key.toList).length ('.' :: key.toList) =
        some (.name name :: path) := by
    rw [List.length_cons, stepsOf?]
    split
    · exact .inl rfl
    · cases stepsOf? key.toList.length _ with
      | none => exact .inl rfl
      | some path => exact .inr ⟨_, path, rfl⟩
  unfold pathOf
  dsimp only
  rcases hlead with hnone | ⟨name, path, hsome⟩
  · rw [hnone]
    exact ⟨key, [], rfl⟩
  · rw [hsome]
    exact ⟨name, path, rfl⟩

namespace Layer

theorem named_ofSettings (settings : Fields Setting) : (ofSettings settings).Named := by
  intro entry hmem
  obtain ⟨⟨key, setting⟩, -, hentry⟩ := List.mem_map.mp hmem
  have hpath : entry.1 = KeyStep.pathOf (Setting.lowerCase key) := by rw [← hentry]
  rw [hpath]
  exact KeyStep.exists_name_pathOf _

theorem exists_pathOf_of_variable {name text : String} {path : List KeyStep} {setting : Setting}
    (hset : ofVariable? name text = some (path, setting)) :
    ∃ key, path = KeyStep.pathOf key := by
  unfold ofVariable? at hset
  dsimp only at hset
  rw [Option.ite_none_right_eq_some, Option.some.injEq, Prod.mk.injEq] at hset
  obtain ⟨-, hpath, -⟩ := hset
  exact ⟨_, hpath.symm⟩

theorem named_ofEnvironment (environment : Fields String) : (ofEnvironment environment).Named := by
  rintro ⟨path, setting⟩ hmem
  obtain ⟨⟨name, text⟩, -, hset⟩ := List.mem_filterMap.mp hmem
  obtain ⟨key, rfl⟩ := exists_pathOf_of_variable hset
  exact KeyStep.exists_name_pathOf key

theorem setting?_append (first second : Layer) (name : String) :
    setting? (first ++ second) name = (second.setting? name).or (first.setting? name) := by
  unfold setting?
  rw [List.reverse_append, List.findSome?_append]

end Layer

namespace Surroundings

theorem named_of_fileLayer {surroundings : Surroundings} {given : Option String} {file : Layer}
    (hfile : surroundings.fileLayer given = .ok file) : file.Named := by
  unfold fileLayer at hfile
  split at hfile
  · cases hfile
    exact fun entry hmem => absurd hmem List.not_mem_nil
  · split at hfile
    · cases hfile
      exact Layer.named_ofSettings _
    · cases hfile

end Surroundings

/-! ## Overrides and defaults -/

namespace Options

/-- The value of an option. -/
def value (options : Options) : (item : Item) → item.Value
  | .yieldSupported => options.yieldSupported
  | .disableInline => options.disableInline
  | .poolMax => options.poolMax
  | .maxDepth => options.maxDepth

end Options

namespace Overrides

open Options (Item)

/-- The value that an option is overridden with. -/
def value? (overrides : Overrides) : (item : Item) → Option item.Value
  | .yieldSupported => overrides.yieldSupported
  | .disableInline => overrides.disableInline
  | .poolMax => overrides.poolMax
  | .maxDepth => overrides.maxDepth

/-- The layer that sets one option, if there is a value for it. -/
def layerOf (item : Item) (value? : Option item.Value) : Layer :=
  (value?.map item.toSetting).toList.map fun setting => ([.name item.name], setting)

theorem toLayer_eq (overrides : Overrides) :
    overrides.toLayer =
      layerOf .yieldSupported overrides.yieldSupported ++
        layerOf .disableInline overrides.disableInline ++
        layerOf .poolMax overrides.poolMax ++ layerOf .maxDepth overrides.maxDepth := by
  obtain ⟨yieldSupported, disableInline, poolMax, maxDepth⟩ := overrides
  cases poolMax <;> cases maxDepth <;> rfl

theorem setting?_layerOf (item : Item) (value? : Option item.Value) (name : String) :
    (layerOf item value?).setting? name =
      if item.name = name then value?.map item.toSetting else none := by
  cases value? with
  | none => rw [Option.map_none, ite_self]; rfl
  | some value =>
      have hwritten : ((item.toSetting value).write [] none).filled? =
          some (item.toSetting value) := by
        cases item <;> rfl
      change (List.findSome? (Layer.given? name) [([.name item.name], item.toSetting value)]) = _
      rw [List.findSome?_singleton, Layer.given?_name, hwritten]
      rfl

theorem setting?_toLayer (overrides : Overrides) (item : Item) :
    overrides.toLayer.setting? item.name = (overrides.value? item).map item.toSetting := by
  simp only [toLayer_eq, Layer.setting?_append, setting?_layerOf]
  cases item <;> simp [Item.name, value?]

theorem named_toLayer (overrides : Overrides) : overrides.toLayer.Named := by
  intro entry hmem
  simp only [toLayer, List.mem_append, List.mem_map] at hmem
  rcases hmem with ((⟨_, -, rfl⟩ | ⟨_, -, rfl⟩) | ⟨_, -, rfl⟩) | ⟨_, -, rfl⟩
  all_goals exact ⟨_, _, rfl⟩

end Overrides

/-! ## Options from readings -/

namespace Options

theorem setting?_defaultLayer (item : Item) :
    defaultLayer.setting? item.name = some (item.toSetting (value {} item)) := by
  unfold defaultLayer
  rw [Overrides.setting?_toLayer]
  cases item <;> rfl

/-- The value that the highest layer with a setting for an option gives it: the overrides, the
environment, the file or the defaults.  There is none if that setting cannot be read. -/
def Item.chosen? (item : Item) (file : Layer) (environment : Fields String)
    (overrides : Overrides) : Option item.Value :=
  match overrides.value? item with
  | some value => some value
  | none =>
      match (Layer.ofEnvironment environment).setting? item.name with
      | some setting => item.ofSetting? setting
      | none =>
          match file.setting? item.name with
          | some setting => item.ofSetting? setting
          | none => some (value {} item)

/-- An option is read from all layers together as the highest one with a setting for it says. -/
theorem reading?_eq_chosen? {file : Layer} (hnamed : file.Named) (environment : Fields String)
    (overrides : Overrides) (item : Item) :
    item.reading? ([defaultLayer, file, .ofEnvironment environment, overrides.toLayer].foldl
      (fun root (layer : Layer) => layer.writeTo root) (.table [])) =
        item.chosen? file environment overrides := by
  have hall : ∀ layer ∈ [defaultLayer, file, .ofEnvironment environment, overrides.toLayer],
      Layer.Named layer := by
    simp only [List.forall_mem_cons, List.not_mem_nil, false_implies, implies_true, and_true]
    exact ⟨Overrides.named_toLayer _, hnamed, Layer.named_ofEnvironment _,
      Overrides.named_toLayer _⟩
  rw [Layer.reading?_layers hall]
  unfold Layer.highest? Item.chosen?
  change ((List.findSome? (fun layer => Layer.setting? layer item.name)
    [overrides.toLayer, .ofEnvironment environment, file, defaultLayer]).elim _ _) = _
  rw [List.findSome?_cons, Overrides.setting?_toLayer]
  cases overrides.value? item with
  | some value => exact item.ofSetting?_toSetting value
  | none =>
      rw [Option.map_none]
      dsimp only
      rw [List.findSome?_cons]
      cases (Layer.ofEnvironment environment).setting? item.name with
      | some setting => rfl
      | none =>
          dsimp only
          rw [List.findSome?_cons]
          cases file.setting? item.name with
          | some setting => rfl
          | none =>
              dsimp only
              rw [List.findSome?_cons, setting?_defaultLayer]
              exact item.ofSetting?_toSetting _

/-- The options with the values that were read, if there is one for each. -/
def assemble? (readings : (item : Item) → Option item.Value) : Option Options := do
  let yieldSupported ← readings .yieldSupported
  let disableInline ← readings .disableInline
  let poolMax ← readings .poolMax
  let maxDepth ← readings .maxDepth
  return { yieldSupported, disableInline, poolMax, maxDepth }

theorem assemble?_eq_some_iff (readings : (item : Item) → Option item.Value) (options : Options) :
    assemble? readings = some options ↔ ∀ item, readings item = some (options.value item) := by
  unfold assemble?
  constructor
  · intro hoptions item
    simp only [Option.bind_eq_bind, Option.bind_eq_some_iff, Option.pure_def,
      Option.some.injEq] at hoptions
    obtain ⟨y, hy, d, hd, p, hp, m, hm, rfl⟩ := hoptions
    cases item with
    | yieldSupported => exact hy
    | disableInline => exact hd
    | poolMax => exact hp
    | maxDepth => exact hm
  · intro hreadings
    rw [hreadings .yieldSupported, hreadings .disableInline, hreadings .poolMax,
      hreadings .maxDepth]
    rfl

theorem assemble?_eq_none_iff (readings : (item : Item) → Option item.Value) :
    assemble? readings = none ↔ ∃ item, readings item = none := by
  constructor
  · intro hnone
    by_contra hread
    have hsome (item : Item) : ∃ value, readings item = some value :=
      Option.ne_none_iff_exists'.mp fun h => hread ⟨item, h⟩
    choose value hvalue using hsome
    have hoptions := (assemble?_eq_some_iff readings ⟨value .yieldSupported, value .disableInline,
      value .poolMax, value .maxDepth⟩).mpr fun item => by cases item <;> exact hvalue _
    rw [hnone] at hoptions
    cases hoptions
  · rintro ⟨item, hnone⟩
    refine Option.eq_none_iff_forall_ne_some.mpr fun options hoptions => ?_
    rw [(assemble?_eq_some_iff readings options).mp hoptions item] at hnone
    cases hnone

/-- Options are accepted if all could be read and the greatest depth is not zero. -/
def accept : Option Options → Except Failure Options
  | none => .error (.options .unreadable)
  | some options =>
      if options.maxDepth = 0 then .error (.options (.refused "max_depth must be at least 1"))
      else .ok options

theorem ofTable_eq_accept (root : Setting) :
    ofTable root.entries = accept (assemble? fun item => item.reading? root) := by
  have hyield : (Fields.find? root.entries "yield_supported").bind Setting.toBool? =
      Item.yieldSupported.reading? root := rfl
  have hinline : (Fields.find? root.entries "disable_inline").bind Setting.toBool? =
      Item.disableInline.reading? root := rfl
  have hpool : (Fields.find? root.entries "pool_max").bind Setting.toCount? =
      Item.poolMax.reading? root := rfl
  have hdepth : (Fields.find? root.entries "max_depth").bind Setting.toCount? =
      Item.maxDepth.reading? root := rfl
  unfold ofTable assemble? read
  beta_reduce
  rw [hyield, hinline, hpool, hdepth]
  cases Item.yieldSupported.reading? root with
  | none => rfl
  | some yieldSupported =>
      cases Item.disableInline.reading? root with
      | none => rfl
      | some disableInline =>
          cases Item.poolMax.reading? root with
          | none => rfl
          | some poolMax =>
              cases Item.maxDepth.reading? root with
              | none => rfl
              | some maxDepth => rfl

theorem accept_eq_ok_iff (found : Option Options) (options : Options) :
    accept found = .ok options ↔ found = some options ∧ options.maxDepth ≠ 0 := by
  unfold accept
  constructor
  · intro haccepted
    split at haccepted
    next => cases haccepted
    next other =>
      split at haccepted
      next => cases haccepted
      next hdepth =>
        cases haccepted
        exact ⟨rfl, hdepth⟩
  · rintro ⟨rfl, hdepth⟩
    exact if_neg hdepth

theorem accept_eq_unreadable_iff (found : Option Options) :
    accept found = .error (.options .unreadable) ↔ found = none := by
  unfold accept
  constructor
  · intro hunreadable
    split at hunreadable
    next => rfl
    next other =>
      split at hunreadable
      next => cases hunreadable
      next => cases hunreadable
  · rintro rfl
    rfl

theorem accept_eq_refused_iff (found : Option Options) :
    accept found = .error (.options (.refused "max_depth must be at least 1")) ↔
      ∃ options, found = some options ∧ options.maxDepth = 0 := by
  unfold accept
  constructor
  · intro hrefused
    split at hrefused
    next => cases hrefused
    next other =>
      split at hrefused
      next hdepth => exact ⟨other, rfl, hdepth⟩
      next => cases hrefused
  · rintro ⟨options, rfl, hdepth⟩
    exact if_pos hdepth

/-- Options are loaded from the values that the highest layers give. -/
theorem load_eq_accept {surroundings : Surroundings} {given : Option String} {file : Layer}
    (hfile : surroundings.fileLayer given = .ok file) (overrides : Overrides) :
    load surroundings given overrides =
      accept (assemble? fun item => item.chosen? file surroundings.environment overrides) := by
  have hchosen := reading?_eq_chosen? (Surroundings.named_of_fileLayer hfile)
    surroundings.environment overrides
  have hlayers : load surroundings given overrides =
      ofLayers [defaultLayer, file, .ofEnvironment surroundings.environment,
        overrides.toLayer] := by
    unfold load
    rw [hfile]
    rfl
  rw [hlayers, ofLayers, ofTable_eq_accept]
  exact congrArg (fun readings => accept (assemble? readings)) (funext hchosen)

end Options
end DecisionLogic
