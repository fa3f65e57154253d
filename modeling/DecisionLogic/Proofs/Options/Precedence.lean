import DecisionLogic.CommandLine.Run
import DecisionLogic.Proofs.Options.Loading

/-!
# Precedence of the layers

The options are loaded one by one from the highest layer that sets them.  What a lower layer says is
not looked at, not even to refuse it.  The path of the file is a layered setting of its own: a given
path takes the place of the one in the environment.
-/

namespace DecisionLogic

/-! ## The path of the file -/

namespace Surroundings

theorem follow?_environment (surroundings : Surroundings) (environment : Fields String)
    (directory parts : List String) :
    follow? { surroundings with environment } directory parts =
      surroundings.follow? directory parts := by
  induction parts generalizing directory with
  | nil => rfl
  | cons part parts ih =>
      simp only [follow?, ih]
      rfl

theorem file?_environment (surroundings : Surroundings) (environment : Fields String)
    (path : String) :
    file? { surroundings with environment } path = surroundings.file? path := by
  unfold file?
  rw [follow?_environment]

theorem optionsText?_environment (surroundings : Surroundings) (environment : Fields String)
    (path : String) :
    optionsText? { surroundings with environment } path = surroundings.optionsText? path := by
  unfold optionsText?
  simp only [file?_environment]

theorem fileLayer_given (surroundings : Surroundings) (environment : Fields String)
    (given : Option String) (hnone : environment.find? fileVariable = none) :
    fileLayer { surroundings with environment } (surroundings.optionsPath? given) =
      surroundings.fileLayer given := by
  have hpath : optionsPath? { surroundings with environment } (surroundings.optionsPath? given) =
      surroundings.optionsPath? given := by
    unfold optionsPath?
    rw [hnone, Option.or_none]
  unfold fileLayer
  rw [hpath]
  simp only [optionsText?_environment]

end Surroundings

namespace Fields

theorem find?_erase_self {α : Type} (fields : Fields α) (key : String) :
    (fields.erase key).find? key = none := by
  induction fields with
  | nil => rfl
  | cons entry rest ih =>
      unfold erase at *
      by_cases hkey : entry.1 = key
      · rw [List.filter_cons_of_neg (by simp [hkey])]
        exact ih
      · rw [List.filter_cons_of_pos (by simp [hkey])]
        unfold find?
        rw [if_neg hkey]
        exact ih

end Fields

/-- The variable that names the file sets no option. -/
theorem Layer.ofEnvironment_erase (environment : Fields String) :
    ofEnvironment (environment.erase Surroundings.fileVariable) = ofEnvironment environment := by
  unfold ofEnvironment Fields.erase
  rw [List.filterMap_filter]
  refine List.filterMap_congr fun ⟨name, text⟩ _ => ?_
  by_cases hname : name = Surroundings.fileVariable
  · rw [hname]
    rfl
  · simp [hname]

namespace Options

/-! ## Combinations of layers -/

/-- Two combinations of layers agree on an option from the highest layer down to the first that sets
it.  They may differ in all layers below that one. -/
def Item.Agrees (item : Item) (file file' : Layer) (environment environment' : Fields String)
    (overrides overrides' : Overrides) : Prop :=
  overrides'.value? item = overrides.value? item ∧
    (overrides.value? item = none →
      (Layer.ofEnvironment environment').setting? item.name =
          (Layer.ofEnvironment environment).setting? item.name ∧
        ((Layer.ofEnvironment environment).setting? item.name = none →
          file'.setting? item.name = file.setting? item.name))

theorem Item.Agrees.chosen?_eq {item : Item} {file file' : Layer}
    {environment environment' : Fields String} {overrides overrides' : Overrides}
    (hagrees : item.Agrees file file' environment environment' overrides overrides') :
    item.chosen? file' environment' overrides' = item.chosen? file environment overrides := by
  obtain ⟨hoverride, hbelow⟩ := hagrees
  unfold chosen?
  rw [hoverride]
  cases hvalue : overrides.value? item with
  | some value => rfl
  | none =>
      obtain ⟨hvariable, hfile⟩ := hbelow hvalue
      dsimp only
      rw [hvariable]
      cases hset : (Layer.ofEnvironment environment).setting? item.name with
      | some setting => rfl
      | none =>
          dsimp only
          rw [hfile hset]

/-- Options with those switched on that the flags of a command line name. -/
def switchedOn (options : Options) (arguments : CommandLine.Arguments) : Options :=
  { options with
    yieldSupported := options.yieldSupported || arguments.yieldSupported
    disableInline := options.disableInline || arguments.disableInline }

theorem chosen?_switchedOn {file : Layer} {environment : Fields String} {options : Options}
    (arguments : CommandLine.Arguments) {item : Item}
    (hchosen : item.chosen? file environment {} = some (options.value item)) :
    item.chosen? file environment arguments.overrides =
      some ((options.switchedOn arguments).value item) := by
  obtain ⟨config, yieldSupported, disableInline, command⟩ := arguments
  cases item with
  | yieldSupported =>
      cases yieldSupported with
      | false => exact hchosen.trans (congrArg some (Bool.or_false _).symm)
      | true => exact congrArg some (Bool.or_true _).symm
  | disableInline =>
      cases disableInline with
      | false => exact hchosen.trans (congrArg some (Bool.or_false _).symm)
      | true => exact congrArg some (Bool.or_true _).symm
  | poolMax => exact hchosen
  | maxDepth => exact hchosen

/-! ## Loading -/

section Loading

variable {surroundings : Surroundings} {given : Option String} {file : Layer}

theorem load_eq_ok_iff (hfile : surroundings.fileLayer given = .ok file) (overrides : Overrides)
    (options : Options) :
    load surroundings given overrides = .ok options ↔
      (∀ item : Item,
        item.chosen? file surroundings.environment overrides = some (options.value item)) ∧
        options.maxDepth ≠ 0 := by
  rw [load_eq_accept hfile, accept_eq_ok_iff, assemble?_eq_some_iff]

theorem load_eq_unreadable_iff (hfile : surroundings.fileLayer given = .ok file)
    (overrides : Overrides) :
    load surroundings given overrides = .error (.options .unreadable) ↔
      ∃ item : Item, item.chosen? file surroundings.environment overrides = none := by
  rw [load_eq_accept hfile, accept_eq_unreadable_iff, assemble?_eq_none_iff]

theorem load_eq_refused_iff (hfile : surroundings.fileLayer given = .ok file)
    (overrides : Overrides) :
    load surroundings given overrides =
        .error (.options (.refused "max_depth must be at least 1")) ↔
      (∀ item : Item, (item.chosen? file surroundings.environment overrides).isSome) ∧
        Item.maxDepth.chosen? file surroundings.environment overrides = some (0 : Nat) := by
  rw [load_eq_accept hfile, accept_eq_refused_iff]
  constructor
  · rintro ⟨options, hoptions, hdepth⟩
    have hchosen := (assemble?_eq_some_iff _ _).mp hoptions
    exact ⟨fun item => by rw [hchosen item, Option.isSome_some],
      (hchosen .maxDepth).trans (congrArg some hdepth)⟩
  · rintro ⟨hsome, hdepth⟩
    cases hoptions : assemble? fun item =>
        item.chosen? file surroundings.environment overrides with
    | none =>
        obtain ⟨item, hnone⟩ := (assemble?_eq_none_iff _).mp hoptions
        have hitem := hsome item
        rw [hnone] at hitem
        exact absurd hitem Bool.false_ne_true
    | some options =>
        have hchosen := (assemble?_eq_some_iff _ _).mp hoptions .maxDepth
        exact ⟨options, rfl, Option.some.inj (hchosen.symm.trans hdepth)⟩

theorem load_congr {surroundings' : Surroundings} {given' : Option String} {file' : Layer}
    {overrides overrides' : Overrides} (hfile : surroundings.fileLayer given = .ok file)
    (hfile' : surroundings'.fileLayer given' = .ok file')
    (hagrees : ∀ item : Item, item.Agrees file file' surroundings.environment
      surroundings'.environment overrides overrides') :
    load surroundings' given' overrides' = load surroundings given overrides := by
  rw [load_eq_accept hfile, load_eq_accept hfile']
  exact congrArg (fun readings => accept (assemble? readings))
    (funext fun item => (hagrees item).chosen?_eq)

theorem load_switchedOn (hfile : surroundings.fileLayer given = .ok file)
    (arguments : CommandLine.Arguments) {options : Options}
    (hloaded : load surroundings given {} = .ok options) :
    load surroundings given arguments.overrides = .ok (options.switchedOn arguments) := by
  obtain ⟨hchosen, hdepth⟩ := (load_eq_ok_iff hfile _ _).mp hloaded
  exact (load_eq_ok_iff hfile _ _).mpr
    ⟨fun item => chosen?_switchedOn arguments (hchosen item), hdepth⟩

theorem execute_of_load {arguments : CommandLine.Arguments}
    (hfile : surroundings.fileLayer arguments.config = .ok file) {options : Options}
    (hloaded : load surroundings arguments.config {} = .ok options) {report : CommandLine.Report}
    (hreport : CommandLine.report surroundings (options.switchedOn arguments) arguments.command =
      .ok report) :
    arguments.execute surroundings = report := by
  have hresult : (do
      let options ← (load surroundings arguments.config arguments.overrides).mapError
        fun _ => CommandLine.Problem.options
      CommandLine.report surroundings options arguments.command) = .ok report := by
    rw [load_switchedOn hfile arguments hloaded]
    exact hreport
  unfold CommandLine.Arguments.execute
  dsimp only
  rw [hresult]

theorem on_of_load (hfile : surroundings.fileLayer given = .ok file)
    {arguments : CommandLine.Arguments} {options : Options}
    (hloaded : load surroundings given arguments.overrides = .ok options) :
    (arguments.yieldSupported = true → options.yieldSupported = true) ∧
      (arguments.disableInline = true → options.disableInline = true) := by
  have hchosen := ((load_eq_ok_iff hfile _ _).mp hloaded).1
  obtain ⟨config, yieldSupported, disableInline, command⟩ := arguments
  constructor
  · rintro rfl
    exact (Option.some.inj (hchosen .yieldSupported)).symm
  · rintro rfl
    exact (Option.some.inj (hchosen .disableInline)).symm

end Loading

/-- The path in the environment counts as if it were given, and for nothing else. -/
theorem load_path (surroundings : Surroundings) (given : Option String) (overrides : Overrides) :
    load surroundings given overrides =
      load { surroundings with
          environment := surroundings.environment.erase Surroundings.fileVariable }
        (given.or (surroundings.environment.find? Surroundings.fileVariable)) overrides := by
  have hfile := surroundings.fileLayer_given
    (surroundings.environment.erase Surroundings.fileVariable) given (Fields.find?_erase_self _ _)
  unfold Surroundings.optionsPath? at hfile
  unfold load
  rw [hfile, Layer.ofEnvironment_erase]

/-- How options are loaded from the environment, a file and overrides. -/
structure Layered (surroundings : Surroundings) (given : Option String) (file : Layer)
    (overrides : Overrides) : Prop where
  /-- Every option has the value that its highest layer gives it, and the depth is not zero. -/
  loaded_iff : ∀ options, load surroundings given overrides = .ok options ↔
    (∀ item : Item,
      item.chosen? file surroundings.environment overrides = some (options.value item)) ∧
      options.maxDepth ≠ 0
  /-- A depth of zero is refused if the highest layer gives it, and only then. -/
  refused_iff : load surroundings given overrides =
      .error (.options (.refused "max_depth must be at least 1")) ↔
    (∀ item : Item, (item.chosen? file surroundings.environment overrides).isSome) ∧
      Item.maxDepth.chosen? file surroundings.environment overrides = some (0 : Nat)
  /-- No other setting fails the options than one of a highest layer that cannot be read. -/
  unreadable_iff : load surroundings given overrides = .error (.options .unreadable) ↔
    ∃ item : Item, item.chosen? file surroundings.environment overrides = none
  /-- What lies below the highest layers may be changed. -/
  overridden : ∀ surroundings' given' file' overrides',
    surroundings'.fileLayer given' = .ok file' →
    (∀ item : Item, item.Agrees file file' surroundings.environment surroundings'.environment
      overrides overrides') →
    load surroundings' given' overrides' = load surroundings given overrides
  /-- The file is that of the given path, or else of the path in the environment. -/
  path : load surroundings given overrides =
    load
      { surroundings with environment := surroundings.environment.erase Surroundings.fileVariable }
      (given.or (surroundings.environment.find? Surroundings.fileVariable)) overrides
  /-- Flags leave the options as they are without flags, but for those that they switch on. -/
  switched : ∀ (arguments : CommandLine.Arguments) (options : Options),
    load surroundings given {} = .ok options →
    load surroundings given arguments.overrides = .ok (options.switchedOn arguments)
  /-- A command is executed with the options that its flags leave. -/
  executed : ∀ (arguments : CommandLine.Arguments) (options : Options)
    (report : CommandLine.Report), arguments.config = given →
    load surroundings given {} = .ok options →
    CommandLine.report surroundings (options.switchedOn arguments) arguments.command =
      .ok report →
    arguments.execute surroundings = report
  /-- What a flag names is on, whatever the lower layers say. -/
  on : ∀ (arguments : CommandLine.Arguments) (options : Options),
    load surroundings given arguments.overrides = .ok options →
    (arguments.yieldSupported = true → options.yieldSupported = true) ∧
      (arguments.disableInline = true → options.disableInline = true)

/-- Options are layered one by one, for every file that can be read or none. -/
theorem load_layered {surroundings : Surroundings} {given : Option String} {file : Layer}
    (hfile : surroundings.fileLayer given = .ok file) (overrides : Overrides) :
    Layered surroundings given file overrides where
  loaded_iff := load_eq_ok_iff hfile overrides
  refused_iff := load_eq_refused_iff hfile overrides
  unreadable_iff := load_eq_unreadable_iff hfile overrides
  overridden _ _ _ _ hfile' hagrees := load_congr hfile hfile' hagrees
  path := load_path surroundings given overrides
  switched arguments _ hloaded := load_switchedOn hfile arguments hloaded
  executed := by
    rintro arguments _ _ rfl hloaded hreport
    exact execute_of_load hfile hloaded hreport
  on _ _ hloaded := on_of_load hfile hloaded

/-- A file that sets three options, and an environment that names another file and sets the depth
that the file gives as zero. -/
def crowded : Surroundings where
  files := [("verdict.toml", "disable_inline = true\npool_max = 7\nmax_depth = 0\n")]
  environment := [("VERDICT_CONFIG_PATH", "other.toml"), ("VERDICT__MAX_DEPTH", "9")]

/-- The four options come from four layers. -/
theorem load_layered_crowded :
    ∃ file, crowded.fileLayer (some "verdict.toml") = .ok file ∧
      Layered crowded (some "verdict.toml") file { poolMax := some 3 } ∧
      load crowded (some "verdict.toml") { poolMax := some 3 } =
        .ok { yieldSupported := false, disableInline := true, poolMax := 3, maxDepth := 9 } := by
  have hread : (crowded.fileLayer (some "verdict.toml")).isOk = true := by decide +kernel
  cases hfile : crowded.fileLayer (some "verdict.toml") with
  | error failure =>
      rw [hfile] at hread
      cases hread
  | ok file => exact ⟨file, rfl, load_layered hfile _, by decide +kernel⟩

end Options
end DecisionLogic
