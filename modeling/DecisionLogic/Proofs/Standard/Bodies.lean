import DecisionLogic.Proofs.Standard.Operators

/-!
# The bodies of the standard operators

`Body` tells which body goes by which name.  The bodies that answer at once read their arguments
alone, except for `var` and `missing`, and they fail only by refusing an argument or a path.
-/

namespace DecisionLogic

/-- If there is no result, the failure is one of those allowed. -/
def OnlyFails {α : Type} (allowed : Failure → Prop) (result : Except Failure α) : Prop :=
  ∀ failure, result = .error failure → allowed failure

namespace OnlyFails

variable {α β : Type} {allowed : Failure → Prop}

theorem ok (x : α) : OnlyFails allowed (.ok x) :=
  nofun

theorem error {failure : Failure} (hallowed : allowed failure) :
    OnlyFails allowed (.error failure : Except Failure α) := by
  rintro _ ⟨⟩
  exact hallowed

theorem bind {result : Except Failure α} {next : α → Except Failure β}
    (hresult : OnlyFails allowed result) (hnext : ∀ x, OnlyFails allowed (next x)) :
    OnlyFails allowed (result >>= next) := by
  cases result with
  | ok x => exact hnext x
  | error failure => exact .error (hresult failure rfl)

theorem map {result : Except Failure α} (f : α → β) (hresult : OnlyFails allowed result) :
    OnlyFails allowed (result.map f) := by
  cases result with
  | ok x => exact .ok (f x)
  | error failure => exact .error (hresult failure rfl)

end OnlyFails

/-- No operator puts its name on the failure: it has one, or is of another kind. -/
def Failure.Final (failure : Failure) : Prop :=
  ∀ name, failure.within name = failure

namespace Standard

/-- The failures that arise in the bodies themselves. -/
inductive Refuses : Failure → Prop
  | arguments (operator text : String) : Refuses (.invalidArguments operator text)
  | path (path field : String) : Refuses (.pathSecurity path field)

theorem Refuses.final {failure : Failure} (hrefuses : Refuses failure) : failure.Final := by
  cases hrefuses with
  | arguments => exact fun _ => rfl
  | path => exact fun _ => rfl

abbrev OnlyRefuses {α : Type} (result : Except Failure α) : Prop :=
  OnlyFails Refuses result

theorem foldNumbers_onlyRefuses (operator : String) (f : Float → Float → Float)
    (args : List Json) : OnlyRefuses (foldNumbers operator f args) := by
  unfold foldNumbers
  split
  · exact .error (.arguments operator _)
  · exact .ok _

theorem subtract_onlyRefuses (args : List Json) : OnlyRefuses (subtract args) := by
  unfold subtract
  split
  · exact .ok _
  · exact foldNumbers_onlyRefuses _ _ _

theorem extreme_onlyRefuses (pick : Float → Float → Float) (args : List Json) :
    OnlyRefuses (extreme pick args) := by
  unfold extreme
  split
  · exact .ok _
  · split
    · exact .ok _
    · exact .ok _

theorem pathOf_onlyRefuses (operator : String) (value : Json) :
    OnlyRefuses (pathOf operator value) := by
  cases value with
  | null | string | number => exact .ok _
  | bool | array | object => exact .error (.arguments operator _)

theorem resolve_onlyRefuses (scope : Scope) (path : String) : OnlyRefuses (scope.resolve path) := by
  unfold Scope.resolve Scope.lookup
  refine .map _ ?_
  dsimp only
  split
  · exact .error (.path path reservedField)
  · exact .ok _

theorem readVariable_onlyRefuses (args : List Json) (scope : Scope) :
    OnlyRefuses (readVariable args scope) :=
  (pathOf_onlyRefuses _ _).bind fun path => (resolve_onlyRefuses scope path).bind fun _ => .ok _

theorem absentPaths_onlyRefuses (scope : Scope) (paths : List Json) :
    OnlyRefuses (absentPaths scope paths) := by
  induction paths with
  | nil => exact .ok []
  | cons value paths ih =>
      refine (pathOf_onlyRefuses "missing" value).bind fun path => ?_
      exact (resolve_onlyRefuses scope path).bind fun _ => ih.bind fun _ => .ok _

theorem missing_onlyRefuses (args : List Json) (scope : Scope) : OnlyRefuses (missing args scope) :=
  (absentPaths_onlyRefuses scope _).map _

/-! ## The table -/

inductive ChoiceBody : String → AwaitingBody → Prop
  | and : ChoiceBody "and" (shortCircuit "and" false)
  | or : ChoiceBody "or" (shortCircuit "or" true)
  | if : ChoiceBody "if" (conditional "if")
  | ternary : ChoiceBody "?:" (conditional "?:")

inductive IterationBody : String → AwaitingBody → Prop
  | map : IterationBody "map" map
  | filter : IterationBody "filter" filter
  | reduce : IterationBody "reduce" reduce
  | some : IterationBody "some" (anyAll "some" true)
  | every : IterationBody "every" (anyAll "every" false)

/-- A name, its body, and whether the arguments are evaluated before the body runs. -/
inductive Body : String → OperatorBody → Bool → Prop
  | arguments {name : String} {f : List Json → Except Failure Json}
      (hrefuses : ∀ args, OnlyRefuses (f args)) : Body name (.immediate (ofArguments f)) true
  | readVariable : Body "var" (.immediate (ofScope readVariable)) true
  | missing : Body "missing" (.immediate (ofScope missing)) true
  | preserve : Body "preserve" (.immediate preserve) false
  | choice {name : String} {body : AwaitingBody} (hbody : ChoiceBody name body) :
      Body name (.awaiting body) false
  | iteration {name : String} {body : AwaitingBody} (hbody : IterationBody name body) :
      Body name (.awaiting body) false

theorem ChoiceBody.lazy {name : String} {body : AwaitingBody} (hbody : ChoiceBody name body) :
    LazyBody name body := by
  cases hbody with
  | and | or => exact .shortCircuit _ _
  | «if» | ternary => exact .conditional _

theorem IterationBody.lazy {name : String} {body : AwaitingBody}
    (hbody : IterationBody name body) : LazyBody name body := by
  cases hbody with
  | map => exact .map
  | filter => exact .filter
  | reduce => exact .reduce
  | some => exact .some
  | every => exact .every

def Entry.HasBody (entry : Entry) : Prop :=
  ∀ operator, entry.shape.normalize entry.annotations .standard = some operator →
    Body entry.name operator.body operator.traverse

theorem hasBody_pureEntry (name : String) {f : List Json → Except Failure Json}
    (hrefuses : ∀ args, OnlyRefuses (f args)) : (pureEntry name f).HasBody := by
  intro operator hoperator
  obtain rfl := Option.some.inj hoperator
  exact .arguments hrefuses

/-- An operator that never fails. -/
theorem hasBody_total (name : String) (f : List Json → Json) :
    (pureEntry name fun args => .ok (f args)).HasBody :=
  hasBody_pureEntry name fun _ => .ok _

theorem hasBody_choice {name : String} {body : AwaitingBody} (hbody : ChoiceBody name body) :
    (lazyEntry name body).HasBody := by
  intro operator hoperator
  obtain rfl := Option.some.inj hoperator
  exact .choice hbody

theorem hasBody_iteration {name : String} {body : AwaitingBody} (hbody : IterationBody name body) :
    (lazyEntry name body).HasBody := by
  intro operator hoperator
  obtain rfl := Option.some.inj hoperator
  exact .iteration hbody

theorem hasBody_of_mem : ∀ entry ∈ entries, entry.HasBody := by
  have harithmetic : ∀ entry ∈ arithmeticEntries, entry.HasBody := by
    simp only [arithmeticEntries, List.forall_mem_cons, List.not_mem_nil, false_implies,
      implies_true, and_true]
    exact ⟨hasBody_total "+" _, hasBody_pureEntry "-" subtract_onlyRefuses,
      hasBody_pureEntry "*" (foldNumbers_onlyRefuses _ _),
      hasBody_pureEntry "/" (foldNumbers_onlyRefuses _ _),
      hasBody_pureEntry "%" (foldNumbers_onlyRefuses _ _),
      hasBody_pureEntry "min" (extreme_onlyRefuses _),
      hasBody_pureEntry "max" (extreme_onlyRefuses _)⟩
  have hcomparison : ∀ entry ∈ comparisonEntries, entry.HasBody := by
    simp only [comparisonEntries, List.forall_mem_cons, List.not_mem_nil, false_implies,
      implies_true, and_true]
    exact ⟨hasBody_total "==" _, hasBody_total "!=" _, hasBody_total "===" _,
      hasBody_total "!==" _, hasBody_total "<" _, hasBody_total "<=" _, hasBody_total ">" _,
      hasBody_total ">=" _⟩
  have hchoice : ∀ entry ∈ choiceEntries, entry.HasBody := by
    simp only [choiceEntries, List.forall_mem_cons, List.not_mem_nil, false_implies,
      implies_true, and_true]
    exact ⟨hasBody_total "!" _, hasBody_total "!!" _, hasBody_total "xor" _, hasBody_choice .and,
      hasBody_choice .or, hasBody_choice .if, hasBody_choice .ternary⟩
  have hdata : ∀ entry ∈ dataEntries, entry.HasBody := by
    simp only [dataEntries, List.forall_mem_cons, List.not_mem_nil, false_implies, implies_true,
      and_true]
    refine ⟨?_, ?_, ?_, hasBody_total "cat" _, hasBody_total "in" _, hasBody_total "merge" _⟩
    · intro operator hoperator
      obtain rfl := Option.some.inj hoperator
      exact .readVariable
    · intro operator hoperator
      obtain rfl := Option.some.inj hoperator
      exact .missing
    · intro operator hoperator
      obtain rfl := Option.some.inj hoperator
      exact .preserve
  have hiteration : ∀ entry ∈ iterationEntries, entry.HasBody := by
    simp only [iterationEntries, List.forall_mem_cons, List.not_mem_nil, false_implies,
      implies_true, and_true]
    exact ⟨hasBody_iteration .map, hasBody_iteration .filter, hasBody_iteration .reduce,
      hasBody_iteration .some, hasBody_iteration .every⟩
  intro entry hentry
  simp only [entries, List.mem_append] at hentry
  rcases hentry with (((hentry | hentry) | hentry) | hentry) | hentry
  · exact harithmetic entry hentry
  · exact hcomparison entry hentry
  · exact hchoice entry hentry
  · exact hdata entry hentry
  · exact hiteration entry hentry

theorem body_of_lookup {name : String} {operator : Operator}
    (hlookup : registry.lookup name = some operator) :
    Body name operator.body operator.traverse := by
  rcases lookup_register_foldl hlookup with hempty | ⟨entry, hmem, rfl, hnormalize⟩
  · simp [Registry.lookup, Registry.empty, Registry.find?] at hempty
  · exact hasBody_of_mem entry hmem operator hnormalize

end Standard
end DecisionLogic
