import DecisionLogic.Standard.Registry

/-!
# The kinds of standard operators

Every standard operator computes its value from its arguments, or from its arguments and the scope,
or hands its raw arguments over as data, or evaluates its raw arguments itself.
`standardOperator_of_lookup` is how later proofs learn which of these they deal with.
-/

namespace DecisionLogic

namespace Standard

/-- The bodies that evaluate raw arguments, with the names they go by. -/
inductive LazyBody : String → AwaitingBody → Prop
  | shortCircuit (name : String) (stop : Bool) : LazyBody name (shortCircuit name stop)
  | conditional (name : String) : LazyBody name (conditional name)
  | map : LazyBody "map" map
  | filter : LazyBody "filter" filter
  | reduce : LazyBody "reduce" reduce
  | some : LazyBody "some" (anyAll "some" true)
  | every : LazyBody "every" (anyAll "every" false)

inductive StandardOperator : String → Operator → Prop
  | arguments (name : String) (f : List Json → Except Failure Json) :
      StandardOperator name
        { body := .immediate (ofArguments f), traverse := true, deterministic := true,
          yields := false, useContext := false, rawData := false, sync := true,
          origin := .standard }
  | scope (name : String) (f : List Json → Scope → Except Failure Json) :
      StandardOperator name
        { body := .immediate (ofScope f), traverse := true, deterministic := false,
          yields := false, useContext := false, rawData := false, sync := true,
          origin := .standard }
  | preserve :
      StandardOperator "preserve"
        { body := .immediate preserve, traverse := false, deterministic := true,
          yields := false, useContext := false, rawData := true, sync := true,
          origin := .standard }
  | lazy {name : String} {body : AwaitingBody} (hbody : LazyBody name body) :
      StandardOperator name
        { body := .awaiting body, traverse := false, deterministic := false,
          yields := false, useContext := false, rawData := false, sync := true,
          origin := .standard }

def Entry.IsStandard (entry : Entry) : Prop :=
  ∀ operator, entry.shape.normalize entry.annotations .standard = some operator →
    StandardOperator entry.name operator

theorem isStandard_pureEntry (name : String) (f : List Json → Except Failure Json) :
    (pureEntry name f).IsStandard := by
  intro operator hoperator
  obtain rfl := Option.some.inj hoperator
  exact .arguments name f

theorem isStandard_ofScope (name : String) (f : List Json → Scope → Except Failure Json) :
    Entry.IsStandard ⟨name, { immediate := some (ofScope f) }, {}⟩ := by
  intro operator hoperator
  obtain rfl := Option.some.inj hoperator
  exact .scope name f

theorem isStandard_lazyEntry {name : String} {body : AwaitingBody} (hbody : LazyBody name body) :
    (lazyEntry name body).IsStandard := by
  intro operator hoperator
  obtain rfl := Option.some.inj hoperator
  exact .lazy hbody

theorem isStandard_preserve :
    Entry.IsStandard ⟨"preserve", { immediate := some preserve, traverse := false },
      { deterministic := true, rawData := true }⟩ := by
  intro operator hoperator
  obtain rfl := Option.some.inj hoperator
  exact .preserve

theorem isStandard_of_mem : ∀ entry ∈ entries, entry.IsStandard := by
  have harithmetic : ∀ entry ∈ arithmeticEntries, entry.IsStandard := by
    simp only [arithmeticEntries, List.forall_mem_cons, isStandard_pureEntry, List.not_mem_nil,
      false_implies, implies_true, and_self]
  have hcomparison : ∀ entry ∈ comparisonEntries, entry.IsStandard := by
    simp only [comparisonEntries, List.forall_mem_cons, isStandard_pureEntry, List.not_mem_nil,
      false_implies, implies_true, and_self]
  have hchoice : ∀ entry ∈ choiceEntries, entry.IsStandard := by
    simp only [choiceEntries, List.forall_mem_cons, isStandard_pureEntry, List.not_mem_nil,
      false_implies, implies_true, true_and, and_true]
    exact ⟨isStandard_lazyEntry (.shortCircuit _ _), isStandard_lazyEntry (.shortCircuit _ _),
      isStandard_lazyEntry (.conditional _), isStandard_lazyEntry (.conditional _)⟩
  have hdata : ∀ entry ∈ dataEntries, entry.IsStandard := by
    simp only [dataEntries, List.forall_mem_cons, isStandard_pureEntry, isStandard_ofScope,
      isStandard_preserve, List.not_mem_nil, false_implies, implies_true, and_self]
  have hiteration : ∀ entry ∈ iterationEntries, entry.IsStandard := by
    simp only [iterationEntries, List.forall_mem_cons, List.not_mem_nil, false_implies,
      implies_true, and_true]
    exact ⟨isStandard_lazyEntry .map, isStandard_lazyEntry .filter, isStandard_lazyEntry .reduce,
      isStandard_lazyEntry .some, isStandard_lazyEntry .every⟩
  intro entry hentry
  simp only [entries, List.mem_append] at hentry
  rcases hentry with (((hentry | hentry) | hentry) | hentry) | hentry
  · exact harithmetic entry hentry
  · exact hcomparison entry hentry
  · exact hchoice entry hentry
  · exact hdata entry hentry
  · exact hiteration entry hentry

theorem lookup_register_foldl {entries : List Entry} {registry : Registry} {name : String}
    {operator : Operator}
    (hlookup : (entries.foldl (fun registry entry =>
      (registry.register entry.name entry.shape entry.annotations .standard).2)
        registry).lookup name = some operator) :
    registry.lookup name = some operator ∨ ∃ entry ∈ entries, entry.name = name ∧
      entry.shape.normalize entry.annotations .standard = some operator := by
  induction entries generalizing registry with
  | nil => exact .inl hlookup
  | cons entry entries ih =>
      rcases ih hlookup with hfirst | ⟨other, hmem, hother⟩
      · simp only [Registry.register] at hfirst
        split at hfirst
        next => exact .inl hfirst
        next stored hnormalize =>
          by_cases hname : entry.name = name
          · subst hname
            simp only [Registry.lookup_insert_self, Option.some.injEq] at hfirst
            subst hfirst
            exact .inr ⟨entry, List.mem_cons_self, rfl, hnormalize⟩
          · simp only [Registry.lookup_insert_of_ne _ hname] at hfirst
            exact .inl hfirst
      · exact .inr ⟨other, List.mem_cons_of_mem _ hmem, hother⟩

theorem standardOperator_of_lookup {name : String} {operator : Operator}
    (hlookup : registry.lookup name = some operator) : StandardOperator name operator := by
  rcases lookup_register_foldl hlookup with hempty | ⟨entry, hmem, rfl, hnormalize⟩
  · simp [Registry.lookup, Registry.empty, Registry.find?] at hempty
  · exact isStandard_of_mem entry hmem operator hnormalize

/-- The body of an iteration is an argument, unless there is none. -/
theorem bodyOf_eq_or_mem (input : Input) :
    bodyOf input = .literal .null ∨ bodyOf input ∈ input.argumentNodes := by
  unfold bodyOf
  rw [List.getD_eq_getElem?_getD]
  cases hbody : input.argumentNodes[1]? with
  | none => exact .inl rfl
  | some body => exact .inr (List.mem_of_getElem? hbody)

end Standard
end DecisionLogic
