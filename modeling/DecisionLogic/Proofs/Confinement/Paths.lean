import DecisionLogic.Proofs.Confinement.Scopes
import DecisionLogic.Proofs.Confinement.Shapes
import DecisionLogic.Proofs.Resumption.Bodies
import DecisionLogic.Proofs.Standard.Bodies

/-!
# Confined logic

The body of an iteration sits two scopes inside the scope of the iteration, so a path inside `level`
bodies may go `2 * level` steps up without leaving the data of the call.  Confined logic has no path
that goes further, and its paths are literals, so `var` and `missing` receive them as they stand in
the tree.
-/

namespace DecisionLogic

/-- The value names a path that goes at most `reach` steps up. -/
def Standard.Names (reach : Nat) (value : Json) : Prop :=
  ∃ path, (∀ operator, pathOf operator value = .ok path) ∧ (Path.parse path).ups ≤ reach

namespace Logic

def IsPath (reach : Nat) (node : Logic) : Prop :=
  ∃ value, node = .literal value ∧ Standard.Names reach value

/-- The nodes that `missing` takes its paths from. -/
def pathNodes (args : Logic) : List Logic :=
  match args.arguments with
  | .sequence items :: _ => items
  | nodes => nodes

/-- The tree, inside the bodies of `level` iterations, calls standard operators, and its paths are
literals that do not go further up than these iterations have brought it down. -/
inductive Confined (registry : Registry) : Nat → Logic → Prop
  | literal (level : Nat) (value : Json) : Confined registry level (.literal value)
  | sequence {level : Nat} {items : List Logic}
      (hitems : ∀ item ∈ items, Confined registry level item) :
      Confined registry level (.sequence items)
  | operation {level : Nat} {name : String} {args : Logic}
      (hstandard : registry.lookup name = Standard.registry.lookup name)
      (harguments : name ≠ "preserve" → ∀ i node, args.arguments[i]? = some node →
        Confined registry
          (if name ∈ Standard.iterationNames ∧ i = 1 then level + 1 else level) node)
      (hvar : name = "var" → ∀ node ∈ args.arguments.head?, node.IsPath (2 * level))
      (hmissing : name = "missing" → ∀ node ∈ args.pathNodes, node.IsPath (2 * level)) :
      Confined registry level (.operation name args)

variable {registry : Registry} {level reach : Nat} {node args : Logic} {value : Json}

/-- Arguments that are all at one level. -/
theorem confined_of_arguments (harguments : ∀ node ∈ args.arguments, node.Confined registry level) :
    args.Confined registry level := by
  cases args with
  | literal value => exact .literal level value
  | sequence items => exact .sequence harguments
  | operation name args => exact harguments _ List.mem_cons_self

theorem IsPath.names (hpath : node.IsPath reach) (hshapes : node.Shapes value) :
    Standard.Names reach value := by
  obtain ⟨path, rfl, hnames⟩ := hpath
  cases hshapes with
  | literal value => exact hnames

theorem names_of_isPath {nodes : List Logic} {values : List Json}
    (hpaths : ∀ node ∈ nodes, node.IsPath reach) (hshapes : List.Forall₂ Shapes nodes values) :
    ∀ value ∈ values, Standard.Names reach value := by
  induction hshapes with
  | nil => simp
  | cons hfirst _ ih =>
      rw [List.forall_mem_cons] at hpaths ⊢
      exact ⟨hpaths.1.names hfirst, ih hpaths.2⟩

end Logic

/-! ## The operators that read variables -/

namespace Standard

variable {reach : Nat} {value : Json} {args : Logic} {s t : Scope}

theorem Names.args_eq (hnames : Names reach value) : (Input.evaluated value).args = [value] := by
  obtain ⟨path, hpath, -⟩ := hnames
  cases value with
  | array items => cases hpath ""
  | _ => rfl

/-- Without arguments, the variable is the data itself. -/
theorem names_null (reach : Nat) : Names reach .null :=
  ⟨"", fun _ => rfl, Nat.zero_le reach⟩

theorem names_argument (hpath : ∀ node ∈ args.arguments.head?, node.IsPath reach)
    (hshapes : args.Shapes value) :
    Names reach (argument (Input.evaluated value).args 0) := by
  cases hshapes with
  | literal value =>
      have hnames := (hpath _ rfl).names (.literal value)
      rw [hnames.args_eq]
      exact hnames
  | operation name args value =>
      obtain ⟨_, hliteral, -⟩ := hpath _ rfl
      cases hliteral
  | sequence hitems =>
      cases hitems with
      | nil => exact names_null reach
      | cons hfirst _ => exact (hpath _ rfl).names hfirst

/-- The paths that `missing` looks for. -/
def missingPaths : List Json → List Json
  | .array paths :: _ => paths
  | args => args

theorem missingPaths_eq (hnames : Names reach value) (values : List Json) :
    missingPaths (value :: values) = value :: values := by
  obtain ⟨path, hpath, -⟩ := hnames
  cases value with
  | array items => cases hpath ""
  | _ => rfl

theorem names_missingPaths (hpaths : ∀ node ∈ args.pathNodes, node.IsPath reach)
    (hshapes : args.Shapes value) :
    ∀ path ∈ missingPaths (Input.evaluated value).args, Names reach path := by
  cases hshapes with
  | literal value =>
      have hnames := (hpaths _ List.mem_cons_self).names (.literal value)
      rw [hnames.args_eq, missingPaths_eq hnames]
      simpa using hnames
  | operation name args value =>
      obtain ⟨_, hliteral, -⟩ := hpaths _ List.mem_cons_self
      cases hliteral
  | sequence hitems =>
      cases hitems with
      | nil => exact fun _ hpath => nomatch hpath
      | @cons item value items values hfirst hrest =>
          change ∀ path ∈ missingPaths (value :: values), _
          cases item with
          | sequence parts =>
              cases hfirst with
              | sequence hparts => exact Logic.names_of_isPath hpaths hparts
          | literal found =>
              have hnames := (hpaths _ List.mem_cons_self).names hfirst
              rw [missingPaths_eq hnames]
              exact Logic.names_of_isPath hpaths (.cons hfirst hrest)
          | operation name args =>
              obtain ⟨_, hliteral, -⟩ := hpaths _ List.mem_cons_self
              cases hliteral

theorem readVariable_congr (hagree : s.Agree reach t) {args : List Json}
    (hnames : Names reach (argument args 0)) : readVariable args s = readVariable args t := by
  obtain ⟨path, hpath, hups⟩ := hnames
  unfold readVariable
  rw [hpath]
  simp only [bind, Except.bind, hagree.resolve_eq hups]

theorem absentPaths_congr (hagree : s.Agree reach t) {paths : List Json}
    (hnames : ∀ path ∈ paths, Names reach path) : absentPaths s paths = absentPaths t paths := by
  induction paths with
  | nil => rfl
  | cons value paths ih =>
      rw [List.forall_mem_cons] at hnames
      obtain ⟨⟨path, hpath, hups⟩, hrest⟩ := hnames
      unfold absentPaths
      rw [hpath, ih hrest]
      simp only [bind, Except.bind, hagree.resolve_eq hups]

theorem missing_congr (hagree : s.Agree reach t) {args : List Json}
    (hnames : ∀ path ∈ missingPaths args, Names reach path) : missing args s = missing args t :=
  congrArg (Except.map Json.array) (absentPaths_congr hagree hnames)

/-! ## Names in the table -/

/-- The operators that do not have their arguments evaluated go by these names. -/
theorem names_of_traverse {name : String} {operator : Operator}
    (hlookup : registry.lookup name = some operator) (htraverse : operator.traverse = true) :
    name ≠ "preserve" ∧ name ∉ iterationNames := by
  have htable : ∀ entry ∈ entries, entry.shape.traverse = true →
      entry.name ≠ "preserve" ∧ entry.name ∉ iterationNames := by decide
  rcases lookup_register_foldl hlookup with hempty | ⟨entry, hmem, rfl, hnormalize⟩
  · simp [Registry.lookup, Registry.empty, Registry.find?] at hempty
  · refine htable entry hmem ?_
    obtain ⟨body, -, rfl⟩ := Option.map_eq_some_iff.mp hnormalize
    exact htraverse

theorem ChoiceBody.name_notMem {name : String} {body : AwaitingBody}
    (hchoice : ChoiceBody name body) : name ≠ "preserve" ∧ name ∉ iterationNames := by
  cases hchoice with
  | and | or | «if» | ternary => decide

theorem IterationBody.name_mem {name : String} {body : AwaitingBody}
    (hiteration : IterationBody name body) : name ≠ "preserve" ∧ name ∈ iterationNames := by
  cases hiteration with
  | map | filter | reduce | some | every => decide

end Standard
end DecisionLogic
