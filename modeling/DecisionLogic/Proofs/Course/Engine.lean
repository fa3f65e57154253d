import DecisionLogic.Proofs.Course.Standard
import DecisionLogic.Proofs.Resumption.Quiet

/-!
# Built-in logic

The evaluation of logic that names standard operators only is determined: it ends at once, with a
value or a failure, and does not depend on the world.  So the iterations can be described as loops
over what their bodies come to for the single items.
-/

namespace DecisionLogic

open Standard

/-- The operators that are named in the tree are the standard ones. -/
def Engine.BuiltIn (engine : Engine) (node : Logic) : Prop :=
  ∀ name args, (Logic.operation name args).Within node →
    engine.registry.lookup name = Standard.registry.lookup name

/-- What the evaluation of a node comes to. -/
def Engine.course (engine : Engine) (levels : Nat) (node : Logic) (scope : Scope) : Course Json :=
  (engine.evaluate levels node scope).course

namespace Engine

variable {engine : Engine} {levels : Nat} {scope : Scope}

theorem BuiltIn.item {items : List Logic} (hbuiltIn : engine.BuiltIn (.sequence items)) :
    ∀ item ∈ items, engine.BuiltIn item :=
  fun _ hitem name args hwithin => hbuiltIn name args (.item hitem hwithin)

theorem BuiltIn.args {name : String} {args : Logic} (hbuiltIn : engine.BuiltIn (.operation name args)) : engine.BuiltIn args :=
  fun other inner hwithin => hbuiltIn other inner (.args hwithin)

theorem BuiltIn.argument {args : Logic} (hbuiltIn : engine.BuiltIn args) :
    ∀ node ∈ args.arguments, engine.BuiltIn node :=
  fun _ hnode name inner hwithin =>
    hbuiltIn name inner (hwithin.trans (Logic.within_of_mem_arguments hnode))

theorem builtIn_literal (value : Json) : engine.BuiltIn (.literal value) := by
  rintro name args ⟨⟩

theorem BuiltIn.bodyOf {args : Logic} (hbuiltIn : engine.BuiltIn args) : engine.BuiltIn (bodyOf (.raw args)) := by
  rcases bodyOf_eq_or_mem (.raw args) with hnull | hmem
  · rw [hnull]
    exact builtIn_literal .null
  · exact hbuiltIn.argument _ hmem

/-! ## Evaluations -/

/-- The evaluation of built-in logic ends at once, with a value or a failure. -/
theorem evaluate_determined (engine : Engine) (levels : Nat) (node : Logic) (scope : Scope)
    (hbuiltIn : engine.BuiltIn node) : (engine.evaluate levels node scope).Determined := by
  induction levels generalizing node scope with
  | zero => exact .checked (Computation.determined_fail fun _ => rfl)
  | succ levels ih =>
      unfold evaluate
      refine .checked ?_
      cases node with
      | literal value => exact Computation.determined_done value
      | sequence items =>
          exact Computation.determined_join fun item hitem =>
            ih item scope (hbuiltIn.item item hitem)
      | operation name args =>
          have hargs : engine.BuiltIn args := hbuiltIn.args
          dsimp only
          cases hlookup : engine.registry.lookup name with
          | none => exact Computation.determined_fail fun _ => rfl
          | some operator =>
              have hbody : Body name operator.body operator.traverse := by
                rw [hbuiltIn name args (.self _)] at hlookup
                exact body_of_lookup hlookup
              dsimp only
              split
              next htraverse =>
                refine (ih args scope hargs).next fun value => callOperator_determined ?_
                have hraw : operator.traverse ≠ false := by rw [htraverse]; decide
                exact hbody.answers (absurd · hraw) (absurd · hraw)
              next htraverse =>
                refine callOperator_determined (hbody.answers (fun _ node hnode => ?_) ?_)
                · exact ih node scope (hargs.argument node hnode)
                · exact fun _ scope => ih _ scope hargs.bodyOf

/-! ## Iterations -/

/-- The call of an iteration whose body takes a course. -/
theorem iteration_takes {name : String} {args : Logic} {body : AwaitingBody} {operator : Operator}
    (hlookup : engine.registry.lookup name = some operator)
    (hoperator : operator.body = .awaiting body ∧ operator.traverse = false ∧
      operator.origin = .standard)
    {course : Course Json}
    (hbody : (body (.raw args) scope (engine.handle (engine.evaluate levels))).Takes
      (Output.value <$> course)) :
    (engine.evaluate (levels + 1) (.operation name args) scope).Takes
      (Evaluation.done <$> do
        Course.call ⟨name, .standard, .raw args⟩
        course) := by
  obtain ⟨hbodyOf, htraverse, horigin⟩ := hoperator
  unfold evaluate
  refine .checked ?_
  simp only [hlookup, htraverse, Bool.false_eq_true, if_false]
  rw [← horigin]
  refine callOperator_takes (fun _ => .inl rfl) ?_
  rw [hbodyOf]
  exact hbody.cancellable

/-- Built-in logic comes to the same in every world, and for it the iterations are loops over what
the body comes to for the items, each in a scope of its own inside that of the whole array.  A
failure ends a loop, and `some` and `every` also end with the item that decides. -/
theorem iterations_compute {engine : Engine}
    (hnames : ∀ name ∈ iterationNames,
      engine.registry.lookup name = Standard.registry.lookup name)
    {source body : Logic} {rest : List Logic}
    (hargs : engine.BuiltIn (.sequence (source :: body :: rest))) (levels : Nat) (scope : Scope) :
    let args := Logic.sequence (source :: body :: rest)
    let call (name : String) := Course.call ⟨name, .standard, .raw args⟩
    let evaluation (name : String) := engine.evaluate (levels + 1) (.operation name args) scope
    let items := Json.elements <$> engine.course levels source scope
    let each (xs : List Json) (x : Json) :=
      engine.course levels body ((scope.child (.array xs)).child x)
    let step (xs : List Json) (accumulator current : Json) :=
      engine.course levels body ((scope.child (.array xs)).child
        (.object [("accumulator", accumulator), ("current", current)]))
    (∀ levels node scope, engine.BuiltIn node →
      (engine.evaluate levels node scope).Takes
        (Evaluation.done <$> engine.course levels node scope)) ∧
    (evaluation "map").Takes (Evaluation.done <$> do
      call "map"
      let xs ← items
      return .array (← xs.mapM (each xs))) ∧
    (evaluation "filter").Takes (Evaluation.done <$> do
      call "filter"
      let xs ← items
      let verdicts ← xs.mapM (each xs)
      return .array ((xs.zip verdicts).filterMap fun (x, verdict) =>
        if truthy verdict then some x else none)) ∧
    (evaluation "some").Takes (Evaluation.done <$> do
      call "some"
      let xs ← items
      return .bool (← xs.anyM fun x => truthy <$> each xs x)) ∧
    (evaluation "every").Takes (Evaluation.done <$> do
      call "every"
      let xs ← items
      return .bool (← xs.allM fun x => truthy <$> each xs x)) ∧
    (evaluation "reduce").Takes (Evaluation.done <$> do
      call "reduce"
      let xs ← items
      match rest with
      | initial :: _ => xs.foldlM (step xs) (← engine.course levels initial scope)
      | [] =>
          match xs with
          | [] => return .null
          | first :: others => others.foldlM (step xs) first) := by
  intro args call evaluation items each step
  have hlookup {name : String} {operator : Operator} (hname : name ∈ iterationNames)
      (hstandard : Standard.registry.lookup name = some operator) :
      engine.registry.lookup name = some operator := (hnames name hname).trans hstandard
  have hnodes : ∀ node ∈ (Input.raw args).argumentNodes,
      ((engine.handle (engine.evaluate levels)).evaluate node scope).Determined :=
    fun node hnode => engine.evaluate_determined levels node scope (hargs.argument node hnode)
  have hbody : ∀ scope, ((engine.handle (engine.evaluate levels)).evaluate
      (Standard.bodyOf (.raw args)) scope).Determined :=
    fun scope => engine.evaluate_determined levels _ scope hargs.bodyOf
  refine ⟨engine.evaluate_determined, ?_, ?_, ?_, ?_, ?_⟩
  · exact iteration_takes (hlookup (by decide) rfl) ⟨rfl, rfl, rfl⟩ (map_takes hnodes hbody)
  · exact iteration_takes (hlookup (by decide) rfl) ⟨rfl, rfl, rfl⟩ (filter_takes hnodes hbody)
  · exact iteration_takes (hlookup (by decide) rfl) ⟨rfl, rfl, rfl⟩ (some_takes hnodes hbody)
  · exact iteration_takes (hlookup (by decide) rfl) ⟨rfl, rfl, rfl⟩ (every_takes hnodes hbody)
  · have hreduce := reduce_takes hnodes hbody
    cases rest with
    | nil =>
        exact iteration_takes (hlookup (by decide) rfl) ⟨rfl, rfl, rfl⟩ hreduce
    | cons initial more =>
        exact iteration_takes (hlookup (by decide) rfl) ⟨rfl, rfl, rfl⟩ hreduce

end Engine

/-! ## The first truthy item -/

theorem iterations_compute_first :
    let engine := Engine.standard {}
    let source := Logic.literal (.array [.bool false, .bool true, .bool true])
    let body := Logic.operation "var" (.literal (.string ""))
    (∀ name ∈ iterationNames, engine.registry.lookup name = Standard.registry.lookup name) ∧
      engine.BuiltIn (.sequence [source, body]) ∧
      ∃ course : Course Json,
        (engine.evaluate 3 (.operation "some" (.sequence [source, body]))
          (.ofData .null)).Takes (Evaluation.done <$> course) ∧
        course.result = .ok (.bool true) ∧
        course.calls.map Invocation.operator = ["some", "var", "var"] := by
  intro engine source body
  have hnames : ∀ name ∈ iterationNames,
      engine.registry.lookup name = Standard.registry.lookup name := fun _ _ => rfl
  have hargs : engine.BuiltIn (.sequence [source, body]) := fun _ _ _ => rfl
  obtain ⟨-, -, -, hsome, -, -⟩ := Engine.iterations_compute hnames hargs 2 (.ofData .null)
  exact ⟨hnames, hargs, _, hsome, rfl, rfl⟩

end DecisionLogic
