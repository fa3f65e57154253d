import DecisionLogic.Proofs.Continuation.Results
import DecisionLogic.Proofs.Resumption.Bodies
import DecisionLogic.Proofs.Standard.Bodies
import Mathlib.Algebra.Group.Nat.Even

/-!
# What the standard operators return

The bodies that evaluate raw arguments are taken apart by what they come to: a value, or what they
make of a suspension of an argument, whose place among the arguments is known.
-/

namespace DecisionLogic

/-! ## Calls -/

/-- What a call makes of what the body returns. -/
theorem callOperator_comesTo {name : String} {operator : Operator} {input : Input} {scope : Scope}
    {handle : Handle} {suspension : Suspension}
    (hcomes : (callOperator name operator input scope handle).ComesTo (.suspended suspension)) :
    (operator.body.run input scope handle).ComesTo (.evaluation (.suspended suspension)) ∨
      ∃ reason id, (operator.body.run input scope handle).ComesTo (.yield reason) ∧
        suspension = .ofPoint ⟨id, name, input.toJson, reason⟩ := by
  obtain ⟨-, -, hcalled⟩ := hcomes.of_bind
  obtain ⟨output, hbody, houtput⟩ := hcalled.of_bind
  replace hbody : (operator.body.run input scope handle).ComesTo output := hbody.of_mapFailure
  cases output with
  | value value => cases houtput.of_pure
  | evaluation evaluation =>
      obtain rfl := houtput.of_pure
      exact .inl hbody
  | pending computations =>
      obtain ⟨values, -, hvalues⟩ := houtput.of_bind
      cases hvalues.of_pure
  | yield reason =>
      dsimp only at houtput
      split at houtput
      · obtain ⟨id, -, hpoint⟩ := houtput.of_bind
        cases hpoint.of_pure
        exact .inr ⟨reason, id, hbody, rfl⟩
      · exact absurd houtput Computation.ComesTo.not_fail

namespace Standard

section Bodies

variable {name : String} {input : Input} {scope whole : Scope} {handle : Handle} {output : Output}

/-! ## Operators that decide -/

/-- A decision gives a value, or keeps the operands behind the one that is suspended. -/
inductive Decides (name : String) (input : Input) (scope : Scope) (handle : Handle)
    (nodes : List Logic) : Output → Prop
  | value (value : Json) : Decides name input scope handle nodes (.value value)
  | suspended (before : List Logic) {after : List Logic} {node : Logic} {suspension : Suspension}
      (hnodes : nodes = before ++ node :: after)
      (hsuspended : (handle.evaluate node scope).ComesTo (.suspended suspension)) :
      Decides name input scope handle nodes (suspendedAt name input suspension after)

theorem Decides.skip {nodes : List Logic} (skipped : List Logic)
    (hdecides : Decides name input scope handle nodes output) :
    Decides name input scope handle (skipped ++ nodes) output := by
  cases hdecides with
  | value value => exact .value value
  | suspended before hnodes hsuspended =>
      exact .suspended (skipped ++ before) (by rw [hnodes, List.append_assoc]) hsuspended

theorem firstDeciding_decides {stop : Bool} {last : Json} {nodes : List Logic}
    (hcomes : (firstDeciding name stop input scope handle last nodes).ComesTo output) :
    Decides name input scope handle nodes output := by
  induction nodes generalizing last with
  | nil =>
      obtain rfl := hcomes.of_pure
      exact .value last
  | cons node rest ih =>
      obtain ⟨evaluation, hevaluation, hnext⟩ := hcomes.of_bind
      cases evaluation with
      | done value =>
          dsimp only at hnext
          split at hnext
          · obtain rfl := hnext.of_pure
            exact .value value
          · exact (ih hnext).skip [node]
      | suspended suspension =>
          obtain rfl := hnext.of_pure
          exact .suspended [] rfl hevaluation

/-- A conditional gives null or the outcome of a branch, or keeps what is behind a condition. -/
inductive Chooses (name : String) (input : Input) (scope : Scope) (handle : Handle)
    (nodes : List Logic) : Output → Prop
  | null : Chooses name input scope handle nodes (.value .null)
  | branch (before : List Logic) {after : List Logic} {node : Logic} {evaluation : Evaluation}
      (hnodes : nodes = before ++ node :: after) (hresult : Even before.length → after = [])
      (hevaluation : (handle.evaluate node scope).ComesTo evaluation) :
      Chooses name input scope handle nodes (.evaluation evaluation)
  | condition (before : List Logic) {after : List Logic} {node : Logic} {suspension : Suspension}
      (hnodes : nodes = before ++ node :: after) (heven : Even before.length) (hafter : after ≠ [])
      (hsuspended : (handle.evaluate node scope).ComesTo (.suspended suspension)) :
      Chooses name input scope handle nodes (suspendedAt name input suspension after)

theorem Chooses.skip {nodes : List Logic} (condition result : Logic)
    (hchooses : Chooses name input scope handle nodes output) :
    Chooses name input scope handle (condition :: result :: nodes) output := by
  have heven (before : List Logic) :
      Even (condition :: result :: before).length ↔ Even before.length := by
    simp only [List.length_cons, Nat.even_add_one, not_not]
  cases hchooses with
  | null => exact .null
  | branch before hnodes hresult hevaluation =>
      refine .branch (condition :: result :: before) (by rw [hnodes]; rfl) ?_ hevaluation
      rwa [heven]
  | condition before hnodes hparity hafter hsuspended =>
      exact .condition (condition :: result :: before) (by rw [hnodes]; rfl)
        ((heven before).mpr hparity) hafter hsuspended

theorem branches_chooses {nodes : List Logic}
    (hcomes : (branches name input scope handle nodes).ComesTo output) :
    Chooses name input scope handle nodes output := by
  induction nodes using branches.induct with
  | case1 =>
      obtain rfl := hcomes.of_pure
      exact .null
  | case2 otherwise =>
      obtain ⟨evaluation, hevaluation, hnext⟩ := hcomes.of_bind
      obtain rfl := hnext.of_pure
      exact .branch [] rfl (fun _ => rfl) hevaluation
  | case3 condition result rest ih =>
      obtain ⟨evaluation, hevaluation, hnext⟩ := hcomes.of_bind
      cases evaluation with
      | done value =>
          dsimp only at hnext
          split at hnext
          · obtain ⟨evaluation, hevaluation, hnext⟩ := hnext.of_bind
            obtain rfl := hnext.of_pure
            exact .branch [condition] rfl (by simp) hevaluation
          · exact (ih hnext).skip condition result
      | suspended suspension =>
          obtain rfl := hnext.of_pure
          exact .condition [] rfl (by simp) (by simp) hevaluation

/-! ## Iteration -/

/-- An iteration gives a value, or keeps what is behind a suspended source or, for `reduce`, what is
before a suspended start value; a suspended body makes a point of it. -/
inductive Iterates (name : String) (input : Input) (scope : Scope) (handle : Handle) :
    Output → Prop
  | value (value : Json) : Iterates name input scope handle (.value value)
  | source {node : Logic} {after : List Logic} {suspension : Suspension}
      (hnodes : input.argumentNodes = node :: after)
      (hsuspended : (handle.evaluate node scope).ComesTo (.suspended suspension)) :
      Iterates name input scope handle (suspendedAt name input suspension after)
  | initial {node : Logic} {suspension : Suspension} (items : List Json) (hname : name = "reduce")
      (hnode : input.argumentNodes[2]? = some node)
      (hsuspended : (handle.evaluate node scope).ComesTo (.suspended suspension)) :
      Iterates name input scope handle
        (.evaluation (.suspended (.ofArguments name input.toJson
          [.done (.array items), .ofLogic (bodyOf input), suspension.root])))
  | body (id : PointId) (reason : Json) :
      Iterates name input scope handle
        (.evaluation (.suspended (.ofPoint ⟨id, name, input.toJson, reason⟩)))

theorem collapsed_iterates {suspension : Suspension}
    (hcomes : (collapsed name input suspension).ComesTo output) :
    Iterates name input scope handle output := by
  unfold collapsed at hcomes
  split at hcomes
  · obtain rfl := hcomes.of_pure
    exact .body _ _
  · obtain ⟨id, -, hnext⟩ := hcomes.of_bind
    obtain rfl := hnext.of_pure
    exact .body id .null

/-- Once the items are there, the rest of an iteration depends on them. -/
theorem withItems_iterates {next : List Json → Computation Output}
    (hcomes : (items name input scope handle >>= fun listed =>
      match listed with
      | .error output => pure output
      | .ok items => next items).ComesTo output)
    (hnext : ∀ items, (next items).ComesTo output → Iterates name input scope handle output) :
    Iterates name input scope handle output := by
  obtain ⟨listed, hlisted, hrest⟩ := hcomes.of_bind
  cases listed with
  | ok items => exact hnext items hrest
  | error suspended =>
      obtain rfl := hrest.of_pure
      unfold items at hlisted
      cases hnodes : input.argumentNodes with
      | nil =>
          rw [hnodes] at hlisted
          cases hlisted.of_pure
      | cons node after =>
          rw [hnodes] at hlisted
          obtain ⟨evaluation, hevaluation, houtput⟩ := hlisted.of_bind
          cases evaluation with
          | done value => cases value <;> cases houtput.of_pure
          | suspended suspension =>
              cases houtput.of_pure
              exact .source hnodes hevaluation

theorem map_iterates (hcomes : (map input scope handle).ComesTo output) :
    Iterates "map" input scope handle output := by
  refine withItems_iterates hcomes fun items hitems => ?_
  obtain ⟨results, -, hresults⟩ := hitems.of_bind
  split at hresults
  · obtain rfl := hresults.of_pure
    exact .value _
  · exact collapsed_iterates hresults

theorem filter_iterates (hcomes : (filter input scope handle).ComesTo output) :
    Iterates "filter" input scope handle output := by
  refine withItems_iterates hcomes fun items hitems => ?_
  obtain ⟨verdicts, -, hverdicts⟩ := hitems.of_bind
  split at hverdicts
  · obtain rfl := hverdicts.of_pure
    exact .value _
  · exact collapsed_iterates hverdicts

theorem fold_iterates {accumulator : Json} {items : List Json}
    (hcomes : (fold input handle whole accumulator items).ComesTo output) :
    Iterates "reduce" input scope handle output := by
  induction items generalizing accumulator with
  | nil =>
      obtain rfl := hcomes.of_pure
      exact .value accumulator
  | cons current rest ih =>
      obtain ⟨evaluation, -, hnext⟩ := hcomes.of_bind
      cases evaluation with
      | done value => exact ih hnext
      | suspended suspension => exact collapsed_iterates hnext

theorem reduce_iterates (hcomes : (reduce input scope handle).ComesTo output) :
    Iterates "reduce" input scope handle output := by
  refine withItems_iterates hcomes fun items hitems => ?_
  dsimp only at hitems
  split at hitems
  next =>
    cases items with
    | nil =>
        obtain rfl := hitems.of_pure
        exact .value .null
    | cons first rest => exact fold_iterates hitems
  next node hnode =>
    obtain ⟨evaluation, hevaluation, hnext⟩ := hitems.of_bind
    cases evaluation with
    | done initial => exact fold_iterates hnext
    | suspended suspension =>
        obtain rfl := hnext.of_pure
        exact .initial items rfl hnode hevaluation

theorem firstTruth_iterates {stop : Bool} {items : List Json}
    (hcomes : (firstTruth name stop input handle whole items).ComesTo output) :
    Iterates name input scope handle output := by
  induction items with
  | nil =>
      obtain rfl := hcomes.of_pure
      exact .value _
  | cons item rest ih =>
      obtain ⟨evaluation, -, hnext⟩ := hcomes.of_bind
      cases evaluation with
      | done value =>
          dsimp only at hnext
          split at hnext
          · obtain rfl := hnext.of_pure
            exact .value _
          · exact ih hnext
      | suspended suspension => exact collapsed_iterates hnext

theorem anyAll_iterates {stop : Bool}
    (hcomes : (anyAll name stop input scope handle).ComesTo output) :
    Iterates name input scope handle output :=
  withItems_iterates hcomes fun _ => firstTruth_iterates

end Bodies

/-! ## All bodies -/

/-- What the standard operator of a name returns when it is called with these arguments. -/
inductive Returns (name : String) (args : Logic) (scope : Scope) (handle : Handle) :
    Output → Prop
  | value (value : Json) : Returns name args scope handle (.value value)
  | decides {output : Output} (hname : name = "and" ∨ name = "or")
      (hdecides : Decides name (.raw args) scope handle args.arguments output) :
      Returns name args scope handle output
  | chooses {output : Output} (hname : name = "if" ∨ name = "?:")
      (hchooses : Chooses name (.raw args) scope handle args.arguments output) :
      Returns name args scope handle output
  | iterates {output : Output} (hname : name ∈ iterationNames)
      (hiterates : Iterates name (.raw args) scope handle output) :
      Returns name args scope handle output

variable {name : String} {args : Logic} {scope : Scope} {handle : Handle} {output : Output}

theorem returns_of_answer {result : Except Failure Json}
    (hcomes : (Computation.ofAction (ExceptT.mk fun world =>
      (result.map Output.value, world))).ComesTo output) :
    Returns name args scope handle output := by
  obtain ⟨world, hcomes⟩ := hcomes
  cases result with
  | error failure => cases hcomes
  | ok value =>
      cases hcomes
      exact .value value

theorem Body.returns {body : OperatorBody} {traverse : Bool} (hbody : Body name body traverse)
    {input : Input} (hraw : traverse = false → input = .raw args)
    (hcomes : (body.run input scope handle).ComesTo output) :
    Returns name args scope handle output := by
  cases hbody with
  | arguments | readVariable | missing => exact returns_of_answer hcomes
  | preserve =>
      obtain rfl := Computation.ComesTo.of_pure hcomes
      exact .value _
  | choice hchoice =>
      obtain rfl := hraw rfl
      have hlazy := Computation.ComesTo.of_cancellable hcomes
      cases hchoice with
      | and => exact .decides (.inl rfl) (firstDeciding_decides hlazy)
      | or => exact .decides (.inr rfl) (firstDeciding_decides hlazy)
      | «if» => exact .chooses (.inl rfl) (branches_chooses hlazy)
      | ternary => exact .chooses (.inr rfl) (branches_chooses hlazy)
  | iteration hiteration =>
      obtain rfl := hraw rfl
      have hlazy := Computation.ComesTo.of_cancellable hcomes
      cases hiteration with
      | map => exact .iterates (by decide) (map_iterates hlazy)
      | filter => exact .iterates (by decide) (filter_iterates hlazy)
      | reduce => exact .iterates (by decide) (reduce_iterates hlazy)
      | some | every => exact .iterates (by decide) (anyAll_iterates hlazy)

end Standard
end DecisionLogic
