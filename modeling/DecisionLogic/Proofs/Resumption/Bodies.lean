import DecisionLogic.Proofs.Resumption.Quiet
import DecisionLogic.Proofs.Standard.Operators

/-!
# The standard operators do what they mean

The bodies that evaluate raw arguments conclude as their meanings say, when the nodes they have
evaluated do.  The body of an iteration must not wait: an iteration that is suspended in its body
stands for none of its items.
-/

namespace DecisionLogic

variable {f : Json → Json} {patient : Prop} {α β γ δ : Type}

/-! ## Outputs -/

inductive Output.Stands (f : Json → Json) : Reading Output Standing
  | value (value : Json) : Stands f 0 (.value value) (.done value)
  | evaluation {drawn : Multiset Nat} {evaluation : Evaluation} {standing : Standing}
      (hstands : evaluation.Stands f drawn standing) :
      Stands f drawn (.evaluation evaluation) standing

def Evaluation.Settles : Reading Evaluation Json :=
  fun drawn evaluation value => drawn = 0 ∧ evaluation = .done value

namespace Computation.Judged

variable {R : Reading α β} {S : Reading γ δ}

theorem pure_after {drawn : Multiset Nat} {x : α} {y : β} (hreads : R drawn x y) :
    Judged patient (R.after drawn) (Pure.pure x) (Pure.pure y) := by
  apply pure
  unfold Reading.after
  rwa [add_zero]

theorem after_zero {c : Computation α} {j : Judgement β} (hjudged : c.Judged patient R j) :
    c.Judged patient (R.after 0) j := by
  refine hjudged.mono fun drawn x y hreads => ?_
  unfold Reading.after
  rwa [zero_add]

theorem bind_stands {c : Computation Evaluation} {j : Judgement Standing}
    {next : Evaluation → Computation γ} {following : Standing → Judgement δ}
    (hjudged : c.Judged patient (Evaluation.Stands f) j)
    (hdone : ∀ value, (next (.done value)).Judged patient S (following (.done value)))
    (hwaits : ∀ drawn suspension standing,
      Evaluation.Stands f drawn (.suspended suspension) standing →
        (next (.suspended suspension)).Judged patient (S.after drawn) (following standing)) :
    (c >>= next).Judged patient S (j >>= following) := by
  refine hjudged.bind fun drawn evaluation standing hstands => ?_
  cases hstands with
  | done value => exact (hdone value).after_zero
  | waits hids => exact hwaits _ _ _ (.waits hids)

theorem settles {c : Computation Evaluation} {j : Judgement Standing}
    (hjudged : c.Judged patient (Evaluation.Stands f) j) (hsettled : j.Settled) :
    c.Judged patient Evaluation.Settles j.value := by
  intro w hactive
  refine (hjudged w hactive).mono fun effect result hmet => ?_
  cases hmet with
  | gives calls hstands =>
      cases hstands with
      | done value =>
          simp only [Judgement.value, Judgement.gives_bind, Judgement.pure_eq,
            Judgement.after_gives, add_zero]
          exact .gives calls ⟨rfl, rfl⟩
      | waits hids => cases hsettled _ calls rfl
  | fails effect failure => exact .fails effect failure

theorem bind_settles {c : Computation Evaluation} {j : Judgement Json}
    {next : Evaluation → Computation γ} {following : Json → Judgement δ}
    (hjudged : c.Judged patient Evaluation.Settles j)
    (hdone : ∀ value, (next (.done value)).Judged patient S (following value)) :
    (c >>= next).Judged patient S (j >>= following) := by
  refine hjudged.bind ?_
  rintro drawn evaluation value ⟨rfl, rfl⟩
  exact (hdone value).after_zero

end Computation.Judged

theorem Evaluation.settles_each {drawn : Multiset Nat} {results : List Evaluation}
    {values : List Json} (hsettles : Reading.Each Settles drawn results values) :
    drawn = 0 ∧ results = values.map .done := by
  induction hsettles with
  | nil => exact ⟨rfl, rfl⟩
  | cons hfirst _ ih =>
      obtain ⟨rfl, rfl⟩ := hfirst
      obtain ⟨rfl, rfl⟩ := ih
      exact ⟨rfl, rfl⟩

namespace Standard

open Meaning

variable {name : String} {input : Input} {scope whole : Scope} {handle : Handle}

theorem ofArguments_stands {drawn : Multiset Nat} {s : Suspension} {args : List PartialTree}
    {arguments : List Logic}
    (hids : (s.points.map SuspensionPoint.id : Multiset PointId) = drawn.map PointId.fresh)
    (hpoints : PartialTree.itemPoints args = s.points)
    (harguments : PartialTree.answerItems f args = arguments) (input : Json) :
    Evaluation.Stands f drawn (.suspended (.ofArguments name input args))
      (.waits s.points.length (.operation name (.sequence arguments))) := by
  let whole := Suspension.ofArguments name input args
  have hwhole : whole.points = s.points := by
    simp [whole, Suspension.points, Suspension.ofArguments, PartialTree.points, hpoints]
  have hnode : whole.root.answer f = .operation name (.sequence arguments) := by
    simp [whole, Suspension.ofArguments, PartialTree.answer, harguments]
  have hstands := @Evaluation.Stands.waits f whole drawn (hwhole ▸ hids)
  rwa [hwhole, hnode] at hstands

theorem suspendedAt_stands {drawn : Multiset Nat} {s : Suspension}
    (hids : (s.points.map SuspensionPoint.id : Multiset PointId) = drawn.map PointId.fresh)
    (unreached : List Logic) :
    (suspendedAt name input s unreached).Stands f drawn
      (waitsAt name s.points.length (s.root.answer f) unreached) := by
  have hnodes : PartialTree.answerItems f (unreached.map PartialTree.ofLogic) =
      unreached.map Logic.reparse := by
    induction unreached with
    | nil => simp [PartialTree.answerItems]
    | cons node rest ih => simp [PartialTree.answerItems, ih]
  refine .evaluation (ofArguments_stands hids ?_ ?_ input.toJson)
  · simp [PartialTree.itemPoints, Suspension.points]
  · simp [PartialTree.answerItems, hnodes]

section Nodes

variable {evaluate : Logic → Judgement Standing} {nodes : Logic → Prop}
  (hevaluate : ∀ node, nodes node →
    (handle.evaluate node scope).Judged patient (Evaluation.Stands f) (evaluate node))

include hevaluate

theorem firstDeciding_judged {stop : Bool} {arguments : List Logic}
    (harguments : ∀ node ∈ arguments, nodes node) (last : Json) :
    (firstDeciding name stop input scope handle last arguments).Judged patient (Output.Stands f)
      (deciding evaluate name stop last arguments) := by
  induction arguments generalizing last with
  | nil => exact .pure (.value last)
  | cons node rest ih =>
      refine (hevaluate node (harguments node List.mem_cons_self)).bind_stands ?_ ?_
      · intro value
        dsimp only
        split
        · exact .pure (.value value)
        · exact ih (fun other hother => harguments other (List.mem_cons_of_mem _ hother)) value
      · intro drawn suspension standing hstands
        cases hstands with
        | waits hids => exact .pure_after (suspendedAt_stands hids rest)

theorem branches_judged {arguments : List Logic} (harguments : ∀ node ∈ arguments, nodes node) :
    (branches name input scope handle arguments).Judged patient (Output.Stands f)
      (branching evaluate name arguments) := by
  have hpassed {node : Logic} (hnode : nodes node) :
      Computation.Judged patient (Output.Stands f)
        (do return Output.evaluation (← handle.evaluate node scope)) (evaluate node) := by
    rw [← bind_pure (evaluate node)]
    refine (hevaluate node hnode).bind fun drawn evaluation standing hstands => ?_
    exact .pure_after (.evaluation hstands)
  induction arguments using branches.induct with
  | case1 => exact .pure (.value .null)
  | case2 otherwise => exact hpassed (harguments otherwise List.mem_cons_self)
  | case3 condition result rest ih =>
      refine (hevaluate condition (harguments condition List.mem_cons_self)).bind_stands ?_ ?_
      · intro value
        dsimp only
        split
        · exact hpassed (harguments result (by simp))
        · exact ih fun other hother => harguments other (by simp [hother])
      · intro drawn suspension standing hstands
        cases hstands with
        | waits hids => exact .pure_after (suspendedAt_stands hids _)

theorem items_judged {next : List Json → Computation Output}
    {following : List Json → Judgement Standing}
    (harguments : ∀ node ∈ input.argumentNodes, nodes node)
    (hnext : ∀ items, (next items).Judged patient (Output.Stands f) (following items)) :
    (items name input scope handle >>= fun listed =>
      match listed with
      | .error output => pure output
      | .ok items => next items).Judged patient (Output.Stands f)
        (source evaluate name following input.argumentNodes) := by
  unfold items
  cases hnodes : input.argumentNodes with
  | nil => exact hnext []
  | cons node rest =>
      have hnode : nodes node := harguments node (by simp [hnodes])
      dsimp only
      rw [bind_assoc]
      refine (hevaluate node hnode).bind_stands ?_ ?_
      · intro value
        cases value with
        | array items => exact hnext items
        | _ => exact hnext []
      · intro drawn suspension standing hstands
        cases hstands with
        | waits hids => exact .pure_after (suspendedAt_stands hids rest)

end Nodes

/-! ## Iteration -/

theorem keep_zip (items values : List Json) :
    keep (items.zip (values.map .done)) = .ok (kept items values) := by
  induction items generalizing values with
  | nil => rfl
  | cons item items ih =>
      cases values with
      | nil => rfl
      | cons value values =>
          have hrest := ih values
          simp only [List.map_cons, List.zip_cons_cons, keep, hrest, Except.map]
          by_cases htruthy : truthy value = true
          · simp [kept, htruthy]
          · simp [kept, htruthy]

section Iteration

variable {body : Scope → Judgement Json}
  (hbody : ∀ scope, (handle.evaluate (Standard.bodyOf input) scope).Judged patient
    Evaluation.Settles (body scope))

include hbody

theorem bodyResults_judged (items : List Json) :
    (bodyResults input scope handle items).Judged patient Evaluation.Settles.Each
      (.all (items.map fun item => body ((scope.child (.array items)).child item))) := by
  apply Computation.Judged.joinAll
  rw [List.forall₂_map_left_iff, List.forall₂_map_right_iff, List.forall₂_same]
  intro item _
  exact hbody _

theorem mapped_judged (items : List Json) :
    (bodyResults input scope handle items >>= fun results =>
      match Evaluation.join results with
      | .done mapped => pure (.value mapped)
      | .suspended suspension => collapsed name input suspension).Judged patient (Output.Stands f)
        (mapping body (scope.child (.array items)) items) := by
  refine (bodyResults_judged hbody items).bind ?_
  intro drawn results values hsettles
  obtain ⟨rfl, rfl⟩ := Evaluation.settles_each hsettles
  rw [Evaluation.join_map_done]
  exact .pure_after (.value _)

theorem filtered_judged (items : List Json) :
    (bodyResults input scope handle items >>= fun verdicts =>
      match keep (items.zip verdicts) with
      | .ok kept => pure (.value (.array kept))
      | .error suspension => collapsed name input suspension).Judged patient (Output.Stands f)
        (filtering body (scope.child (.array items)) items) := by
  refine (bodyResults_judged hbody items).bind ?_
  intro drawn verdicts values hsettles
  obtain ⟨rfl, rfl⟩ := Evaluation.settles_each hsettles
  rw [keep_zip]
  exact .pure_after (.value _)

theorem fold_judged (accumulator : Json) (items : List Json) :
    (fold input handle whole accumulator items).Judged patient (Output.Stands f)
      (folding body whole accumulator items) := by
  induction items generalizing accumulator with
  | nil => exact .pure (.value accumulator)
  | cons current rest ih => exact (hbody _).bind_settles ih

theorem firstTruth_judged {stop : Bool} (items : List Json) :
    (firstTruth name stop input handle whole items).Judged patient (Output.Stands f)
      (searching body whole stop items) := by
  induction items with
  | nil => exact .pure (.value _)
  | cons item rest ih =>
      refine (hbody _).bind_settles fun value => ?_
      dsimp only
      split
      · exact .pure (.value _)
      · exact ih

theorem reduced_judged {evaluate : Logic → Judgement Standing}
    (hinitial : ∀ node ∈ input.argumentNodes,
      (handle.evaluate node scope).Judged patient (Evaluation.Stands f) (evaluate node))
    (items : List Json) :
    Computation.Judged patient (Output.Stands f)
      (match input.argumentNodes[2]? with
      | none =>
          match items with
          | [] => pure (.value .null)
          | first :: rest => fold input handle (scope.child (.array items)) first rest
      | some node => do
          match ← handle.evaluate node scope with
          | .done initial => fold input handle (scope.child (.array items)) initial items
          | .suspended suspension =>
              return .evaluation (.suspended (.ofArguments name input.toJson
                [.done (.array items), .ofLogic (Standard.bodyOf input), suspension.root])))
      (reducing evaluate name body scope input.argumentNodes items) := by
  unfold reducing
  cases hnode : input.argumentNodes[2]? with
  | none =>
      cases items with
      | nil => exact .pure (.value .null)
      | cons first rest => exact fold_judged hbody first rest
  | some node =>
      refine (hinitial node (List.mem_of_getElem? hnode)).bind_stands ?_ ?_
      · intro initial
        exact fold_judged hbody initial items
      · intro drawn suspension standing hstands
        cases hstands with
        | waits hids =>
            refine .pure_after (.evaluation (ofArguments_stands hids ?_ ?_ input.toJson))
            · simp [PartialTree.itemPoints, PartialTree.points, Suspension.points]
            · simp [PartialTree.answerItems, PartialTree.answer, Meaning.bodyOf, Standard.bodyOf]

end Iteration

/-! ## Meanings -/

inductive LazyMeans : String → AwaitingBody → Meaning → Prop
  | shortCircuit (name : String) (stop : Bool) :
      LazyMeans name (shortCircuit name stop) (.decide stop)
  | conditional (name : String) : LazyMeans name (conditional name) .branch
  | map : LazyMeans "map" map .map
  | filter : LazyMeans "filter" filter .filter
  | reduce : LazyMeans "reduce" reduce .reduce
  | anyAll (name : String) (stop : Bool) : LazyMeans name (anyAll name stop) (.anyAll stop)

/-- The names of the operators that have a body evaluated for each item. -/
def iterationNames : List String :=
  iterationEntries.map Entry.name

theorem exists_lazyMeans {body : AwaitingBody} (hbody : LazyBody name body) :
    ∃ meaning, LazyMeans name body meaning ∧ ¬ meaning.Asks ∧
      (meaning.iterates = true → name ∈ iterationNames) := by
  cases hbody with
  | shortCircuit _ stop => exact ⟨_, .shortCircuit name stop, id, nofun⟩
  | conditional _ => exact ⟨_, .conditional name, id, nofun⟩
  | map => exact ⟨_, .map, id, fun _ => by decide⟩
  | filter => exact ⟨_, .filter, id, fun _ => by decide⟩
  | reduce => exact ⟨_, .reduce, id, fun _ => by decide⟩
  | some => exact ⟨_, .anyAll "some" true, id, fun _ => by decide⟩
  | every => exact ⟨_, .anyAll "every" false, id, fun _ => by decide⟩

theorem lazyBody_judged {body : AwaitingBody} {meaning : Meaning}
    (hmeans : LazyMeans name body meaning) {args : Logic}
    {evaluate : Logic → Scope → Judgement Standing}
    (harguments : ∀ node ∈ args.arguments, ∀ scope,
      (handle.evaluate node scope).Judged patient (Evaluation.Stands f) (evaluate node scope))
    (hbody : meaning.iterates = true → ∀ scope,
      (handle.evaluate (Meaning.bodyOf args.arguments) scope).Judged patient Evaluation.Settles
        (bodyValue evaluate args scope)) :
    (body (.raw args) scope handle).Judged patient (Output.Stands f)
      (meaning.operation f evaluate name args scope) := by
  have hhere : ∀ node ∈ (Input.raw args).argumentNodes,
      (handle.evaluate node scope).Judged patient (Evaluation.Stands f) (evaluate node scope) :=
    fun node hnode => harguments node hnode scope
  unfold operation
  cases hmeans with
  | shortCircuit _ stop => exact firstDeciding_judged hhere (fun _ => id) .null
  | conditional _ => exact branches_judged hhere fun _ => id
  | map => exact items_judged hhere (fun _ => id) (mapped_judged (hbody rfl))
  | filter => exact items_judged hhere (fun _ => id) (filtered_judged (hbody rfl))
  | reduce => exact items_judged hhere (fun _ => id) (reduced_judged (hbody rfl) hhere)
  | anyAll _ stop =>
      unfold anyAll
      apply items_judged hhere (fun _ => id)
      intro items
      exact firstTruth_judged (hbody rfl) items

end Standard
end DecisionLogic
