import DecisionLogic.Proofs.Congruence.Basic
import DecisionLogic.Proofs.Standard.Bodies

/-!
# The standard operators under a congruence

The bodies that evaluate raw arguments are compared by the evaluations of these arguments and of
the body of an iteration.  How a suspension of a part becomes one of the whole depends on the
property at hand; `Congruence.Iterates` and `Congruence.Assembles` say what is needed of it.
-/

namespace DecisionLogic.Congruence

open Standard

/-- How the suspensions of an operator's first argument and of a start value, linked by `T`, and of
its body, linked by `B`, make suspensions of the operator, linked by `W`. -/
structure Iterates (K : Congruence) (T : Logic → Linkage) (B W : Linkage) (name : String)
    (input : Input) : Prop where
  lasting : W.Lasting
  bodyLasting : B.Lasting
  first : ∀ node rest drawn s t, input.argumentNodes = node :: rest → T node drawn s t →
    W drawn (.ofArguments name input.toJson (s.root :: rest.map .ofLogic))
      (.ofArguments name input.toJson (t.root :: rest.map .ofLogic))
  initial : ∀ node items drawn s t, name = "reduce" → input.argumentNodes[2]? = some node →
    T node drawn s t →
      W drawn
        (.ofArguments name input.toJson [.done (.array items), .ofLogic (bodyOf input), s.root])
        (.ofArguments name input.toJson [.done (.array items), .ofLogic (bodyOf input), t.root])
  joins : Evaluation.Joins B B
  collapsed : ∀ drawn s t, B drawn s t →
    K.Rel ((K.Outputs W).after drawn) (collapsed name input s) (collapsed name input t)

/-- Suspensions of any argument are passed on, or kept with the arguments behind it. -/
structure Assembles (K : Congruence) (T : Logic → Linkage) (B W : Linkage) (name : String)
    (input : Input) : Prop extends Iterates K T B W name input where
  passed : ∀ node drawn s t, node ∈ input.argumentNodes → T node drawn s t → W drawn s t
  reached : ∀ reached node unreached drawn s t,
    input.argumentNodes = reached ++ node :: unreached → T node drawn s t →
      W drawn (.ofArguments name input.toJson (s.root :: unreached.map .ofLogic))
        (.ofArguments name input.toJson (t.root :: unreached.map .ofLogic))

variable {K : Congruence} {T : Logic → Linkage} {B W : Linkage} {name : String} {input : Input}
  {scope scope' whole whole' : Scope} {handle handle' : Handle}

/-! ## Bodies that answer at once -/

theorem answer_rel {result : Except Failure Json}
    (hfails : ∀ failure, result = .error failure → K.Fails failure failure) :
    K.Rel (K.Outputs W)
      (Computation.ofAction (ExceptT.mk fun world => (result.map .value, world)))
      (Computation.ofAction (ExceptT.mk fun world => (result.map .value, world))) := by
  cases result with
  | ok value => exact K.pure (.value 0 value)
  | error failure => exact K.fail (hfails failure rfl)

/-! ## Bodies that decide -/

section Arguments

variable
  (hevaluate : ∀ node ∈ input.argumentNodes,
    K.Rel (Evaluation.Linked (T node)) (handle.evaluate node scope) (handle'.evaluate node scope'))

include hevaluate

theorem firstDeciding_rel (hassembles : K.Assembles T B W name input) {stop : Bool}
    {before arguments : List Logic} (harguments : input.argumentNodes = before ++ arguments)
    (last : Json) :
    K.Rel (K.Outputs W) (firstDeciding name stop input scope handle last arguments)
      (firstDeciding name stop input scope' handle' last arguments) := by
  induction arguments generalizing before last with
  | nil => exact K.pure (.value 0 last)
  | cons node rest ih =>
      have hnode : node ∈ input.argumentNodes := by simp [harguments]
      refine K.bind (hevaluate node hnode) fun drawn evaluation evaluation' hlinked => ?_
      cases hlinked with
      | done _ value =>
          dsimp only
          split
          · exact pureAfter (.value drawn value)
          · have hrest : input.argumentNodes = (before ++ [node]) ++ rest := by simp [harguments]
            exact later (outputs_lasting hassembles.lasting) (ih hrest value)
      | suspended hsuspension =>
          exact pureAfter (.evaluation (.suspended
            (hassembles.reached before node rest _ _ _ harguments hsuspension)))

theorem branches_rel (hassembles : K.Assembles T B W name input) {before arguments : List Logic}
    (harguments : input.argumentNodes = before ++ arguments) :
    K.Rel (K.Outputs W) (branches name input scope handle arguments)
      (branches name input scope' handle' arguments) := by
  have hlasting := outputs_lasting (K := K) hassembles.lasting
  have hpassed {node : Logic} (hnode : node ∈ input.argumentNodes) :
      K.Rel (K.Outputs W) (do return Output.evaluation (← handle.evaluate node scope))
        (do return Output.evaluation (← handle'.evaluate node scope')) := by
    refine K.bind (hevaluate node hnode) fun drawn evaluation evaluation' hlinked => ?_
    refine pureAfter (.evaluation (hlinked.mono fun drawn s t => ?_))
    exact hassembles.passed node drawn s t hnode
  induction arguments using branches.induct generalizing before with
  | case1 => exact K.pure (.value 0 .null)
  | case2 otherwise => exact hpassed (by simp [harguments])
  | case3 condition result rest ih =>
      have hcondition : condition ∈ input.argumentNodes := by simp [harguments]
      refine K.bind (hevaluate condition hcondition) fun drawn evaluation evaluation' hlinked => ?_
      cases hlinked with
      | done _ value =>
          dsimp only
          split
          · exact later hlasting (hpassed (by simp [harguments]))
          · have hrest : input.argumentNodes = (before ++ [condition, result]) ++ rest := by
              simp [harguments]
            exact later hlasting (ih hrest)
      | suspended hsuspension =>
          exact pureAfter (.evaluation (.suspended
            (hassembles.reached before condition (result :: rest) _ _ _ harguments hsuspension)))

/-! ## Iteration -/

/-- The items, or the outputs when they are suspended. -/
inductive Listed (K : Congruence) (W : Linkage) :
    Reading (Except Output (List Json)) (Except Output (List Json))
  | ok (drawn : Multiset Nat) (items : List Json) : Listed K W drawn (.ok items) (.ok items)
  | error {drawn : Multiset Nat} {output output' : Output}
      (houtputs : K.Outputs W drawn output output') :
      Listed K W drawn (.error output) (.error output')

theorem items_rel (hiterates : K.Iterates T B W name input) :
    K.Rel (Listed K W) (items name input scope handle)
      (items name input scope' handle') := by
  unfold items
  cases harguments : input.argumentNodes with
  | nil => exact K.pure (.ok 0 [])
  | cons node rest =>
      have hnode : node ∈ input.argumentNodes := by simp [harguments]
      refine K.bind (hevaluate node hnode) fun drawn evaluation evaluation' hlinked => ?_
      cases hlinked with
      | done _ value => cases value <;> exact pureAfter (.ok drawn _)
      | suspended hsuspension =>
          exact pureAfter (.error (.evaluation (.suspended
            (hiterates.first node rest _ _ _ harguments hsuspension))))

/-- Once the items are there, the rest of an iteration depends on them. -/
theorem withItems_rel (hiterates : K.Iterates T B W name input)
    {next next' : List Json → Computation Output}
    (hnext : ∀ items, K.Rel (K.Outputs W) (next items) (next' items)) :
    K.Rel (K.Outputs W)
      (items name input scope handle >>= fun listed =>
        match listed with
        | .error output => Pure.pure output
        | .ok items => next items)
      (items name input scope' handle' >>= fun listed =>
        match listed with
        | .error output => Pure.pure output
        | .ok items => next' items) := by
  refine K.bind (items_rel hevaluate hiterates) fun drawn listed listed' hlisted => ?_
  cases hlisted with
  | ok _ items => exact later (outputs_lasting hiterates.lasting) (hnext items)
  | error houtputs => exact pureAfter houtputs

end Arguments

/-- A suspension inside a body becomes a point, with what is known of its first point. -/
theorem collapsed_rel {drawn : Multiset Nat} {s t : Suspension} (hlasting : W.Lasting)
    (hpoints : Option.Rel
      (fun p q : SuspensionPoint => W drawn (.ofPoint ⟨p.id, name, input.toJson, p.reason⟩)
        (.ofPoint ⟨q.id, name, input.toJson, q.reason⟩)) s.firstPoint? t.firstPoint?)
    (hfresh : ∀ more id id', K.Draws more id id' →
      W more (.ofPoint ⟨id, name, input.toJson, .null⟩)
        (.ofPoint ⟨id', name, input.toJson, .null⟩)) :
    K.Rel ((K.Outputs W).after drawn) (collapsed name input s) (collapsed name input t) := by
  unfold collapsed
  generalize s.firstPoint? = first at hpoints ⊢
  generalize t.firstPoint? = first' at hpoints ⊢
  cases hpoints with
  | some hpoint => exact pureAfter (.evaluation (.suspended hpoint))
  | none =>
      refine K.bind K.freshPoint fun more id id' hdraws => pureAfter ?_
      exact .evaluation (.suspended (hlasting _ _ _ _ (hfresh more id id' hdraws)))

/-- Verdicts that are linked keep the same items, or the first suspended ones are linked. -/
inductive Kept (B : Linkage) :
    Reading (Except Suspension (List Json)) (Except Suspension (List Json))
  | ok (drawn : Multiset Nat) (kept : List Json) : Kept B drawn (.ok kept) (.ok kept)
  | error {drawn : Multiset Nat} {s t : Suspension} (hlinked : B drawn s t) :
      Kept B drawn (.error s) (.error t)

theorem kept_lasting (hlasting : B.Lasting) : (Kept B).Lasting := by
  intro drawn more x y hkept
  cases hkept with
  | ok _ kept => exact .ok _ kept
  | error hlinked => exact .error (hlasting drawn _ _ _ hlinked)

theorem keep_kept (hlasting : B.Lasting) (items : List Json) {drawn : Multiset Nat}
    {verdicts verdicts' : List Evaluation}
    (hverdicts : Reading.Each (Evaluation.Linked B) drawn verdicts verdicts') :
    Kept B drawn (keep (items.zip verdicts)) (keep (items.zip verdicts')) := by
  induction hverdicts generalizing items with
  | nil =>
      rw [List.zip_nil_right]
      exact .ok 0 []
  | @cons drawn more verdict verdict' verdicts verdicts' hverdict _ ih =>
      cases items with
      | nil => exact .ok _ []
      | cons item items =>
          cases hverdict with
          | done _ value =>
              have hrest := kept_lasting hlasting drawn _ _ _ (ih items)
              simp only [List.zip_cons_cons, keep]
              generalize keep (items.zip verdicts) = kept at hrest ⊢
              generalize keep (items.zip verdicts') = kept' at hrest ⊢
              cases hrest with
              | ok _ kept => exact .ok _ _
              | error hlinked => exact .error hlinked
          | suspended hlinked =>
              have hmore := hlasting more _ _ _ hlinked
              rw [add_comm] at hmore
              exact .error hmore

section Bodies

variable (hiterates : K.Iterates T B W name input)

include hiterates

theorem mapped_rel {drawn : Multiset Nat} {results results' : List Evaluation}
    (hresults : Reading.Each (Evaluation.Linked B) drawn results results') :
    K.Rel ((K.Outputs W).after drawn)
      (match Evaluation.join results with
      | .done mapped => Pure.pure (.value mapped)
      | .suspended suspension => collapsed name input suspension)
      (match Evaluation.join results' with
      | .done mapped => Pure.pure (.value mapped)
      | .suspended suspension => collapsed name input suspension) := by
  have hjoined := Evaluation.linked_join hiterates.joins hresults
  generalize Evaluation.join results = joined at hjoined ⊢
  generalize Evaluation.join results' = joined' at hjoined ⊢
  cases hjoined with
  | done _ mapped => exact pureAfter (.value drawn mapped)
  | suspended hlinked => exact hiterates.collapsed _ _ _ hlinked

theorem filtered_rel (items : List Json) {drawn : Multiset Nat}
    {verdicts verdicts' : List Evaluation}
    (hverdicts : Reading.Each (Evaluation.Linked B) drawn verdicts verdicts') :
    K.Rel ((K.Outputs W).after drawn)
      (match keep (items.zip verdicts) with
      | .ok kept => Pure.pure (.value (.array kept))
      | .error suspension => collapsed name input suspension)
      (match keep (items.zip verdicts') with
      | .ok kept => Pure.pure (.value (.array kept))
      | .error suspension => collapsed name input suspension) := by
  have hkept := keep_kept hiterates.bodyLasting items hverdicts
  generalize keep (items.zip verdicts) = kept at hkept ⊢
  generalize keep (items.zip verdicts') = kept' at hkept ⊢
  cases hkept with
  | ok _ kept => exact pureAfter (.value drawn _)
  | error hlinked => exact hiterates.collapsed _ _ _ hlinked

variable (hbody : ∀ item,
  K.Rel (Evaluation.Linked B) (handle.evaluate (bodyOf input) (whole.child item))
    (handle'.evaluate (bodyOf input) (whole'.child item)))

include hbody

theorem firstTruth_rel {stop : Bool} (items : List Json) :
    K.Rel (K.Outputs W) (firstTruth name stop input handle whole items)
      (firstTruth name stop input handle' whole' items) := by
  induction items with
  | nil => exact K.pure (.value 0 _)
  | cons item rest ih =>
      refine K.bind (hbody item) fun drawn evaluation evaluation' hlinked => ?_
      cases hlinked with
      | done _ value =>
          dsimp only
          split
          · exact pureAfter (.value drawn _)
          · exact later (outputs_lasting hiterates.lasting) ih
      | suspended hlinked => exact hiterates.collapsed _ _ _ hlinked

end Bodies

theorem fold_rel (hiterates : K.Iterates T B W "reduce" input)
    (hbody : ∀ item,
      K.Rel (Evaluation.Linked B) (handle.evaluate (bodyOf input) (whole.child item))
        (handle'.evaluate (bodyOf input) (whole'.child item)))
    (accumulator : Json) (items : List Json) :
    K.Rel (K.Outputs W) (fold input handle whole accumulator items)
      (fold input handle' whole' accumulator items) := by
  induction items generalizing accumulator with
  | nil => exact K.pure (.value 0 accumulator)
  | cons current rest ih =>
      refine K.bind (hbody (stepData accumulator current))
        fun drawn evaluation evaluation' hlinked => ?_
      cases hlinked with
      | done _ value => exact later (outputs_lasting hiterates.lasting) (ih value)
      | suspended hlinked => exact hiterates.collapsed _ _ _ hlinked

theorem bodyResults_rel
    (hbody : ∀ items item,
      K.Rel (Evaluation.Linked B)
        (handle.evaluate (bodyOf input) ((scope.child (.array items)).child item))
        (handle'.evaluate (bodyOf input) ((scope'.child (.array items)).child item)))
    (items : List Json) :
    K.Rel (Evaluation.Linked B).Each (bodyResults input scope handle items)
      (bodyResults input scope' handle' items) := by
  apply K.joinAll
  rw [List.forall₂_map_left_iff, List.forall₂_map_right_iff, List.forall₂_same]
  intro item _
  exact hbody items item

/-! ## All bodies -/

section Lazy

variable
  (hevaluate : ∀ node ∈ input.argumentNodes,
    K.Rel (Evaluation.Linked (T node)) (handle.evaluate node scope) (handle'.evaluate node scope'))
  (hbody : ∀ items item,
    K.Rel (Evaluation.Linked B)
      (handle.evaluate (bodyOf input) ((scope.child (.array items)).child item))
      (handle'.evaluate (bodyOf input) ((scope'.child (.array items)).child item)))

include hevaluate hbody

theorem map_rel (hiterates : K.Iterates T B W "map" input) :
    K.Rel (K.Outputs W) (map input scope handle) (map input scope' handle') := by
  refine withItems_rel hevaluate hiterates fun items => ?_
  refine K.bind (bodyResults_rel hbody items) fun drawn results results' hresults => ?_
  exact mapped_rel hiterates hresults

theorem filter_rel (hiterates : K.Iterates T B W "filter" input) :
    K.Rel (K.Outputs W) (filter input scope handle) (filter input scope' handle') := by
  refine withItems_rel hevaluate hiterates fun items => ?_
  refine K.bind (bodyResults_rel hbody items) fun drawn verdicts verdicts' hverdicts => ?_
  exact filtered_rel hiterates items hverdicts

theorem reduce_rel (hiterates : K.Iterates T B W "reduce" input) :
    K.Rel (K.Outputs W) (reduce input scope handle) (reduce input scope' handle') := by
  have hlasting := outputs_lasting (K := K) hiterates.lasting
  refine withItems_rel hevaluate hiterates fun items => ?_
  dsimp only
  cases hinitial : input.argumentNodes[2]? with
  | none =>
      cases items with
      | nil => exact K.pure (.value 0 .null)
      | cons first rest => exact fold_rel hiterates (hbody (first :: rest)) first rest
  | some node =>
      have hnode : node ∈ input.argumentNodes := List.mem_of_getElem? hinitial
      refine K.bind (hevaluate node hnode) fun drawn evaluation evaluation' hlinked => ?_
      cases hlinked with
      | done _ initial => exact later hlasting (fold_rel hiterates (hbody items) initial items)
      | suspended hlinked =>
          exact pureAfter (.evaluation (.suspended
            (hiterates.initial node items _ _ _ rfl hinitial hlinked)))

theorem anyAll_rel {stop : Bool} (hiterates : K.Iterates T B W name input) :
    K.Rel (K.Outputs W) (anyAll name stop input scope handle)
      (anyAll name stop input scope' handle') := by
  refine withItems_rel hevaluate hiterates fun items => ?_
  exact firstTruth_rel hiterates (hbody items) items

theorem lazyBody_rel {body : AwaitingBody} (hlazy : LazyBody name body)
    (hassembles : K.Assembles T B W name input) :
    K.Rel (K.Outputs W) (body input scope handle) (body input scope' handle') := by
  have hall : input.argumentNodes = [] ++ input.argumentNodes := rfl
  cases hlazy with
  | shortCircuit _ stop => exact firstDeciding_rel hevaluate hassembles hall .null
  | conditional _ => exact branches_rel hevaluate hassembles hall
  | map => exact map_rel hevaluate hbody hassembles.toIterates
  | filter => exact filter_rel hevaluate hbody hassembles.toIterates
  | reduce => exact reduce_rel hevaluate hbody hassembles.toIterates
  | some => exact anyAll_rel hevaluate hbody hassembles.toIterates
  | every => exact anyAll_rel hevaluate hbody hassembles.toIterates

end Lazy

/-- Any standard operator in two runs with one scope. -/
theorem run_rel {body : OperatorBody} {traverse : Bool} (hbody : Body name body traverse)
    (hassembles : K.Assembles T B W name input)
    (hrefuses : ∀ failure, Refuses failure → K.Fails failure failure)
    (hevaluate : body.hasAwaiting = true → ∀ node ∈ input.argumentNodes,
      K.Rel (Evaluation.Linked (T node)) (handle.evaluate node scope) (handle'.evaluate node scope))
    (hevaluateBody : body.hasAwaiting = true → ∀ scope,
      K.Rel (Evaluation.Linked B) (handle.evaluate (bodyOf input) scope)
        (handle'.evaluate (bodyOf input) scope)) :
    K.Rel (K.Outputs W) (body.run input scope handle) (body.run input scope handle') := by
  cases hbody with
  | arguments honly =>
      exact answer_rel fun failure hfails => hrefuses failure (honly _ failure hfails)
  | readVariable =>
      exact answer_rel fun failure hfails =>
        hrefuses failure (readVariable_onlyRefuses _ _ failure hfails)
  | missing =>
      exact answer_rel fun failure hfails =>
        hrefuses failure (missing_onlyRefuses _ _ failure hfails)
  | preserve => exact K.pure (.value 0 input.toJson)
  | choice hchoice =>
      exact K.cancellable (lazyBody_rel (hevaluate rfl) (fun _ _ => hevaluateBody rfl _)
        hchoice.lazy hassembles)
  | iteration hiteration =>
      exact K.cancellable (lazyBody_rel (hevaluate rfl) (fun _ _ => hevaluateBody rfl _)
        hiteration.lazy hassembles)

end DecisionLogic.Congruence
