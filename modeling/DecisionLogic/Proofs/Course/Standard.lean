import DecisionLogic.Proofs.Alike.Operator
import DecisionLogic.Proofs.Course.Basic
import DecisionLogic.Proofs.Resumption.Bodies

/-!
# Standard operators on determined evaluations

An evaluation is determined when it takes a course to a value.  Where the evaluations that a
standard operator asks for are determined, so is the operator, and the iterations are the loops over
lists that they look like: `map` and `filter` over all items, `some` and `every` up to the one that
decides, `reduce` as a fold.
-/

namespace DecisionLogic

variable {α β : Type}

namespace Course

theorem mapM_map {γ : Type} (f : β → γ) (course : α → Course β) (xs : List α) :
    (xs.mapM fun x => f <$> course x) = List.map f <$> xs.mapM course := by
  induction xs with
  | nil => rfl
  | cons x xs ih =>
      rw [List.mapM_cons, List.mapM_cons, ih]
      simp only [map_eq_pure_bind, bind_assoc, pure_bind, List.map_cons]

end Course

namespace Computation

/-- The course that an evaluation takes, if it takes one to a value. -/
def course (computation : Computation Evaluation) : Course Json :=
  match computation (.start 0) with
  | .finished world (.ok (.done value)) => ⟨.ok value, world.trace.reverse⟩
  | .finished world (.error failure) => ⟨.error failure, world.trace.reverse⟩
  | _ => .fail .notSynchronous

def Determined (computation : Computation Evaluation) : Prop :=
  computation.Takes (Evaluation.done <$> computation.course)

theorem Takes.course_eq {c : Computation Evaluation} {course : Course Json}
    (htakes : c.Takes (Evaluation.done <$> course)) : c.course = course := by
  have hfinished := htakes.finished (.start 0) rfl
  rw [Course.result_map] at hfinished
  obtain ⟨result, calls⟩ := course
  have htrace : ((Evaluation.done <$> (⟨result, calls⟩ : Course Json)).leave
      (.start 0)).trace.reverse = calls := by
    rw [Course.leave, Course.calls_map]
    simp [World.start]
  unfold Computation.course
  rw [hfinished]
  cases result with
  | ok value => exact congrArg _ htrace
  | error failure => exact congrArg _ htrace

theorem Takes.determined {c : Computation Evaluation} {course : Course Json}
    (htakes : c.Takes (Evaluation.done <$> course)) : c.Determined := by
  unfold Determined
  rwa [htakes.course_eq]

theorem Determined.checked {c : Computation Evaluation} (hdetermined : c.Determined) :
    (checkCancelled >>= fun _ => c).Determined :=
  (Takes.checked hdetermined).determined

theorem determined_fail {failure : Failure} (hfinal : failure.Final) :
    Determined (fail failure) := by
  have htakes : Takes (fail failure) (Evaluation.done <$> Course.fail failure) := .fail hfinal
  exact htakes.determined

theorem determined_done (value : Json) : Determined (Pure.pure (.done value)) := by
  have htakes : Takes (Pure.pure (.done value)) (Evaluation.done <$> Pure.pure value) := .pure _
  exact htakes.determined

theorem determined_join {xs : List α} {evaluations : α → Computation Evaluation}
    (hdetermined : ∀ x ∈ xs, (evaluations x).Determined) :
    Determined (do return Evaluation.join (← joinAll (xs.map evaluations))) := by
  have hjoined : (joinAll (xs.map evaluations)).Takes
      (List.map Evaluation.done <$> xs.mapM fun x => (evaluations x).course) := by
    rw [← Course.mapM_map]
    exact .joinAll hdetermined
  have htakes : Takes (do return Evaluation.join (← joinAll (xs.map evaluations)))
      (Evaluation.done <$> Json.array <$> xs.mapM fun x => (evaluations x).course) := by
    rw [Functor.map_map, map_eq_pure_bind]
    refine hjoined.bind_map fun values _ => ?_
    rw [Evaluation.join_map_done]
    exact .pure _
  exact htakes.determined

/-- What follows on a value. -/
theorem Determined.bind {c : Computation Evaluation} {next : Evaluation → Computation β}
    {after : Json → Course β} (hdetermined : c.Determined)
    (hnext : ∀ value, (next (.done value)).Takes (after value)) :
    (c >>= next).Takes (c.course >>= after) :=
  Takes.bind_map hdetermined fun value _ => hnext value

/-- The computation takes a course to an output that is a value, or the evaluation to one. -/
def Answers (computation : Computation Output) : Prop :=
  ∃ course : Course Output, computation.Takes course ∧ ∀ output, course.result = .ok output →
    ∃ value, output = .value value ∨ output = .evaluation (.done value)

theorem Takes.answers {c : Computation Output} {course : Course Json}
    (htakes : c.Takes (Output.value <$> course)) : c.Answers := by
  refine ⟨_, htakes, fun output houtput => ?_⟩
  rw [Course.result_map] at houtput
  cases hresult : course.result with
  | ok value =>
      rw [hresult] at houtput
      cases houtput
      exact ⟨value, .inl rfl⟩
  | error failure =>
      rw [hresult] at houtput
      cases houtput

theorem answers_value (value : Json) : Answers (Pure.pure (.value value)) :=
  ⟨_, .pure _, fun _ houtput => ⟨value, .inl (Except.ok.inj houtput).symm⟩⟩

theorem answers_done (value : Json) : Answers (Pure.pure (.evaluation (.done value))) :=
  ⟨_, .pure _, fun _ houtput => ⟨value, .inr (Except.ok.inj houtput).symm⟩⟩

/-- An evaluation goes on with the value of another one. -/
theorem Determined.next {c : Computation Evaluation} {next : Evaluation → Computation Evaluation}
    (hdetermined : c.Determined) (hnext : ∀ value, (next (.done value)).Determined) :
    (c >>= next).Determined := by
  have htakes := hdetermined.bind hnext
  rw [← map_bind] at htakes
  exact htakes.determined

theorem Determined.answers {c : Computation Evaluation} {next : Evaluation → Computation Output}
    (hdetermined : c.Determined) (hnext : ∀ value, (next (.done value)).Answers) :
    (c >>= next).Answers := by
  choose after htakes hsettled using hnext
  refine ⟨c.course >>= after, hdetermined.bind htakes, fun output houtput => ?_⟩
  cases hresult : c.course.result with
  | ok value =>
      rw [Course.bind_of_ok hresult] at houtput
      exact hsettled value output houtput
  | error failure =>
      rw [Course.bind_of_error hresult] at houtput
      cases houtput

theorem Answers.cancellable {c : Computation Output} (hanswers : c.Answers) :
    c.cancellable.Answers := by
  obtain ⟨course, htakes, hsettled⟩ := hanswers
  exact ⟨course, htakes.cancellable, hsettled⟩

end Computation

/-- The items of an array; anything else has none. -/
def Json.elements : Json → List Json
  | .array items => items
  | _ => []

namespace Standard

open Meaning

variable {name : String} {input : Input} {scope whole : Scope} {handle : Handle}

/-! ## Decisions -/

theorem firstDeciding_answers {stop : Bool} {last : Json} {nodes : List Logic}
    (hnodes : ∀ node ∈ nodes, (handle.evaluate node scope).Determined) :
    (firstDeciding name stop input scope handle last nodes).Answers := by
  induction nodes generalizing last with
  | nil => exact Computation.answers_value last
  | cons node rest ih =>
      refine (hnodes node List.mem_cons_self).answers fun value => ?_
      dsimp only
      split
      · exact Computation.answers_value value
      · exact ih fun other hother => hnodes other (List.mem_cons_of_mem node hother)

theorem branches_answers {nodes : List Logic}
    (hnodes : ∀ node ∈ nodes, (handle.evaluate node scope).Determined) :
    (branches name input scope handle nodes).Answers := by
  induction nodes using branches.induct with
  | case1 => exact Computation.answers_value .null
  | case2 otherwise =>
      exact (hnodes otherwise List.mem_cons_self).answers Computation.answers_done
  | case3 condition result rest ih =>
      simp only [List.forall_mem_cons] at hnodes
      obtain ⟨hcondition, hresult, hrest⟩ := hnodes
      refine hcondition.answers fun value => ?_
      dsimp only
      split
      · exact hresult.answers Computation.answers_done
      · exact ih hrest

/-! ## Iteration -/

/-- What the source of an iteration comes to. -/
def itemsCourse (input : Input) (scope : Scope) (handle : Handle) : Course (List Json) :=
  match input.argumentNodes with
  | [] => pure []
  | source :: _ => Json.elements <$> (handle.evaluate source scope).course

/-- What the body of an iteration comes to for one of the items. -/
def eachCourse (input : Input) (scope : Scope) (handle : Handle) (items : List Json)
    (item : Json) : Course Json :=
  (handle.evaluate (bodyOf input) ((scope.child (.array items)).child item)).course

/-- What the body of a fold comes to in one step. -/
def stepCourse (input : Input) (handle : Handle) (whole : Scope) (accumulator current : Json) :
    Course Json :=
  (handle.evaluate (bodyOf input) (whole.child (stepData accumulator current))).course

section Iteration

variable (hnodes : ∀ node ∈ input.argumentNodes, (handle.evaluate node scope).Determined)

include hnodes

/-- Once the items are there, the rest of an iteration depends on them. -/
theorem items_takes {next : List Json → Computation Output} {after : List Json → Course Json}
    (hnext : ∀ items, (next items).Takes (Output.value <$> after items)) :
    (items name input scope handle >>= fun listed =>
      match listed with
      | .error output => pure output
      | .ok items => next items).Takes
      (Output.value <$> (itemsCourse input scope handle >>= after)) := by
  unfold items itemsCourse
  rw [map_bind]
  cases hfound : input.argumentNodes with
  | nil => exact hnext []
  | cons source rest =>
      have hsource : (handle.evaluate source scope).Determined :=
        hnodes source (hfound ▸ List.mem_cons_self)
      dsimp only
      rw [bind_map_left, bind_assoc]
      refine hsource.bind fun value => ?_
      cases value <;> exact hnext _

variable (hbody : ∀ scope, (handle.evaluate (bodyOf input) scope).Determined)

include hbody

omit hnodes in
theorem bodyResults_takes (items : List Json) :
    (bodyResults input scope handle items).Takes
      (List.map Evaluation.done <$> items.mapM (eachCourse input scope handle items)) := by
  rw [← Course.mapM_map]
  exact Computation.Takes.joinAll fun item _ => hbody _

theorem map_takes : (map input scope handle).Takes (Output.value <$> do
    let items ← itemsCourse input scope handle
    return .array (← items.mapM (eachCourse input scope handle items))) := by
  refine items_takes hnodes fun items => ?_
  rw [map_bind]
  refine (bodyResults_takes hbody items).bind_map fun values _ => ?_
  rw [Evaluation.join_map_done, map_pure]
  exact .pure _

theorem filter_takes : (filter input scope handle).Takes (Output.value <$> do
    let items ← itemsCourse input scope handle
    let verdicts ← items.mapM (eachCourse input scope handle items)
    return .array (kept items verdicts)) := by
  refine items_takes hnodes fun items => ?_
  rw [map_bind]
  refine (bodyResults_takes hbody items).bind_map fun verdicts _ => ?_
  rw [keep_zip, map_pure]
  exact .pure _

omit hnodes in
theorem fold_takes (accumulator : Json) (items : List Json) :
    (fold input handle whole accumulator items).Takes
      (Output.value <$> items.foldlM (stepCourse input handle whole) accumulator) := by
  induction items generalizing accumulator with
  | nil => exact .pure (Output.value accumulator)
  | cons current rest ih =>
      rw [List.foldlM_cons, map_bind]
      exact (hbody _).bind ih

theorem reduce_takes : (reduce input scope handle).Takes (Output.value <$> do
    let items ← itemsCourse input scope handle
    let step := stepCourse input handle (scope.child (.array items))
    match input.argumentNodes[2]? with
    | some initial => items.foldlM step (← (handle.evaluate initial scope).course)
    | none =>
        match items with
        | [] => return .null
        | first :: others => others.foldlM step first) := by
  refine items_takes hnodes fun items => ?_
  dsimp only
  cases hthird : input.argumentNodes[2]? with
  | none =>
      cases items with
      | nil => exact .pure (Output.value .null)
      | cons first others => exact fold_takes hbody first others
  | some initial =>
      rw [map_bind]
      have hinitial := hnodes initial (List.mem_of_getElem? hthird)
      exact hinitial.bind fun seed => fold_takes hbody seed items

omit hnodes in
/-- The search for the first item whose truth value is `stop`. -/
theorem firstTruth_takes (stop : Bool) (items others : List Json) :
    (firstTruth name stop input handle (scope.child (.array items)) others).Takes
      (Output.value <$> (fun found => Json.bool (found == stop)) <$> others.anyM fun item =>
        (truthy · == stop) <$> eachCourse input scope handle items item) := by
  induction others with
  | nil =>
      rw [List.anyM_nil, map_pure, map_pure]
      cases stop <;> exact .pure _
  | cons item rest ih =>
      rw [List.anyM_cons, map_bind, map_bind, bind_map_left]
      refine (hbody _).bind fun value => ?_
      cases hdecides : truthy value == stop with
      | false =>
          simp only [hdecides, Bool.false_eq_true, if_false]
          exact ih
      | true =>
          simp only [hdecides, if_true, map_pure]
          cases stop <;> exact .pure _

theorem some_takes : (anyAll "some" true input scope handle).Takes (Output.value <$> do
    let items ← itemsCourse input scope handle
    return .bool (← items.anyM fun item =>
      truthy <$> eachCourse input scope handle items item)) := by
  refine items_takes hnodes fun items => ?_
  have hsearch : (firstTruth "some" true input handle (scope.child (.array items)) items).Takes _ :=
    firstTruth_takes hbody true items items
  simp only [beq_true] at hsearch
  rwa [← map_eq_pure_bind]

theorem every_takes : (anyAll "every" false input scope handle).Takes (Output.value <$> do
    let items ← itemsCourse input scope handle
    return .bool (← items.allM fun item =>
      truthy <$> eachCourse input scope handle items item)) := by
  refine items_takes hnodes fun items => ?_
  have hsearch : (firstTruth "every" false input handle (scope.child (.array items)) items).Takes _ :=
    firstTruth_takes hbody false items items
  simp only [beq_false] at hsearch
  rw [← map_eq_pure_bind, List.allM_eq_not_anyM_not]
  simpa only [Functor.map_map] using hsearch

end Iteration

/-! ## All bodies -/

theorem answer_answers {result : Except Failure Json} (hrefuses : OnlyRefuses result) :
    (Computation.ofAction (ExceptT.mk fun world => (result.map Output.value, world))).Answers := by
  have htakes : (Computation.ofAction (ExceptT.mk fun world =>
      (result.map Output.value, world))).Takes ⟨result.map .value, []⟩ :=
    .answer fun failure hfailure => (hrefuses.map Output.value failure hfailure).final
  refine ⟨_, htakes, fun output houtput => ?_⟩
  cases result with
  | ok value =>
      cases houtput
      exact ⟨value, .inl rfl⟩
  | error failure => cases houtput

theorem Body.answers {body : OperatorBody} {traverse : Bool} (hbody : Body name body traverse)
    (hnodes : traverse = false →
      ∀ node ∈ input.argumentNodes, (handle.evaluate node scope).Determined)
    (heach : traverse = false → ∀ scope, (handle.evaluate (bodyOf input) scope).Determined) :
    (body.run input scope handle).Answers := by
  cases hbody with
  | arguments hrefuses => exact answer_answers (hrefuses input.args)
  | readVariable => exact answer_answers (readVariable_onlyRefuses input.args scope)
  | missing => exact answer_answers (missing_onlyRefuses input.args scope)
  | preserve => exact Computation.answers_value input.toJson
  | choice hchoice =>
      refine Computation.Answers.cancellable ?_
      cases hchoice with
      | and | or => exact firstDeciding_answers (hnodes rfl)
      | «if» | ternary => exact branches_answers (hnodes rfl)
  | iteration hiteration =>
      refine Computation.Answers.cancellable ?_
      cases hiteration with
      | map => exact (map_takes (hnodes rfl) (heach rfl)).answers
      | filter => exact (filter_takes (hnodes rfl) (heach rfl)).answers
      | reduce => exact (reduce_takes (hnodes rfl) (heach rfl)).answers
      | some => exact (some_takes (hnodes rfl) (heach rfl)).answers
      | every => exact (every_takes (hnodes rfl) (heach rfl)).answers

end Standard

/-! ## Calls -/

theorem callOperator_takes {name : String} {operator : Operator} {input : Input} {scope : Scope}
    {handle : Handle} {course : Course Json} {f : Json → Output}
    (hreads : ∀ value, f value = .value value ∨ f value = .evaluation (.done value))
    (hbody : (operator.body.run input scope handle).Takes (f <$> course)) :
    (callOperator name operator input scope handle).Takes
      (Evaluation.done <$> do
        Course.call ⟨name, operator.origin, input⟩
        course) := by
  rw [map_bind, map_eq_pure_bind]
  refine (Computation.Takes.call _).bind fun _ _ => ?_
  refine (hbody.within name).bind_map fun value _ => ?_
  rcases hreads value with hvalue | hvalue
  · rw [hvalue]
    exact .pure (Evaluation.done value)
  · rw [hvalue]
    exact .pure (Evaluation.done value)

theorem callOperator_determined {name : String} {operator : Operator} {input : Input}
    {scope : Scope} {handle : Handle}
    (hbody : (operator.body.run input scope handle).Answers) :
    (callOperator name operator input scope handle).Determined := by
  obtain ⟨course, htakes, hsettled⟩ := hbody
  have hmade (f : Json → Output) (result : Except Failure Json)
      (hreads : ∀ value, f value = .value value ∨ f value = .evaluation (.done value))
      (hresult : course.result = result.map f) :
      (callOperator name operator input scope handle).Determined := by
    have hcourse : course = f <$> (⟨result, course.calls⟩ : Course Json) := by
      ext1
      · rw [hresult, Course.result_map]
      · rw [Course.calls_map]
    rw [hcourse] at htakes
    exact (callOperator_takes hreads htakes).determined
  cases hresult : course.result with
  | error failure => exact hmade .value (.error failure) (fun _ => .inl rfl) hresult
  | ok output =>
      obtain ⟨value, rfl | rfl⟩ := hsettled output hresult
      · exact hmade .value (.ok value) (fun _ => .inl rfl) hresult
      · exact hmade (.evaluation ∘ .done) (.ok value) (fun _ => .inr rfl) hresult

end DecisionLogic
