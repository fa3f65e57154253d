import DecisionLogic.Proofs.Resumption.Answering
import DecisionLogic.Proofs.Resumption.Ending
import DecisionLogic.Proofs.Resumption.Rebuild

/-!
# Suspending and resuming is transparent

A suspended evaluation is resumed, with an answer to each of its points, until it is not suspended
any more.  It then comes to what the uninterrupted evaluation comes to in which the operators return
the answers themselves, and traversing operators were called as often with the same inputs.
-/

namespace DecisionLogic

variable {f : Json → Json}

namespace Engine

/-- From `w` on the computation is polled to its end, and for as long as it is suspended, it is
resumed with the same data and `f` of the input for each point. -/
inductive Chain (engine : Engine) (f : Json → Json) (data : Json) (above : List Json) :
    Computation Evaluation → World → Except Failure Json → World → Prop
  | done {computation : Computation Evaluation} {w w' : World} {value : Json}
      (hends : computation.Ends w (.ok (.done value)) w') :
      Chain engine f data above computation w (.ok value) w'
  | failed {computation : Computation Evaluation} {w w' : World} {failure : Failure}
      (hends : computation.Ends w (.error failure) w') :
      Chain engine f data above computation w (.error failure) w'
  | resumed {computation : Computation Evaluation} {w w' w'' : World} {suspension : Suspension}
      {result : Except Failure Json} (hends : computation.Ends w (.ok (.suspended suspension)) w')
      (hrest : Chain engine f data above
        (engine.resume suspension (suspension.answers f) data above) w' result w'') :
      Chain engine f data above computation w result w''

variable {engine : Engine} {data : Json} {above : List Json}
  {computation : Computation Evaluation} {meanings : String → Option Meaning}

theorem Chain.unique {w v u : World} {x y : Except Failure Json}
    (hx : engine.Chain f data above computation w x v)
    (hy : engine.Chain f data above computation w y u) : x = y ∧ v = u := by
  induction hx generalizing y u with
  | done hends =>
      cases hy with
      | done hends' =>
          obtain ⟨heq, hworld⟩ := hends.unique hends'
          cases heq
          exact ⟨rfl, hworld⟩
      | failed hends' => cases (hends.unique hends').1
      | resumed hends' _ => cases (hends.unique hends').1
  | failed hends =>
      cases hy with
      | done hends' => cases (hends.unique hends').1
      | failed hends' =>
          obtain ⟨heq, hworld⟩ := hends.unique hends'
          cases heq
          exact ⟨rfl, hworld⟩
      | resumed hends' _ => cases (hends.unique hends').1
  | resumed hends _ ih =>
      cases hy with
      | done hends' => cases (hends.unique hends').1
      | failed hends' => cases (hends.unique hends').1
      | resumed hends' hrest' =>
          obtain ⟨heq, rfl⟩ := hends.unique hends'
          cases heq
          exact ih hrest'

/-- What a chain comes to is judged with answers. -/
inductive Outcome (w w' : World) : Judgement Standing → Except Failure Json → Prop
  | done (value : Json) {calls : Multiset Traversal}
      (hcalls : w'.traversals = calls + w.traversals) :
      Outcome w w' (.gives (.done value) calls) (.ok value)
  | fails (failure : Failure) : Outcome w w' .fails (.error failure)

theorem Outcome.after {w w' w'' : World} {judgement : Judgement Standing}
    {result : Except Failure Json} {calls : Multiset Traversal}
    (houtcome : Outcome w' w'' judgement result)
    (hcalls : w'.traversals = calls + w.traversals) :
    Outcome w w'' (judgement.after calls) result := by
  cases houtcome with
  | done value hmore =>
      refine .done value ?_
      rw [hmore, hcalls, add_left_comm, add_assoc]
  | fails failure => exact .fails failure

theorem resume_answers {suspension : Suspension}
    (hnodup : (suspension.points.map SuspensionPoint.id).Nodup) :
    engine.resume suspension (suspension.answers f) data above =
      engine.runLogic (suspension.root.answer f) data above := by
  unfold resume
  rw [Suspension.toLogic_answers hnodup]
  rfl

theorem chain_of_fit (f : Json → Json) (data : Json) (above : List Json) {patient : Prop}
    (hinterprets : engine.Interprets patient meanings) {node : Logic}
    (hfit : node.Fit meanings engine.levels) (hcount : node.operations ≤ PointId.count) (w : World) :
    ∃ result w', engine.Chain f data above (engine.runLogic node data above) w result w' ∧
      Outcome w w' (Meaning.judge f (answeredMeanings f meanings) engine.levels node
        (.withAbove data above)) result := by
  induction hoperations : node.operations using Nat.strong_induction_on generalizing node w with
  | _ operations ih =>
      have hjudged := evaluate_judged (f := f) hinterprets hfit (.withAbove data above)
      obtain ⟨result, w', effect, count, hends, hmet, hcalls, hdrawn⟩ := hjudged.ends w
      have hcontinues := hfit.continues (f := f) (.withAbove data above)
      rw [hfit.judge_answered]
      generalize Meaning.judge f meanings engine.levels node (.withAbove data above) = judgement
        at hmet hcontinues ⊢
      cases hmet with
      | fails _ failure => exact ⟨_, w', .failed hends, .fails failure⟩
      | @gives drawn evaluation standing calls hstands =>
          rw [Judgement.gives_bind]
          cases hstands with
          | done value =>
              refine ⟨_, w', .done hends, ?_⟩
              simp only [Standing.goOn, Judgement.pure_eq, Judgement.after_gives, add_zero]
              exact .done value hcalls
          | @waits suspension _ hids =>
              obtain ⟨hpoints, hnext, hle⟩ := hcontinues _ calls rfl
              obtain rfl : drawn = w.nextNumbers count := hdrawn
              have hcard : count = suspension.points.length := by
                have hcards := congrArg Multiset.card hids
                simpa [World.nextNumbers] using hcards.symm
              have hnodup : (suspension.points.map SuspensionPoint.id).Nodup := by
                rw [← Multiset.coe_nodup, hids]
                exact nodup_fresh_nextNumbers w (by omega)
              obtain ⟨result, w'', hchain, houtcome⟩ := ih _ (by omega) hnext (by omega) w' rfl
              rw [← resume_answers hnodup] at hchain
              exact ⟨result, w'', .resumed hends hchain, houtcome.after hcalls⟩

theorem answered_ends (f : Json → Json) (data : Json) (above : List Json) {patient : Prop}
    (hinterprets : engine.Interprets patient meanings) {node : Logic}
    (hfit : node.Fit meanings engine.levels) (v : World) :
    ∃ result v', ((engine.answered f).runLogic node data above).Ends v (result.map .done) v' ∧
      Outcome v v' (Meaning.judge f (answeredMeanings f meanings) engine.levels node
        (.withAbove data above)) result := by
  have hjudged := evaluate_judged (f := f) (hinterprets.answered (f := f)) hfit.answered
    (.withAbove data above)
  obtain ⟨result, v', effect, count, hends, hmet, hcalls, -⟩ := hjudged.ends v
  have hquiet : node.Quiet (answeredMeanings f meanings) := Logic.quiet_answered node
  have hsettled := hquiet.settled (f := f) engine.levels (.withAbove data above)
  generalize Meaning.judge f (answeredMeanings f meanings) engine.levels node
    (.withAbove data above) = judgement at hmet hsettled ⊢
  cases hmet with
  | fails _ failure => exact ⟨.error failure, v', hends, .fails failure⟩
  | @gives drawn evaluation standing calls hstands =>
      cases hstands with
      | done value => exact ⟨.ok value, v', hends, .done value hcalls⟩
      | waits hids => cases hsettled _ calls rfl

end Engine

/-! ## Runs -/

/-- The operator has its arguments evaluated, and what comes of a call depends on their value and on
the scope alone. -/
def Operator.Replying (operator : Operator) : Prop :=
  operator.traverse = true ∧ ∃ reply, operator.Replies True reply

def Operator.Yields (operator : Operator) : Prop :=
  ∃ reply input scope, operator.Replies True reply ∧ reply input scope = .asks

namespace Engine

variable {engine : Engine} {data : Json} {above : List Json} {node : Logic}

/-- No operator that yields occurs in the body of a `map`, `filter`, `reduce`, `some` or `every`. -/
def BodiesNeverYield (engine : Engine) (tree : Logic) : Prop :=
  ∀ name args body inner innerArgs operator, (Logic.operation name args).Within tree →
    name ∈ Standard.iterationNames → args.arguments[1]? = some body →
      (Logic.operation inner innerArgs).Within body →
        engine.registry.lookup inner = some operator → ¬ operator.Yields

theorem exists_meanings (htracking : engine.options.yieldSupported = true)
    (hoperators : engine.registry.Extends Operator.Replying) :
    ∃ meanings, engine.Interprets True meanings ∧ ∀ name meaning, meanings name = some meaning →
      (meaning.iterates = true → name ∈ Standard.iterationNames) ∧
        (meaning.Asks → ∃ operator, engine.registry.lookup name = some operator ∧
          operator.Yields) := by
  apply exists_interprets ?_ (.inl htracking)
  intro name operator hlookup
  rcases hoperators name operator hlookup with hstandard | ⟨-, htraverse, reply, hreplies⟩
  · obtain ⟨meaning, hmeans, hquiet, hname⟩ :=
      (Standard.standardOperator_of_lookup hstandard).exists_means
    exact ⟨meaning, hmeans, hname, fun hasks => absurd hasks hquiet⟩
  · refine ⟨_, .traversing htraverse hreplies, nofun, ?_⟩
    rintro ⟨input, scope, hasks⟩
    exact ⟨operator, hlookup, reply, input, scope, hreplies, hasks⟩

theorem bodiesQuiet_of_neverYield {meanings : String → Option Meaning}
    (hmeanings : ∀ name meaning, meanings name = some meaning →
      (meaning.iterates = true → name ∈ Standard.iterationNames) ∧
        (meaning.Asks → ∃ operator, engine.registry.lookup name = some operator ∧
          operator.Yields))
    (hbodies : engine.BodiesNeverYield node) : node.BodiesQuiet meanings := by
  intro name args meaning hwithin hname hiterates inner innerArgs innerMeaning hinner hinnerName
  have hiteration := (hmeanings name meaning hname).1 hiterates
  intro hasks
  obtain ⟨operator, hlookup, hyields⟩ := (hmeanings inner innerMeaning hinnerName).2 hasks
  cases hbody : args.arguments[1]? with
  | none =>
      have hnull : Meaning.bodyOf args.arguments = .literal .null := by
        rw [Meaning.bodyOf, List.getD_eq_getElem?_getD, hbody]
        rfl
      rw [hnull] at hinner
      cases hinner
  | some body =>
      have hbodyOf : Meaning.bodyOf args.arguments = body := by
        rw [Meaning.bodyOf, List.getD_eq_getElem?_getD, hbody]
        rfl
      rw [hbodyOf] at hinner
      exact hbodies name args body inner innerArgs operator hwithin hiteration hbody hinner hlookup
        hyields

/-- Suspending and resuming changes neither the outcome nor the calls of traversing operators.
The tree must not have more operations than there are identifiers for points. -/
theorem resumed_run_agrees (f : Json → Json) (htracking : engine.options.yieldSupported = true)
    (hoperators : engine.registry.Extends Operator.Replying) {logic : Json}
    (hparse : Logic.parseBounded engine.options.maxDepth logic = .ok node)
    (hbodies : engine.BodiesNeverYield node) (hcount : node.operations ≤ PointId.count)
    (data : Json) (above : List Json) (w v : World) :
    (∃ result w', engine.Chain f data above (engine.run logic data above) w result w') ∧
    (∀ value,
      (∃ w', engine.Chain f data above (engine.run logic data above) w (.ok value) w') ↔
        ∃ v', ((engine.answered f).run logic data above).Ends v (.ok (.done value)) v') ∧
    ((∃ failure w', engine.Chain f data above (engine.run logic data above) w (.error failure) w') ↔
      ∃ failure v', ((engine.answered f).run logic data above).Ends v (.error failure) v') ∧
    ∀ value outcome w' v',
      engine.Chain f data above (engine.run logic data above) w (.ok value) w' →
        ((engine.answered f).run logic data above).Ends v (.ok outcome) v' →
          ∃ calls, w'.traversals = calls + w.traversals ∧ v'.traversals = calls + v.traversals := by
  obtain ⟨meanings, hinterprets, hmeanings⟩ := exists_meanings htracking hoperators
  have hplain := Logic.plain_of_parseBounded hparse
  have hheight := Logic.height_of_parseBounded hparse
  have hfit : node.Fit meanings engine.levels :=
    hplain.fit hheight (bodiesQuiet_of_neverYield hmeanings hbodies)
  have hparse' : Logic.parseBounded (engine.answered f).options.maxDepth logic = .ok node := hparse
  rw [run_of_parse hparse, run_of_parse hparse']
  obtain ⟨result, w', hchain, houtcome⟩ := chain_of_fit f data above hinterprets hfit hcount w
  obtain ⟨other, v', hends, houtcome'⟩ := answered_ends f data above hinterprets hfit v
  generalize Meaning.judge f (answeredMeanings f meanings) engine.levels node
    (.withAbove data above) = judgement at houtcome houtcome'
  cases houtcome with
  | @done value calls hcalls =>
      cases houtcome' with
      | done _ hcalls' =>
          refine ⟨⟨_, w', hchain⟩, fun x => ⟨?_, ?_⟩, ⟨?_, ?_⟩, ?_⟩
          · rintro ⟨last, hother⟩
            cases (hchain.unique hother).1
            exact ⟨v', hends⟩
          · rintro ⟨last, hother⟩
            cases (hends.unique hother).1
            exact ⟨w', hchain⟩
          · rintro ⟨failure, last, hother⟩
            cases (hchain.unique hother).1
          · rintro ⟨failure, last, hother⟩
            cases (hends.unique hother).1
          · intro x outcome last last' hother hother'
            rw [← (hchain.unique hother).2, ← (hends.unique hother').2]
            exact ⟨calls, hcalls, hcalls'⟩
  | fails failure =>
      cases houtcome' with
      | fails failure' =>
          refine ⟨⟨_, w', hchain⟩, fun x => ⟨?_, ?_⟩, ⟨?_, ?_⟩, ?_⟩
          · rintro ⟨last, hother⟩
            cases (hchain.unique hother).1
          · rintro ⟨last, hother⟩
            cases (hends.unique hother).1
          · exact fun _ => ⟨failure', v', hends⟩
          · exact fun _ => ⟨failure, w', hchain⟩
          · intro x outcome last last' hother _
            cases (hchain.unique hother).1

end Engine

/-! ## An operator that asks -/

def askOperator : Operator :=
  { body := .immediate fun input _ _ => pure (.yield input.toJson), traverse := true,
    deterministic := false, yields := true, useContext := false, rawData := false, sync := true,
    origin := .custom }

def askEngine : Engine :=
  ⟨Standard.registry.insert "ask" askOperator, { yieldSupported := true }⟩

/-- The items are asked for twice, and the body is run for each of them. -/
def askLogic : Logic :=
  .operation "map" (.sequence [.operation "ask" (.operation "ask" (.literal (.bool true))),
    .operation "!" (.operation "var" (.literal (.string "")))])

theorem askOperator_replying : askOperator.Replying := by
  refine ⟨rfl, fun _ _ => .asks, ?_⟩
  intro input scope handle w hactive
  exact .finished (.refl hactive) (.yield input)

theorem askEngine_extends : askEngine.registry.Extends Operator.Replying :=
  (Standard.registry_extends _).insert "ask" rfl askOperator_replying

theorem Operator.Replies.asks_unique {operator : Operator} {reply reply' : Json → Scope → Reply}
    {patient patient' : Prop} (hreplies : operator.Replies patient reply)
    (hreplies' : operator.Replies patient' reply') {input : Json} {scope : Scope}
    (hasks : reply input scope = .asks) : reply' input scope = .asks := by
  let handle : Handle := ⟨{}, 0, fun _ _ => Computation.pure (.done .null)⟩
  obtain ⟨result, w', effect, _, hends, hgiven, -, -⟩ :=
    (hreplies input scope handle).ends (.start 0)
  obtain ⟨result', v', effect', _, hends', hgiven', -, -⟩ :=
    (hreplies' input scope handle).ends (.start 0)
  obtain ⟨rfl, -⟩ := hends.unique hends'
  rw [hasks] at hgiven
  cases hgiven
  generalize reply' input scope = other at hgiven' ⊢
  cases hgiven'
  rfl

theorem Standard.StandardOperator.not_yields {name : String} {operator : Operator}
    (hstandard : Standard.StandardOperator name operator) (htraverse : operator.traverse = true) :
    ¬ operator.Yields := by
  rintro ⟨reply, input, scope, hreplies, hasks⟩
  have hmeaning : ∃ meaning, operator.Means True name meaning ∧ ¬ meaning.Asks ∧ _ :=
    hstandard.exists_means
  obtain ⟨meaning, hmeans, hquiet, -⟩ := hmeaning
  cases hmeans with
  | traversing _ hreplies' => exact hquiet ⟨input, scope, hreplies.asks_unique hreplies' hasks⟩
  | data hraw _ => simp [htraverse] at hraw
  | lazy hraw _ _ => simp [htraverse] at hraw

theorem askEngine_not_yields {name : String} (hne : "ask" ≠ name)
    (htraverse : (Standard.registry.lookup name).all Operator.traverse = true)
    {operator : Operator} (hlookup : askEngine.registry.lookup name = some operator) :
    ¬ operator.Yields := by
  simp only [askEngine, Registry.lookup_insert_of_ne _ hne] at hlookup
  have hstandard := Standard.standardOperator_of_lookup hlookup
  apply hstandard.not_yields
  simpa [hlookup] using htraverse

theorem askLogic_bodies : askEngine.BodiesNeverYield askLogic := by
  have hbelow {name : String} {args : Logic} (hwithin : (Logic.operation name args).Within
      (.operation "!" (.operation "var" (.literal (.string ""))))) : name = "!" ∨ name = "var" := by
    cases hwithin with
    | self => exact .inl rfl
    | args hwithin =>
        cases hwithin with
        | self => exact .inr rfl
        | args hwithin => cases hwithin
  intro name args body inner innerArgs operator hwithin hname hbody hinner hlookup
  cases hwithin with
  | self =>
      cases hbody
      rcases hbelow hinner with rfl | rfl
      · exact askEngine_not_yields (by decide) rfl hlookup
      · exact askEngine_not_yields (by decide) rfl hlookup
  | args hwithin =>
      -- The other operations do not have a body evaluated for each item.
      have hnone : name = "ask" ∨ name = "!" ∨ name = "var" := by
        cases hwithin with
        | item hitem hwithin =>
            simp only [List.mem_cons, List.not_mem_nil, or_false] at hitem
            rcases hitem with rfl | rfl
            · left
              cases hwithin with
              | self => rfl
              | args hwithin =>
                  cases hwithin with
                  | self => rfl
                  | args hwithin => cases hwithin
            · exact .inr (hbelow hwithin)
      rcases hnone with rfl | rfl | rfl
      · exact absurd hname (by decide)
      · exact absurd hname (by decide)
      · exact absurd hname (by decide)

/-- Two rounds of answers, and then the outcome of the run that was never suspended. -/
theorem resumed_run_agrees_asking :
    let f : Json → Json := fun input => .array [input]
    let value : Json := .array [.bool false]
    askEngine.options.yieldSupported = true ∧
      askEngine.registry.Extends Operator.Replying ∧
      Logic.parseBounded askEngine.options.maxDepth askLogic.toJson = .ok askLogic ∧
      askEngine.BodiesNeverYield askLogic ∧ askLogic.operations ≤ PointId.count ∧
      ∃ w', askEngine.Chain f .null [] (askEngine.run askLogic.toJson .null []) (.start 0)
          (.ok value) w' ∧
        w'.traversals = {("!", .array [.bool true]), ("var", .string ""),
          ("ask", .array [.bool true]), ("ask", .bool true)} := by
  intro f value
  have hparse : Logic.parseBounded askEngine.options.maxDepth askLogic.toJson = .ok askLogic := rfl
  have hcount : askLogic.operations ≤ PointId.count := by decide
  obtain ⟨-, hdone, -, hcalls⟩ := Engine.resumed_run_agrees f rfl askEngine_extends hparse
    askLogic_bodies hcount .null [] (.start 0) (.start 0)
  have hends : ∃ v', ((askEngine.answered f).run askLogic.toJson .null []).Ends (.start 0)
      (.ok (.done value)) v' ∧ v'.traversals = {("!", .array [.bool true]), ("var", .string ""),
        ("ask", .array [.bool true]), ("ask", .bool true)} :=
    ⟨_, ⟨1, _, rfl⟩, rfl⟩
  obtain ⟨v', hends, htraversals⟩ := hends
  obtain ⟨w', hchain⟩ := (hdone value).mpr ⟨v', hends⟩
  obtain ⟨calls, hleft, hright⟩ := hcalls value _ w' v' hchain hends
  refine ⟨rfl, askEngine_extends, hparse, askLogic_bodies, hcount, w', hchain, ?_⟩
  rw [hleft, ← htraversals, hright]

end DecisionLogic
