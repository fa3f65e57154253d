import DecisionLogic.Proofs.Program.Kinds
import DecisionLogic.Proofs.Program.Polls
import DecisionLogic.Proofs.Resumption.Adequacy

/-!
# Programs do what their logic does

With the standard operators alone, a run and a call of a program end at their first poll, and so do
their variants that cannot wait.  All of them come to the same, which adds to the agreement poll for
poll that holds whatever the added operators do.
-/

namespace DecisionLogic

theorem Standard.registry_synchronous : Standard.registry.Synchronous := by
  intro name operator hlookup
  cases Standard.standardOperator_of_lookup hlookup with
  | arguments name f => rfl
  | scope name f => rfl
  | preserve => rfl
  | lazy hbody => rfl

theorem Moment.Concludes.finished_of_impatient {α : Type} {condition : Condition α} {w : World}
    {m : Moment α} (hconcludes : m.Concludes False condition w) :
    ∃ w' effect result, m = .finished w' result ∧ condition effect result := by
  cases hconcludes with
  | finished hdoes hresult => exact ⟨_, _, _, rfl, hresult⟩
  | waiting hpatient hdoes hready hrest => exact hpatient.elim

variable {engine : Engine} {logic : Json} {above : List Json} {node : Logic} {w : World}

namespace Engine

/-- Standard operators do not wait and do not ask, so a run ends at once with a value or a
failure. -/
theorem run_finished (hstandard : engine.registry = Standard.registry)
    (hparse : Logic.parseBounded engine.options.maxDepth logic = .ok node) (data : Json)
    (hactive : w.cancelled = false) :
    ∃ w', ∃ result : Except Failure Json,
      engine.run logic data above w = .finished w' (result.map .done) := by
  have hmeans : ∀ name operator, engine.registry.lookup name = some operator →
      ∃ meaning, operator.Means False name meaning ∧ ¬ meaning.Asks := by
    intro name operator hlookup
    rw [hstandard] at hlookup
    have hoperator := Standard.standardOperator_of_lookup hlookup
    obtain ⟨meaning, hmeaning, hquiet, -⟩ := @hoperator.exists_means False
    exact ⟨meaning, hmeaning, hquiet⟩
  -- Nothing asks, so every tree is quiet and suspensions need not be tracked.
  obtain ⟨meanings, hinterprets, hquiet⟩ := exists_interprets hmeans (.inr fun _ _ h => h)
  have hnodeQuiet : node.Quiet meanings := by
    intro name args meaning _ hname
    exact hquiet name meaning hname
  have hbodies : node.BodiesQuiet meanings := by
    intro _ _ _ _ _ _ name args meaning _ hname
    exact hquiet name meaning hname
  have hplain := Logic.plain_of_parseBounded hparse
  have hfit : node.Fit meanings engine.levels :=
    hplain.fit (Logic.height_of_parseBounded hparse) hbodies
  have hjudged := evaluate_judged (f := id) hinterprets hfit (.withAbove data above) w hactive
  have hsettled := hnodeQuiet.settled (f := id) engine.levels (.withAbove data above)
  obtain ⟨w', effect, result, hfinished, hmet⟩ := hjudged.finished_of_impatient
  have hrun : engine.run logic data above w = .finished w' result := by
    unfold run
    rw [hparse]
    exact hfinished
  generalize Meaning.judge id meanings engine.levels node (.withAbove data above) = judgement
    at hmet hsettled
  cases hmet with
  | fails _ failure => exact ⟨w', .error failure, hrun⟩
  | @gives drawn evaluation standing calls hstands =>
      cases hstands with
      | done value => exact ⟨w', .ok value, hrun⟩
      | waits hids => cases hsettled _ calls rfl

end Engine

theorem ResultAlike.eq_of_settled {pairs : Pairing} {result : Except Failure Json}
    {y : Except Failure Evaluation}
    (halike : ResultAlike (Likeness.evaluation pairs) (result.map .done) y) :
    y = result.map .done := by
  cases result with
  | error failure =>
      cases halike
      rfl
  | ok value =>
      cases halike with
      | ok hvalue =>
          cases hvalue
          rfl

theorem Computation.AlikeFrom.finished {c d : Computation Evaluation} {v w' : World}
    {result : Except Failure Json} (halike : AlikeFrom Likeness.evaluation [] c d)
    (hsame : w.Same v) (hfinished : c w = .finished w' (result.map .done)) :
    ∃ v', d v = .finished v' (result.map .done) := by
  have hmoments := halike [] w v (List.Subset.refl _) hsame
  rw [hfinished] at hmoments
  generalize d v = moment at hmoments ⊢
  cases hmoments with
  | @finished _ _ _ _ v' _ _ _ hadvance hresult =>
      rw [hresult.eq_of_settled]
      exact ⟨v', rfl⟩

theorem Job.pollUntilOver_of_finished {α : Type} {computation : Computation α} {w' : World}
    {result : Except Failure α}
    (hfinished : computation { w with bag := [], cancelled := false } = .finished w' result) :
    ((Job.new computation false).pollUntilOver w 1).1 = .finished result := by
  have hpoll : (Job.new computation false).poll w =
      settle (computation { w with bag := [], cancelled := false }) := rfl
  unfold pollUntilOver
  rw [hpoll, hfinished]
  rfl

theorem Computation.now_of_finished {α : Type} {computation : Computation α} {w' : World}
    {result : Except Failure α} (hfinished : computation w = .finished w' result) :
    computation.now.run.run w = (result, w') := by
  unfold now
  rw [ExceptT.run_mk, StateT.run]
  simp only [hfinished]

/-- Computations that are alike and end at once come to the same in every fresh invocation. -/
theorem Computation.AlikeFrom.exists_result {c d : Computation Evaluation}
    (halike : AlikeFrom Likeness.evaluation [] c d)
    (hends : ∀ w : World, w.cancelled = false →
      ∃ w', ∃ result : Except Failure Json, c w = .finished w' (result.map .done)) :
    ∃ result : Except Failure Json, ∀ w : World,
      (∃ w', c { w with bag := [], cancelled := false } = .finished w' (result.map .done)) ∧
      ∃ w', d { w with bag := [], cancelled := false } = .finished w' (result.map .done) := by
  obtain ⟨_, result, hstart⟩ := hends (.start 0) rfl
  have hself : (World.start 0).Same (.start 0) := ⟨rfl, rfl⟩
  obtain ⟨_, hstart'⟩ := halike.finished hself hstart
  refine ⟨result, fun w => ?_⟩
  let fresh : World := { w with bag := [], cancelled := false }
  have hsame : (World.start 0).Same fresh := ⟨rfl, rfl⟩
  have hsame' : fresh.Same (.start 0) := ⟨rfl, rfl⟩
  obtain ⟨w', other, hfinished⟩ := hends fresh rfl
  obtain ⟨_, hother⟩ := halike.finished hsame' hfinished
  rw [hstart'] at hother
  have hresult : result.map Evaluation.done = other.map .done := (Moment.finished.inj hother).2
  refine ⟨⟨w', ?_⟩, halike.finished hsame hstart⟩
  rw [hresult]
  exact hfinished

namespace Program

variable {built : World} {program : Program}

theorem runSync_eq_now (hstandard : engine.registry = Standard.registry)
    (hparse : Logic.parseBounded engine.options.maxDepth logic = .ok node) (data : Json) :
    engine.runSync logic data above = (engine.run logic data above).now := by
  have hsync : engine.registry.Synchronous := by
    rw [hstandard]
    exact Standard.registry_synchronous
  have hkind := Engine.classify_eq_sync hsync (Logic.height_of_parseBounded hparse)
  rw [Engine.run_of_parse hparse]
  unfold Engine.runSync
  rw [hparse]
  change (liftM (engine.classify node) >>= fun kind => _ : Action Evaluation) = _
  rw [hkind]
  rfl

theorem callSync_eq_now (hstandard : engine.registry = Standard.registry)
    (hbuild : (Program.build engine logic above built).1 = .ok program) (data : Json) :
    program.callSync data = (program.call data).now := by
  have hsync : engine.registry.Synchronous := by
    rw [hstandard]
    exact Standard.registry_synchronous
  have hkind := Program.kind_of_build hsync hbuild
  simp [callSync, hkind]

theorem all_agree_at_once (hstandard : engine.registry = Standard.registry)
    (hbuild : (Program.build engine logic above built).1 = .ok program) (top : Bool)
    (max : Option Nat) (data : Json) :
    ∃ result : Except Failure Json, ∀ w : World,
      let fresh : World := { w with bag := [], cancelled := false }
      ((Job.new (engine.run logic data above) false).pollUntilOver w 1).1 =
          .finished (result.map .done) ∧
        ((engine.runSync logic data above).run.run fresh).1 = result.map .done ∧
        (program.callAlone top max data w 1).1 = .finished (result.map .done) ∧
        ((program.callSync data).run.run fresh).1 = result.map .done := by
  have hextends : engine.registry.Extends Operator.Faithful := by
    rw [hstandard]
    exact fun _ _ hlookup => .inl hlookup
  obtain ⟨-, -, node, hparse, -⟩ := Program.translates_of_build hbuild
  have halike := Program.call_alike_run hextends hbuild data
  obtain ⟨result, hresult⟩ := halike.exists_result fun w hactive =>
    Engine.run_finished hstandard hparse data hactive
  refine ⟨result, fun w => ?_⟩
  obtain ⟨⟨w', hrun⟩, v', hcall⟩ := hresult w
  refine ⟨Job.pollUntilOver_of_finished hrun, ?_, ?_, ?_⟩
  · rw [runSync_eq_now hstandard hparse]
    exact congrArg Prod.fst (Computation.now_of_finished hrun)
  · rw [(program.callAlone_eq top max data w 1).1]
    exact Job.pollUntilOver_of_finished hcall
  · rw [callSync_eq_now hstandard hbuild]
    exact congrArg Prod.fst (Computation.now_of_finished hcall)

/-- A program does what its logic does.  Polled side by side, a call made alone and a run agree after
any number of polls, in what they answer and in the calls of added operators; the outcomes may differ
in the identifiers of points.  With the standard operators alone, runs and calls, those that cannot
wait included, come to one and the same outcome at the first poll. -/
theorem call_agrees_run (hextends : engine.registry.Extends Operator.Faithful)
    (hbuild : (Program.build engine logic above built).1 = .ok program) (top : Bool)
    (max : Option Nat) (data : Json) :
    (∀ (w v : World) (polls : Nat),
      let run := (Job.new (engine.run logic data above) false).pollUntilOver w polls
      let call := program.callAlone top max data v polls
      run.1.Agrees call.1 ∧
        ∃ calls, run.2.2.customCalls = calls ++ w.customCalls ∧
          call.2.2.customCalls = calls ++ v.customCalls) ∧
    (engine.registry = Standard.registry →
      ∃ result : Except Failure Json, ∀ w : World,
        let fresh : World := { w with bag := [], cancelled := false }
        ((Job.new (engine.run logic data above) false).pollUntilOver w 1).1 =
            .finished (result.map .done) ∧
          ((engine.runSync logic data above).run.run fresh).1 = result.map .done ∧
          (program.callAlone top max data w 1).1 = .finished (result.map .done) ∧
          ((program.callSync data).run.run fresh).1 = result.map .done) := by
  constructor
  · intro w v polls
    exact polls_agree hextends hbuild top max data w v polls
  · intro hstandard
    exact all_agree_at_once hstandard hbuild top max data

end Program

/-! ## An operator that waits and yields -/

/-- Wait for a poll, have the arguments evaluated and yield their value. -/
def relayOnce : AwaitingBody := fun input scope handle => do
  Computation.pause 1
  match input with
  | .evaluated value => return .yield value
  | .raw args =>
      match ← handle.evaluate args scope with
      | .done value => return .yield value
      | .suspended suspension => return .evaluation (.suspended suspension)

def relayOperator : Operator :=
  { body := .awaiting relayOnce, traverse := false, deterministic := false, yields := true,
    useContext := false, rawData := false, sync := false, origin := .custom }

def relayEngine : Engine :=
  ⟨Standard.registry.insert "relay" relayOperator, { yieldSupported := true }⟩

/-- An operation that is completed while compiling, beside one that waits. -/
def relayLogic : Logic :=
  .sequence [.operation "!" (.literal (.bool false)),
    .operation "relay" (.operation "var" (.literal (.string "")))]

def relayProgram : Program :=
  { root := .sequence [.literal (.bool true),
      .rawCall "relay" relayOperator (.operation "var" (.literal (.string "")))]
    kind := .async
    stateful := false
    fingerprint := Logic.fingerprint relayLogic.toJson
    engine := relayEngine
    above := [] }

theorem relayOperator_faithful : relayOperator.Faithful := by
  refine ⟨rfl, ?_⟩
  intro input scope handle handle' halike
  refine (Computation.AlikeFrom.bind (.pause 1) fun more _ _ _ _ => ?_).cancellable
  cases input with
  | evaluated value => exact .pure Likeness.output_lasting (.yield value)
  | raw args =>
      have howns : (Input.raw args).Owns args := .inr ⟨args, rfl, .self args⟩
      refine .bind ((halike.evaluate args howns scope).weaken (List.nil_subset _)) ?_
      intro more' evaluation evaluation' _ hevaluation
      cases hevaluation with
      | done value => exact .pure Likeness.output_lasting (.yield value)
      | suspended hroot =>
          exact .pure Likeness.output_lasting (.evaluation (.suspended hroot))

theorem relayEngine_extends : relayEngine.registry.Extends Operator.Faithful :=
  (Standard.registry_extends _).insert "relay" rfl relayOperator_faithful

/-- A run and a call of the program wait for a poll and are then suspended on points of different
identifiers; with standard operators alone, all ends at once. -/
theorem call_agrees_run_relayed :
    let data : Json := .string "x"
    let standard : Engine := ⟨Standard.registry, {}⟩
    let negation : Json := .object [("!", .bool false)]
    relayEngine.registry.Extends Operator.Faithful ∧
      (Program.build relayEngine relayLogic.toJson [] (.start 0)).1 = .ok relayProgram ∧
      (∃ suspension evaluation,
        ((Job.new (relayEngine.run relayLogic.toJson data []) false).pollUntilOver (.start 0) 2).1 =
            .finished (.ok (.suspended suspension)) ∧
          (relayProgram.callAlone true none data (.start 7) 2).1 = .finished (.ok evaluation) ∧
          Evaluation.SameUpToIds (.suspended suspension) evaluation) ∧
      standard.registry.Extends Operator.Faithful ∧
      ∃ program, (Program.build standard negation [] (.start 0)).1 = .ok program ∧
        ((program.callSync data).run.run (.start 0)).1 = .ok (.done (.bool true)) := by
  intro data standard negation
  have hbuild : (Program.build relayEngine relayLogic.toJson [] (.start 0)).1 =
      .ok relayProgram := rfl
  obtain ⟨hpolls, -⟩ := Program.call_agrees_run relayEngine_extends hbuild true none data
  have hanswers := (hpolls (.start 0) (.start 7) 2).1
  have hrun : ∃ suspension,
      ((Job.new (relayEngine.run relayLogic.toJson data []) false).pollUntilOver (.start 0) 2).1 =
        .finished (.ok (.suspended suspension)) := ⟨_, rfl⟩
  obtain ⟨suspension, hrun⟩ := hrun
  rw [hrun] at hanswers
  have hstandard : standard.registry.Extends Operator.Faithful := fun _ _ hlookup => .inl hlookup
  have hnegation : ∃ program, (Program.build standard negation [] (.start 0)).1 = .ok program :=
    ⟨_, rfl⟩
  obtain ⟨program, hprogram⟩ := hnegation
  obtain ⟨-, honce⟩ := Program.call_agrees_run hstandard hprogram false none data
  obtain ⟨result, hresult⟩ := honce rfl
  obtain ⟨hfirst, -, -, hcallSync⟩ := hresult (.start 0)
  have hdone : ((Job.new (standard.run negation data []) false).pollUntilOver (.start 0) 1).1 =
      .finished (.ok (.done (.bool true))) := rfl
  have hvalue : Except.ok (.done (.bool true)) = result.map Evaluation.done :=
    JobAnswer.finished.inj (hdone.symm.trans hfirst)
  refine ⟨relayEngine_extends, hbuild, ?_, hstandard, program, hprogram, ?_⟩
  · generalize (relayProgram.callAlone true none data (.start 7) 2).1 = answer at hanswers ⊢
    cases hanswers with
    | finished hresult =>
        cases hresult with
        | ok hsame => exact ⟨suspension, _, hrun, rfl, hsame⟩
  · rw [hvalue]
    exact hcallSync

end DecisionLogic
