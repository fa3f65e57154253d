import DecisionLogic.Proofs.Calls.Lawful
import DecisionLogic.Proofs.Nesting.Building
import DecisionLogic.Proofs.Resumption.Chain
import DecisionLogic.Proofs.Suspension.Outcomes

/-!
# Nesting is decided once

Logic is measured when it is parsed, before anything runs.  What passes is never found nested too
deep afterwards, neither by a build or an evaluation nor by a resumption, although the trees that
continue suspensions are not measured again; what does not pass fails wherever it is handed in.
-/

namespace DecisionLogic

open Congruence

/-- Every tree that continues the suspension is ready for the levels. -/
structure Suspension.Ready (registry : Registry) (levels : Nat) (s : Suspension) : Prop where
  mends : s.root.Mends registry fun _ => True
  bounded : s.root.Bounded registry levels

/-- An outcome other than a nesting failure, from which no resumption leads to one. -/
def Engine.Settles (engine : Engine) (result : Except Failure Evaluation) : Prop :=
  OnlyFails Law.shallow.Fails result ∧
    ∀ s, result = .ok (.suspended s) → s.Ready engine.registry engine.levels

/-- How the evaluation of logic can end: run, with or without waiting, or built and called, with or
without waiting and by itself or among other calls, and then resumed any number of times.  Data and
values are any, and so is what happens to jobs and calls before the poll that ends them. -/
inductive Engine.EndsWith (engine : Engine) (logic : Json) : Except Failure Evaluation → Prop
  | run {job : Job Evaluation} {world : World} {result : Except Failure Evaluation} (data : Json)
      (above : List Json) (hreached : Job.Reached (engine.run logic data above) job)
      (hanswer : (job.poll world).1 = .finished result) : EndsWith engine logic result
  | runSync (data : Json) (above : List Json) (world : World) :
      EndsWith engine logic ((engine.runSync logic data above).run.run world).1
  | call {above : List Json} {before : World} {program : Program}
      (hbuild : (Program.build engine logic above before).1 = .ok program)
      {job : Job Evaluation} {world : World} {result : Except Failure Evaluation} (data : Json)
      (hreached : Job.Reached (program.call data) job)
      (hanswer : (job.poll world).1 = .finished result) : EndsWith engine logic result
  | pooled {above : List Json} {before : World} {program : Program}
      (hbuild : (Program.build engine logic above before).1 = .ok program) (top : Bool)
      (max : Option Nat) (first : World) (events : List CallEvent) {number : Nat} {world : World}
      {result : Except Failure Evaluation}
      (hanswer : (((CallTraffic.new program top max first).run events).calls.poll number world).1 =
        .finished result) : EndsWith engine logic result
  | callSync {above : List Json} {before : World} {program : Program}
      (hbuild : (Program.build engine logic above before).1 = .ok program) (data : Json)
      (world : World) : EndsWith engine logic ((program.callSync data).run.run world).1
  | resume {suspension : Suspension} (hends : EndsWith engine logic (.ok (.suspended suspension)))
      {job : Job Evaluation} {world : World} {result : Except Failure Evaluation}
      (replacements : Replacements) (data : Json) (above : List Json)
      (hreached : Job.Reached (engine.resume suspension replacements data above) job)
      (hanswer : (job.poll world).1 = .finished result) : EndsWith engine logic result

variable {engine : Engine} {logic : Json} {node : Logic}

theorem Logic.ready_of_parseBounded {registry : Registry} {limit : Nat}
    (hparse : Logic.parseBounded limit logic = .ok node) : node.Ready registry (limit + 1) :=
  ⟨(Logic.plain_of_parseBounded hparse).intact fun _ _ _ => trivial,
    Logic.bounded_of_parseBounded hparse⟩

theorem Engine.settles_error {failure : Failure} (hfails : Law.shallow.Fails failure) :
    engine.Settles (.error failure) :=
  ⟨.error hfails, nofun⟩

/-! ## Single evaluations -/

theorem Engine.settles_of_linked {computation : Computation Evaluation}
    (hbounded : node.Bounded engine.registry engine.levels)
    (hkeeps : computation.Keeps .shallow
      (Law.shallow.Allows (Evaluation.Linked (Linkage.leveled engine.registry node)))) :
    computation.Keeps .shallow fun _ => engine.Settles := by
  intro w
  refine (hkeeps w).mono fun drawn result hallows => ?_
  cases hallows with
  | error hfails => exact settles_error hfails
  | ok _ hlinked =>
      refine ⟨.ok _, ?_⟩
      rintro s ⟨⟩
      cases hlinked with
      | suspended hsuspension => exact ⟨hsuspension.1.2, hsuspension.2 _ hbounded⟩

section Evaluations

variable (hextends : engine.registry.Extends (Operator.Shallow engine.registry))

include hextends

theorem Engine.runLogic_settles (hready : node.Ready engine.registry engine.levels) (data : Json)
    (above : List Json) : (engine.runLogic node data above).Keeps .shallow fun _ => engine.Settles :=
  settles_of_linked hready.bounded
    ((compatible_shallow hextends).evaluate_rel engine.levels node _ (.withAbove data above) hready)

theorem Program.call_settles {above : List Json} {world : World} {program : Program}
    (hbuild : (Program.build engine logic above world).1 = .ok program) (data : Json) :
    (program.call data).Keeps .shallow fun _ => engine.Settles := by
  obtain ⟨hengine, -, node, hparse, htranslates⟩ := Program.translates_of_build hbuild
  have hready : node.Ready engine.registry engine.levels := Logic.ready_of_parseBounded hparse
  have hrising : Setting.Rising fun levels node _ _ => node.Ready engine.registry levels :=
    fun _ _ _ _ _ hle hready => ⟨hready.intact, hready.bounded.mono hle⟩
  unfold Program.call
  rw [hengine]
  let scope := Scope.withAbove data program.above
  have hrel : Congruence.shallow.Rel (Evaluation.Linked (Linkage.leveled engine.registry node))
      (program.root.execute engine scope) (program.root.execute engine scope) :=
    (compatible_shallow hextends).execute_rel hrising htranslates
      (Nat.lt_succ_self engine.options.maxDepth) hready
  exact Engine.settles_of_linked hready.bounded hrel

theorem Engine.resume_settles {s : Suspension} (hready : s.Ready engine.registry engine.levels)
    (replacements : Replacements) (data : Json) (above : List Json) :
    (engine.resume s replacements data above).Keeps .shallow fun _ => engine.Settles := by
  unfold Engine.resume
  cases hlogic : s.toLogic replacements with
  | error failure =>
      obtain ⟨problem, rfl⟩ := s.toLogic_onlyFails replacements failure hlogic
      exact fun w => .finished (Law.shallow.refl w) (settles_error fun _ => nofun)
  | ok node =>
      have hnode : node.Ready engine.registry engine.levels :=
        ⟨hready.mends.toLogic hlogic, hready.bounded.toLogic hlogic⟩
      exact runLogic_settles hextends hnode data above

end Evaluations

/-! ## Outcomes -/

theorem Engine.settles_of_meets {answer : JobAnswer Evaluation}
    {result : Except Failure Evaluation} (hmeets : answer.Meets fun _ => engine.Settles)
    (hanswer : answer = .finished result) : engine.Settles result := by
  obtain ⟨_, hsettles⟩ := hmeets result hanswer
  exact hsettles

/-- However it is polled, a computation that keeps the law settles. -/
theorem Engine.settles_of_answer {computation : Computation Evaluation} {job : Job Evaluation}
    {world : World} {result : Except Failure Evaluation}
    (hkeeps : computation.Keeps .shallow fun _ => engine.Settles)
    (hreached : Job.Reached computation job)
    (hanswer : (job.poll world).1 = .finished result) : engine.Settles result := by
  obtain ⟨-, -, hmeets⟩ := Job.poll_keeps (hreached.keeps hkeeps) world
  exact settles_of_meets hmeets hanswer

theorem Engine.settles_now {computation : Computation Evaluation}
    (hkeeps : computation.Keeps .shallow fun _ => engine.Settles) (world : World) :
    engine.Settles (computation.now.run.run world).1 := by
  obtain ⟨_, -, hrefused | hsettles⟩ := hkeeps.now world
  · rw [hrefused]
    exact settles_error fun _ => nofun
  · exact hsettles

theorem Engine.classify_shallow (hheight : node.height ≤ engine.options.maxDepth + 1) :
    OnlyFails Law.shallow.Fails (engine.classify node) := by
  refine .map _ (Needs.scan_shallow .none false ?_)
  rwa [Nat.zero_add]

theorem Engine.runSync_settles
    (hextends : engine.registry.Extends (Operator.Shallow engine.registry))
    (hparse : Logic.parseBounded engine.options.maxDepth logic = .ok node) (data : Json)
    (above : List Json) (world : World) :
    engine.Settles ((engine.runSync logic data above).run.run world).1 := by
  have hready : node.Ready engine.registry engine.levels := Logic.ready_of_parseBounded hparse
  have hclassify := classify_shallow (Logic.height_of_parseBounded hparse)
  unfold Engine.runSync
  rw [hparse]
  change engine.Settles
    ((liftM (engine.classify node) >>= fun kind => _ : Action Evaluation).run.run world).1
  cases hkind : engine.classify node with
  | error failure => exact settles_error (hclassify failure hkind)
  | ok kind =>
      cases kind with
      | async => exact settles_error fun _ => nofun
      | sync => exact settles_now (runLogic_settles hextends hready data above) world

theorem Program.callSync_settles
    (hextends : engine.registry.Extends (Operator.Shallow engine.registry)) {above : List Json}
    {before : World} {program : Program}
    (hbuild : (Program.build engine logic above before).1 = .ok program) (data : Json)
    (world : World) : engine.Settles ((program.callSync data).run.run world).1 := by
  unfold Program.callSync
  split
  · exact Engine.settles_error fun _ => nofun
  · exact Engine.settles_now (call_settles hextends hbuild data) world

/-- Each end of a chain settles, by induction on the resumptions before it. -/
theorem Engine.EndsWith.settles
    (hextends : engine.registry.Extends (Operator.Shallow engine.registry))
    (hparse : Logic.parseBounded engine.options.maxDepth logic = .ok node)
    {result : Except Failure Evaluation} (hends : engine.EndsWith logic result) :
    engine.Settles result := by
  have hready : node.Ready engine.registry engine.levels := Logic.ready_of_parseBounded hparse
  induction hends with
  | run data above hreached hanswer =>
      rw [Engine.run_of_parse hparse] at hreached
      exact settles_of_answer (runLogic_settles hextends hready data above) hreached hanswer
  | runSync data above world => exact runSync_settles hextends hparse data above world
  | call hbuild data hreached hanswer =>
      exact settles_of_answer (Program.call_settles hextends hbuild data) hreached hanswer
  | pooled hbuild top max first events hanswer =>
      have hcancelled : ∀ _ : Multiset Nat, engine.Settles (.error .cancelled) := by
        intro _
        refine settles_error ?_
        rintro limit ⟨⟩
      have hcalls := CallTraffic.keeps_run (Program.call_settles hextends hbuild) hcancelled top max
        first events
      exact settles_of_meets (hcalls.poll hcancelled _ _).1 hanswer
  | callSync hbuild data world => exact Program.callSync_settles hextends hbuild data world
  | resume _ replacements data above hreached hanswer ih =>
      have hsuspension := ih.2 _ rfl
      exact settles_of_answer (resume_settles hextends hsuspension replacements data above) hreached
        hanswer

theorem Program.build_shallow
    (hparse : Logic.parseBounded engine.options.maxDepth logic = .ok node) (above : List Json)
    (world : World) : OnlyFails Law.shallow.Fails (Program.build engine logic above world).1 := by
  have hheight : 0 + node.height ≤ engine.options.maxDepth + 1 := by
    rw [Nat.zero_add]
    exact Logic.height_of_parseBounded hparse
  have hcompile := Compiled.ofLogic_shallow hheight ⟨.none, 0, world⟩
  unfold Program.build
  rw [hparse]
  dsimp only
  split
  next failure findings hrun =>
    rw [hrun] at hcompile
    exact .error (hcompile failure rfl)
  next => exact .ok _

/-- Where parsing accepts the logic, nothing that is done with it ends because it is nested too deep:
no run, no build, no call of what was built, and no resumption of a suspension that came up in a
chain of these.  Where parsing refuses it, it is because of its nesting, and the same failure is all
that comes of running or building it: the world stays as it is, so no operator was called. -/
theorem Engine.nesting_decided_by_parsing
    (hextends : engine.registry.Extends (Operator.Shallow engine.registry)) (logic : Json) :
    (∀ node, Logic.parseBounded engine.options.maxDepth logic = .ok node → ∀ limit,
      (∀ result, engine.EndsWith logic result → result ≠ .error (.nestingTooDeep limit)) ∧
        ∀ above world,
          (Program.build engine logic above world).1 ≠ .error (.nestingTooDeep limit)) ∧
    ∀ failure, Logic.parseBounded engine.options.maxDepth logic = .error failure →
      failure = .nestingTooDeep engine.options.maxDepth ∧
        ∀ data above world,
          engine.run logic data above world = .finished world (.error failure) ∧
          (engine.runSync logic data above).run.run world = (.error failure, world) ∧
          Program.build engine logic above world = (.error failure, world) := by
  refine ⟨fun node hparse limit => ⟨fun result hends hdeep => ?_, fun above world hdeep => ?_⟩,
    fun failure hparse => ⟨Logic.parseAt_onlyFails logic 0 failure hparse,
      fun data above world => ⟨?_, ?_, ?_⟩⟩⟩
  · exact (hends.settles hextends hparse).1 _ hdeep limit rfl
  · exact Program.build_shallow hparse above world _ hdeep limit rfl
  · unfold Engine.run
    rw [hparse]
    rfl
  · unfold Engine.runSync
    rw [hparse]
    rfl
  · unfold Program.build
    rw [hparse]

/-! ## Single arguments that become lists -/

theorem askOperator_shallow {registry : Registry} : askOperator.Shallow registry := by
  refine ⟨rfl, fun value scope handle _ w => .finished (Law.shallow.refl w) ⟨?_, nofun⟩⟩
  rintro output ⟨⟩
  exact .yield value

/-- An engine for four levels. -/
def lowEngine : Engine :=
  { askEngine with options := { yieldSupported := true, maxDepth := 3 } }

theorem lowEngine_extends :
    lowEngine.registry.Extends (Operator.Shallow lowEngine.registry) :=
  (Standard.registry_extends _).insert "ask" rfl askOperator_shallow

def doubted : Json :=
  .object [("and", .object [("or", .object [("ask", .null)])])]

theorem nesting_decided_by_parsing_unwrapped :
    lowEngine.registry.Extends (Operator.Shallow lowEngine.registry) ∧
      (∃ node, Logic.parseBounded 3 doubted = .ok node) ∧
      (∃ suspension node,
        lowEngine.EndsWith doubted (.ok (.suspended suspension)) ∧
          suspension.toLogic [(.fresh 0, .bool true)] = .ok node ∧
          Logic.parseBounded 3 node.toJson = .error (.nestingTooDeep 3) ∧
          lowEngine.EndsWith doubted (.ok (.done (.bool true)))) ∧
      (∀ limit, ¬ lowEngine.EndsWith doubted (.error (.nestingTooDeep limit))) ∧
      ∀ data world, lowEngine.run (.object [("!", doubted)]) data [] world =
        .finished world (.error (.nestingTooDeep 3)) := by
  have hparse : ∃ node, Logic.parseBounded 3 doubted = .ok node := ⟨_, rfl⟩
  let job := Job.new (lowEngine.run doubted .null []) false
  have hanswer : ∃ suspension node,
      (job.poll (.start 0)).1 = .finished (.ok (.suspended suspension)) ∧
        suspension.toLogic [(.fresh 0, .bool true)] = .ok node ∧
        Logic.parseBounded 3 node.toJson = .error (.nestingTooDeep 3) ∧
        ((Job.new (lowEngine.resume suspension [(.fresh 0, .bool true)] .null []) false).poll
          (.start 1)).1 = .finished (.ok (.done (.bool true))) :=
    ⟨_, _, rfl, rfl, rfl, rfl⟩
  obtain ⟨suspension, resumed, hsuspended, hlogic, hrefused, hdone⟩ := hanswer
  have hends : lowEngine.EndsWith doubted (.ok (.suspended suspension)) :=
    .run .null [] (.new false) hsuspended
  obtain ⟨node, hnode⟩ := hparse
  refine ⟨lowEngine_extends, ⟨node, hnode⟩, ⟨suspension, resumed, hends, hlogic, hrefused,
    .resume hends _ .null [] (.new false) hdone⟩, fun limit hdeep => ?_, fun data world => ?_⟩
  · exact ((lowEngine.nesting_decided_by_parsing lowEngine_extends doubted).1 node hnode limit).1 _
      hdeep rfl
  · exact (((lowEngine.nesting_decided_by_parsing lowEngine_extends _).2 _ rfl).2 data []
      world).1

end DecisionLogic
