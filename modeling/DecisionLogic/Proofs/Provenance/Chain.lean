import DecisionLogic.Proofs.Program.Height
import DecisionLogic.Proofs.Provenance.Invocations
import DecisionLogic.Proofs.Resumption.Chain

/-!
# Data is never executed

An evaluation is run, or its logic compiled and called, and then resumed as often as it is
suspended, with any values in the places of its points and any data.  However it is polled, the
operators that are called have their names from operations of the logic.
-/

namespace DecisionLogic

open Congruence

variable {engine : Engine} {names : String → Prop} {logic : Json}

/-! ## Compiling -/

namespace Building

variable {α β : Type}

/-- The step calls operators of the given names only. -/
def Names (names : String → Prop) (step : Building α) : Prop :=
  ∀ findings : Findings, (Law.invoking fun call => names call.operator).Step findings.world
    (step.run.run findings).2.world 0

theorem names_stays {step : Building α}
    (hstays : ∀ findings, (step.run.run findings).2.world = findings.world) : step.Names names := by
  intro findings
  rw [hstays]
  exact Law.refl _ _

theorem Names.bind {step : Building α} {next : α → Building β} (hstep : step.Names names)
    (hnext : ∀ x, (next x).Names names) : (step >>= next).Names names := by
  intro findings
  have hfirst := hstep findings
  rw [ExceptT.run_bind, StateT.run_bind]
  rcases hrun : step.run.run findings with ⟨result, between⟩
  rw [hrun] at hfirst
  cases result with
  | ok x => exact Law.trans _ hfirst (hnext x between)
  | error failure => exact hfirst

theorem Names.guard {condition : Prop} [Decidable condition] {failure : Failure}
    {next : Unit → Building β} (hnext : (next ()).Names names) :
    Names names (if condition then throw failure >>= next else next ()) := by
  split
  · exact names_stays fun findings => rfl
  · exact hnext

theorem names_get {next : Findings → Building α}
    (hnext : ∀ findings, (Law.invoking fun call => names call.operator).Step findings.world
      ((next findings).run.run findings).2.world 0) : Names names (get >>= next) :=
  hnext

theorem names_scan (strict : Bool) (depth : Nat) (node : Logic) :
    (scan engine strict depth node).Names names := by
  refine names_get fun findings => ?_
  cases hscan : findings.needs.scan engine strict depth node with
  | ok needs => exact Law.refl _ findings.world
  | error failure => exact Law.refl _ findings.world

theorem names_complete {name : String} {operator : Operator} {input : Json}
    (hcall : ∀ w, (callOperator name operator (.evaluated input) (.ofData .null)
      (engine.handle (engine.evaluate engine.levels)) w).Keeps
        (Law.invoking fun call => names call.operator) (fun _ _ => True) w) :
    (complete engine name operator input).Names names := by
  refine names_get fun findings => ?_
  obtain ⟨_, hstep, -⟩ := (hcall { findings.world with bag := [], cancelled := false }).poll
  dsimp only
  split
  · exact hstep
  · exact hstep

end Building

theorem callOperator_names (hextends : engine.registry.Extends Operator.SelfContained)
    {name : String} {args : Logic} {operator : Operator}
    (hintact : (Logic.operation name args).Intact engine.registry names)
    (hlookup : engine.registry.lookup name = some operator) (htraverse : operator.traverse = true)
    (input : Json) (w : World) :
    (callOperator name operator (.evaluated input) (.ofData .null)
      (engine.handle (engine.evaluate engine.levels)) w).Keeps
        (Law.invoking fun call => names call.operator) (fun _ _ => True) w := by
  have hcompatible : (naming names).Compatible engine engine _ _ := compatible_naming hextends
  have hoperation := hcompatible.operation engine.levels name args (.ofData .null) (.ofData .null)
    hintact
  rw [hlookup] at hoperation
  cases hoperation with
  | traversing _ _ _ _ hcall =>
      have hkeeps := hcall input _ _ (hcompatible.evaluate_rel engine.levels)
      exact (hkeeps w).mono fun _ _ _ => trivial
  | raw hraw _ _ => cases hraw.symm.trans htraverse

namespace Compiled

open Building

mutual

theorem ofLogic_names (hextends : engine.registry.Extends Operator.SelfContained) :
    ∀ {node : Logic} (depth : Nat), node.Intact engine.registry names →
      (ofLogic engine depth node).Names names
  | .literal value, depth, _ => by
      unfold ofLogic
      exact .guard (names_stays fun _ => rfl)
  | .sequence items, depth, .sequence hitems => by
      unfold ofLogic
      refine .guard (.bind (ofItems_names hextends (depth + 1) hitems) fun compiled => ?_)
      split
      · exact names_stays fun _ => rfl
      · exact names_stays fun _ => rfl
  | .operation name args, depth, .operation hname hargs hraw => by
      unfold ofLogic
      refine .guard ?_
      split
      next => exact names_stays fun _ => rfl
      next operator hlookup =>
        refine .bind (names_stays fun _ => rfl) fun _ => ?_
        split
        next htraverse =>
          refine .bind (ofLogic_names hextends (depth + 1) hargs) fun compiled => ?_
          split
          next input =>
            split
            · have hcall := callOperator_names hextends (.operation hname hargs hraw) hlookup
                htraverse input
              refine .bind (names_complete hcall) fun value? => ?_
              split
              · exact names_stays fun _ => rfl
              · exact names_stays fun _ => rfl
            · exact names_stays fun _ => rfl
          next => exact names_stays fun _ => rfl
        next =>
          refine .bind (names_scan _ _ _) fun _ => ?_
          exact names_stays fun _ => rfl

theorem ofItems_names (hextends : engine.registry.Extends Operator.SelfContained) :
    ∀ {items : List Logic} (depth : Nat),
      (∀ item ∈ items, item.Intact engine.registry names) →
        (ofItems engine depth items).Names names
  | [], depth, _ => names_stays fun _ => rfl
  | item :: items, depth, hintact => by
      unfold ofItems
      refine .bind (ofLogic_names hextends depth (hintact item List.mem_cons_self)) fun _ => ?_
      refine .bind (ofItems_names hextends depth fun other hother => ?_) fun _ => ?_
      · exact hintact other (List.mem_cons_of_mem item hother)
      · exact names_stays fun _ => rfl

end

end Compiled

/-! ## Chains -/

/-- The operator is named by an operation of the logic. -/
def Logic.Calls (logic : Json) (name : String) : Prop :=
  ∃ args, (Logic.operation name args).Within (.parse logic)

/-- A run of the logic or a call of a program built from it, and then any number of resumptions,
each of a suspension that some poll of the evaluation before it ended with. -/
inductive Engine.Follows (engine : Engine) (logic : Json) : Computation Evaluation → Prop
  | run (data : Json) (above : List Json) : Follows engine logic (engine.run logic data above)
  | call {above : List Json} {world : World} {program : Program}
      (hbuild : (Program.build engine logic above world).1 = .ok program) (data : Json) :
      Follows engine logic (program.call data)
  | resume {computation : Computation Evaluation} {job : Job Evaluation} {world : World}
      {suspension : Suspension} (hfollows : Follows engine logic computation)
      (hreached : Job.Reached computation job)
      (hanswer : (job.poll world).1 = .finished (.ok (.suspended suspension)))
      (replacements : Replacements) (data : Json) (above : List Json) :
      Follows engine logic (engine.resume suspension replacements data above)

theorem Logic.intact_of_parseBounded {registry : Registry} {limit : Nat} {node : Logic}
    (hparse : Logic.parseBounded limit logic = .ok node) :
    node.Intact registry (Logic.Calls logic) := by
  obtain rfl := Logic.parse_of_parseAt hparse
  exact (Logic.plain_of_parseBounded hparse).intact fun _ args hwithin => ⟨args, hwithin⟩

/-- Outcomes that are suspended mend. -/
def Evaluation.Mending (registry : Registry) (names : String → Prop) :
    Reading Evaluation Evaluation :=
  Evaluation.Linked fun _ s _ => s.root.Mends registry names

theorem mending_of_linked {node : Logic} {c d : Computation Evaluation}
    (hrel : (naming names).Rel
      (Evaluation.Linked (Linkage.mending engine.registry names node)) c d) :
    (naming names).Rel (Evaluation.Mending engine.registry names) c d :=
  (naming names).mono hrel fun _ _ _ hlinked => hlinked.mono fun _ _ _ h => h.2

theorem Engine.runLogic_naming (hextends : engine.registry.Extends Operator.SelfContained)
    {result : Except Failure Logic}
    (hintact : ∀ node, result = .ok node → node.Intact engine.registry names) (data : Json)
    (above : List Json) :
    (naming names).Rel (Evaluation.Mending engine.registry names)
      (Computation.ofExcept result >>= fun node => engine.runLogic node data above)
      (Computation.ofExcept result >>= fun node => engine.runLogic node data above) := by
  cases result with
  | error failure => exact (naming names).fail trivial
  | ok node =>
      apply mending_of_linked
      exact (compatible_naming hextends).evaluate_rel engine.levels node _ _ (hintact node rfl)

/-- A chain calls operators of the logic only, and its suspensions mend. -/
theorem Engine.Follows.naming (hextends : engine.registry.Extends Operator.SelfContained)
    {computation : Computation Evaluation} (hfollows : engine.Follows logic computation) :
    (naming (Logic.Calls logic)).Rel (Evaluation.Mending engine.registry (Logic.Calls logic))
      computation computation := by
  induction hfollows with
  | run data above =>
      exact runLogic_naming hextends (fun _ => Logic.intact_of_parseBounded) data above
  | @call above world program hbuild data =>
      obtain ⟨hengine, -, node, hparse, htranslates⟩ := Program.translates_of_build hbuild
      have hintact : node.Intact engine.registry (Logic.Calls logic) :=
        Logic.intact_of_parseBounded hparse
      unfold Program.call
      rw [hengine]
      apply mending_of_linked
      exact (compatible_naming hextends).execute_rel (fun _ _ _ _ _ _ => id) htranslates
        (Nat.lt_succ_self engine.options.maxDepth) hintact
  | @resume computation job world suspension _ hreached hanswer replacements data above ih =>
      refine runLogic_naming hextends (fun node hnode => ?_) data above
      obtain ⟨-, -, hmeets⟩ := Job.poll_keeps (hreached.keeps ih) world
      obtain ⟨drawn, hallows⟩ := hmeets _ hanswer
      cases hallows with
      | ok evaluation hlinked =>
          cases hlinked with
          | suspended hmends => exact hmends.toLogic hnode

/-- Whatever an evaluation is given as data, whatever its operators return, and whatever values a
suspension is resumed with, only operators are called that the logic names.  This includes the calls
completed while the logic is compiled. -/
theorem Engine.calls_named (hextends : engine.registry.Extends Operator.SelfContained)
    (logic : Json) :
    (∀ (computation : Computation Evaluation) (job : Job Evaluation) (world : World),
      engine.Follows logic computation → Job.Reached computation job →
        ∃ calls, (job.poll world).2.2.trace = calls ++ world.trace ∧
          ∀ call ∈ calls, Logic.Calls logic call.operator) ∧
    ∀ (above : List Json) (world : World),
      ∃ calls, (Program.build engine logic above world).2.trace = calls ++ world.trace ∧
        ∀ call ∈ calls, Logic.Calls logic call.operator := by
  constructor
  · intro computation job world hfollows hreached
    obtain ⟨hstep, -, -⟩ := Job.poll_keeps (hreached.keeps (hfollows.naming hextends)) world
    rcases hstep with hworld | ⟨drawn, hstep⟩
    · exact ⟨[], by rw [hworld, List.nil_append], by simp⟩
    · exact hstep
  · intro above world
    unfold Program.build
    split
    next => exact ⟨[], rfl, by simp⟩
    next node hparse =>
      have hnames := Compiled.ofLogic_names hextends 0 (Logic.intact_of_parseBounded hparse)
        ⟨.none, 0, world⟩
      split
      next failure findings hrun =>
        rw [hrun] at hnames
        exact hnames
      next root findings hrun =>
        rw [hrun] at hnames
        exact hnames

/-! ## A value that looks like an operation -/

theorem askOperator_selfContained : askOperator.SelfContained := by
  refine ⟨rfl, fun value scope handle w => .finished (Law.refl _ w) ?_⟩
  intro output houtput
  cases houtput
  exact .yield value

theorem askEngine_extends_selfContained :
    askEngine.registry.Extends Operator.SelfContained :=
  (Standard.registry_extends _).insert "ask" rfl askOperator_selfContained

/-- An answer that reads like an operation comes out as it is; only `merge` is called for it. -/
theorem calls_named_quoted :
    let logic : Json := .object [("merge", .array [.object [("ask", .null)]])]
    let quoted : Json := .array [.object [("!", .null)]]
    let job := Job.new (askEngine.run logic .null []) false
    askEngine.registry.Extends Operator.SelfContained ∧
      ∃ suspension, (job.poll (.start 0)).1 = .finished (.ok (.suspended suspension)) ∧
        let resumed := Job.new (askEngine.resume suspension [(.fresh 0, quoted)] quoted []) false
        askEngine.Follows logic
            (askEngine.resume suspension [(.fresh 0, quoted)] quoted []) ∧
          (resumed.poll (.start 1)).1 = .finished (.ok (.done quoted)) ∧
          ∃ calls, (resumed.poll (.start 1)).2.2.trace = calls ++ [] ∧
            ∀ call ∈ calls, Logic.Calls logic call.operator := by
  intro logic quoted job
  have hanswer : ∃ suspension,
      (job.poll (.start 0)).1 = .finished (.ok (.suspended suspension)) ∧
        ((Job.new (askEngine.resume suspension [(.fresh 0, quoted)] quoted []) false).poll
          (.start 1)).1 = .finished (.ok (.done quoted)) := ⟨_, rfl, rfl⟩
  obtain ⟨suspension, hsuspended, hdone⟩ := hanswer
  have hfollows : askEngine.Follows logic
      (askEngine.resume suspension [(.fresh 0, quoted)] quoted []) :=
    .resume (.run .null []) (.new false) hsuspended _ _ _
  obtain ⟨hchain, -⟩ := Engine.calls_named askEngine_extends_selfContained logic
  exact ⟨askEngine_extends_selfContained, suspension, hsuspended, hfollows, hdone,
    hchain _ _ (.start 1) hfollows (.new false)⟩

end DecisionLogic
