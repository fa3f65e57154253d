import DecisionLogic.Proofs.Attribution.Calls
import DecisionLogic.Proofs.Attribution.Compilation
import DecisionLogic.Proofs.Classification.Soundness
import DecisionLogic.Proofs.Suspension.Outcomes

/-!
# How failures surface

However logic is evaluated, the failure that it ends with is the one that was raised, with the name
of the operator that raised it where it had none.
-/

namespace DecisionLogic

open Failure (Surfaces)

variable {raises : Marks} {engine engine' : Engine}

/-- Parsing fails in both runs or in none. -/
theorem Logic.parseBounded_tracked (limit : Nat) (logic : Json) :
    Tracked Failure.Shared Eq (parseBounded limit logic) (parseBounded limit logic) := by
  have honly : OnlyFails (· = .nestingTooDeep limit) (parseAt limit 0 logic) :=
    parseAt_onlyFails logic 0
  unfold parseBounded
  cases hparse : parseAt limit 0 logic with
  | ok node => exact .ok rfl
  | error failure =>
      rw [honly failure hparse]
      exact .error ⟨rfl, trivial⟩

theorem Tracked.surfaces {α β : Type} {R : α → β → Prop} {result : Except Failure α}
    {result' : Except Failure β} (hresult : Tracked Failure.Shared R result result') :
    Tracked (Surfaces raises) R result result' :=
  hresult.mono (fun _ _ hshared => hshared.surfaces) fun _ _ => id

namespace Engine.Marked

theorem run_tracks (hmarked : engine.Marked raises engine') (hkept : raises.Kept)
    (logic data : Json) (above : List Json) :
    (engine.run logic data above).Tracks (Surfaces raises) Eq (engine'.run logic data above) := by
  have hparse := Logic.parseBounded_tracked engine.options.maxDepth logic
  unfold Engine.run
  rw [← hmarked.options]
  refine (Computation.Tracks.ofExcept hparse.surfaces).bind ?_
  rintro node _ rfl
  exact hmarked.runLogic_tracks hkept node data above

theorem classify_tracked (hmarked : engine.Marked raises engine') (node : Logic) :
    Tracked Failure.Shared Eq (engine.classify node) (engine'.classify node) := by
  have hneeds := Needs.scan_tracks hmarked node .none false 0
  unfold Engine.classify
  generalize Needs.scan engine .none false 0 node = result at hneeds ⊢
  generalize Needs.scan engine' .none false 0 node = result' at hneeds ⊢
  cases hneeds with
  | ok hsame => exact .ok (congrArg ProgramKind.ofNeeds hsame)
  | error hshared => exact .error hshared

theorem runSync_tracks (hmarked : engine.Marked raises engine') (hkept : raises.Kept)
    (logic data : Json) (above : List Json) :
    StepTracks (Surfaces raises) Eq (engine.runSync logic data above)
      (engine'.runSync logic data above) := by
  have hparse := Logic.parseBounded_tracked engine.options.maxDepth logic
  unfold Engine.runSync
  rw [← hmarked.options]
  refine (StepTracks.lift hparse.surfaces).bind ?_
  rintro node _ rfl
  refine (StepTracks.lift (hmarked.classify_tracked node).surfaces).bind ?_
  rintro kind _ rfl
  cases kind with
  | async => exact .throw (.other trivial)
  | sync => exact (hmarked.runLogic_tracks hkept node data above).now (.other trivial)

end Engine.Marked

namespace Program

/-- Both engines build a program, which differ in the failures of their operators, or none. -/
theorem build_tracks (hmarked : engine.Marked raises engine') (hkept : raises.Kept) (logic : Json)
    (above : List Json) (world : World) :
    Tracked Failure.Shared (Program.Tracks (Surfaces raises)) (build engine logic above world).1
        (build engine' logic above world).1 ∧
      (build engine logic above world).2 = (build engine' logic above world).2 := by
  have hparse := Logic.parseBounded_tracked engine.options.maxDepth logic
  unfold build
  rw [← hmarked.options]
  generalize Logic.parseBounded engine.options.maxDepth logic = parsed at hparse ⊢
  cases hparse with
  | error hshared => exact ⟨.error hshared, rfl⟩
  | @ok node _ _ =>
      obtain ⟨hroot, hfindings⟩ := Compiled.ofLogic_tracks hmarked hkept node 0 ⟨.none, 0, world⟩
      dsimp only
      generalize (Compiled.ofLogic engine 0 node).run.run ⟨.none, 0, world⟩ = compiled
        at hroot hfindings ⊢
      generalize (Compiled.ofLogic engine' 0 node).run.run ⟨.none, 0, world⟩ = compiled'
        at hroot hfindings ⊢
      obtain ⟨root, findings⟩ := compiled
      obtain ⟨root', findings'⟩ := compiled'
      obtain rfl : findings = findings' := hfindings
      dsimp only at hroot
      cases hroot with
      | error hshared => exact ⟨.error hshared, rfl⟩
      | ok hroot =>
          refine ⟨.ok ⟨rfl, rfl, hmarked.options, fun data => ?_⟩, rfl⟩
          exact Compiled.execute_tracks hmarked hkept (.withAbove data above) hroot

theorem Tracks.callSync {F : Failure → Failure → Prop} {program program' : Program}
    (htracks : program.Tracks F program') (hwaits : F .notSynchronous .notSynchronous)
    (data : Json) : StepTracks F Eq (program.callSync data) (program'.callSync data) := by
  unfold Program.callSync
  rw [← htracks.kind]
  split
  · exact .throw hwaits
  · exact (htracks.call data).now hwaits

end Program

/-- Mark the failures that operators raise.  Then runs, runs without waiting and calls of programs,
in whatever traffic, do the same until they end with the same outcome or fail, the marked one with
the mark of what surfaces in the other one: of an anonymous failure with the name of the operator
that raised it, or of any other failure as it was raised. -/
theorem Engine.failures_surface (hmarked : engine.Marked raises engine') (hkept : raises.Kept)
    (logic : Json) (above : List Json) (world : World) :
    (∀ data, (engine.run logic data above).Tracks (Surfaces raises) Eq
      (engine'.run logic data above)) ∧
    (∀ data, StepTracks (Surfaces raises) Eq (engine.runSync logic data above)
      (engine'.runSync logic data above)) ∧
    ∀ program, (Program.build engine logic above world).1 = .ok program →
      ∃ program', (Program.build engine' logic above world).1 = .ok program' ∧
        (∀ data, (program.call data).Tracks (Surfaces raises) Eq (program'.call data)) ∧
        (∀ data, StepTracks (Surfaces raises) Eq (program.callSync data)
          (program'.callSync data)) ∧
        ∀ top max start events number,
          let traffic := (CallTraffic.new program top max start).run events
          let traffic' := (CallTraffic.new program' top max start).run events
          (traffic.calls.poll number traffic.world).1.Tracks (Surfaces raises)
            (traffic'.calls.poll number traffic'.world).1 := by
  refine ⟨(hmarked.run_tracks hkept logic · above), (hmarked.runSync_tracks hkept logic · above),
    fun program hbuild => ?_⟩
  obtain ⟨hprograms, -⟩ := Program.build_tracks hmarked hkept logic above world
  generalize (Program.build engine' logic above world).1 = built at hprograms ⊢
  rw [hbuild] at hprograms
  cases hprograms with
  | @ok _ program' htracks =>
      refine ⟨program', rfl, htracks.call, htracks.callSync (.other trivial), ?_⟩
      intro top max start events number traffic traffic'
      exact (CallTraffic.poll_run_tracks htracks (.other trivial) top max start events number).answer

/-! ## A pending value that fails -/

/-- The second of the values that the operator leaves pending fails. -/
def pendingOperator (failure : Failure) : Operator :=
  { body := .immediate fun _ _ _ => return .pending [pure .null, .fail failure], traverse := true,
    deterministic := false, yields := false, useContext := false, rawData := false, sync := true,
    origin := .custom }

def pendingEngine (failure : Failure) : Engine :=
  ⟨(Standard.registry.insert "first" firstOperator).insert "later" (pendingOperator failure), {}⟩

def laterMark : Failure :=
  .operatorExecution "mark" "boom"

def laterRaises : Marks := fun name failure mark =>
  name = "later" ∧ failure = .anonymous "boom" ∧ mark = laterMark

def laterLogic : Json :=
  .object [("if", .array [.bool true, .object [("first", .array [.object [("later", .null)]])]])]

theorem laterRaises_kept : laterRaises.Kept := by
  refine ⟨?_, ?_⟩
  · rintro _ _ _ ⟨-, -, rfl⟩ name
    rfl
  · rintro cause mark ⟨hname, -⟩
    exact absurd hname (by decide)

theorem firstOperator_marked (raises : Failure → Failure → Prop) :
    firstOperator.Marked raises firstOperator := by
  refine ⟨rfl, fun F hother _ input scope handle handle' hhandle => ?_⟩
  refine Computation.Tracks.cancellable ?_ (hother .cancelled trivial)
  unfold evaluateFirst
  split
  · exact .pure (.value .null)
  next node rest _ =>
    refine (hhandle.evaluate node scope).bind ?_
    rintro evaluation _ rfl
    exact .pure (.evaluation evaluation)

theorem pendingOperator_marked {raises : Failure → Failure → Prop} {failure mark : Failure}
    (hraises : raises failure mark) :
    (pendingOperator failure).Marked raises (pendingOperator mark) := by
  refine ⟨rfl, fun F _ hcontains input scope handle handle' _ => ?_⟩
  have hvalues : List.Forall₂ (Computation.Tracks F Eq) [pure Json.null, .fail failure]
      [pure Json.null, .fail mark] :=
    .cons (.pure rfl) (.cons (.fail (hcontains failure mark hraises)) .nil)
  exact .pure (.pending hvalues)

theorem pendingEngine_marked :
    (pendingEngine (.anonymous "boom")).Marked laterRaises (pendingEngine laterMark) := by
  refine ⟨rfl, rfl, fun name => ?_⟩
  unfold pendingEngine
  by_cases hlater : "later" = name
  · subst hlater
    rw [Registry.lookup_insert_self, Registry.lookup_insert_self]
    exact .some (pendingOperator_marked ⟨rfl, rfl, rfl⟩)
  · rw [Registry.lookup_insert_of_ne _ hlater, Registry.lookup_insert_of_ne _ hlater]
    by_cases hfirst : "first" = name
    · subst hfirst
      rw [Registry.lookup_insert_self]
      exact .some (firstOperator_marked _)
    · rw [Registry.lookup_insert_of_ne _ hfirst]
      cases hlookup : Standard.registry.lookup name with
      | none => exact .none
      | some operator => exact .some ((Standard.body_of_lookup hlookup).marked _)

/-- The failure gets the name of its operator, not that of an operator around it. -/
theorem failures_surface_later :
    (pendingEngine (.anonymous "boom")).Marked laterRaises (pendingEngine laterMark) ∧
      laterRaises.Kept ∧
      ∃ world, (pendingEngine (.anonymous "boom")).run laterLogic .null [] (.start 0) =
        .finished world (.error (.operatorExecution "later" "boom")) := by
  have hmarked := pendingEngine_marked
  refine ⟨hmarked, laterRaises_kept, ?_⟩
  obtain ⟨hrun, -⟩ := Engine.failures_surface hmarked laterRaises_kept laterLogic [] (.start 0)
  have htracks := hrun .null (.start 0)
  obtain ⟨world, hmark⟩ : ∃ world, (pendingEngine laterMark).run laterLogic .null [] (.start 0) =
      .finished world (.error laterMark) := ⟨_, rfl⟩
  rw [hmark] at htracks
  generalize (pendingEngine (.anonymous "boom")).run _ _ _ _ = moment at htracks ⊢
  cases htracks with
  | finished _ hresult =>
      cases hresult with
      | error hsurfaces =>
          cases hsurfaces with
          | anonymous hraises =>
              obtain ⟨rfl, hcause, -⟩ := hraises
              cases hcause
              exact ⟨world, rfl⟩
          | named hraises hnamed => exact absurd hraises.2.1 (hnamed "boom")
          | other hother => exact hother.elim

/-! ## An operator without a name -/

def raisingOperator : Operator :=
  { body := .immediate fun _ _ _ => throw (.anonymous "boom"), traverse := true,
    deterministic := false, yields := false, useContext := false, rawData := false, sync := true,
    origin := .custom }

def unnamedLogic : Json :=
  .object [("if", .array [.bool true, .object [("", .array [.string "plain", .string "boom"])]])]

def unnamedEngine : Engine :=
  ⟨Standard.registry.insert "" raisingOperator, {}⟩

/-- The failure of an operator registered under the empty name stays anonymous, so the operator
around it puts its own name on it. -/
theorem unnamed_failure_renamed :
    unnamedEngine.registry.lookup "" = some raisingOperator ∧
      ∃ world, unnamedEngine.run unnamedLogic .null [] (.start 0) =
        .finished world (.error (.operatorExecution "if" "boom")) :=
  ⟨Registry.lookup_insert_self _ _ _, _, rfl⟩

end DecisionLogic
