import DecisionLogic.Proofs.Classification.Kinds
import DecisionLogic.Proofs.Congruence.Obedience
import DecisionLogic.Proofs.Provenance.Invocations
import DecisionLogic.Proofs.Resumption.Chain

/-!
# Sync programs call no async operators

Evaluation only reaches operations of the logic, as long as operators have nothing evaluated but
literals and nodes of their own raw arguments.  So if no operation names an async operator, none is
called.
-/

namespace DecisionLogic

/-- The operator has nothing evaluated but literals and nodes of its raw arguments: all calls that
happen meanwhile come from those evaluations. -/
def Operator.EvaluatesOwn (operator : Operator) : Prop :=
  ∀ permitted, operator.Obeys (.invoking permitted) Input.Owns True

/-- Between the worlds only operators were called that are registered and not async. -/
def Registry.CallsSync (registry : Registry) (w w' : World) : Prop :=
  ∃ calls, w'.trace = calls ++ w.trace ∧ ∀ call ∈ calls,
    ∃ operator, registry.lookup call.operator = some operator ∧ operator.isAsync = false

/-- The law of calling only operators that are registered and not async. -/
def Law.callingSync (registry : Registry) : Law :=
  .invoking fun call =>
    ∃ operator, registry.lookup call.operator = some operator ∧ operator.isAsync = false

theorem Law.callingSync_supplies (registry : Registry) : (Law.callingSync registry).Supplies :=
  Law.invoking_supplies _

theorem Input.owns_bodyOf (input : Input) : input.Owns (Standard.bodyOf input) := by
  rcases Standard.bodyOf_eq_or_mem input with hnull | hmem
  · exact .inl ⟨.null, hnull⟩
  · exact owns_of_mem_argumentNodes hmem

theorem Standard.evaluatesOwn {name : String} {operator : Operator}
    (hlookup : Standard.registry.lookup name = some operator) : operator.EvaluatesOwn := by
  intro permitted
  refine (Standard.body_of_lookup hlookup).obeys (Law.invoking_supplies permitted)
    (fun _ _ => trivial) fun input _ node hnode => ?_
  rcases hnode with hargument | rfl
  · exact Input.owns_of_mem_argumentNodes hargument
  · exact input.owns_bodyOf

variable {engine : Engine}

theorem Engine.governs_callingSync
    (hevaluates : ∀ name operator, engine.registry.lookup name = some operator →
      operator.EvaluatesOwn) :
    (Law.callingSync engine.registry).Governs (Law.callingSync_supplies _) (fun _ _ => True) engine
      fun node => ¬ node.NamesAsync engine.registry := by
  refine ⟨.holds _ _, trivial, fun _ _ _ => trivial, fun _ _ => trivial, ?_,
    fun _ _ _ _ => trivial, ?_, ?_, ?_⟩
  · intro items hsync item hitem hasync
    exact hsync ((Logic.namesAsync_sequence items).mpr ⟨item, hitem, hasync⟩)
  · intro name args operator hsync _ _ hasync
    exact hsync ((Logic.namesAsync_operation name args).mpr (.inr hasync))
  · intro name args operator hsync hlookup w input
    refine ⟨[⟨name, operator.origin, input⟩], rfl, fun call hcall => ?_⟩
    obtain rfl := List.mem_singleton.mp hcall
    refine ⟨operator, hlookup, Bool.eq_false_iff.mpr fun hasync => hsync ?_⟩
    exact (Logic.namesAsync_operation name args).mpr (.inl ⟨operator, hlookup, hasync⟩)
  · intro name args operator hsync hlookup input hreceives
    refine (hevaluates name operator hlookup _).serves (fun node howns hasync => ?_)
      fun _ _ _ => trivial
    obtain ⟨inner, innerArgs, innerOperator, hwithin, hinner⟩ := hasync
    rcases howns with ⟨value, rfl⟩ | ⟨raw, rfl, hnode⟩
    · cases hwithin
    · cases hreceives with
      | raw _ =>
          exact hsync ⟨inner, innerArgs, innerOperator, .args (hwithin.trans hnode), hinner⟩

/-- The kind of a program says whether any operation of its logic, at any depth, names an async
operator, and running the logic without waiting is refused for those that are async and only for
them.  Where operators have nothing evaluated but literals and nodes of their own raw arguments, a
sync program never calls an async operator, and neither does running its logic without waiting. -/
theorem Program.kind_sound {logic : Json} {above : List Json} {world : World} {program : Program}
    (hbuild : (Program.build engine logic above world).1 = .ok program) :
    (program.kind = .async ↔ ∃ name args operator,
      (Logic.operation name args).Within (.parse logic) ∧
        engine.registry.lookup name = some operator ∧ operator.isAsync = true) ∧
    (∀ (data : Json) (above' : List Json), engine.runSync logic data above' =
      match program.kind with
      | .async => throw .notSynchronous
      | .sync => (engine.run logic data above').now) ∧
    (program.kind = .sync →
      (∀ name operator, engine.registry.lookup name = some operator → operator.EvaluatesOwn) →
        ∀ (data : Json) (w : World),
          (∀ above', engine.registry.CallsSync w
            ((engine.runSync logic data above').run.run w).2) ∧
          engine.registry.CallsSync w ((program.callSync data).run.run w).2 ∧
          ∀ job, Job.Reached (program.call data) job →
            engine.registry.CallsSync w (job.poll w).2.2) := by
  refine ⟨kind_eq_async_iff hbuild, runSync_of_build hbuild, fun hkind hevaluates data w => ?_⟩
  have hgoverns := Engine.governs_callingSync hevaluates
  have hsync : ¬ (Logic.parse logic).NamesAsync engine.registry := by
    rw [← kind_eq_async_iff hbuild, hkind]
    decide
  have hknown (node : Logic)
      (hparse : Logic.parseBounded engine.options.maxDepth logic = .ok node) :
      ¬ node.NamesAsync engine.registry := Logic.parse_of_parseAt hparse ▸ hsync
  have hcall := hgoverns.call_keeps hbuild hknown data
  refine ⟨fun above' => ?_, ?_, fun job hreached => ?_⟩
  · have hrun := hgoverns.runLogic_keeps (fun _ _ => trivial) hknown data above'
    rw [runSync_of_build hbuild, hkind]
    exact (hrun.now w).choose_spec.1
  · unfold callSync
    rw [hkind]
    exact (hcall.now w).choose_spec.1
  · obtain ⟨hstep, -, -⟩ := Job.poll_keeps (hreached.keeps hcall) w
    rcases hstep with hworld | ⟨drawn, hstep⟩
    · exact ⟨[], by rw [hworld, List.nil_append], by simp⟩
    · exact hstep

/-! ## An operator that evaluates what it is given as data -/

/-- Evaluate the first argument and pass its outcome on. -/
def evaluateFirst : AwaitingBody := fun input scope handle =>
  match input.argumentNodes with
  | [] => pure (.value .null)
  | node :: _ => do return .evaluation (← handle.evaluate node scope)

def firstOperator : Operator :=
  { body := .awaiting evaluateFirst, traverse := false, deterministic := false, yields := false,
    useContext := false, rawData := true, sync := true, origin := .custom }

def firstEngine : Engine :=
  { askEngine with registry := askEngine.registry.insert "first" firstOperator }

theorem firstOperator_obeys {law : Law} {nodes : Input → Logic → Prop}
    (hnodes : ∀ input node, node ∈ input.argumentNodes → nodes input node) :
    firstOperator.Obeys law nodes True := by
  intro input scope handle hevaluate
  have hbody : (evaluateFirst input scope handle).Keeps law
      (law.Allows fun _ output (_ : Unit) => Output.Lawful law True output) := by
    unfold evaluateFirst
    split
    · exact fun w => .finished (law.refl w) (.ok () (.value .null))
    · next node rest harguments =>
        have hnode := hevaluate node (hnodes input node (by simp [harguments])) scope
        have hallows : (handle.evaluate node scope).Keeps law
            (law.Allows fun _ _ (_ : Unit) => True) := by
          refine fun w => (hnode w).mono fun _ result hends => ?_
          cases result with
          | ok evaluation => exact .ok () trivial
          | error failure => exact .error (hends.2 failure rfl)
        refine hallows.bind fun _ evaluation _ _ w => .finished (law.refl w) (.ok () ?_)
        cases evaluation with
        | done value => exact .done value
        | suspended suspension => exact .suspended trivial suspension
  exact fun w => (hbody.cancellable w).mono fun _ _ hallows => hallows.ends fun _ _ h => h

theorem firstEngine_evaluatesOwn : ∀ name operator,
    firstEngine.registry.lookup name = some operator → operator.EvaluatesOwn := by
  have hextends : firstEngine.registry.Extends Operator.EvaluatesOwn := by
    refine ((Standard.registry_extends _).insert "ask" rfl ?_).insert "first" rfl ?_
    · exact fun _ => Operator.obeys_of_pure rfl fun _ => .yield _
    · exact fun _ => firstOperator_obeys fun _ _ => Input.owns_of_mem_argumentNodes
  exact hextends.fits_of_lookup fun _ _ => Standard.evaluatesOwn

def firstLogic : Json :=
  .object [("first", .array [.object [("!", .bool true)], .object [("preserve", .null)]])]

/-- Nothing async is called where only `!` is; an async operator anywhere, even in data, makes a
program async. -/
theorem kind_sound_first :
    (∀ name operator, firstEngine.registry.lookup name = some operator → operator.EvaluatesOwn) ∧
      (∃ program, (Program.build firstEngine firstLogic [] (.start 0)).1 = .ok program ∧
        firstEngine.registry.CallsSync (.start 0)
          ((program.callSync .null).run.run (.start 0)).2) ∧
      ∃ program, (Program.build firstEngine (.object [("preserve", .object [("ask", .null)])]) []
        (.start 0)).1 = .ok program ∧ program.kind = .async := by
  obtain ⟨program, hbuild, hkind⟩ : ∃ program,
      (Program.build firstEngine firstLogic [] (.start 0)).1 = .ok program ∧
        program.kind = .sync := ⟨_, rfl, rfl⟩
  obtain ⟨-, -, hsound⟩ := Program.kind_sound hbuild
  obtain ⟨-, hcall, -⟩ := hsound hkind firstEngine_evaluatesOwn .null (.start 0)
  exact ⟨firstEngine_evaluatesOwn, ⟨program, hbuild, hcall⟩, _, rfl, rfl⟩

end DecisionLogic
