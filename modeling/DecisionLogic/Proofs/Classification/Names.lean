import DecisionLogic.Proofs.Classification.Resolved
import DecisionLogic.Proofs.Congruence.Obedience
import DecisionLogic.Proofs.Program.Folding

/-!
# Built programs meet no unknown names

The evaluation of a resolved tree only reaches operations with known names, as long as operators
evaluate nothing that they or operations in their arguments take as data.  So whether a call can
fail because a name is unknown comes down to whether the build has resolved the logic.
-/

namespace DecisionLogic

/-! ## Operators -/

/-- Literals, and the live nodes of raw arguments that are not taken as data. -/
def Operator.Evaluable (registry : Registry) (operator : Operator) (input : Input)
    (node : Logic) : Prop :=
  (∃ value, node = .literal value) ∨
    ∃ args, input = .raw args ∧ ¬ operator.TakesData ∧ node.Live registry args

/-- The law of not failing because a name is unknown. -/
def Law.knowing : Law where
  Step _ _ _ := True
  Fails failure := ∀ name, failure ≠ .unknownOperator name
  refl _ := trivial
  trans _ _ := trivial
  cancelled _ := nofun

theorem Law.knowing_supplies : Law.knowing.Supplies :=
  fun _ => ⟨0, trivial⟩

/-- The operator has nothing evaluated but what is evaluable, and does not fail because a name is
unknown unless one of these evaluations does. -/
def Operator.LeavesData (registry : Registry) (operator : Operator) : Prop :=
  operator.Obeys .knowing (operator.Evaluable registry) True

variable {registry : Registry} {operator : Operator} {input : Input} {node : Logic}

theorem Input.evaluable_of_mem_argumentNodes (hdata : ¬ operator.TakesData)
    (hnode : node ∈ input.argumentNodes) : operator.Evaluable registry input node := by
  cases input with
  | raw args => exact .inr ⟨args, rfl, hdata, Logic.live_of_mem_arguments hnode⟩
  | evaluated value =>
      rcases owns_of_mem_argumentNodes hnode with hliteral | ⟨args, hraw, -⟩
      · exact .inl hliteral
      · cases hraw

theorem Input.evaluable_bodyOf (hdata : ¬ operator.TakesData) (input : Input) :
    operator.Evaluable registry input (Standard.bodyOf input) := by
  rcases Standard.bodyOf_eq_or_mem input with hnull | hmem
  · exact .inl ⟨.null, hnull⟩
  · exact evaluable_of_mem_argumentNodes hdata hmem

theorem Standard.leavesData {name : String}
    (hlookup : Standard.registry.lookup name = some operator) : operator.LeavesData registry := by
  refine (Standard.body_of_lookup hlookup).obeys Law.knowing_supplies ?_ fun input hawaiting node
    hnode => ?_
  · rintro failure hrefuses name rfl
    cases hrefuses
  · have hdata : ¬ operator.TakesData := by
      rintro ⟨-, hraw⟩
      cases standardOperator_of_lookup hlookup with
      | arguments | scope | lazy => cases hraw
      | preserve => cases hawaiting
    rcases hnode with hargument | rfl
    · exact Input.evaluable_of_mem_argumentNodes hdata hargument
    · exact Input.evaluable_bodyOf hdata input

/-! ## Programs -/

variable {engine : Engine}

theorem Engine.governs_knowing
    (hoperators : ∀ name operator, engine.registry.lookup name = some operator →
      operator.LeavesData engine.registry) :
    Law.knowing.Governs Law.knowing_supplies (fun _ _ => True) engine
      fun node => node.Resolved engine.registry := by
  refine ⟨.holds _ _, fun _ => nofun, ?_, fun _ _ _ => nofun, ?_, ?_, ?_,
    fun _ _ _ _ _ _ _ => trivial, ?_⟩
  · intro name failure hfails unknown hunknown
    exact hfails unknown (Failure.eq_of_within hunknown fun _ _ => nofun)
  · exact fun items hresolved item hitem => hresolved.live (.item hitem .self)
  · intro name args hresolved hlookup
    have hcontains : engine.registry.contains name = true := hresolved name args .self
    rw [Registry.contains, hlookup] at hcontains
    cases hcontains
  · intro name args operator hresolved hlookup htraverse
    refine hresolved.live (Logic.live_args hlookup ?_)
    rintro ⟨hraw, -⟩
    rw [htraverse] at hraw
    cases hraw
  · intro name args operator hresolved hlookup input hreceives
    refine (hoperators name operator hlookup).serves (fun node hevaluable => ?_)
      fun _ _ _ => trivial
    rcases hevaluable with ⟨value, rfl⟩ | ⟨raw, rfl, hdata, hlive⟩
    · exact Logic.throughout_literal value
    · cases hreceives with
      | raw _ => exact hresolved.live (hlive.trans (Logic.live_args hlookup hdata))

/-- Where no raw arguments that are evaluated hold an operation that has its own arguments evaluated
first although its operator is annotated to hold data, a build that succeeds leaves no unknown name
in reach: no call of the program fails because a name is unknown, whatever its data and the data
around it.  Operators may be any, with any annotations, that leave data alone. -/
theorem Program.call_ne_unknownOperator {logic : Json} {above : List Json} {world : World}
    {program : Program} (hbuild : (Program.build engine logic above world).1 = .ok program)
    (hraw : (Logic.parse logic).UnambiguousRaw engine.registry)
    (hoperators : ∀ name operator, engine.registry.lookup name = some operator →
      operator.LeavesData engine.registry)
    (data : Json) (w : World) (name : String) :
    (∀ job, Job.Reached (program.call data) job →
      (job.poll w).1 ≠ .finished (.error (.unknownOperator name))) ∧
    ((program.callSync data).run.run w).1 ≠ .error (.unknownOperator name) := by
  have hresolved := resolved_of_build hbuild hraw
  have hcall := (Engine.governs_knowing hoperators).call_keeps hbuild
    (fun node hparse => Logic.parse_of_parseAt hparse ▸ hresolved) data
  constructor
  · intro job hreached hanswer
    obtain ⟨-, -, hmeets⟩ := Job.poll_keeps (hreached.keeps hcall) w
    obtain ⟨drawn, hallows⟩ := hmeets _ hanswer
    cases hallows with
    | error hfails => exact hfails name rfl
  · intro hanswer
    unfold callSync at hanswer
    split at hanswer
    · cases hanswer
    · obtain ⟨drawn, -, hrefused | hallows⟩ := hcall.now w
      · rw [hanswer] at hrefused
        cases hrefused
      · rw [hanswer] at hallows
        cases hallows with
        | error hfails => exact hfails name rfl

/-! ## An operator annotated to hold data that has its arguments evaluated -/

def tagOperator : Operator :=
  { body := .immediate fun input _ _ => pure (.value input.toJson), traverse := true,
    deterministic := false, yields := false, useContext := false, rawData := true, sync := true,
    origin := .custom }

def tagEngine : Engine :=
  { registry := Standard.registry.insert "tag" tagOperator, options := {} }

theorem tagOperator_leavesData : tagOperator.LeavesData registry :=
  Operator.obeys_of_pure rfl fun _ => .value _

theorem tagEngine_leavesData : ∀ name operator,
    tagEngine.registry.lookup name = some operator → operator.LeavesData tagEngine.registry := by
  have hextends : tagEngine.registry.Extends (Operator.LeavesData tagEngine.registry) :=
    (Standard.registry_extends _).insert "tag" rfl tagOperator_leavesData
  exact hextends.fits_of_lookup fun _ _ => Standard.leavesData

/-- The items of an operation that is evaluated, with one that is data. -/
def keptItems : List Json :=
  [.bool true, .null, .object [("preserve", .object [("nope", .null)])]]

def tagLogic : Json :=
  .object [("tag", .object [("if", .array keptItems)])]

theorem throughout_keptItems {sort : String → Logic → Prop}
    (hpreserve : sort "preserve" (.operation "nope" (.literal .null))) :
    (Logic.parse (.array keptItems)).Throughout tagEngine.registry sort := by
  refine Logic.throughout_sequence ?_
  simp only [keptItems, Logic.parseItems, Logic.parse, List.forall_mem_cons, List.not_mem_nil,
    false_implies, implies_true, and_true]
  refine ⟨Logic.throughout_literal _, Logic.throughout_literal _, ?_⟩
  exact Logic.throughout_operation rfl hpreserve fun hdata => absurd ⟨rfl, rfl⟩ hdata

theorem tagLogic_unambiguousRaw : (Logic.parse tagLogic).UnambiguousRaw tagEngine.registry := by
  refine Logic.throughout_operation rfl (by rintro _ ⟨⟩ ⟨⟩) fun _ => ?_
  refine Logic.throughout_operation rfl (fun _ _ _ _ => throughout_keptItems ?_)
    fun _ => throughout_keptItems ?_
  · rintro _ ⟨⟩ -
    rfl
  · rintro _ ⟨⟩ - ⟨⟩

theorem call_ne_unknownOperator_tag :
    ∃ program, (Program.build tagEngine tagLogic [] (.start 0)).1 = .ok program ∧
      (Logic.parse tagLogic).UnambiguousRaw tagEngine.registry ∧
      (∀ name operator, tagEngine.registry.lookup name = some operator →
        operator.LeavesData tagEngine.registry) ∧
      ∀ data w name, ((program.callSync data).run.run w).1 ≠ .error (.unknownOperator name) := by
  obtain ⟨program, hbuild⟩ : ∃ program,
      (Program.build tagEngine tagLogic [] (.start 0)).1 = .ok program := ⟨_, rfl⟩
  refine ⟨program, hbuild, tagLogic_unambiguousRaw, tagEngine_leavesData, fun data w name => ?_⟩
  exact (Program.call_ne_unknownOperator hbuild tagLogic_unambiguousRaw tagEngine_leavesData data w
    name).2

def blindLogic : Json :=
  .object [("if", .array [.bool true, .object [("tag", .object [("nope", .array [])])],
    .number (.integer (.clamp 0))])]

/-- The scan of the arguments of `if` looks for no unknown names below `tag`, but they are evaluated
all the same. -/
theorem unknownOperator_below_tag :
    (∀ name operator, tagEngine.registry.lookup name = some operator →
      operator.LeavesData tagEngine.registry) ∧
      ∃ program, (Program.build tagEngine blindLogic [] (.start 0)).1 = .ok program ∧
        ((Job.new (program.call .null) false).poll (.start 0)).1 =
          .finished (.error (.unknownOperator "nope")) :=
  ⟨tagEngine_leavesData, _, rfl, rfl⟩

end DecisionLogic
