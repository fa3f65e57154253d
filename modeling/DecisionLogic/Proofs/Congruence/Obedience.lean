import DecisionLogic.Proofs.Congruence.Engine
import DecisionLogic.Proofs.Congruence.Law
import DecisionLogic.Proofs.Congruence.Standard
import DecisionLogic.Proofs.Standard.Bodies

/-!
# Engines that keep a law

A law governs an engine on nodes of some kind when every step of their evaluation is lawful, apart
from what operators do inside their bodies: there it is enough that a body keeps the law whenever
the evaluations that it asks for do.  The standard operators are of that sort under every law that
lets them refuse their arguments.
-/

namespace DecisionLogic

/-- Something that holds of suspensions, given the numbers that were drawn until they came up. -/
abbrev Suspension.Property : Type :=
  Multiset Nat → Suspension → Prop

/-- Linked suspensions have the property; the second one is not looked at. -/
def Linkage.of (property : Suspension.Property) : Linkage :=
  fun drawn s _ => property drawn s

/-- A result that is good, or a failure that may happen. -/
def Law.Ends {α : Type} (law : Law) (good : α → Prop) : Multiset Nat → Except Failure α → Prop :=
  fun _ result =>
    (∀ x, result = .ok x → good x) ∧ ∀ failure, result = .error failure → law.Fails failure

/-! ## Operators -/

/-- The values that an output still waits for are computed under the law, and a suspension is passed
on only where `suspends` allows it. -/
inductive Output.Lawful (law : Law) (suspends : Prop) : Output → Prop
  | value (value : Json) : Lawful law suspends (.value value)
  | done (value : Json) : Lawful law suspends (.evaluation (.done value))
  | yield (reason : Json) : Lawful law suspends (.yield reason)
  | pending {computations : List (Computation Json)}
      (hkeeps : ∀ c ∈ computations, c.Keeps law (law.Ends fun _ => True)) :
      Lawful law suspends (.pending computations)
  | suspended (hsuspends : suspends) (suspension : Suspension) :
      Lawful law suspends (.evaluation (.suspended suspension))

/-- The operator keeps the law as long as the evaluations that it asks for do; it asks for those of
the given nodes only. -/
def Operator.Obeys (law : Law) (nodes : Input → Logic → Prop) (suspends : Prop)
    (operator : Operator) : Prop :=
  ∀ (input : Input) (scope : Scope) (handle : Handle),
    (∀ node, nodes input node → ∀ scope,
      (handle.evaluate node scope).Keeps law (law.Ends fun _ => True)) →
      (operator.body.run input scope handle).Keeps law (law.Ends (Output.Lawful law suspends))

/-- An operator that returns something at once has nothing evaluated. -/
theorem Operator.obeys_of_pure {law : Law} {nodes : Input → Logic → Prop} {suspends : Prop}
    {operator : Operator} {output : Input → Output}
    (hbody : operator.body = .immediate fun input _ _ => pure (output input))
    (hlawful : ∀ input, Output.Lawful law suspends (output input)) :
    operator.Obeys law nodes suspends := by
  intro input scope handle _
  rw [hbody]
  have hresult : law.Ends (Output.Lawful law suspends) 0 (.ok (output input)) :=
    ⟨fun x hx => Except.ok.inj hx ▸ hlawful input, nofun⟩
  exact fun w => .finished (law.refl w) hresult

/-- What an operator is called with when its operation has these arguments. -/
inductive Operator.Receives (operator : Operator) (args : Logic) : Input → Prop
  | evaluated (htraverse : operator.traverse = true) (value : Json) :
      Receives operator args (.evaluated value)
  | raw (htraverse : operator.traverse = false) : Receives operator args (.raw args)

namespace Law

variable {law : Law} {hsupplies : law.Supplies} {property : Suspension.Property}
  {known : Logic → Prop} {operator : Operator} {input : Input}

/-- Where the nodes that are known keep the law, and their suspensions have the property, so do the
body of the operator and its output. -/
def Serves (law : Law) (hsupplies : law.Supplies) (property : Suspension.Property)
    (known : Logic → Prop) (operator : Operator) (input : Input) : Prop :=
  ∀ (scope : Scope) (handle : Handle),
    (∀ node, known node → ∀ scope, (handle.evaluate node scope).Keeps law
      (law.Allows (Evaluation.Linked (Linkage.of property)))) →
      (operator.body.run input scope handle).Keeps law
        (law.Allows ((law.congruence hsupplies).Outputs (Linkage.of property)))

theorem Allows.ends {α β : Type} {R : Reading α β} {good : α → Prop} {drawn : Multiset Nat}
    {result : Except Failure α} (hallows : law.Allows R drawn result)
    (hgood : ∀ x y, R drawn x y → good x) : law.Ends good drawn result := by
  cases hallows with
  | ok y hreads => exact ⟨fun x hx => Except.ok.inj hx ▸ hgood _ y hreads, nofun⟩
  | error hfails => exact ⟨nofun, fun failure hfailure => Except.error.inj hfailure ▸ hfails⟩

theorem Ends.allows {α : Type} {R : Reading α α} {good : α → Prop} {drawn : Multiset Nat}
    {result : Except Failure α} (hends : law.Ends good drawn result)
    (hreads : ∀ x, good x → R drawn x x) : law.Allows R drawn result := by
  cases result with
  | ok x => exact .ok x (hreads x (hends.1 x rfl))
  | error failure => exact .error (hends.2 failure rfl)

theorem lawful_of_outputs {T : Linkage} {drawn : Multiset Nat} {output output' : Output}
    (houtputs : (law.congruence hsupplies).Outputs T drawn output output') :
    Output.Lawful law True output := by
  cases houtputs with
  | value _ value => exact .value value
  | yield _ reason => exact .yield reason
  | evaluation hlinked =>
      cases hlinked with
      | done _ value => exact .done value
      | suspended _ => exact .suspended trivial _
  | pending _ hcomputations =>
      refine .pending fun c hc w => ?_
      obtain ⟨i, hi, rfl⟩ := List.mem_iff_getElem.mp hc
      have hkeeps := hcomputations.get hi (hcomputations.length_eq ▸ hi)
      exact (hkeeps w).mono fun _ _ hallows => hallows.ends fun _ _ _ => trivial

theorem outputs_of_lawful {suspends : Prop} {output : Output}
    (hlawful : Output.Lawful law suspends output)
    (hsuspends : suspends → ∀ drawn s, property drawn s) (drawn : Multiset Nat) :
    (law.congruence hsupplies).Outputs (Linkage.of property) drawn output output := by
  cases hlawful with
  | value value => exact .value drawn value
  | done value => exact .evaluation (.done drawn value)
  | yield reason => exact .yield drawn reason
  | suspended hpasses suspension => exact .evaluation (.suspended (hsuspends hpasses drawn _))
  | pending hkeeps =>
      refine .pending drawn (List.forall₂_same.mpr fun c hc w => ?_)
      exact (hkeeps c hc w).mono fun _ _ hends => hends.allows fun _ _ => rfl

end Law

theorem Operator.Obeys.serves {law : Law} {hsupplies : law.Supplies}
    {property : Suspension.Property} {known : Logic → Prop} {operator : Operator} {input : Input}
    {nodes : Input → Logic → Prop} {suspends : Prop} (hobeys : operator.Obeys law nodes suspends)
    (hnodes : ∀ node, nodes input node → known node)
    (hsuspends : suspends → ∀ drawn s, property drawn s) :
    law.Serves hsupplies property known operator input := by
  intro scope handle hevaluate w
  refine (hobeys input scope handle (fun node hnode scope w => ?_) w).mono fun drawn _ hends =>
    hends.allows fun _ hlawful => Law.outputs_of_lawful hlawful hsuspends drawn
  exact (hevaluate node (hnodes node hnode) scope w).mono fun _ _ hallows =>
    hallows.ends fun _ _ _ => trivial

namespace Law

/-! ## Suspensions -/

/-- A part of an argument list that was not reached, or is finished. -/
inductive Settled : PartialTree → Prop
  | done (value : Json) : Settled (.done value)
  | pending (logic : Json) : Settled (.pending logic)

/-- The property is handed on from the suspension of a part to that of the whole, and points have
it from the start. -/
structure Carries (law : Law) (options : Options) (property : Suspension.Property) : Prop where
  lasting : ∀ drawn more s, property more s → property (drawn + more) s
  joins : Evaluation.Joins (Linkage.of property) (Linkage.of property)
  withinCall : ∀ drawn s name input, property drawn s → property drawn (s.withinCall name input)
  ofArguments : ∀ drawn (s : Suspension) name input before after, property drawn s →
    (∀ tree ∈ before ++ after, Settled tree) →
      property drawn (.ofArguments name input (before ++ s.root :: after))
  collapsed : ∀ drawn (s : Suspension) name input, property drawn s → ∀ p ∈ s.firstPoint?,
    property drawn (.ofPoint ⟨p.id, name, input, p.reason⟩)
  /-- Points come up where yields are supported, or in the place of a suspended body. -/
  point : ∀ drawn id id' name input reason,
    (options.yieldSupported = true ∨ ∃ more s, property more s) → law.Draws drawn id id' →
      property drawn (.ofPoint ⟨id, name, input, reason⟩)

theorem settled_map_ofLogic (nodes : List Logic) :
    ∀ tree ∈ nodes.map PartialTree.ofLogic, Settled tree := by
  intro tree htree
  obtain ⟨node, -, rfl⟩ := List.mem_map.mp htree
  exact .pending _

namespace Carries

open Congruence

variable {law : Law} {hsupplies : law.Supplies} {property : Suspension.Property}
  {options : Options} {name : String} {input : Input}

theorem holds (law : Law) (options : Options) : law.Carries options fun _ _ => True :=
  ⟨fun _ _ _ _ => trivial, fun _ _ _ _ _ => trivial, fun _ _ _ _ _ => trivial,
    fun _ _ _ _ _ _ _ _ => trivial, fun _ _ _ _ _ _ _ => trivial,
    fun _ _ _ _ _ _ _ _ => trivial⟩

theorem linkage_lasting (hcarries : law.Carries options property) :
    (Linkage.of property).Lasting :=
  fun drawn more s _ => hcarries.lasting drawn more s

theorem assembles (hcarries : law.Carries options property) :
    (law.congruence hsupplies).Assembles (fun _ => Linkage.of property) (Linkage.of property)
      (Linkage.of property) name input := by
  have hlasting := hcarries.linkage_lasting
  have hunreached (drawn : Multiset Nat) (s : Suspension) (nodes : List Logic)
      (hs : property drawn s) :
      property drawn (.ofArguments name input.toJson (s.root :: nodes.map .ofLogic)) :=
    hcarries.ofArguments drawn s name _ [] _ hs (settled_map_ofLogic nodes)
  refine ⟨⟨hlasting, hlasting, ?_, ?_, hcarries.joins, ?_⟩, fun _ _ _ _ _ => id, ?_⟩
  · exact fun node rest drawn s t _ hs => hunreached drawn s rest hs
  · intro node items drawn s t _ _ hs
    refine hcarries.ofArguments drawn s name _ [.done (.array items), .ofLogic _] [] hs ?_
    simp only [List.append_nil, List.forall_mem_cons, List.not_mem_nil, false_implies,
      implies_true, and_true]
    exact ⟨.done _, .pending _⟩
  · intro drawn s t hs
    have hpoints : Option.Rel (fun p q : SuspensionPoint =>
        Linkage.of property drawn (.ofPoint ⟨p.id, name, input.toJson, p.reason⟩)
          (.ofPoint ⟨q.id, name, input.toJson, q.reason⟩)) s.firstPoint? s.firstPoint? := by
      cases hfirst : s.firstPoint? with
      | none => exact .none
      | some p => exact .some (hcarries.collapsed drawn s name _ hs p hfirst)
    -- The congruence does not look at the second suspension, so the first one stands for it.
    have hcollapsed := collapsed_rel (K := law.congruence hsupplies) hlasting hpoints
      fun more id id' hdraws =>
        hcarries.point more id id' name _ .null (.inr ⟨drawn, s, hs⟩) hdraws
    exact hcollapsed
  · exact fun reached node unreached drawn s t _ hs => hunreached drawn s unreached hs

end Carries
end Law

/-! ## The standard operators -/

theorem Standard.Body.serves {law : Law} {hsupplies : law.Supplies}
    {property : Suspension.Property} {known : Logic → Prop} {options : Options} {name : String}
    {operator : Operator} {input : Input}
    (hbody : Standard.Body name operator.body operator.traverse)
    (hcarries : law.Carries options property)
    (hrefuses : ∀ failure, Standard.Refuses failure → law.Fails failure)
    (hnodes : operator.body.hasAwaiting = true → ∀ node,
      node ∈ input.argumentNodes ∨ node = Standard.bodyOf input → known node) :
    law.Serves hsupplies property known operator input := by
  intro scope handle hevaluate
  have hrun : (law.congruence hsupplies).Rel
      ((law.congruence hsupplies).Outputs (Linkage.of property))
      (operator.body.run input scope handle) (operator.body.run input scope handle) := by
    refine Congruence.run_rel hbody hcarries.assembles hrefuses (fun hawaiting node hnode => ?_)
      fun hawaiting scope => ?_
    · exact hevaluate node (hnodes hawaiting node (.inl hnode)) scope
    · exact hevaluate _ (hnodes hawaiting _ (.inr rfl)) scope
  exact hrun

theorem Evaluation.linked_of_holds (evaluation : Evaluation) (drawn : Multiset Nat) :
    evaluation.Linked (Linkage.of fun _ _ => True) drawn evaluation := by
  cases evaluation with
  | done value => exact .done drawn value
  | suspended suspension => exact .suspended trivial

/-- A standard operator asks for evaluations of its arguments, and passes their suspensions on. -/
theorem Standard.Body.obeys {law : Law} (hsupplies : law.Supplies) {name : String}
    {operator : Operator} {nodes : Input → Logic → Prop}
    (hbody : Standard.Body name operator.body operator.traverse)
    (hrefuses : ∀ failure, Standard.Refuses failure → law.Fails failure)
    (hnodes : ∀ input, operator.body.hasAwaiting = true → ∀ node,
      node ∈ input.argumentNodes ∨ node = Standard.bodyOf input → nodes input node) :
    operator.Obeys law nodes True := by
  intro input scope handle hevaluate w
  have hserves : law.Serves hsupplies (fun _ _ => True) (nodes input) operator input :=
    hbody.serves (.holds law {}) hrefuses (hnodes input)
  refine (hserves scope handle (fun node hnode scope w => ?_) w).mono fun _ _ hallows =>
    hallows.ends fun _ _ houtputs => Law.lawful_of_outputs houtputs
  exact (hevaluate node hnode scope w).mono fun drawn _ hends =>
    hends.allows fun evaluation _ => evaluation.linked_of_holds drawn

/-! ## Engines -/

/-- Attributing a failure to an operator makes no failure of another kind. -/
theorem Failure.eq_of_within {name : String} {failure found : Failure}
    (hwithin : failure.within name = found)
    (hother : ∀ operator cause, found ≠ .operatorExecution operator cause) : failure = found := by
  cases failure with
  | operatorExecution operator cause =>
      simp only [Failure.within] at hwithin
      split at hwithin
      · exact absurd hwithin.symm (hother _ _)
      · exact absurd hwithin.symm (hother _ _)
  | _ => exact hwithin

namespace Law

open Congruence

/-- Evaluating the nodes that are known keeps the law, and their suspensions have the property. -/
structure Governs (law : Law) (hsupplies : law.Supplies) (property : Suspension.Property)
    (engine : Engine) (known : Logic → Prop) : Prop where
  carries : law.Carries engine.options property
  tooDeep : law.Fails (.nestingTooDeep engine.options.maxDepth)
  within : ∀ name failure, law.Fails failure → law.Fails (failure.within name)
  disabled : engine.options.yieldSupported = false →
    ∀ name, law.Fails (.suspensionDisabled name)
  items : ∀ items, known (.sequence items) → ∀ item ∈ items, known item
  unknown : ∀ name args, known (.operation name args) → engine.registry.lookup name = none →
    law.Fails (.unknownOperator name)
  args : ∀ name args operator, known (.operation name args) →
    engine.registry.lookup name = some operator → operator.traverse = true → known args
  records : ∀ name args operator, known (.operation name args) →
    engine.registry.lookup name = some operator → ∀ (w : World) (input : Input),
      law.Step w (w.record ⟨name, operator.origin, input⟩) 0
  serves : ∀ name args operator, known (.operation name args) →
    engine.registry.lookup name = some operator → ∀ input, operator.Receives args input →
      law.Serves hsupplies property known operator input

namespace Governs

variable {law : Law} {hsupplies : law.Supplies} {property : Suspension.Property} {engine : Engine}
  {known : Logic → Prop} {levels : Nat} {scope : Scope}

theorem compatible (hgoverns : law.Governs hsupplies property engine known) :
    (law.congruence hsupplies).Compatible engine engine (fun _ node _ _ => known node)
      fun _ => Linkage.of property := by
  have hlasting := hgoverns.carries.linkage_lasting
  refine ⟨fun _ => hlasting, fun _ _ _ _ => hgoverns.tooDeep,
    fun _ items _ _ => hgoverns.items items, ?_, ?_⟩
  · intro levels items scope scope' _
    exact hgoverns.carries.joins.weaken fun _ _ _ ⟨_, _, hlinked⟩ => hlinked
  · intro levels name args scope scope' hknown
    cases hlookup : engine.registry.lookup name with
    | none => exact .unknown (hgoverns.unknown name args hknown hlookup)
    | some operator =>
        have hcall (input : Input) (hreceives : operator.Receives args input)
            (evaluate evaluate' : Logic → Scope → Computation Evaluation)
            (hbelow : (law.congruence hsupplies).Below (fun _ node _ _ => known node)
              (fun _ => Linkage.of property) levels evaluate evaluate') :
            (law.congruence hsupplies).Rel (Evaluation.Linked (Linkage.of property))
              (callOperator name operator input scope (engine.handle evaluate))
              (callOperator name operator input scope' (engine.handle evaluate')) := by
          refine callOperator_rel hlasting rfl ?_ (fun failure _ => hgoverns.within name failure)
            (hgoverns.disabled · name) ?_ ?_
          · exact fun w => .finished (hgoverns.records name args operator hknown hlookup w input)
              (.ok () trivial)
          · intro hsupported drawn id id' reason hdraws
            exact hgoverns.carries.point drawn id id' name _ reason (.inl hsupported) hdraws
          · exact hgoverns.serves name args operator hknown hlookup input hreceives scope _
              fun node hnode scope => hbelow node scope scope hnode
        cases htraverse : operator.traverse with
        | true =>
            refine .traversing htraverse htraverse
              (hgoverns.args name args operator hknown hlookup htraverse) ?_
              fun value => hcall _ (.evaluated htraverse value)
            exact fun drawn s _ => hgoverns.carries.withinCall drawn s name args.toJson
        | false => exact .raw htraverse htraverse (hcall _ (.raw htraverse))

theorem evaluate_keeps (hgoverns : law.Governs hsupplies property engine known) {node : Logic}
    (hknown : known node) :
    (engine.evaluate levels node scope).Keeps law
      (law.Allows (Evaluation.Linked (Linkage.of property))) :=
  hgoverns.compatible.evaluate_rel levels node scope scope hknown

/-- What is left to be evaluated, if there is anything. -/
theorem runLogic_keeps (hgoverns : law.Governs hsupplies property engine known)
    {result : Except Failure Logic}
    (hfails : ∀ failure, result = .error failure → law.Fails failure)
    (hknown : ∀ node, result = .ok node → known node) (data : Json) (above : List Json) :
    (Computation.ofExcept result >>= fun node => engine.runLogic node data above).Keeps law
      (law.Allows (Evaluation.Linked (Linkage.of property))) := by
  cases result with
  | error failure => exact fun w => .finished (law.refl w) (.error (hfails failure rfl))
  | ok node => exact hgoverns.evaluate_keeps (hknown node rfl)

theorem call_keeps (hgoverns : law.Governs hsupplies property engine known) {logic : Json}
    {above : List Json} {world : World} {program : Program}
    (hbuild : (Program.build engine logic above world).1 = .ok program)
    (hknown : ∀ node, Logic.parseBounded engine.options.maxDepth logic = .ok node → known node)
    (data : Json) :
    (program.call data).Keeps law (law.Allows (Evaluation.Linked (Linkage.of property))) := by
  obtain ⟨hengine, -, node, hparse, htranslates⟩ := Program.translates_of_build hbuild
  unfold Program.call
  rw [hengine]
  let scope := Scope.withAbove data program.above
  have hrel : (law.congruence hsupplies).Rel (Evaluation.Linked (Linkage.of property))
      (program.root.execute engine scope) (program.root.execute engine scope) :=
    hgoverns.compatible.execute_rel (fun _ _ _ _ _ _ => id) htranslates
      (Nat.lt_succ_self engine.options.maxDepth) (hknown node hparse)
  exact hrel

end Governs
end Law
end DecisionLogic
