import DecisionLogic.Proofs.Congruence.Engine
import DecisionLogic.Proofs.Congruence.Law
import DecisionLogic.Proofs.Congruence.Standard
import DecisionLogic.Proofs.Program.Folding
import DecisionLogic.Proofs.Provenance.Intact

/-!
# The operators that an evaluation calls

Evaluating an intact tree calls operators of the given names only, and if the outcome is suspended,
it mends.  Operators that have their arguments evaluated and do not reach back into the engine may
do anything else.
-/

namespace DecisionLogic

/-- Operators are called only as permitted. -/
def Law.invoking (permitted : Invocation → Prop) : Law where
  Step w w' _ := ∃ calls, w'.trace = calls ++ w.trace ∧ ∀ call ∈ calls, permitted call
  Fails _ := True
  refl _ := ⟨[], rfl, by simp⟩
  trans := by
    rintro w w' w'' - - ⟨calls, htrace, hcalls⟩ ⟨more, htrace', hmore⟩
    refine ⟨more ++ calls, by rw [htrace', htrace, List.append_assoc], fun call hcall => ?_⟩
    rcases List.mem_append.mp hcall with hlater | hearlier
    · exact hmore call hlater
    · exact hcalls call hearlier
  cancelled := trivial

theorem Law.invoking_supplies (permitted : Invocation → Prop) : (Law.invoking permitted).Supplies :=
  fun _ => ⟨0, [], rfl, by simp⟩

abbrev Law.silent : Law :=
  .invoking fun _ => False

/-! ## Operators -/

/-- What an operator returns that has nothing evaluated. -/
inductive Output.Returned : Output → Prop
  | value (value : Json) : Returned (.value value)
  | done (value : Json) : Returned (.evaluation (.done value))
  | yield (reason : Json) : Returned (.yield reason)
  | pending {computations : List (Computation Json)}
      (hsilent : ∀ c ∈ computations, c.Keeps .silent fun _ _ => True) :
      Returned (.pending computations)

/-- The operator has its arguments evaluated.  It may wait, fail, yield and return any value, but it
calls no operator by itself. -/
structure Operator.SelfContained (operator : Operator) : Prop where
  traverse : operator.traverse = true
  silent : ∀ (value : Json) (scope : Scope) (handle : Handle),
    (operator.body.run (.evaluated value) scope handle).Keeps .silent fun _ result =>
      ∀ output, result = .ok output → output.Returned

/-- The congruence of computations that call operators of the given names only. -/
def Congruence.naming (names : String → Prop) : Congruence :=
  (Law.invoking fun call => names call.operator).congruence (Law.invoking_supplies _)

/-- Suspensions of a node mend; a literal is never suspended. -/
def Linkage.mending (registry : Registry) (names : String → Prop) (node : Logic) : Linkage :=
  fun _ s _ => (∀ value, node ≠ .literal value) ∧ s.root.Mends registry names

variable {registry : Registry} {names : String → Prop} {name : String} {operator : Operator}
  {input : Input} {args : Logic} {scope scope' : Scope} {handle handle' : Handle}

open Congruence

theorem mending_lasting (node : Logic) : (Linkage.mending registry names node).Lasting :=
  fun _ _ _ _ hlinked => hlinked

/-- The second computation does not matter. -/
theorem naming_left {α β : Type} {R : Reading α β} {c : Computation α} {d d' : Computation β}
    (hrel : (naming names).Rel R c d) : (naming names).Rel R c d' :=
  hrel

theorem callOperator_naming (hname : names name) (hoptions : handle.options = handle'.options)
    (hbody : (naming names).Rel
      ((naming names).Outputs (Linkage.mending registry names (.operation name args)))
      (operator.body.run input scope handle) (operator.body.run input scope' handle')) :
    (naming names).Rel (Evaluation.Linked (Linkage.mending registry names (.operation name args)))
      (callOperator name operator input scope handle)
      (callOperator name operator input scope' handle') := by
  refine callOperator_rel (mending_lasting _) hoptions ?_ (fun _ _ _ => trivial) (fun _ => trivial)
    ?_ hbody
  · intro w
    let invocation : Invocation := ⟨name, operator.origin, input⟩
    have hstep : (Law.invoking fun call => names call.operator).Step w (w.record invocation) 0 :=
      ⟨[invocation], rfl, fun call hcall => List.mem_singleton.mp hcall ▸ hname⟩
    exact .finished hstep (.ok () trivial)
  · intro _ drawn id id' reason _
    exact ⟨nofun, PartialTree.mends_point _⟩

theorem Operator.SelfContained.body_naming {T : Linkage} (hcontained : operator.SelfContained)
    (value : Json) :
    (naming names).Rel ((naming names).Outputs T)
      (operator.body.run (.evaluated value) scope handle)
      (operator.body.run (.evaluated value) scope' handle') := by
  have hpermitted : ∀ (w w' : World) (drawn : Multiset Nat), Law.silent.Step w w' drawn →
      (Law.invoking fun call => names call.operator).Step w w' drawn := by
    rintro w w' drawn ⟨calls, htrace, hcalls⟩
    exact ⟨calls, htrace, fun call hcall => absurd (hcalls call hcall) id⟩
  intro w
  refine ((hcontained.silent value scope handle w).weaken hpermitted).mono ?_
  intro drawn result hreturned
  cases result with
  | error failure => exact .error trivial
  | ok output =>
      cases hreturned output rfl with
      | value value => exact .ok _ (.value drawn value)
      | done value => exact .ok _ (.evaluation (.done drawn value))
      | yield reason => exact .ok _ (.yield drawn reason)
      | pending hsilent =>
          refine .ok _ (.pending drawn (List.forall₂_same.mpr fun c hc later => ?_))
          refine ((hsilent c hc later).weaken hpermitted).mono fun more result _ => ?_
          cases result with
          | ok x => exact .ok x rfl
          | error failure => exact .error trivial

/-! ## Operators that evaluate their arguments -/

theorem Logic.Intact.bodyOf (hintact : args.Intact registry names) :
    (Standard.bodyOf (.raw args)).Intact registry names := by
  rcases Standard.bodyOf_eq_or_mem (.raw args) with hnull | hmem
  · exact hnull ▸ .literal .null
  · exact hintact.argument _ hmem

theorem Logic.plain_bodyOf (hplain : ∀ node ∈ args.arguments.tail, node.Plain) :
    (Standard.bodyOf (.raw args)).Plain := by
  unfold Standard.bodyOf Input.argumentNodes
  rw [List.getD_eq_getElem?_getD]
  cases hbody : args.arguments[1]? with
  | none => exact plain_null
  | some body =>
      have hfirst : args.arguments.tail[0]? = some body := by
        rw [List.getElem?_tail]
        exact hbody
      exact hplain body (List.mem_of_getElem? hfirst)

theorem iterates_naming (hname : names name) (hargs : args.Intact registry names)
    (hfirst : ∀ node rest, args.arguments = node :: rest →
      (∃ value, node = .literal value) ∨ ∀ other ∈ rest, other.Plain)
    (hbody : (Standard.bodyOf (.raw args)).Plain) :
    (naming names).Iterates (Linkage.mending registry names) (fun _ _ _ => True)
      (Linkage.mending registry names (.operation name args)) name (.raw args) := by
  have hpoint (drawn : Multiset Nat) (p q : SuspensionPoint) :
      Linkage.mending registry names (.operation name args) drawn (.ofPoint p) (.ofPoint q) :=
    ⟨nofun, PartialTree.mends_point p⟩
  refine ⟨mending_lasting _, fun _ _ _ _ => id, ?_, ?_, fun _ _ _ _ _ => trivial, ?_⟩
  · rintro node rest drawn s t hsplit ⟨hnotLiteral, hmends⟩
    have hsplit : args.arguments = node :: rest := hsplit
    rcases hfirst node rest hsplit with ⟨value, rfl⟩ | hplain
    · exact absurd rfl (hnotLiteral value)
    · refine ⟨nofun, Suspension.ofArguments_mends hname hmends hplain fun other hother => ?_⟩
      exact hargs.argument other (hsplit ▸ List.mem_cons_of_mem node hother)
  · rintro node items drawn s t rfl _ ⟨_, hmends⟩
    exact ⟨nofun, Suspension.initial_mends hname hmends hbody hargs.bodyOf⟩
  · intro drawn s t _
    have hpoints : Option.Rel (fun p q : SuspensionPoint =>
        Linkage.mending registry names (.operation name args) drawn
          (.ofPoint ⟨p.id, name, (Input.raw args).toJson, p.reason⟩)
          (.ofPoint ⟨q.id, name, (Input.raw args).toJson, q.reason⟩))
        s.firstPoint? s.firstPoint? := by
      cases s.firstPoint? with
      | none => exact .none
      | some p => exact .some (hpoint ..)
    apply naming_left
    exact collapsed_rel (mending_lasting _) hpoints fun _ _ _ _ => hpoint ..

theorem assembles_naming (hname : names name) (hargs : args.Intact registry names)
    (hplain : ∀ node ∈ args.arguments.tail, node.Plain) :
    (naming names).Assembles (Linkage.mending registry names) (fun _ _ _ => True)
      (Linkage.mending registry names (.operation name args)) name (.raw args) := by
  have hrest (node : Logic) (rest : List Logic) (hsplit : args.arguments = node :: rest) :
      ∀ other ∈ rest, other.Plain := by
    rw [hsplit] at hplain
    exact hplain
  refine ⟨iterates_naming hname hargs (fun node rest hsplit => .inr (hrest node rest hsplit))
    (Logic.plain_bodyOf hplain), fun _ _ _ _ _ hlinked => ⟨nofun, hlinked.2⟩, ?_⟩
  rintro reached node unreached drawn s t hsplit ⟨_, hmends⟩
  have hsplit : args.arguments = reached ++ node :: unreached := hsplit
  refine ⟨nofun, Suspension.ofArguments_mends hname hmends ?_ ?_⟩
  · intro other hother
    apply hplain
    rw [hsplit]
    cases reached with
    | nil => exact hother
    | cons first reached => simp [hother]
  · intro other hother
    exact hargs.argument other (by simp [hsplit, hother])

/-! ## Engines -/

variable {engine : Engine}

theorem standard_reduce (hlookup : Standard.registry.lookup "reduce" = some operator) :
    operator.body = .awaiting Standard.reduce := by
  have hreduce : (Standard.registry.lookup "reduce").map Operator.body =
      some (.awaiting Standard.reduce) := rfl
  rw [hlookup] at hreduce
  exact Option.some.inj hreduce

/-- The body of a standard operator that evaluates its raw arguments. -/
theorem lazyBody_naming {body : AwaitingBody} (hname : names name)
    (hargs : args.Intact registry names) (hreadsBack : args.ReadsBack name)
    (hlazy : Standard.LazyBody name body) (hreduce : name = "reduce" → body = Standard.reduce)
    (hevaluate : ∀ node scope scope', node.Intact registry names →
      (naming names).Rel (Evaluation.Linked (Linkage.mending registry names node))
        (handle.evaluate node scope) (handle'.evaluate node scope')) :
    (naming names).Rel
      ((naming names).Outputs (Linkage.mending registry names (.operation name args)))
      (body (.raw args) scope handle) (body (.raw args) scope' handle') := by
  have harguments : ∀ node ∈ (Input.raw args).argumentNodes,
      (naming names).Rel (Evaluation.Linked (Linkage.mending registry names node))
        (handle.evaluate node scope) (handle'.evaluate node scope') :=
    fun node hnode => hevaluate node scope scope' (hargs.argument node hnode)
  have hbodies (items : List Json) (item : Json) :
      (naming names).Rel (Evaluation.Linked fun _ _ _ => True)
        (handle.evaluate (Standard.bodyOf (.raw args)) ((scope.child (.array items)).child item))
        (handle'.evaluate (Standard.bodyOf (.raw args))
          ((scope'.child (.array items)).child item)) :=
    (naming names).mono (hevaluate _ _ _ hargs.bodyOf) fun _ _ _ hlinked =>
      hlinked.mono fun _ _ _ _ => trivial
  rcases hreadsBack with hplain | ⟨rfl, ⟨value, hliteral⟩, hbody⟩
  · exact lazyBody_rel harguments hbodies hlazy (assembles_naming hname hargs hplain)
  · rw [hreduce rfl]
    refine reduce_rel harguments hbodies (iterates_naming hname hargs ?_ hbody)
    intro node rest hsplit
    rw [hsplit] at hliteral
    exact .inl ⟨value, Option.some.inj hliteral⟩

theorem compatible_naming (hextends : engine.registry.Extends Operator.SelfContained) :
    (naming names).Compatible engine engine
      (fun _ node _ _ => node.Intact engine.registry names)
      (Linkage.mending engine.registry names) := by
  refine ⟨mending_lasting, fun _ _ _ _ => trivial, ?_, ?_, ?_⟩
  · intro levels items scope scope' hknown
    cases hknown with
    | sequence hitems => exact hitems
  · intro levels items scope scope' _ drawn results results' hresults _
    refine ⟨nofun, PartialTree.mends_sequence fun tree htree => ?_⟩
    obtain ⟨evaluation, hevaluation, rfl⟩ := List.mem_map.mp htree
    obtain ⟨more, evaluation', hlinked⟩ := hresults.exists_of_mem hevaluation
    cases hlinked with
    | done _ value => exact PartialTree.mends_done value
    | suspended hsuspension =>
        obtain ⟨item, _, _, hmends⟩ := hsuspension
        exact hmends
  · intro levels name args scope scope' hknown
    cases hknown with
    | operation hname hargs hraw =>
        cases hlookup : engine.registry.lookup name with
        | none => exact .unknown trivial
        | some operator =>
            have hwithin (htraverse : operator.traverse = true) (drawn : Multiset Nat)
                (s t : Suspension)
                (hlinked : Linkage.mending engine.registry names args drawn s t) :
                Linkage.mending engine.registry names (.operation name args) drawn
                  (s.withinCall name args.toJson) (t.withinCall name args.toJson) :=
              ⟨nofun, Suspension.withinCall_mends hname hlookup htraverse hlinked.2⟩
            rcases hextends name operator hlookup with hstandard | ⟨-, hcontained⟩
            · cases Standard.standardOperator_of_lookup hstandard with
              | arguments _ f =>
                  refine .traversing rfl rfl hargs (hwithin rfl) fun value _ _ _ => ?_
                  exact callOperator_naming hname rfl (answer_rel fun _ _ => trivial)
              | scope _ f =>
                  refine .traversing rfl rfl hargs (hwithin rfl) fun value _ _ _ => ?_
                  exact naming_left (callOperator_naming hname rfl (answer_rel fun _ _ => trivial))
              | preserve =>
                  refine .raw rfl rfl fun _ _ _ => callOperator_naming hname rfl ?_
                  exact (naming names).pure (.value 0 _)
              | @lazy _ body hlazy =>
                  have hreduce : name = "reduce" → body = Standard.reduce := by
                    rintro rfl
                    exact OperatorBody.awaiting.inj (standard_reduce hstandard)
                  refine .raw rfl rfl fun evaluate evaluate' hbelow =>
                    callOperator_naming hname rfl ((naming names).cancellable ?_)
                  exact lazyBody_naming hname hargs (hraw _ hlookup rfl) hlazy hreduce
                    fun node scope scope' hintact => hbelow node scope scope' hintact
            · have htraverse := hcontained.traverse
              refine .traversing htraverse htraverse hargs (hwithin htraverse) fun value _ _ _ => ?_
              exact callOperator_naming hname rfl (hcontained.body_naming value)

end DecisionLogic
