import DecisionLogic.Proofs.Congruence.Obedience
import DecisionLogic.Proofs.Nesting.Levels
import DecisionLogic.Proofs.Provenance.Invocations

/-!
# Evaluations that have enough levels

A tree that gets by with the levels that are left is evaluated without a nesting failure, and if the
outcome is suspended, the trees that continue it get by with as many.  So what was found when the
logic was parsed holds for all that is evaluated of it later on.
-/

namespace DecisionLogic

open Congruence

/-- The law of not failing because something is nested too deep. -/
def Law.shallow : Law where
  Step _ _ _ := True
  Fails failure := ∀ limit, failure ≠ .nestingTooDeep limit
  refl _ := trivial
  trans _ _ := trivial
  cancelled _ := nofun

theorem Law.shallow_supplies : Law.shallow.Supplies :=
  fun _ => ⟨0, trivial⟩

abbrev Congruence.shallow : Congruence :=
  Law.shallow.congruence Law.shallow_supplies

/-! ## Operators -/

/-- An output that leads to no nesting failure.  If it is suspended, what continues it needs no more
levels than a call with a value. -/
inductive Output.Shallow (registry : Registry) : Output → Prop
  | value (value : Json) : Shallow registry (.value value)
  | done (value : Json) : Shallow registry (.evaluation (.done value))
  | yield (reason : Json) : Shallow registry (.yield reason)
  | pending {computations : List (Computation Json)}
      (hkeeps : ∀ c ∈ computations, c.Keeps .shallow (Law.shallow.Ends fun _ => True)) :
      Shallow registry (.pending computations)
  | suspended {s : Suspension} (hmends : s.root.Mends registry fun _ => True)
      (hbounded : s.root.Bounded registry 2) : Shallow registry (.evaluation (.suspended s))

/-- The operator has its arguments evaluated and raises no nesting failure itself: wherever it is
called values can be evaluated, and no more than that is needed for it not to fail so. -/
structure Operator.Shallow (registry : Registry) (operator : Operator) : Prop where
  traverse : operator.traverse = true
  body : ∀ (value : Json) (scope : Scope) (handle : Handle),
    (∀ value scope, (handle.evaluate (.literal value) scope).Keeps .shallow
      (Law.shallow.Ends fun evaluation => ∃ value, evaluation = .done value)) →
      (operator.body.run (.evaluated value) scope handle).Keeps .shallow
        (Law.shallow.Ends (Output.Shallow registry))

/-- Suspensions of a node mend and go on with the levels of the node; a literal is never
suspended. -/
def Linkage.leveled (registry : Registry) (node : Logic) : Linkage :=
  fun drawn s t => Linkage.mending registry (fun _ => True) node drawn s t ∧
    ∀ levels, node.Bounded registry levels → s.root.Bounded registry levels

variable {registry : Registry} {name : String} {operator : Operator} {input : Input}
  {args : Logic} {scope scope' : Scope} {handle handle' : Handle} {levels : Nat}

theorem leveled_lasting (node : Logic) : (Linkage.leveled registry node).Lasting :=
  fun _ _ _ _ hlinked => hlinked

theorem leveled_point (p q : SuspensionPoint) (drawn : Multiset Nat) :
    Linkage.leveled registry (.operation name args) drawn (.ofPoint p) (.ofPoint q) :=
  ⟨⟨nofun, PartialTree.mends_point p⟩, fun _ hbounded =>
    PartialTree.bounded_point hbounded.pos p⟩

theorem callOperator_shallow (hoptions : handle.options = handle'.options)
    (hbody : Congruence.shallow.Rel
      (Congruence.shallow.Outputs (Linkage.leveled registry (.operation name args)))
      (operator.body.run input scope handle) (operator.body.run input scope' handle')) :
    Congruence.shallow.Rel
      (Evaluation.Linked (Linkage.leveled registry (.operation name args)))
      (callOperator name operator input scope handle)
      (callOperator name operator input scope' handle') := by
  refine callOperator_rel (leveled_lasting _) hoptions ?_ ?_ (fun _ _ => nofun) ?_ hbody
  · intro w
    have hstep : Law.shallow.Step w (w.record ⟨name, operator.origin, input⟩) 0 := trivial
    exact .finished hstep (.ok () trivial)
  · intro failure _ hfails limit hdeep
    exact hfails limit (Failure.eq_of_within hdeep fun _ _ => nofun)
  · exact fun _ drawn id id' reason _ => leveled_point _ _ drawn

theorem Operator.Shallow.body_rel (hshallow : operator.Shallow registry)
    (hlookup : registry.lookup name = some operator) (value : Json)
    (hevaluate : ∀ value scope, (handle.evaluate (.literal value) scope).Keeps .shallow
      (Law.shallow.Ends fun evaluation => ∃ value, evaluation = .done value)) :
    Congruence.shallow.Rel
      (Congruence.shallow.Outputs (Linkage.leveled registry (.operation name args)))
      (operator.body.run (.evaluated value) scope handle)
      (operator.body.run (.evaluated value) scope' handle') := by
  intro w
  refine (hshallow.body value scope handle hevaluate w).mono fun drawn _ hends =>
    hends.allows fun output houtput => ?_
  cases houtput with
  | value value => exact .value drawn value
  | done value => exact .evaluation (.done drawn value)
  | yield reason => exact .yield drawn reason
  | pending hkeeps =>
      refine .pending drawn (List.forall₂_same.mpr fun c hc w => ?_)
      exact (hkeeps c hc w).mono fun _ _ hends => hends.allows fun _ _ => rfl
  | suspended hmends hbounded =>
      refine .evaluation (.suspended ⟨⟨nofun, hmends⟩, fun levels hlevels => hbounded.mono ?_⟩)
      obtain ⟨fewer, rfl⟩ := hlevels.exists_succ
      have hargs := hlevels.of_traversing hlookup hshallow.traverse
      exact Nat.succ_le_succ hargs.pos

/-! ## Operators that evaluate their arguments -/

/-- The argument list of a suspended operation needs no more levels than the arguments. -/
theorem ofArguments_leveled {parts : List PartialTree} {json : Json}
    (hlookup : registry.lookup name = some operator) (hraw : operator.traverse = false)
    (hparts : ∀ levels, 0 < levels → (∀ node ∈ args.arguments, node.Bounded registry levels) →
      ∀ tree ∈ parts, tree.Bounded registry levels) :
    ∀ levels, (Logic.operation name args).Bounded registry levels →
      (Suspension.ofArguments name json parts).root.Bounded registry levels := by
  intro levels hbounded
  obtain ⟨fewer, rfl⟩ := hbounded.exists_succ
  obtain ⟨hpos, harguments⟩ := hbounded.of_raw hlookup hraw
  exact Suspension.ofArguments_bounded hlookup hraw hpos (hparts fewer hpos harguments)

theorem bounded_unreached {s : Suspension} {unreached : List Logic}
    (hbounded : s.root.Bounded registry levels) (hplain : ∀ node ∈ unreached, node.Plain)
    (hunreached : ∀ node ∈ unreached, node.Bounded registry levels) :
    ∀ tree ∈ s.root :: unreached.map .ofLogic, tree.Bounded registry levels := by
  rw [List.forall_mem_cons]
  refine ⟨hbounded, fun tree htree => ?_⟩
  obtain ⟨node, hnode, rfl⟩ := List.mem_map.mp htree
  exact PartialTree.bounded_ofLogic (hplain node hnode) (hunreached node hnode)

theorem bounded_bodyOf (hlevels : 0 < levels)
    (harguments : ∀ node ∈ args.arguments, node.Bounded registry levels) :
    (Standard.bodyOf (.raw args)).Bounded registry levels := by
  rcases Standard.bodyOf_eq_or_mem (.raw args) with hnull | hmem
  · exact hnull ▸ Logic.bounded_literal hlevels .null
  · exact harguments _ hmem

theorem iterates_shallow (hlookup : registry.lookup name = some operator)
    (hraw : operator.traverse = false) (hargs : args.Intact registry fun _ => True)
    (hfirst : ∀ node rest, args.arguments = node :: rest →
      (∃ value, node = .literal value) ∨ ∀ other ∈ rest, other.Plain)
    (hbody : (Standard.bodyOf (.raw args)).Plain) :
    Congruence.shallow.Iterates (Linkage.leveled registry) (fun _ _ _ => True)
      (Linkage.leveled registry (.operation name args)) name (.raw args) := by
  have hmending : (naming fun _ => True).Iterates (Linkage.mending registry fun _ => True)
      (fun _ _ _ => True) (Linkage.mending registry (fun _ => True) (.operation name args)) name
      (.raw args) := iterates_naming trivial hargs hfirst hbody
  refine ⟨leveled_lasting _, fun _ _ _ _ => id, ?_, ?_, fun _ _ _ _ _ => trivial, ?_⟩
  · rintro node rest drawn s t hsplit ⟨hmends, hlevels⟩
    refine ⟨hmending.first node rest drawn s t hsplit hmends, ?_⟩
    have hsplit : args.arguments = node :: rest := hsplit
    rcases hfirst node rest hsplit with ⟨value, rfl⟩ | hplain
    · exact absurd rfl (hmends.1 value)
    · refine ofArguments_leveled hlookup hraw fun levels _ harguments => ?_
      rw [hsplit, List.forall_mem_cons] at harguments
      exact bounded_unreached (hlevels levels harguments.1) hplain harguments.2
  · rintro node items drawn s t rfl hnode ⟨hmends, hlevels⟩
    refine ⟨hmending.initial node items drawn s t rfl hnode hmends, ?_⟩
    refine ofArguments_leveled hlookup hraw fun levels hpos harguments => ?_
    simp only [List.forall_mem_cons, List.not_mem_nil, false_implies, implies_true, and_true]
    refine ⟨PartialTree.bounded_done hpos _, ?_, ?_⟩
    · exact PartialTree.bounded_ofLogic hbody (bounded_bodyOf hpos harguments)
    · exact hlevels levels (harguments node (List.mem_of_getElem? hnode))
  · intro drawn s t _
    have hpoints : Option.Rel (fun p q : SuspensionPoint =>
        Linkage.leveled registry (.operation name args) drawn
          (.ofPoint ⟨p.id, name, (Input.raw args).toJson, p.reason⟩)
          (.ofPoint ⟨q.id, name, (Input.raw args).toJson, q.reason⟩))
        s.firstPoint? s.firstPoint? := by
      cases s.firstPoint? with
      | none => exact .none
      | some p => exact .some (leveled_point ..)
    -- The congruence does not look at the second suspension, so the first one stands for it.
    have hcollapsed := collapsed_rel (K := Congruence.shallow) (leveled_lasting _) hpoints
      fun _ _ _ _ => leveled_point ..
    exact hcollapsed

theorem assembles_shallow (hlookup : registry.lookup name = some operator)
    (hraw : operator.traverse = false) (hargs : args.Intact registry fun _ => True)
    (hplain : ∀ node ∈ args.arguments.tail, node.Plain) :
    Congruence.shallow.Assembles (Linkage.leveled registry) (fun _ _ _ => True)
      (Linkage.leveled registry (.operation name args)) name (.raw args) := by
  have hmending : (naming fun _ => True).Assembles (Linkage.mending registry fun _ => True)
      (fun _ _ _ => True) (Linkage.mending registry (fun _ => True) (.operation name args)) name
      (.raw args) := assembles_naming trivial hargs hplain
  refine ⟨iterates_shallow hlookup hraw hargs ?_ (Logic.plain_bodyOf hplain), ?_, ?_⟩
  · intro node rest hsplit
    rw [hsplit] at hplain
    exact .inr hplain
  · rintro node drawn s t hnode ⟨hmends, hlevels⟩
    refine ⟨hmending.passed node drawn s t hnode hmends, fun levels hbounded => ?_⟩
    obtain ⟨fewer, rfl⟩ := hbounded.exists_succ
    have harguments := (hbounded.of_raw hlookup hraw).2
    exact (hlevels fewer (harguments node hnode)).mono (Nat.le_succ fewer)
  · rintro reached node unreached drawn s t hsplit ⟨hmends, hlevels⟩
    refine ⟨hmending.reached reached node unreached drawn s t hsplit hmends, ?_⟩
    have hsplit : args.arguments = reached ++ node :: unreached := hsplit
    refine ofArguments_leveled hlookup hraw fun levels _ harguments => ?_
    refine bounded_unreached (hlevels levels ?_) ?_ ?_
    · exact harguments node (by simp [hsplit])
    · intro other hother
      apply hplain
      rw [hsplit]
      cases reached with
      | nil => exact hother
      | cons first reached => simp [hother]
    · exact fun other hother => harguments other (by simp [hsplit, hother])

/-! ## Engines -/

/-- Raw arguments in the tree read back, and it gets by with the levels that are left. -/
structure Logic.Ready (registry : Registry) (levels : Nat) (node : Logic) : Prop where
  intact : node.Intact registry fun _ => True
  bounded : node.Bounded registry levels

theorem Logic.ready_literal (value : Json) :
    (Logic.literal value).Ready registry (levels + 1) :=
  ⟨.literal value, .literal value⟩

/-- Parts of a sequence that are good whether they are finished or suspended. -/
theorem Evaluation.forall_parts {T : Linkage} {good : PartialTree → Prop} {drawn : Multiset Nat}
    {results results' : List Evaluation}
    (hresults : Reading.Each (Evaluation.Linked T) drawn results results')
    (hdone : ∀ value, good (.done value))
    (hsuspended : ∀ drawn s t, T drawn s t → good s.root) :
    ∀ tree ∈ results.map PartialTree.ofEvaluation, good tree := by
  intro tree htree
  obtain ⟨evaluation, hevaluation, rfl⟩ := List.mem_map.mp htree
  obtain ⟨more, evaluation', hlinked⟩ := hresults.exists_of_mem hevaluation
  cases hlinked with
  | done _ value => exact hdone value
  | suspended hsuspension => exact hsuspended _ _ _ hsuspension

theorem joins_shallow (items : List Logic) :
    Evaluation.Joins (fun drawn s t => ∃ item ∈ items, Linkage.leveled registry item drawn s t)
      (Linkage.leveled registry (.sequence items)) := by
  intro drawn results results' hresults hany
  refine ⟨⟨nofun, PartialTree.mends_sequence ?_⟩, fun levels hbounded => ?_⟩
  · refine Evaluation.forall_parts hresults PartialTree.mends_done fun _ s t hlinked => ?_
    obtain ⟨item, -, ⟨-, hmends⟩, -⟩ := hlinked
    exact hmends
  · cases hbounded with
    | @sequence levels _ hitems =>
        have hpos : 0 < levels := by
          obtain ⟨evaluation, hmem, hsuspended⟩ := List.any_eq_true.mp hany
          obtain ⟨_, _, hlinked⟩ := hresults.exists_of_mem hmem
          cases hlinked with
          | done => cases hsuspended
          | suspended hsuspension =>
              obtain ⟨item, hitem, -⟩ := hsuspension
              exact (hitems item hitem).pos
        refine PartialTree.bounded_sequence ?_
        refine Evaluation.forall_parts hresults (PartialTree.bounded_done hpos)
          fun _ s t hlinked => ?_
        obtain ⟨item, hitem, -, hlevels⟩ := hlinked
        exact hlevels levels (hitems item hitem)

/-- The body of a standard operator that evaluates its raw arguments. -/
theorem lazyBody_shallow {body : AwaitingBody}
    (hstandard : Standard.registry.lookup name = some operator)
    (hbody : operator.body = .awaiting body) (hlazy : Standard.LazyBody name body)
    (hlookup : registry.lookup name = some operator) (hraw : operator.traverse = false)
    (hready : (Logic.operation name args).Ready registry (levels + 1))
    (hevaluate : ∀ node, node.Ready registry levels → ∀ scope scope',
      Congruence.shallow.Rel (Evaluation.Linked (Linkage.leveled registry node))
        (handle.evaluate node scope) (handle'.evaluate node scope')) :
    Congruence.shallow.Rel
      (Congruence.shallow.Outputs (Linkage.leveled registry (.operation name args)))
      (body (.raw args) scope handle) (body (.raw args) scope' handle') := by
  obtain ⟨hpos, hlevels⟩ := hready.bounded.of_raw hlookup hraw
  cases hready.intact with
  | operation _ hargs hreadsBack =>
      have harguments : ∀ node ∈ (Input.raw args).argumentNodes,
          Congruence.shallow.Rel (Evaluation.Linked (Linkage.leveled registry node))
            (handle.evaluate node scope) (handle'.evaluate node scope') :=
        fun node hnode => hevaluate node ⟨hargs.argument node hnode, hlevels node hnode⟩ _ _
      have hbodies (items : List Json) (item : Json) :
          Congruence.shallow.Rel (Evaluation.Linked fun _ _ _ => True)
            (handle.evaluate (Standard.bodyOf (.raw args)) ((scope.child (.array items)).child item))
            (handle'.evaluate (Standard.bodyOf (.raw args))
              ((scope'.child (.array items)).child item)) :=
        Congruence.shallow.mono
          (hevaluate _ ⟨hargs.bodyOf, bounded_bodyOf hpos hlevels⟩ _ _)
          fun _ _ _ hlinked => hlinked.mono fun _ _ _ _ => trivial
      rcases hreadsBack operator hlookup hraw with hplain | ⟨rfl, ⟨value, hliteral⟩, hplain⟩
      · exact lazyBody_rel harguments hbodies hlazy (assembles_shallow hlookup hraw hargs hplain)
      · obtain rfl : body = Standard.reduce :=
          OperatorBody.awaiting.inj (hbody.symm.trans (standard_reduce hstandard))
        refine reduce_rel harguments hbodies (iterates_shallow hlookup hraw hargs ?_ hplain)
        intro node rest hsplit
        rw [hsplit] at hliteral
        exact .inl ⟨value, Option.some.inj hliteral⟩

variable {engine : Engine}

/-- A body that answers at once, and fails only by refusing its arguments. -/
theorem answer_shallow {result : Except Failure Json} {T : Linkage} {other : Computation Output}
    (hrefuses : Standard.OnlyRefuses result) :
    Congruence.shallow.Rel (Congruence.shallow.Outputs T)
      (Computation.ofAction (ExceptT.mk fun world => (result.map .value, world))) other := by
  have hfails : ∀ failure, result = .error failure → Law.shallow.Fails failure := by
    rintro failure hfailure limit rfl
    cases hrefuses _ hfailure
  exact answer_rel (K := Congruence.shallow) hfails

/-- The bodies of all operators, where the nodes that are ready for the levels that are left are
evaluated without a nesting failure. -/
theorem body_shallow (hextends : engine.registry.Extends (Operator.Shallow engine.registry))
    (hlookup : engine.registry.lookup name = some operator)
    (hready : (Logic.operation name args).Ready engine.registry (levels + 1))
    (hreceives : operator.Receives args input)
    (hevaluate : ∀ node, node.Ready engine.registry levels → ∀ scope scope',
      Congruence.shallow.Rel (Evaluation.Linked (Linkage.leveled engine.registry node))
        (handle.evaluate node scope) (handle'.evaluate node scope')) :
    Congruence.shallow.Rel
      (Congruence.shallow.Outputs (Linkage.leveled engine.registry (.operation name args)))
      (operator.body.run input scope handle) (operator.body.run input scope' handle') := by
  rcases hextends name operator hlookup with hstandard | ⟨-, hshallow⟩
  · have hbody := Standard.body_of_lookup hstandard
    have hlazy {body : AwaitingBody} (hoperator : operator.body = .awaiting body)
        (hraw : operator.traverse = false) (hlazy : Standard.LazyBody name body) :
        Congruence.shallow.Rel
          (Congruence.shallow.Outputs (Linkage.leveled engine.registry (.operation name args)))
          (Computation.cancellable (body input scope handle))
          (Computation.cancellable (body input scope' handle')) := by
      cases hreceives with
      | evaluated htraverse _ => cases hraw.symm.trans htraverse
      | raw _ =>
          exact Congruence.shallow.cancellable
            (lazyBody_shallow hstandard hoperator hlazy hlookup hraw hready hevaluate)
    generalize hoperator : operator.body = body at hbody ⊢
    generalize hraw : operator.traverse = traverse at hbody
    cases hbody with
    | arguments hrefuses =>
        exact answer_shallow (hrefuses _)
    | readVariable => exact answer_shallow (Standard.readVariable_onlyRefuses _ _)
    | missing => exact answer_shallow (Standard.missing_onlyRefuses _ _)
    | preserve => exact Congruence.shallow.pure (.value 0 _)
    | choice hchoice => exact hlazy hoperator hraw hchoice.lazy
    | iteration hiteration => exact hlazy hoperator hraw hiteration.lazy
  · cases hreceives with
    | raw hraw => cases hraw.symm.trans hshallow.traverse
    | evaluated htraverse value =>
        have hargs := hready.bounded.of_traversing hlookup htraverse
        obtain ⟨fewer, rfl⟩ := hargs.exists_succ
        refine hshallow.body_rel hlookup value fun value scope w => ?_
        refine (hevaluate _ (Logic.ready_literal value) scope scope w).mono fun _ _ hallows =>
          hallows.ends fun evaluation _ hlinked => ?_
        cases hlinked with
        | done _ value => exact ⟨value, rfl⟩
        | suspended hsuspension => exact absurd rfl (hsuspension.1.1 value)

theorem compatible_shallow
    (hextends : engine.registry.Extends (Operator.Shallow engine.registry)) :
    Congruence.shallow.Compatible engine engine
      (fun levels node _ _ => node.Ready engine.registry levels)
      (Linkage.leveled engine.registry) := by
  refine ⟨leveled_lasting, ?_, ?_, fun _ items _ _ _ => joins_shallow items, ?_⟩
  · exact fun node _ _ hready => absurd hready.bounded.pos (Nat.lt_irrefl 0)
  · rintro levels items scope scope' ⟨hintact, hbounded⟩
    cases hintact with
    | sequence hitems =>
        cases hbounded with
        | sequence hlevels => exact fun item hitem => ⟨hitems item hitem, hlevels item hitem⟩
  · intro levels name args scope scope' hready
    cases hlookup : engine.registry.lookup name with
    | none => exact .unknown fun _ => nofun
    | some operator =>
        have hcall (input : Input) (hreceives : operator.Receives args input)
            (evaluate evaluate' : Logic → Scope → Computation Evaluation)
            (hbelow : Congruence.shallow.Below (fun levels node _ _ =>
                node.Ready engine.registry levels)
              (Linkage.leveled engine.registry) levels evaluate evaluate') :
            Congruence.shallow.Rel
              (Evaluation.Linked (Linkage.leveled engine.registry (.operation name args)))
              (callOperator name operator input scope (engine.handle evaluate))
              (callOperator name operator input scope' (engine.handle evaluate')) :=
          callOperator_shallow rfl <| body_shallow hextends hlookup hready hreceives
            fun node hnode scope scope' => hbelow node scope scope' hnode
        cases htraverse : operator.traverse with
        | true =>
            have hargs := hready.bounded.of_traversing hlookup htraverse
            refine .traversing htraverse htraverse ?_ ?_ fun value => hcall _ (.evaluated htraverse value)
            · cases hready.intact with
              | operation _ hintact _ => exact ⟨hintact, hargs⟩
            · rintro drawn s t ⟨⟨-, hmends⟩, hlevels⟩
              refine ⟨⟨nofun, ?_⟩, fun more hbounded => ?_⟩
              · exact Suspension.withinCall_mends trivial hlookup htraverse hmends
              · obtain ⟨fewer, rfl⟩ := hbounded.exists_succ
                have hfewer := hbounded.of_traversing hlookup htraverse
                exact Suspension.withinCall_bounded hlookup htraverse (hlevels fewer hfewer)
        | false => exact .raw htraverse htraverse (hcall _ (.raw htraverse))

end DecisionLogic
