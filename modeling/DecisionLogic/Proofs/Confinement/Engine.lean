import DecisionLogic.Proofs.Confinement.Bodies
import DecisionLogic.Proofs.Confinement.Paths
import DecisionLogic.Proofs.Resumption.Plain

/-!
# Evaluating confined logic

Confined logic is evaluated alike in scopes that agree as far as its paths go up.  At the outermost
level that is no step at all, so it makes no difference what encloses the data.
-/

namespace DecisionLogic

variable {engine : Engine} {level : Nat} {name : String} {operator : Operator} {args : Logic}
  {s t : Scope} {handle : Handle}

/-! ## Operations -/

namespace Logic.Confined

theorem arguments {registry : Registry}
    (hconfined : (Logic.operation name args).Confined registry level)
    (hlookup : registry.lookup name = some operator) (htraverse : operator.traverse = true) :
    args.Confined registry level := by
  cases hconfined with
  | operation hstandard harguments _ _ =>
      have hnames := Standard.names_of_traverse (hstandard ▸ hlookup) htraverse
      refine confined_of_arguments fun node hnode => ?_
      obtain ⟨i, hi⟩ := List.mem_iff_getElem?.mp hnode
      simpa [hnames.2] using harguments hnames.1 i node hi

/-- The operator has the value of its arguments. -/
theorem call_eq {registry : Registry}
    (hconfined : (Logic.operation name args).Confined registry level)
    (hlookup : registry.lookup name = some operator) (htraverse : operator.traverse = true)
    (hagree : s.Agree (2 * level) t) {value : Json} (hshapes : args.Shapes value) :
    callOperator name operator (.evaluated value) s handle =
      callOperator name operator (.evaluated value) t handle := by
  cases hconfined with
  | operation hstandard _ hvar hmissing =>
      have hbody := Standard.body_of_lookup (hstandard ▸ hlookup)
      refine callOperator_congr ?_
      generalize operator.body = body at hbody ⊢
      rw [htraverse] at hbody
      cases hbody with
      | arguments _ => rfl
      | readVariable =>
          have hread := Standard.readVariable_congr hagree
            (Standard.names_argument (hvar rfl) hshapes)
          simp only [OperatorBody.run, Standard.ofScope, hread]
      | missing =>
          have hmissing := Standard.missing_congr hagree
            (Standard.names_missingPaths (hmissing rfl) hshapes)
          simp only [OperatorBody.run, Standard.ofScope, hmissing]

/-- An operation that has its arguments evaluated first. -/
theorem traversing_eq {registry : Registry}
    (hconfined : (Logic.operation name args).Confined registry level)
    (hlookup : registry.lookup name = some operator) (htraverse : operator.traverse = true)
    (hagree : s.Agree (2 * level) t) {c d : Computation Evaluation} (hargs : c = d)
    (hgives : args.Gives d) :
    (c >>= fun evaluation =>
      match evaluation with
      | .done value => callOperator name operator (.evaluated value) s handle
      | .suspended suspension => Pure.pure (.suspended (suspension.withinCall name args.toJson))) =
    (d >>= fun evaluation =>
      match evaluation with
      | .done value => callOperator name operator (.evaluated value) t handle
      | .suspended suspension =>
          Pure.pure (.suspended (suspension.withinCall name args.toJson))) := by
  subst hargs
  refine Computation.Keeps.bind_congr hgives fun _ evaluation hallows => ?_
  cases evaluation with
  | suspended suspension => rfl
  | done value =>
      cases hallows with
      | ok _ hshaped => exact hconfined.call_eq hlookup htraverse hagree (hshaped value rfl)

/-- The operator has the tree of its arguments, and evaluates what is confined alike. -/
theorem rawCall_eq {registry : Registry}
    (hconfined : (Logic.operation name args).Confined registry level)
    (hlookup : registry.lookup name = some operator) (htraverse : operator.traverse = false)
    (hagree : s.Agree (2 * level) t)
    (hevaluate : ∀ (node : Logic) (level : Nat) (s t : Scope), node.Confined registry level →
      s.Agree (2 * level) t → handle.evaluate node s = handle.evaluate node t) :
    callOperator name operator (.raw args) s handle =
      callOperator name operator (.raw args) t handle := by
  cases hconfined with
  | operation hstandard harguments _ _ =>
      have hbody := Standard.body_of_lookup (hstandard ▸ hlookup)
      refine callOperator_congr ?_
      generalize operator.body = body at hbody ⊢
      rw [htraverse] at hbody
      cases hbody with
      | preserve => rfl
      | choice hchoice =>
          obtain ⟨hpreserve, hiterates⟩ := hchoice.name_notMem
          refine congrArg Computation.cancellable
            (Standard.choice_congr hchoice fun node hnode => ?_)
          obtain ⟨i, hi⟩ := List.mem_iff_getElem?.mp hnode
          have hnode := harguments hpreserve i node hi
          simp only [hiterates, false_and, if_false] at hnode
          exact hevaluate node level s t hnode hagree
      | iteration hiteration =>
          obtain ⟨hpreserve, hiterates⟩ := hiteration.name_mem
          refine congrArg Computation.cancellable (Standard.iteration_congr hiteration ?_ ?_)
          · intro i node hi hnode
            have hnode := harguments hpreserve i node hnode
            simp only [hi, and_false, if_false] at hnode
            exact hevaluate node level s t hnode hagree
          · intro items item
            have hbody : (Standard.bodyOf (.raw args)).Confined registry (level + 1) := by
              unfold Standard.bodyOf
              rw [List.getD_eq_getElem?_getD]
              cases hnode : (Input.raw args).argumentNodes[1]? with
              | none => exact .literal (level + 1) .null
              | some node => simpa [hiterates] using harguments hpreserve 1 node hnode
            exact hevaluate _ _ _ _ hbody ((hagree.child _).child _)

/-! ## Engines -/

theorem evaluate_eq (levels : Nat) : ∀ (node : Logic) (level : Nat) (s t : Scope),
    node.Confined engine.registry level → s.Agree (2 * level) t →
      engine.evaluate levels node s = engine.evaluate levels node t := by
  induction levels with
  | zero =>
      intro node level s t _ _
      rfl
  | succ levels ih =>
      intro node level s t hconfined hagree
      cases node with
      | literal value => rfl
      | sequence items =>
          cases hconfined with
          | sequence hitems =>
              have hsame : (items.map fun item => engine.evaluate levels item s) =
                  items.map fun item => engine.evaluate levels item t :=
                List.map_congr_left fun item hitem => ih item level s t (hitems item hitem) hagree
              simp only [Engine.evaluate, hsame]
      | operation name args =>
          simp only [Engine.evaluate]
          cases hlookup : engine.registry.lookup name with
          | none => rfl
          | some operator =>
              cases htraverse : operator.traverse with
              | true =>
                  have hargs := ih args level s t (hconfined.arguments hlookup htraverse) hagree
                  simp only [htraverse, if_true]
                  refine congrArg (fun next => Computation.checkCancelled >>= fun _ => next) ?_
                  exact hconfined.traversing_eq hlookup htraverse hagree hargs
                    (Logic.gives_evaluate levels args t)
              | false =>
                  simp only [htraverse, Bool.false_eq_true, if_false]
                  refine congrArg (fun next => Computation.checkCancelled >>= fun _ => next) ?_
                  exact hconfined.rawCall_eq hlookup htraverse hagree ih

open Compiled

mutual

theorem execute_eq (hagree : s.Agree (2 * level) t) : ∀ {node : Logic} {compiled : Compiled},
    Translates engine node compiled → node.Confined engine.registry level →
      execute engine s compiled = execute engine t compiled
  | _, _, .literal _, _ => by
      unfold execute
      rfl
  | _, _, .folded _ _, _ => by
      unfold execute
      rfl
  | _, _, .inlined _ _ _ _ _ _, _ => by
      unfold execute
      rfl
  | _, _, .sequence hitems, .sequence hconfined => by
      unfold execute
      rw [executeItems_eq hagree hitems hconfined]
  | .operation name args, _, .call hlookup htraverse hargs, hconfined => by
      unfold execute
      have hsame := execute_eq hagree hargs (hconfined.arguments hlookup htraverse)
      refine congrArg (fun next => Computation.checkCancelled >>= fun _ => next) ?_
      exact hconfined.traversing_eq hlookup htraverse hagree hsame hargs.gives
  | .operation name args, _, .rawCall hlookup htraverse, hconfined => by
      unfold execute
      refine congrArg (fun next => Computation.checkCancelled >>= fun _ => next) ?_
      exact hconfined.rawCall_eq hlookup htraverse hagree (evaluate_eq engine.levels)

theorem executeItems_eq (hagree : s.Agree (2 * level) t) :
    ∀ {items : List Logic} {compiled : List Compiled}, TranslatesItems engine items compiled →
      (∀ item ∈ items, item.Confined engine.registry level) →
        executeItems engine s compiled = executeItems engine t compiled
  | _, _, .nil, _ => by
      unfold executeItems
      rfl
  | _, _, .cons hitem hitems, hconfined => by
      rw [List.forall_mem_cons] at hconfined
      unfold executeItems
      rw [execute_eq hagree hitem hconfined.1, executeItems_eq hagree hitems hconfined.2]

end

end Logic.Confined

/-- Two lists of data may enclose the data of a run of confined logic, or of a call of the program
built from it: the evaluations are the same. -/
theorem Engine.confined_run_eq {logic : Json}
    (hconfined : (Logic.parse logic).Confined engine.registry 0) (data : Json)
    (above above' : List Json) :
    engine.run logic data above = engine.run logic data above' ∧
      ∀ world : World,
        (Program.build engine logic above world).1.map (fun program => program.call data) =
          (Program.build engine logic above' world).1.map fun program => program.call data := by
  have hagree : (Scope.withAbove data above).Agree (2 * 0) (.withAbove data above') := .here rfl
  constructor
  · unfold Engine.run
    cases hparse : Logic.parseBounded engine.options.maxDepth logic with
    | error failure => rfl
    | ok node =>
        obtain rfl := Logic.parse_of_parseAt hparse
        exact hconfined.evaluate_eq engine.levels _ 0 _ _ hagree
  · intro world
    have hsame : (Program.build engine logic above' world).1 =
        (Program.build engine logic above world).1.map
          fun program => { program with above := above' } := by
      unfold Program.build
      split
      · rfl
      · split <;> rfl
    rw [hsame]
    cases hbuild : (Program.build engine logic above world).1 with
    | error failure => rfl
    | ok program =>
        obtain ⟨hengine, habove, node, hparse, htranslates⟩ := Program.translates_of_build hbuild
        obtain rfl := Logic.parse_of_parseAt hparse
        have hcall := Logic.Confined.execute_eq hagree htranslates hconfined
        simp only [Except.map, Program.call, hengine, habove, hcall]

/-! ## A body inside a body -/

namespace Logic.Confined

variable {registry : Registry}

/-- Operators that evaluate all their arguments where they stand, and read no variables. -/
theorem plain (hstandard : registry.lookup name = Standard.registry.lookup name)
    (hvar : name ≠ "var") (hmissing : name ≠ "missing") (hiterates : name ∉ Standard.iterationNames)
    (harguments : ∀ node ∈ args.arguments, node.Confined registry level) :
    (Logic.operation name args).Confined registry level := by
  refine .operation hstandard (fun _ i node hnode => ?_) (fun hname => absurd hname hvar)
    fun hname => absurd hname hmissing
  simpa [hiterates] using harguments node (List.mem_of_getElem? hnode)

theorem iteration (hstandard : registry.lookup name = Standard.registry.lookup name)
    (hname : name ∈ Standard.iterationNames) {source body : Logic}
    (hsource : source.Confined registry level) (hbody : body.Confined registry (level + 1)) :
    (Logic.operation name (.sequence [source, body])).Confined registry level := by
  refine .operation hstandard (fun _ i node hnode => ?_) ?_ ?_
  · match i with
    | 0 =>
        cases hnode
        simpa using hsource
    | 1 =>
        cases hnode
        simpa [hname] using hbody
    | i + 2 => cases hnode
  · rintro rfl
    exact absurd hname (by decide)
  · rintro rfl
    exact absurd hname (by decide)

theorem «variable» (hstandard : registry.lookup "var" = Standard.registry.lookup "var")
    {path : String} (hups : (Path.parse path).ups ≤ 2 * level) :
    (Logic.operation "var" (.literal (.string path))).Confined registry level := by
  refine .operation hstandard (fun _ i node hnode => ?_) (fun _ node hnode => ?_) nofun
  · rw [List.mem_singleton.mp (List.mem_of_getElem? hnode)]
    exact .literal _ _
  · cases hnode
    exact ⟨_, rfl, path, fun _ => rfl, hups⟩

end Logic.Confined

/-- For each of the `xs`, whether it is one of the `ys`. -/
def membersLogic : Json :=
  .object [("map", .array [
    .object [("var", .string "xs")],
    .object [("some", .array [
      .object [("var", .string "../../ys")],
      .object [("===", .array [
        .object [("var", .string "")],
        .object [("var", .string "../../")]])]])]])]

def membersData : Json :=
  .object [("xs", .array [.string "a", .string "b"]), ("ys", .array [.string "b", .string "c"])]

theorem membersLogic_result :
    ((Engine.standard {}).run membersLogic membersData [] (.start 0)).result? =
      some (.ok (.done (.array [.bool false, .bool true]))) :=
  rfl

theorem membersLogic_confined : (Logic.parse membersLogic).Confined Standard.registry 0 := by
  have hsame : (Logic.parse (.object [("===", .array [.object [("var", .string "")],
      .object [("var", .string "../../")]])])).Confined Standard.registry 2 := by
    refine .plain rfl (by decide) (by decide) (by decide) ?_
    simp only [Logic.arguments, Logic.parse, Logic.parseItems, List.forall_mem_cons,
      List.not_mem_nil, false_implies, implies_true, and_true]
    exact ⟨.variable rfl (by decide), .variable rfl (by decide)⟩
  refine .iteration rfl (by decide) (.variable rfl (by decide)) ?_
  exact .iteration rfl (by decide) (.variable rfl (by decide)) hsame

theorem confined_run_eq_members :
    let engine := Engine.standard {}
    let above : List Json := [.object [("ys", .array [.string "a"])], .string "b"]
    (Logic.parse membersLogic).Confined engine.registry 0 ∧
      engine.run membersLogic membersData [] = engine.run membersLogic membersData above ∧
      (engine.run membersLogic membersData above (.start 0)).result? =
        some (.ok (.done (.array [.bool false, .bool true]))) := by
  intro engine above
  obtain ⟨hrun, -⟩ := engine.confined_run_eq membersLogic_confined membersData [] above
  exact ⟨membersLogic_confined, hrun, hrun ▸ membersLogic_result⟩

end DecisionLogic
