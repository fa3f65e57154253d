import DecisionLogic.Proofs.Resumption.Chain
import DecisionLogic.Proofs.Suspension.Supply

/-!
# Suspended outcomes

However an evaluation is started, and whatever suspension it continues, it is suspended only where
yields are supported, and then with a tree that is well formed and can be continued.
-/

namespace DecisionLogic

/-- A run, a call of a built program, or the continuation of any suspension, also of one that no
evaluation ended with. -/
inductive Engine.Evaluates (engine : Engine) : Computation Evaluation → Prop
  | run (logic data : Json) (above : List Json) : Evaluates engine (engine.run logic data above)
  | call {logic : Json} {above : List Json} {world : World} {program : Program}
      (hbuild : (Program.build engine logic above world).1 = .ok program) (data : Json) :
      Evaluates engine (program.call data)
  | resume (suspension : Suspension) (replacements : Replacements) (data : Json)
      (above : List Json) : Evaluates engine (engine.resume suspension replacements data above)

/-- The operator draws identifiers only by evaluations, which it asks for as it likes.  It returns a
value, a reason to wait, or values that are still computed, or it fails, but not because suspensions
are disabled where they are tracked. -/
def Operator.Plain (tracking : Bool) (operator : Operator) : Prop :=
  operator.Obeys (.supply tracking) (fun _ _ => True) False

variable {engine : Engine}

theorem Engine.governs_supply
    (hextends : engine.registry.Extends (Operator.Plain engine.options.yieldSupported)) :
    (Law.supply engine.options.yieldSupported).Governs (Law.supply_supplies _)
      (fun drawn s => s.Supplied engine.options.yieldSupported drawn) engine fun _ => True := by
  refine ⟨Suspension.Supplied.carries engine.options, fun _ _ => nofun, ?_, ?_,
    fun _ _ _ _ => trivial, fun _ _ _ _ _ _ => nofun, fun _ _ _ _ _ _ => trivial,
    fun _ _ _ _ _ w _ => ⟨0, rfl, rfl⟩, ?_⟩
  · intro name failure hfails htracking other hwithin
    exact hfails htracking other (Failure.eq_of_within hwithin nofun)
  · intro hdisabled name htracking
    rw [hdisabled] at htracking
    cases htracking
  · intro name args operator _ hlookup input _
    rcases hextends name operator hlookup with hstandard | ⟨-, hplain⟩
    · refine (Standard.body_of_lookup hstandard).serves
        (Suspension.Supplied.carries engine.options) ?_ fun _ _ _ => trivial
      intro failure hrefuses
      cases hrefuses with
      | arguments | path => exact fun _ => nofun
    · exact hplain.serves (fun _ _ => trivial) False.elim

/-! ## Failures before anything is evaluated -/

namespace Logic

mutual

theorem parseAt_onlyFails {limit : Nat} : ∀ (value : Json) (depth : Nat),
    OnlyFails (· = .nestingTooDeep limit) (parseAt limit depth value)
  | .array items, depth => by
      unfold parseAt
      split
      · exact .error rfl
      · exact (parseItemsAt_onlyFails items (depth + 1)).map _
  | .object [(name, args)], depth => by
      unfold parseAt
      split
      · exact .error rfl
      · exact (parseAt_onlyFails args (depth + 1)).map _
  | .object [], _ | .object (_ :: _ :: _), _ | .null, _ | .bool _, _ | .number _, _
  | .string _, _ => by
      unfold parseAt
      split
      · exact .error rfl
      · exact .ok _

theorem parseItemsAt_onlyFails {limit : Nat} : ∀ (values : List Json) (depth : Nat),
    OnlyFails (· = .nestingTooDeep limit) (parseItemsAt limit depth values)
  | [], _ => .ok []
  | value :: values, depth => by
      unfold parseItemsAt
      split
      next failure hfirst => exact .error (parseAt_onlyFails value depth failure hfirst)
      next => exact (parseItemsAt_onlyFails values depth).map _

end

end Logic

namespace PartialTree

mutual

theorem rebuild_onlyFails (replacements : Replacements) : ∀ tree : PartialTree,
    OnlyFails (∃ problem, · = .resume problem) (tree.rebuild replacements)
  | .done _ => .ok _
  | .pending _ => .ok _
  | .point p => by
      unfold rebuild
      split
      · exact .ok _
      · exact .error ⟨_, rfl⟩
  | .sequence items => (rebuildItems_onlyFails replacements items).map _
  | .call _ _ args => (rebuild_onlyFails replacements args).map _

theorem rebuildItems_onlyFails (replacements : Replacements) : ∀ items : List PartialTree,
    OnlyFails (∃ problem, · = .resume problem) (rebuildItems replacements items)
  | [] => .ok _
  | item :: items => by
      unfold rebuildItems
      split
      next failure hitem => exact .error (rebuild_onlyFails replacements item failure hitem)
      next => exact (rebuildItems_onlyFails replacements items).map _

end

end PartialTree

theorem Suspension.toLogic_onlyFails (suspension : Suspension) (replacements : Replacements) :
    OnlyFails (∃ problem, · = .resume problem) (suspension.toLogic replacements) := by
  unfold toLogic
  split
  next failure hrebuild =>
    exact .error (PartialTree.rebuild_onlyFails replacements _ failure hrebuild)
  next =>
    split
    · exact .ok _
    · exact .error ⟨_, rfl⟩

/-! ## Evaluations -/

theorem Engine.Evaluates.keeps
    (hextends : engine.registry.Extends (Operator.Plain engine.options.yieldSupported))
    {computation : Computation Evaluation} (hevaluates : engine.Evaluates computation) :
    computation.Keeps (.supply engine.options.yieldSupported)
      ((Law.supply engine.options.yieldSupported).Allows (Evaluation.Linked (Linkage.of
        fun drawn s => s.Supplied engine.options.yieldSupported drawn))) := by
  have hgoverns := Engine.governs_supply hextends
  cases hevaluates with
  | run logic data above =>
      refine hgoverns.runLogic_keeps (fun failure hparse => ?_) (fun _ _ => trivial) data above
      rw [Logic.parseAt_onlyFails logic 0 failure hparse]
      exact hgoverns.tooDeep
  | call hbuild data => exact hgoverns.call_keeps hbuild (fun _ _ => trivial) data
  | resume suspension replacements data above =>
      refine hgoverns.runLogic_keeps (fun failure hlogic => ?_) (fun _ _ => trivial) data above
      obtain ⟨problem, rfl⟩ := suspension.toLogic_onlyFails replacements failure hlogic
      exact fun _ => nofun

/-- As long as the supply of points does not start over, every suspended outcome is well formed, and
values for exactly its points continue it.  There are suspended outcomes only where yields are
supported, and failures because suspensions are disabled only where they are not. -/
theorem Engine.suspended_wellFormed
    (hextends : engine.registry.Extends (Operator.Plain engine.options.yieldSupported))
    {computation : Computation Evaluation} (hevaluates : engine.Evaluates computation)
    {next : Nat} {job : Job Evaluation} (hreached : job.ReachedInOrder computation next)
    {world : World} (hnext : next ≤ world.nextPoint)
    (hcount : (job.poll world).2.2.nextPoint ≤ PointId.count) :
    (∀ suspension, (job.poll world).1 = .finished (.ok (.suspended suspension)) →
      engine.options.yieldSupported = true ∧ suspension.WellFormed ∧
        ∀ replacements : Replacements, (replacements.map Prod.fst).Nodup →
          (∀ id, id ∈ replacements.map Prod.fst ↔
            id ∈ suspension.points.map SuspensionPoint.id) →
              ∃ node, suspension.toLogic replacements = .ok node) ∧
      ∀ name, (job.poll world).1 = .finished (.error (.suspensionDisabled name)) →
        engine.options.yieldSupported = false := by
  obtain ⟨drawn, hunrepeated⟩ := hreached.unrepeated (hevaluates.keeps hextends)
  obtain ⟨more, hmore, hends⟩ := hunrepeated.poll hnext
  constructor
  · intro suspension hanswer
    cases hends _ hanswer with
    | ok _ hlinked =>
        cases hlinked with
        | suspended hsupplied =>
            have hsupplied : suspension.Supplied engine.options.yieldSupported more := hsupplied
            have hids := hsupplied.nodup_ids hmore.nodup fun n hn =>
              Nat.lt_of_lt_of_le (hmore.below n hn) hcount
            exact ⟨hsupplied.tracked,
              Suspension.wellFormed hsupplied.anchored hsupplied.pointed hids,
              fun _ hkeys hsame => Suspension.exists_toLogic hids hkeys hsame⟩
  · intro name hanswer
    cases hends _ hanswer with
    | error hfails =>
        cases hsupported : engine.options.yieldSupported with
        | false => rfl
        | true => exact absurd rfl (hfails hsupported name)

/-! ## Suspensions below a sequence, a call and an iteration -/

theorem askOperator_plain (tracking : Bool) : askOperator.Plain tracking :=
  Operator.obeys_of_pure rfl fun _ => .yield _

/-- The body of the iteration asks for each item, and the call of `and` asks once more. -/
def askingLogic : Json :=
  .array [
    .object [("map", .array [.array [.bool true, .null], .object [("ask", .null)]])],
    .object [("and", .array [.bool true, .object [("ask", .null)], .bool false])]]

def askingJob : Job Evaluation :=
  .new (askEngine.run askingLogic .null []) false

theorem suspended_wellFormed_asking :
    askEngine.registry.Extends (Operator.Plain askEngine.options.yieldSupported) ∧
      ∃ suspension, (askingJob.poll (.start 0)).1 = .finished (.ok (.suspended suspension)) ∧
        suspension.points.map SuspensionPoint.id = [.fresh 0, .fresh 2] ∧
        suspension.WellFormed ∧
        ∃ node, suspension.toLogic [(.fresh 2, .null), (.fresh 0, .bool true)] = .ok node := by
  have hextends : askEngine.registry.Extends (Operator.Plain askEngine.options.yieldSupported) :=
    (Standard.registry_extends _).insert "ask" rfl (askOperator_plain _)
  obtain ⟨suspension, hanswer, hids⟩ : ∃ suspension,
      (askingJob.poll (.start 0)).1 = .finished (.ok (.suspended suspension)) ∧
        suspension.points.map SuspensionPoint.id = [.fresh 0, .fresh 2] := ⟨_, rfl, rfl⟩
  have hreached : askingJob.ReachedInOrder (askEngine.run askingLogic .null []) 0 := .new false
  have hnext : (askingJob.poll (.start 0)).2.2.nextPoint = 3 := rfl
  have hcount : (askingJob.poll (.start 0)).2.2.nextPoint ≤ PointId.count := by
    rw [hnext]
    decide
  obtain ⟨hsuspended, -⟩ := Engine.suspended_wellFormed hextends (.run askingLogic .null [])
    hreached (Nat.zero_le (World.start 0).nextPoint) hcount
  obtain ⟨-, hwellFormed, hcontinued⟩ := hsuspended suspension hanswer
  refine ⟨hextends, suspension, hanswer, hids, hwellFormed, hcontinued _ (by decide) ?_⟩
  intro id
  rw [hids]
  simp [or_comm]

end DecisionLogic
