import DecisionLogic.Proofs.Alike.Engine
import DecisionLogic.Proofs.Alike.Standard
import DecisionLogic.Proofs.Program.Folding

/-!
# Compiled trees agree with the interpreter

Evaluating a node and executing what it compiles to cannot be told apart, as long as the added
operators have only nodes of their own raw arguments evaluated and none of them is annotated
deterministic.
-/

namespace DecisionLogic

variable {engine : Engine} {pairs : Pairing}

structure Operator.Faithful (operator : Operator) : Prop where
  undetermined : operator.Undetermined
  uniform : operator.Uniform Input.Owns

theorem Registry.Extends.uniform {registry : Registry}
    (hextends : registry.Extends Operator.Faithful) : registry.Uniform Input.Owns := by
  intro name operator hlookup
  rcases hextends name operator hlookup with hstandard | ⟨-, hfaithful⟩
  · exact (Standard.standardOperator_of_lookup hstandard).uniform
  · exact hfaithful.uniform

/-! ## Levels -/

theorem Input.height_le_of_owns {input : Input} {node : Logic} {levels : Nat}
    (howns : input.Owns node) (hpos : 0 < levels)
    (hraw : ∀ args, input = .raw args → args.height ≤ levels) : node.height ≤ levels := by
  rcases howns with ⟨value, rfl⟩ | ⟨args, hargs, hwithin⟩
  · rw [Logic.height]
    exact hpos
  · exact Nat.le_trans hwithin.height_le (hraw args hargs)

theorem Input.height_le_of_owns_evaluated {value : Json} {node : Logic} {levels : Nat}
    (howns : (Input.evaluated value).Owns node) (hpos : 0 < levels) : node.height ≤ levels := by
  apply Input.height_le_of_owns howns hpos
  intro args hinput
  cases hinput

/-- It does not matter how many levels are left, as long as there are enough for the node. -/
theorem Engine.evaluate_alike_levels (huniform : engine.registry.Uniform Input.Owns)
    {levels levels' : Nat} {node : Logic} (hheight : node.height ≤ levels)
    (hheight' : node.height ≤ levels') (scope : Scope) :
    Computation.AlikeFrom Likeness.evaluation [] (engine.evaluate levels node scope)
      (engine.evaluate levels' node scope) := by
  have hpos := node.height_pos
  induction levels generalizing levels' node scope with
  | zero => omega
  | succ levels ih =>
      cases levels' with
      | zero => omega
      | succ levels' =>
          apply evaluate_alike_succ
            (fun other => other.height ≤ levels ∧ other.height ≤ levels') huniform
          · intro other hother scope
            exact ih hother.1 hother.2 scope other.height_pos
          · rintro items rfl item hitem
            have hitemHeight := Logic.height_le_itemsHeight hitem
            rw [Logic.height] at hheight hheight'
            omega
          · rintro name args rfl
            rw [Logic.height] at hheight hheight'
            omega
          · rintro name args rfl other howns
            rw [Logic.height] at hheight hheight'
            have hargs := args.height_pos
            have hraw : ∀ args', Input.raw args = .raw args' → args'.height = args.height := by
              rintro args' ⟨⟩
              rfl
            constructor
            · apply Input.height_le_of_owns howns (by omega)
              intro args' hinput
              rw [hraw args' hinput]
              omega
            · apply Input.height_le_of_owns howns (by omega)
              intro args' hinput
              rw [hraw args' hinput]
              omega
          · rintro name args rfl value other howns
            rw [Logic.height] at hheight hheight'
            have hargs := args.height_pos
            exact ⟨Input.height_le_of_owns_evaluated howns (by omega),
              Input.height_le_of_owns_evaluated howns (by omega)⟩

/-! ## Trees that compile to a value -/

theorem Engine.evaluate_of_cancelled (engine : Engine) (levels : Nat) (node : Logic) (scope : Scope)
    {world : World} (hcancelled : world.cancelled = true) :
    engine.evaluate levels node scope world = .finished world (.error .cancelled) := by
  have hstopped : Computation.checkCancelled world = .finished world (.error .cancelled) := by
    simp [Computation.checkCancelled, hcancelled]
  cases levels with
  | zero =>
      unfold evaluate
      rw [Computation.bind_apply, hstopped]
      rfl
  | succ levels =>
      unfold evaluate
      rw [Computation.bind_apply, hstopped]
      rfl

theorem alike_of_givesAtOnce {c : Computation Evaluation} {value : Json}
    (hstopped : ∀ world, world.cancelled = true → c world = .finished world (.error .cancelled))
    (hgives : c.GivesAtOnce (.done value)) (scope : Scope) :
    Computation.AlikeFrom Likeness.evaluation pairs c
      (Compiled.execute engine scope (.literal value)) := by
  intro more w v _ hsame
  unfold Compiled.execute
  rw [Computation.bind_apply]
  unfold Computation.checkCancelled
  rw [← hsame.cancelled]
  cases hcancelled : w.cancelled with
  | true =>
      rw [hstopped w hcancelled]
      exact .finished (.refl hsame) (.error .cancelled)
  | false =>
      obtain ⟨calls, hcalls, hrun⟩ := hgives w hcancelled
      rw [hrun]
      have hnone : calls.filter (fun invocation => invocation.origin = .custom) = [] := by
        rw [List.filter_eq_nil_iff]
        intro invocation hmem
        rw [hcalls invocation hmem]
        decide
      have hadvance : World.Advance w v { w with trace := calls ++ w.trace } v 0 :=
        ⟨⟨rfl, rfl, calls, [], rfl, rfl, hnone⟩, ⟨hsame.bag, hsame.cancelled⟩⟩
      exact .finished hadvance (.ok (.done value))

/-! ## Evaluation and execution -/

namespace Compiled

variable {levels : Nat} {scope : Scope}

theorem literal_alike (hextends : engine.registry.Extends Operator.Faithful) {node : Logic}
    {value : Json} (htranslates : Translates engine node (.literal value))
    (hheight : node.height ≤ levels) :
    Computation.AlikeFrom Likeness.evaluation [] (engine.evaluate levels node scope)
      (execute engine scope (.literal value)) := by
  apply alike_of_givesAtOnce
  · intro world hcancelled
    exact engine.evaluate_of_cancelled levels node scope hcancelled
  · exact evaluate_of_literal (hextends.mono fun _ hfits => hfits.undetermined) scope htranslates
      hheight

theorem sequence_alike {items : List Logic} {compiled : List Compiled}
    (hall : List.Forall₂ (Computation.AlikeFrom Likeness.evaluation [])
      (items.map fun item => engine.evaluate levels item scope)
      (executeItems engine scope compiled)) :
    Computation.AlikeFrom Likeness.evaluation []
      (engine.evaluate (levels + 1) (.sequence items) scope)
      (execute engine scope (.sequence compiled)) := by
  unfold Engine.evaluate execute
  refine .bind .checkCancelled fun more _ _ _ _ => joined_alike ?_
  exact hall.imp fun _ _ h => h.weaken (List.nil_subset _)

theorem call_alike (hextends : engine.registry.Extends Operator.Faithful) {name : String}
    {operator : Operator} {args : Logic} {compiled : Compiled}
    (hlookup : engine.registry.lookup name = some operator) (htraverse : operator.traverse = true)
    (hheight : args.height ≤ levels) (hengine : args.height ≤ engine.levels)
    (hargs : Computation.AlikeFrom Likeness.evaluation [] (engine.evaluate levels args scope)
      (execute engine scope compiled)) :
    Computation.AlikeFrom Likeness.evaluation []
      (engine.evaluate (levels + 1) (.operation name args) scope)
      (execute engine scope (.call name operator compiled args)) := by
  have hpos := args.height_pos
  unfold Engine.evaluate execute
  simp only [hlookup, htraverse, if_true]
  refine .bind .checkCancelled fun more _ _ _ _ => ?_
  refine .bind (hargs.weaken (List.nil_subset _)) ?_
  intro more' evaluation evaluation' _ hevaluation
  cases hevaluation with
  | done value =>
      apply callOperator_alike_of_uniform (hextends.uniform _ _ hlookup)
      apply Engine.handle_alike
      intro node howns
      exact engine.evaluate_alike_levels hextends.uniform
        (Input.height_le_of_owns_evaluated howns (by omega))
        (Input.height_le_of_owns_evaluated howns (by omega))
  | suspended hroot =>
      exact .pure Likeness.evaluation_lasting (.suspended ⟨rfl, rfl, hroot⟩)

theorem rawCall_alike (hextends : engine.registry.Extends Operator.Faithful) {name : String}
    {operator : Operator} {args : Logic} (hlookup : engine.registry.lookup name = some operator)
    (htraverse : operator.traverse = false) (hheight : args.height ≤ levels)
    (hengine : args.height ≤ engine.levels) :
    Computation.AlikeFrom Likeness.evaluation []
      (engine.evaluate (levels + 1) (.operation name args) scope)
      (execute engine scope (.rawCall name operator args)) := by
  have hpos := args.height_pos
  unfold Engine.evaluate execute
  simp only [hlookup, htraverse, Bool.false_eq_true, if_false]
  refine .bind .checkCancelled fun more _ _ _ _ => ?_
  apply callOperator_alike_of_uniform (hextends.uniform _ _ hlookup)
  apply Engine.handle_alike
  intro node howns
  apply engine.evaluate_alike_levels hextends.uniform
  · apply Input.height_le_of_owns howns (by omega)
    rintro args' ⟨⟩
    exact hheight
  · apply Input.height_le_of_owns howns (by omega)
    rintro args' ⟨⟩
    exact hengine

mutual

theorem execute_alike (hextends : engine.registry.Extends Operator.Faithful) (scope : Scope) :
    ∀ {node : Logic} {compiled : Compiled} (levels : Nat), Translates engine node compiled →
      node.height ≤ levels + 1 → node.height ≤ engine.levels →
        Computation.AlikeFrom Likeness.evaluation [] (engine.evaluate (levels + 1) node scope)
          (execute engine scope compiled)
  | _, _, _, .literal value, hheight, _ => literal_alike hextends (.literal value) hheight
  | _, _, _, .folded hitems hvalues, hheight, _ =>
      literal_alike hextends (.folded hitems hvalues) hheight
  | _, _, _, .inlined hlookup htraverse hargs hinlinable hactive hcall, hheight, _ =>
      literal_alike hextends (.inlined hlookup htraverse hargs hinlinable hactive hcall) hheight
  | _, _, levels, .sequence hitems, hheight, hengine =>
      sequence_alike (executeItems_alike hextends scope levels hitems
        (Nat.le_of_succ_le_succ hheight) (Nat.le_of_succ_le hengine))
  | .operation _ args, _, 0, .call _ _ _, hheight, _ =>
      absurd (Nat.le_of_succ_le_succ hheight) (Nat.not_le_of_gt args.height_pos)
  | _, _, levels + 1, .call hlookup htraverse hargs, hheight, hengine =>
      call_alike hextends hlookup htraverse (Nat.le_of_succ_le_succ hheight)
        (Nat.le_of_succ_le hengine)
        (execute_alike hextends scope levels hargs (Nat.le_of_succ_le_succ hheight)
          (Nat.le_of_succ_le hengine))
  | _, _, _, .rawCall hlookup htraverse, hheight, hengine =>
      rawCall_alike hextends hlookup htraverse (Nat.le_of_succ_le_succ hheight)
        (Nat.le_of_succ_le hengine)

theorem executeItems_alike (hextends : engine.registry.Extends Operator.Faithful) (scope : Scope) :
    ∀ {items : List Logic} {compiled : List Compiled} (levels : Nat),
      TranslatesItems engine items compiled → Logic.itemsHeight items ≤ levels →
        Logic.itemsHeight items ≤ engine.levels →
          List.Forall₂ (Computation.AlikeFrom Likeness.evaluation [])
            (items.map fun item => engine.evaluate levels item scope)
            (executeItems engine scope compiled)
  | _, _, _, .nil, _, _ => .nil
  | item :: _, _, 0, .cons _ _, hheight, _ =>
      absurd (Nat.le_trans (Nat.le_max_left _ _) hheight) (Nat.not_le_of_gt item.height_pos)
  | _, _, levels + 1, .cons hitem hitems, hheight, hengine =>
      .cons
        (execute_alike hextends scope levels hitem (Nat.le_trans (Nat.le_max_left _ _) hheight)
          (Nat.le_trans (Nat.le_max_left _ _) hengine))
        (executeItems_alike hextends scope (levels + 1) hitems
          (Nat.le_trans (Nat.le_max_right _ _) hheight)
          (Nat.le_trans (Nat.le_max_right _ _) hengine))

end

end Compiled

/-- Running logic and calling the program built from it cannot be told apart. -/
theorem Program.call_alike_run {logic : Json} {above : List Json} {world : World}
    {program : Program} (hextends : engine.registry.Extends Operator.Faithful)
    (hbuild : (Program.build engine logic above world).1 = .ok program) (data : Json) :
    Computation.AlikeFrom Likeness.evaluation [] (engine.run logic data above)
      (program.call data) := by
  obtain ⟨hengine, habove, node, hparse, htranslates⟩ := Program.translates_of_build hbuild
  have hheight : node.height ≤ engine.levels := Logic.height_of_parseBounded hparse
  rw [Engine.run_of_parse hparse, Program.call, hengine, habove]
  exact Compiled.execute_alike hextends _ engine.options.maxDepth htranslates hheight hheight

end DecisionLogic
