import DecisionLogic.Proofs.Continuation.Bodies
import DecisionLogic.Proofs.Continuation.Trees
import DecisionLogic.Proofs.Resumption.Chain

/-!
# Arguments that were not reached

When an evaluation is suspended and its points are answered, the tree that is left continues the
one that was evaluated: every argument that was not reached is in its place.  It went through its
JSON form, so it is the same argument exactly if it is inert.
-/

namespace DecisionLogic

open Standard

/-- How an argument that was not reached is kept. -/
def Logic.KeptAs (argument kept : Logic) : Prop :=
  kept = argument.reparse ∧ (kept = argument ↔ argument.isInert = true)

theorem Logic.keptAs_reparse (argument : Logic) : argument.KeptAs argument.reparse :=
  ⟨rfl, argument.plain_iff_isInert⟩

theorem Logic.keptAs_map_reparse (arguments : List Logic) :
    List.Forall₂ KeptAs arguments (arguments.map reparse) := by
  rw [List.forall₂_map_right_iff, List.forall₂_same]
  exact fun argument _ => argument.keptAs_reparse

variable {engine : Engine} {levels : Nat} {scope : Scope} {name : String} {args tree : Logic}

/-- With so many levels, all suspensions of a node lead to trees that continue it. -/
def Engine.Continuing (engine : Engine) (levels : Nat) : Prop :=
  ∀ node scope suspension tree,
    (engine.evaluate levels node scope).ComesTo (.suspended suspension) →
      suspension.root.Becomes tree → Continues engine Logic.KeptAs node tree

/-! ## Sequences -/

theorem continuesItems_of_comesTo (hbelow : engine.Continuing levels) {items nodes : List Logic}
    {results : List Evaluation}
    (hresults : List.Forall₂ (fun item => (engine.evaluate levels item scope).ComesTo) items
      results)
    (hnodes : List.Forall₂ PartialTree.Becomes (results.map PartialTree.ofEvaluation) nodes) :
    ContinuesItems engine Logic.KeptAs items nodes := by
  induction hresults generalizing nodes with
  | nil =>
      cases hnodes
      exact .nil
  | @cons item result items results hresult _ ih =>
      cases hnodes with
      | cons hnode hrest =>
          cases result with
          | done value =>
              obtain rfl := hnode.of_done
              exact .finished item value (ih hrest)
          | suspended suspension =>
              exact .continued (hbelow item scope suspension _ hresult hnode) (ih hrest)

/-! ## Calls of standard operators -/

theorem continues_of_decides (hbelow : engine.Continuing levels) {suspension : Suspension}
    (hname : name = "and" ∨ name = "or")
    (hdecides : Decides name (.raw args) scope (engine.handle (engine.evaluate levels))
      args.arguments (.evaluation (.suspended suspension)))
    (htree : suspension.root.Becomes tree) :
    Continues engine Logic.KeptAs (.operation name args) tree := by
  generalize houtput : Output.evaluation (.suspended suspension) = output at hdecides
  cases hdecides with
  | value value => cases houtput
  | suspended before hnodes hsuspended =>
      cases houtput
      obtain ⟨node, hnode, rfl⟩ := Suspension.becomes_ofArguments htree
      exact .operand hname hnodes (hbelow _ scope _ node hsuspended hnode)
        (Logic.keptAs_map_reparse _)

theorem continues_of_chooses (hbelow : engine.Continuing levels) {suspension : Suspension}
    (hname : name = "if" ∨ name = "?:")
    (hchooses : Chooses name (.raw args) scope (engine.handle (engine.evaluate levels))
      args.arguments (.evaluation (.suspended suspension)))
    (htree : suspension.root.Becomes tree) :
    Continues engine Logic.KeptAs (.operation name args) tree := by
  generalize houtput : Output.evaluation (.suspended suspension) = output at hchooses
  cases hchooses with
  | null => cases houtput
  | branch before hnodes hresult hevaluation =>
      cases houtput
      exact .branch hname hnodes hresult (hbelow _ scope _ tree hevaluation htree)
  | condition before hnodes heven hafter hsuspended =>
      cases houtput
      obtain ⟨node, hnode, rfl⟩ := Suspension.becomes_ofArguments htree
      exact .condition hname hnodes heven hafter (hbelow _ scope _ node hsuspended hnode)
        (Logic.keptAs_map_reparse _)

/-- The start value is the third argument, behind the source and the body. -/
theorem arguments_of_initial {node : Logic} (hnode : args.arguments[2]? = some node) :
    ∃ source rest, args.arguments = source :: bodyOf (.raw args) :: node :: rest := by
  unfold bodyOf
  change ∃ source rest, args.arguments = source :: args.arguments.getD 1 (.literal .null) ::
    node :: rest
  match harguments : args.arguments with
  | [] | [_] | [_, _] => simp [harguments] at hnode
  | source :: body :: third :: rest =>
      obtain rfl : third = node := by simpa [harguments] using hnode
      exact ⟨source, rest, rfl⟩

theorem continues_of_iterates (hbelow : engine.Continuing levels) {suspension : Suspension}
    (hname : name ∈ iterationNames)
    (hiterates : Iterates name (.raw args) scope (engine.handle (engine.evaluate levels))
      (.evaluation (.suspended suspension)))
    (htree : suspension.root.Becomes tree) :
    Continues engine Logic.KeptAs (.operation name args) tree := by
  generalize houtput : Output.evaluation (.suspended suspension) = output at hiterates
  cases hiterates with
  | value value => cases houtput
  | source hnodes hsuspended =>
      cases houtput
      obtain ⟨node, hnode, rfl⟩ := Suspension.becomes_ofArguments htree
      exact .source hname hnodes (hbelow _ scope _ node hsuspended hnode)
        (Logic.keptAs_map_reparse _)
  | initial items hreduce hinitial hsuspended =>
      cases houtput
      subst hreduce
      obtain ⟨args', rfl, hargs⟩ := htree.of_call
      obtain ⟨nodes, rfl, hnodes⟩ := hargs.of_sequence
      obtain ⟨source, rest, harguments⟩ := arguments_of_initial hinitial
      cases hnodes with
      | cons hitems hnodes =>
          cases hnodes with
          | cons hbody hnodes =>
              cases hnodes with
              | cons hnode hnodes =>
                  cases hnodes
                  obtain rfl := hitems.of_done
                  obtain rfl := hbody.of_ofLogic
                  exact .initial items harguments (Logic.keptAs_reparse _)
                    (hbelow _ scope _ _ hsuspended hnode)
  | body id reason =>
      cases houtput
      obtain ⟨value, rfl⟩ := htree.of_point
      exact .body hname args value

/-- A standard operator that is suspended waits for its arguments, or in the body of an iteration. -/
theorem continues_of_returns (hbelow : engine.Continuing levels) {suspension : Suspension}
    (hreturns : Returns name args scope (engine.handle (engine.evaluate levels))
      (.evaluation (.suspended suspension)))
    (htree : suspension.root.Becomes tree) :
    Continues engine Logic.KeptAs (.operation name args) tree := by
  cases hreturns with
  | decides hname hdecides => exact continues_of_decides hbelow hname hdecides htree
  | chooses hname hchooses => exact continues_of_chooses hbelow hname hchooses htree
  | iterates hname hiterates => exact continues_of_iterates hbelow hname hiterates htree

theorem not_returns_yield {handle : Handle} {reason : Json} :
    ¬ Returns name args scope handle (.yield reason) := by
  intro hreturns
  cases hreturns with
  | decides _ hdecides => cases hdecides
  | chooses _ hchooses => cases hchooses
  | iterates _ hiterates => cases hiterates

/-- A call that is suspended, of a standard operator or another one. -/
theorem continues_of_call {operator : Operator} {suspension : Suspension}
    (hbelow : engine.Continuing levels) (hlookup : engine.registry.lookup name = some operator)
    {input : Input} (hreceives : operator.Receives args input)
    (hcomes : (callOperator name operator input scope
      (engine.handle (engine.evaluate levels))).ComesTo (.suspended suspension))
    (htree : suspension.root.Becomes tree) :
    Continues engine Logic.KeptAs (.operation name args) tree := by
  by_cases hstandard : Standard.registry.lookup name = some operator
  · have hraw : operator.traverse = false → input = .raw args := by
      intro htraverse
      cases hreceives with
      | evaluated hevaluated => cases htraverse.symm.trans hevaluated
      | raw => rfl
    rcases callOperator_comesTo hcomes with hreturned | ⟨reason, id, hyields, rfl⟩
    · exact continues_of_returns hbelow ((body_of_lookup hstandard).returns hraw hreturned) htree
    · exact absurd ((body_of_lookup hstandard).returns hraw hyields) not_returns_yield
  · rcases callOperator_comesTo hcomes with hreturned | ⟨reason, id, hyields, rfl⟩
    · exact .returned hlookup hstandard ⟨levels, input, scope, hreceives, hreturned⟩ htree
    · obtain ⟨value, rfl⟩ := htree.of_point
      exact .answered hlookup hstandard ⟨levels, input, scope, hreceives, hyields⟩ value

/-! ## Evaluations -/

theorem Engine.continuing (engine : Engine) (levels : Nat) : engine.Continuing levels := by
  induction levels with
  | zero =>
      intro node scope suspension tree hcomes
      obtain ⟨-, -, hfails⟩ := hcomes.of_bind
      exact absurd hfails Computation.ComesTo.not_fail
  | succ levels ih =>
      intro node scope suspension tree hcomes htree
      obtain ⟨-, -, hnode⟩ := hcomes.of_bind
      cases node with
      | literal value => cases hnode.of_pure
      | sequence items =>
          obtain ⟨results, hresults, hjoined⟩ := hnode.of_bind
          have hparts := hresults.of_joinAll
          rw [List.forall₂_map_left_iff] at hparts
          have hjoin := hjoined.of_pure
          unfold Evaluation.join at hjoin
          split at hjoin
          · cases hjoin
            obtain ⟨nodes, rfl, hnodes⟩ := htree.of_sequence
            exact .sequence (continuesItems_of_comesTo ih hparts hnodes)
          · cases hjoin
      | operation name args =>
          dsimp only at hnode
          cases hlookup : engine.registry.lookup name with
          | none =>
              rw [hlookup] at hnode
              exact absurd hnode Computation.ComesTo.not_fail
          | some operator =>
              rw [hlookup] at hnode
              dsimp only at hnode
              split at hnode
              next htraverse =>
                obtain ⟨evaluation, hargs, hcall⟩ := hnode.of_bind
                cases evaluation with
                | done value =>
                    exact continues_of_call ih hlookup (.evaluated htraverse value) hcall htree
                | suspended inner =>
                    cases hcall.of_pure
                    obtain ⟨args', rfl, htree'⟩ := htree.of_call
                    exact .arguments hlookup htraverse (ih args scope inner args' hargs htree')
              next htraverse =>
                have hraw : operator.traverse = false := by simpa using htraverse
                exact continues_of_call ih hlookup (.raw hraw) hnode htree

/-- Whenever an evaluation is suspended and the suspension is answered, the tree that is left
continues the one that was evaluated, and the arguments that were not reached are those that read
back as themselves: all of them if the tree is inert. -/
theorem Engine.suspended_continues {engine : Engine} {levels : Nat} {node : Logic} {scope : Scope}
    {job : Job Evaluation} {world : World} {suspension : Suspension} {replacements : Replacements}
    {tree : Logic} (hreached : Job.Reached (engine.evaluate levels node scope) job)
    (hanswer : (job.poll world).1 = .finished (.ok (.suspended suspension)))
    (hlogic : suspension.toLogic replacements = .ok tree) :
    Continues engine Logic.KeptAs node tree ∧
      (node.isInert = true → Continues engine Eq node tree) := by
  have hcontinues := engine.continuing levels node scope suspension tree
    (hreached.comesTo hanswer) (Suspension.becomes_of_toLogic hlogic)
  refine ⟨hcontinues, hcontinues.of_isInert ?_⟩
  rintro argument kept hinert ⟨-, hkept⟩
  exact (hkept.mpr hinert).symm

/-! ## An operand behind a question -/

/-- The operand has to wait for an answer. -/
def behindQuestion (operand : Logic) : Logic :=
  .operation "and" (.sequence [.operation "ask" (.literal .null), operand])

def five : Json :=
  .number (.integer (.clamp 5))

theorem suspended_continues_variable :
    let node := behindQuestion (.operation "var" (.literal (.string "")))
    let job := Job.new (askEngine.runLogic node five []) false
    node.isInert = true ∧ ∃ suspension tree,
      (job.poll (.start 0)).1 = .finished (.ok (.suspended suspension)) ∧
        suspension.toLogic [(.fresh 0, .bool true)] = .ok tree ∧
        Continues askEngine Eq node tree := by
  intro node job
  obtain ⟨suspension, hanswer, tree, hlogic⟩ : ∃ suspension,
      (job.poll (.start 0)).1 = .finished (.ok (.suspended suspension)) ∧
        ∃ tree, suspension.toLogic [(.fresh 0, .bool true)] = .ok tree := ⟨_, rfl, _, rfl⟩
  have hreached : Job.Reached (askEngine.runLogic node five []) job := .new false
  obtain ⟨-, hinert⟩ := Engine.suspended_continues hreached hanswer hlogic
  exact ⟨rfl, suspension, tree, hanswer, hlogic, hinert rfl⟩

/-- The operand is a literal and would be its own value, but it is evaluated when the question is
answered. -/
theorem literal_changed_behind_question :
    let operand := Logic.literal (.object [("var", .string "")])
    let job := Job.new (askEngine.runLogic (behindQuestion operand) five []) false
    ∃ suspension tree,
      (job.poll (.start 0)).1 = .finished (.ok (.suspended suspension)) ∧
        suspension.toLogic [(.fresh 0, .bool true)] = .ok tree ∧
        tree ≠ .operation "and" (.sequence [.literal (.bool true), operand]) ∧
        ((Job.new (askEngine.runLogic tree five []) false).poll (.start 1)).1 =
          .finished (.ok (.done five)) ∧
        ((Job.new (askEngine.runLogic operand five []) false).poll (.start 1)).1 =
          .finished (.ok (.done (.object [("var", .string "")]))) := by
  refine ⟨_, _, rfl, rfl, ?_, rfl, rfl⟩
  rintro ⟨⟩

end DecisionLogic
