import DecisionLogic.Proofs.Program.Compilation
import DecisionLogic.Proofs.Program.Height
import DecisionLogic.Proofs.Standard.Operators

/-!
# Trees that compile to a value

A tree that compiles to a literal has that value in every scope: evaluating it ends at the first
poll and calls standard operators only.  The reason is that only calls of deterministic standard
operators are completed while compiling, and those look at nothing but their arguments.
-/

namespace DecisionLogic

variable {α β : Type}

/-- The computation ends at its first poll with `x`, unless the token has fired, and calls standard
operators only. -/
def Computation.GivesAtOnce (computation : Computation α) (x : α) : Prop :=
  ∀ world, world.cancelled = false → ∃ calls : List Invocation,
    (∀ invocation ∈ calls, invocation.origin = .standard) ∧
      computation world = .finished { world with trace := calls ++ world.trace } (.ok x)

namespace Computation.GivesAtOnce

theorem pure (x : α) : GivesAtOnce (pure x) x :=
  fun _ _ => ⟨[], by simp, rfl⟩

theorem checkCancelled : GivesAtOnce checkCancelled () := by
  intro world hactive
  have hpassed : Computation.checkCancelled world = .finished world (.ok ()) := by
    simp [Computation.checkCancelled, hactive]
  exact ⟨[], by simp, hpassed⟩

theorem bind {c : Computation α} {f : α → Computation β} {x : α} {y : β}
    (hfirst : GivesAtOnce c x) (hnext : GivesAtOnce (f x) y) : GivesAtOnce (c >>= f) y := by
  intro world hactive
  obtain ⟨calls, hcalls, hrun⟩ := hfirst world hactive
  obtain ⟨more, hmore, hrun'⟩ := hnext { world with trace := calls ++ world.trace } hactive
  refine ⟨more ++ calls, ?_, ?_⟩
  · intro invocation hmem
    rcases List.mem_append.mp hmem with hlater | hearlier
    · exact hmore invocation hlater
    · exact hcalls invocation hearlier
  · rw [bind_apply, hrun]
    simp only [Moment.andThen, hrun', List.append_assoc]

theorem joinAll {cs : List (Computation α)} {xs : List α}
    (hall : List.Forall₂ GivesAtOnce cs xs) : GivesAtOnce (joinAll cs) xs := by
  induction hall with
  | nil => exact .pure []
  | @cons c x cs xs hfirst _ ih =>
      intro world hactive
      obtain ⟨calls, hcalls, hrun⟩ := hfirst world hactive
      obtain ⟨more, hmore, hrun'⟩ := ih { world with trace := calls ++ world.trace } hactive
      refine ⟨more ++ calls, ?_, ?_⟩
      · intro invocation hmem
        rcases List.mem_append.mp hmem with hlater | hearlier
        · exact hmore invocation hlater
        · exact hcalls invocation hearlier
      · simp only [Computation.joinAll, hrun, Moment.beside, hrun', Moment.mapResult, Except.map,
          List.append_assoc]

end Computation.GivesAtOnce

/-! ## Calls that are completed while compiling -/

theorem callOperator_scope {operator : Operator} {f : List Json → Scope → Except Failure Json}
    (hbody : operator.body = .immediate (Standard.ofScope f)) (name : String) (input : Input)
    (scope : Scope) (handle : Handle) (world : World) :
    callOperator name operator input scope handle world =
      .finished (world.record ⟨name, operator.origin, input⟩)
        (((f input.args scope).mapError (Failure.within name)).map .done) := by
  unfold callOperator
  rw [hbody]
  have hrun : Computation.ofAction (Standard.ofScope f input scope handle)
      (world.record ⟨name, operator.origin, input⟩) =
        .finished (world.record ⟨name, operator.origin, input⟩)
          ((f input.args scope).map .value) := rfl
  change (Moment.mapResult _ (Computation.ofAction (Standard.ofScope f input scope handle)
    (world.record ⟨name, operator.origin, input⟩))).andThen _ = _
  rw [hrun]
  cases f input.args scope with
  | ok value => rfl
  | error failure => rfl

theorem callOperator_arguments {operator : Operator} {f : List Json → Except Failure Json}
    (hbody : operator.body = .immediate (Standard.ofArguments f)) (name : String) (input : Input)
    (scope : Scope) (handle : Handle) (world : World) :
    callOperator name operator input scope handle world =
      .finished (world.record ⟨name, operator.origin, input⟩)
        (((f input.args).mapError (Failure.within name)).map .done) :=
  callOperator_scope (f := fun args _ => f args) hbody name input scope handle world

theorem givesAtOnce_of_call {operator : Operator} {f : List Json → Except Failure Json}
    (hbody : operator.body = .immediate (Standard.ofArguments f))
    (horigin : operator.origin = .standard) {name : String} {input : Input} {scope : Scope}
    {handle : Handle} {world final : World} {value : Json}
    (hcall : callOperator name operator input scope handle world =
      .finished final (.ok (.done value))) (scope' : Scope) (handle' : Handle) :
    Computation.GivesAtOnce (callOperator name operator input scope' handle') (.done value) := by
  intro later _
  rw [callOperator_arguments hbody] at hcall ⊢
  refine ⟨[⟨name, operator.origin, input⟩], ?_, ?_⟩
  · intro invocation hmem
    rw [List.mem_singleton.mp hmem]
    exact horigin
  · rw [(Moment.finished.inj hcall).2]
    rfl

/-- The operators of the registry are standard ones and added ones that fit. -/
def Registry.Extends (registry : Registry) (fits : Operator → Prop) : Prop :=
  ∀ name operator, registry.lookup name = some operator →
    Standard.registry.lookup name = some operator ∨ operator.origin = .custom ∧ fits operator

/-- No added operator is annotated deterministic. -/
def Operator.Undetermined (operator : Operator) : Prop :=
  operator.deterministic = false

theorem Registry.Extends.mono {registry : Registry} {fits fits' : Operator → Prop}
    (hextends : registry.Extends fits) (hfits : ∀ operator, fits operator → fits' operator) :
    registry.Extends fits' := by
  intro name operator hlookup
  rcases hextends name operator hlookup with hstandard | ⟨horigin, hfit⟩
  · exact .inl hstandard
  · exact .inr ⟨horigin, hfits operator hfit⟩

theorem Standard.registry_extends (fits : Operator → Prop) : Standard.registry.Extends fits :=
  fun _ _ hlookup => .inl hlookup

theorem Registry.Extends.insert {registry : Registry} {fits : Operator → Prop}
    (hextends : registry.Extends fits) {operator : Operator} (name : String)
    (horigin : operator.origin = .custom) (hfits : fits operator) :
    (registry.insert name operator).Extends fits := by
  intro other found hlookup
  by_cases hname : name = other
  · subst hname
    rw [Registry.lookup_insert_self, Option.some.injEq] at hlookup
    exact .inr (hlookup ▸ ⟨horigin, hfits⟩)
  · rw [Registry.lookup_insert_of_ne _ hname] at hlookup
    exact hextends other found hlookup

/-- What fits the standard operators, too, fits all. -/
theorem Registry.Extends.fits_of_lookup {registry : Registry} {fits : Operator → Prop}
    (hextends : registry.Extends fits)
    (hstandard : ∀ name operator, Standard.registry.lookup name = some operator → fits operator) :
    ∀ name operator, registry.lookup name = some operator → fits operator := by
  intro name operator hlookup
  rcases hextends name operator hlookup with hfound | ⟨-, hfits⟩
  · exact hstandard name operator hfound
  · exact hfits

variable {engine : Engine}

theorem arguments_of_isInlinable (hextends : engine.registry.Extends Operator.Undetermined)
    {name : String} {operator : Operator} (hlookup : engine.registry.lookup name = some operator)
    (htraverse : operator.traverse = true) (hinlinable : operator.isInlinable = true) :
    operator.origin = .standard ∧
      ∃ f, operator.body = .immediate (Standard.ofArguments f) := by
  rcases hextends name operator hlookup with hstandard | ⟨-, hundetermined⟩
  · cases Standard.standardOperator_of_lookup hstandard with
    | arguments name f => exact ⟨rfl, f, rfl⟩
    | scope name f => cases hinlinable
    | preserve => cases htraverse
    | lazy hbody => cases htraverse
  · unfold Operator.Undetermined at hundetermined
    simp [Operator.isInlinable, hundetermined] at hinlinable

/-! ## Folded trees -/

namespace Compiled

theorem literal_of_literal? {compiled : Compiled} {value : Json}
    (hvalue : compiled.literal? = some value) : compiled = .literal value := by
  cases compiled with
  | literal other => rw [Option.some.inj hvalue]
  | _ => cases hvalue

mutual

theorem evaluate_of_literal (hextends : engine.registry.Extends Operator.Undetermined)
    (scope : Scope) : ∀ {node : Logic} {value : Json} {levels : Nat},
      Translates engine node (.literal value) → node.height ≤ levels →
        Computation.GivesAtOnce (engine.evaluate levels node scope) (.done value)
  | node, _, 0, _, hheight => by
      have hpos := node.height_pos
      omega
  | _, _, levels + 1, .literal value, _ => by
      unfold Engine.evaluate
      exact .bind .checkCancelled (.pure _)
  | _, _, levels + 1, .folded hitems hvalues, hheight => by
      unfold Engine.evaluate
      rw [Logic.height] at hheight
      have hall := evaluateItems_of_literals hextends scope hitems hvalues
        (Nat.le_of_succ_le_succ hheight)
      refine .bind .checkCancelled (.bind (.joinAll hall) ?_)
      rw [Evaluation.join_map_done]
      exact .pure _
  | _, _, levels + 1, .inlined hlookup htraverse hargs hinlinable hactive hcall, hheight => by
      unfold Engine.evaluate
      rw [Logic.height] at hheight
      have hinput := evaluate_of_literal hextends scope hargs (Nat.le_of_succ_le_succ hheight)
      obtain ⟨horigin, f, hbody⟩ := arguments_of_isInlinable hextends hlookup htraverse hinlinable
      simp only [hlookup, htraverse, if_true]
      refine .bind .checkCancelled (.bind hinput ?_)
      exact givesAtOnce_of_call hbody horigin hcall _ _

theorem evaluateItems_of_literals (hextends : engine.registry.Extends Operator.Undetermined)
    (scope : Scope) : ∀ {items : List Logic} {compiled : List Compiled} {values : List Json}
      {levels : Nat}, TranslatesItems engine items compiled → literals? compiled = some values →
        Logic.itemsHeight items ≤ levels →
          List.Forall₂ Computation.GivesAtOnce
            (items.map fun item => engine.evaluate levels item scope) (values.map .done)
  | _, _, _, _, .nil, hvalues, _ => by
      cases hvalues
      exact .nil
  | _, _, _, _, .cons hitem hitems, hvalues, hheight => by
      rw [Logic.itemsHeight] at hheight
      unfold literals? at hvalues
      split at hvalues
      next value values hvalue hrest =>
        cases hvalues
        have hcompiled := literal_of_literal? hvalue
        rw [hcompiled] at hitem
        refine .cons (evaluate_of_literal hextends scope hitem ?_)
          (evaluateItems_of_literals hextends scope hitems hrest ?_)
        · exact Nat.le_trans (Nat.le_max_left _ _) hheight
        · exact Nat.le_trans (Nat.le_max_right _ _) hheight
      next => cases hvalues

end

end Compiled
end DecisionLogic
