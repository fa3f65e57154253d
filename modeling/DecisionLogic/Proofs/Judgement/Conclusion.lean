import DecisionLogic.Computation.Lemmas
import DecisionLogic.Proofs.Judgement.Basic
import Mathlib.Algebra.Group.Prod
import Mathlib.Data.Multiset.Range

/-!
# Computations that conclude

A computation concludes when it ends after finitely many polls, whatever other computations do
between them, as long as the token does not fire.  What it did on the way, over all its polls, is
its effect: the calls of traversing operators and the numbers drawn from the supply of points.

The proofs carry a condition on the effect and the result.  While a computation waits, the effect of
its past polls is absorbed into the condition on the later ones.
-/

namespace DecisionLogic

/-! ## Effects -/

/-- The calls of traversing operators, and the numbers drawn. -/
abbrev Effect : Type :=
  Multiset Traversal × Multiset Nat

def Invocation.traversal? (invocation : Invocation) : Option Traversal :=
  match invocation.input with
  | .evaluated value => some (invocation.operator, value)
  | .raw _ => none

namespace World

/-- The calls of traversing operators so far. -/
def traversals (world : World) : Multiset Traversal :=
  world.trace.filterMap Invocation.traversal?

def nextNumbers (world : World) (count : Nat) : Multiset Nat :=
  (Multiset.range count).map (world.nextPoint + ·)

/-- A run from one world to the other has the effect, and leaves the token alone. -/
structure Does (w w' : World) (effect : Effect) : Prop where
  active : w'.cancelled = false
  calls : w'.traversals = effect.1 + w.traversals
  draws : ∃ count, w'.nextPoint = w.nextPoint + count ∧ effect.2 = w.nextNumbers count

theorem Does.refl {w : World} (hactive : w.cancelled = false) : Does w w 0 :=
  ⟨hactive, (zero_add _).symm, 0, rfl, rfl⟩

theorem Does.trans {w w' w'' : World} {effect effect' : Effect} (hfirst : Does w w' effect)
    (hsecond : Does w' w'' effect') : Does w w'' (effect + effect') := by
  obtain ⟨count, hnext, hdrawn⟩ := hfirst.draws
  obtain ⟨count', hnext', hdrawn'⟩ := hsecond.draws
  refine ⟨hsecond.active, ?_, count + count', ?_, ?_⟩
  · rw [hsecond.calls, hfirst.calls, Prod.fst_add, add_left_comm, add_assoc]
  · rw [hnext', hnext, add_assoc]
  · rw [Prod.snd_add, hdrawn, hdrawn']
    unfold nextNumbers
    rw [Multiset.range_add, Multiset.map_add, Multiset.map_map, hnext]
    simp only [Function.comp_def, add_assoc]

end World

/-! ## Conclusions -/

abbrev Condition (α : Type) : Type :=
  Effect → Except Failure α → Prop

variable {α β : Type} {patient : Prop}

/-- From the world `w` on, the moment was reached in one poll; the computation ends after finitely
many more, as the condition says.  It waits only where `patient` allows it, and every poll of a
world whose token has not fired takes it further. -/
inductive Moment.Concludes (patient : Prop) : Condition α → World → Moment α → Prop
  | finished {condition : Condition α} {w w' : World} {effect : Effect}
      {result : Except Failure α} (hdoes : w.Does w' effect) (hresult : condition effect result) :
      Concludes patient condition w (.finished w' result)
  | waiting {condition : Condition α} {w w' : World} {effect : Effect} {ready : World → Bool}
      {rest : World → Moment α} (hpatient : patient) (hdoes : w.Does w' effect)
      (hready : ∀ later : World, later.cancelled = false → ready later = true)
      (hrest : ∀ later : World, later.cancelled = false →
        Concludes patient (fun more => condition (effect + more)) later (rest later)) :
      Concludes patient condition w (.waiting w' ready rest)

def Computation.Concludes (patient : Prop) (condition : Condition α) (computation : Computation α) :
    Prop :=
  ∀ world : World, world.cancelled = false →
    (computation world).Concludes patient condition world

namespace Moment.Concludes

variable {condition : Condition α} {w : World} {m : Moment α}

theorem mono {weaker : Condition α} (hconcludes : Concludes patient condition w m)
    (hweaker : ∀ effect result, condition effect result → weaker effect result) :
    Concludes patient weaker w m := by
  induction hconcludes generalizing weaker with
  | finished hdoes hresult => exact .finished hdoes (hweaker _ _ hresult)
  | waiting hpatient hdoes hready hrest ih =>
      refine .waiting hpatient hdoes hready fun later hactive => ?_
      exact ih later hactive fun effect result => hweaker _ result

theorem rebase {u : World} {effect : Effect} (hdoes : u.Does w effect)
    (hconcludes : Concludes patient (fun more => condition (effect + more)) w m) :
    Concludes patient condition u m := by
  cases hconcludes with
  | finished hdoes' hresult => exact .finished (hdoes.trans hdoes') hresult
  | waiting hpatient hdoes' hready hrest =>
      refine .waiting hpatient (hdoes.trans hdoes') hready fun later hactive => ?_
      refine (hrest later hactive).mono fun more result hresult => ?_
      rw [add_assoc]
      exact hresult

theorem andThen {next : α → Computation β} {condition' : Condition β}
    (hconcludes : Concludes patient condition w m)
    (hnext : ∀ effect x, condition effect (.ok x) →
      (next x).Concludes patient fun more => condition' (effect + more))
    (herror : ∀ effect failure, condition effect (.error failure) →
      condition' effect (.error failure)) :
    Concludes patient condition' w (m.andThen next) := by
  induction hconcludes generalizing condition' with
  | finished hdoes hresult =>
      rename_i result
      cases result with
      | ok x => exact rebase hdoes (hnext _ x hresult _ hdoes.active)
      | error failure => exact .finished hdoes (herror _ failure hresult)
  | waiting hpatient hdoes hready hrest ih =>
      refine .waiting hpatient hdoes hready fun later hactive => ?_
      apply ih later hactive
      · intro effect x hresult
        simp only [← add_assoc]
        exact hnext _ x hresult
      · intro effect failure
        exact herror _ failure

theorem mapResult {f : Except Failure α → Except Failure β} {condition' : Condition β}
    (hconcludes : Concludes patient condition w m)
    (hresult : ∀ effect result, condition effect result → condition' effect (f result)) :
    Concludes patient condition' w (m.mapResult f) := by
  induction hconcludes generalizing condition' with
  | finished hdoes h => exact .finished hdoes (hresult _ _ h)
  | waiting hpatient hdoes hready hrest ih =>
      refine .waiting hpatient hdoes hready fun later hactive => ?_
      exact ih later hactive fun effect result => hresult _ result

theorem guarded (hconcludes : Concludes patient condition w m) :
    Concludes patient condition w m.guarded := by
  induction hconcludes with
  | finished hdoes hresult => exact .finished hdoes hresult
  | waiting hpatient hdoes hready hrest ih =>
      refine .waiting hpatient hdoes ?_ ?_
      · intro later hactive
        rw [hready later hactive, Bool.or_true]
      · intro later hactive
        rw [hactive]
        exact ih later hactive

/-! ### Joins -/

section Joins

variable {others : Condition (List α)} {joined : Condition (List α)}

/-- The others have made their poll while the first computation waits. -/
theorem besideWaiting {m : Moment (List α)} {ready : World → Bool}
    {resume : World → Computation (List α) → Moment (List α)}
    (hconcludes : Concludes patient others w m) (hpatient : patient)
    (hready : ∀ later : World, later.cancelled = false → ready later = true)
    (hresume : ∀ (effect : Effect) (later : World) (c : Computation (List α)),
      later.cancelled = false → c.Concludes patient (fun more => others (effect + more)) →
        Concludes patient (fun more => joined (effect + more)) later (resume later c))
    (herror : ∀ effect failure, others effect (.error failure) → joined effect (.error failure)) :
    Concludes patient joined w (m.besideWaiting ready resume) := by
  cases hconcludes with
  | @finished _ _ w' effect result hdoes hresult =>
      cases result with
      | error failure => exact .finished hdoes (herror _ failure hresult)
      | ok xs =>
          refine .waiting hpatient hdoes hready fun later hactive => ?_
          apply hresume _ later _ hactive
          intro next hactive'
          refine .finished (.refl hactive') ?_
          rw [add_zero]
          exact hresult
  | @waiting _ _ w' effect ready' rest _ hdoes hready' hrest =>
      refine .waiting hpatient hdoes ?_ ?_
      · intro later hactive
        rw [hready later hactive, Bool.true_or]
      · intro later hactive
        rw [hready later hactive]
        apply hresume _ later _ hactive
        intro next hactive'
        simp only [hready' next hactive', if_true]
        exact hrest next hactive'

theorem beside {rest : Computation (List α)} (hconcludes : Concludes patient condition w m)
    (hothers : rest.Concludes patient others)
    (hok : ∀ effect effect' x xs, condition effect (.ok x) → others effect' (.ok xs) →
      joined (effect + effect') (.ok (x :: xs)))
    (hfirst : ∀ effect effect' failure, condition effect (.error failure) →
      joined (effect + effect') (.error failure))
    (hlater : ∀ effect effect' failure, others effect' (.error failure) →
      joined (effect + effect') (.error failure)) :
    Concludes patient joined w (m.beside rest) := by
  induction hconcludes generalizing others joined rest with
  | @finished condition w w' effect result hdoes hresult =>
      cases result with
      | error failure =>
          refine .finished hdoes ?_
          rw [← add_zero effect]
          exact hfirst _ _ failure hresult
      | ok x =>
          refine rebase hdoes ((hothers w' hdoes.active).mapResult ?_)
          intro effect' result' hresult'
          cases result' with
          | ok xs => exact hok _ _ x xs hresult hresult'
          | error failure => exact hlater _ _ failure hresult'
  | @waiting condition w w' effect ready next hpatient hdoes hready hrest ih =>
      apply rebase hdoes
      refine besideWaiting (hothers w' hdoes.active) hpatient hready ?_ ?_
      · intro effect' later c hactive hc
        -- What was done before belongs to both parts; only its sum matters.
        refine ih later hactive hc ?_ ?_ ?_
        · intro first second x xs hx hxs
          have hjoined := hok _ _ x xs hx hxs
          rwa [add_add_add_comm, add_assoc] at hjoined
        · intro first second failure hfailure
          have hjoined := hfirst _ (effect' + second) failure hfailure
          rwa [add_add_add_comm, add_assoc] at hjoined
        · intro first second failure hfailure
          have hjoined := hlater (effect + first) _ failure hfailure
          rwa [add_add_add_comm, add_assoc] at hjoined
      · intro effect' failure hfailure
        exact hlater _ _ failure hfailure

end Joins

end Moment.Concludes
end DecisionLogic
