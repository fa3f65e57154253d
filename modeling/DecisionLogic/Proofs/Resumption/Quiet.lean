import DecisionLogic.Proofs.Alike.Operator
import DecisionLogic.Proofs.Resumption.Meaning

/-!
# Quiet trees

In a quiet tree no operator asks, so it never waits.
-/

namespace DecisionLogic

variable {f : Json → Json} {meanings : String → Option Meaning} {levels : Nat}

def Meaning.Asks : Meaning → Prop
  | .traversing reply => ∃ input scope, reply input scope = .asks
  | _ => False

def Logic.Quiet (meanings : String → Option Meaning) (tree : Logic) : Prop :=
  ∀ name args meaning, (Logic.operation name args).Within tree → meanings name = some meaning →
    ¬ meaning.Asks

theorem Logic.Within.trans {node inner tree : Logic} (hnode : node.Within inner)
    (hinner : inner.Within tree) : node.Within tree := by
  induction hinner with
  | self => exact hnode
  | item hitem _ ih => exact .item hitem ih
  | args _ ih => exact .args ih

theorem Logic.Quiet.within {node tree : Logic} (hquiet : tree.Quiet meanings)
    (hwithin : node.Within tree) : node.Quiet meanings :=
  fun name args meaning hnode => hquiet name args meaning (hnode.trans hwithin)

theorem Logic.within_of_mem_arguments {node args : Logic} (hmem : node ∈ args.arguments) :
    node.Within args := by
  cases args with
  | sequence items => exact .item hmem (.self node)
  | _ =>
      rw [List.mem_singleton.mp hmem]
      exact .self _

namespace Meaning

section Settled

variable {evaluate : Logic → Judgement Standing} {body : Scope → Judgement Json} {name : String}
  {scope whole : Scope} {stop : Bool} {arguments : List Logic}

theorem settled_done (value : Json) : Judgement.Settled (pure (.done value)) :=
  .pure rfl

theorem deciding_settled (hsettled : ∀ node ∈ arguments, (evaluate node).Settled) (last : Json) :
    (deciding evaluate name stop last arguments).Settled := by
  induction arguments generalizing last with
  | nil => exact settled_done last
  | cons node rest ih =>
      refine (hsettled node List.mem_cons_self).bind fun standing hstanding => ?_
      cases standing with
      | done value =>
          dsimp only
          split
          · exact settled_done value
          · exact ih (fun other hother => hsettled other (List.mem_cons_of_mem _ hother)) value
      | waits points next => cases hstanding

theorem branching_settled (hsettled : ∀ node ∈ arguments, (evaluate node).Settled) :
    (branching evaluate name arguments).Settled := by
  induction arguments using branching.induct with
  | case1 => exact settled_done .null
  | case2 otherwise => exact hsettled otherwise List.mem_cons_self
  | case3 condition result rest ih =>
      refine (hsettled condition List.mem_cons_self).bind fun standing hstanding => ?_
      cases standing with
      | done value =>
          dsimp only
          split
          · exact hsettled result (by simp)
          · exact ih fun other hother => hsettled other (by simp [hother])
      | waits points next => cases hstanding

theorem source_settled {next : List Json → Judgement Standing}
    (hsettled : ∀ node ∈ arguments, (evaluate node).Settled)
    (hnext : ∀ items, (next items).Settled) :
    (source evaluate name next arguments).Settled := by
  cases arguments with
  | nil => exact hnext []
  | cons node rest =>
      refine (hsettled node List.mem_cons_self).bind fun standing hstanding => ?_
      cases standing with
      | done value => exact hnext _
      | waits points next => cases hstanding

theorem all_ensures_true {α : Type} (judgements : List (Judgement α)) :
    (Judgement.all judgements).Ensures fun _ => True :=
  fun _ _ _ => trivial

theorem mapping_settled (items : List Json) : (mapping body whole items).Settled :=
  (all_ensures_true _).bind fun _ _ => settled_done _

theorem filtering_settled (items : List Json) : (filtering body whole items).Settled :=
  (all_ensures_true _).bind fun _ _ => settled_done _

theorem folding_settled (accumulator : Json) (items : List Json) :
    (folding body whole accumulator items).Settled := by
  induction items generalizing accumulator with
  | nil => exact settled_done accumulator
  | cons current rest ih =>
      have hbody : (body (whole.child (Standard.stepData accumulator current))).Ensures
          fun _ => True := fun _ _ _ => trivial
      exact hbody.bind fun value _ => ih value

theorem searching_settled (items : List Json) : (searching body whole stop items).Settled := by
  induction items with
  | nil => exact settled_done _
  | cons item rest ih =>
      have hbody : (body (whole.child item)).Ensures fun _ => True := fun _ _ _ => trivial
      refine hbody.bind fun value _ => ?_
      split
      · exact settled_done _
      · exact ih

theorem reducing_settled (hsettled : ∀ node ∈ arguments, (evaluate node).Settled)
    (items : List Json) : (reducing evaluate name body scope arguments items).Settled := by
  unfold reducing
  cases hnode : arguments[2]? with
  | none =>
      cases items with
      | nil => exact settled_done _
      | cons first rest => exact folding_settled first rest
  | some node =>
      refine (hsettled node (List.mem_of_getElem? hnode)).bind fun standing hstanding => ?_
      cases standing with
      | done initial => exact folding_settled initial items
      | waits points next => cases hstanding

end Settled

/-- Only a fold may wait once it has its items. -/
theorem takeUp_settled {evaluate : Logic → Scope → Judgement Standing} {name : String} {args : Logic}
    {scope : Scope} {meaning : Meaning} (hreduce : meaning ≠ .reduce) (items : List Json) :
    (takeUp evaluate name args scope meaning items).Settled := by
  cases meaning with
  | map => exact mapping_settled items
  | filter => exact filtering_settled items
  | reduce => exact absurd rfl hreduce
  | anyAll stop => exact searching_settled items
  | _ => exact .fails

theorem operation_settled {evaluate : Logic → Scope → Judgement Standing} {name : String}
    {args : Logic} {scope : Scope} {meaning : Meaning} (hquiet : ¬ meaning.Asks)
    (hargs : (evaluate args scope).Settled)
    (harguments : ∀ node ∈ args.arguments, (evaluate node scope).Settled) :
    (meaning.operation f evaluate name args scope).Settled := by
  by_cases hiterates : meaning.iterates = true
  · rw [operation_of_iterates hiterates]
    apply source_settled harguments
    intro items
    by_cases hreduce : meaning = .reduce
    · subst hreduce
      exact reducing_settled harguments items
    · exact takeUp_settled hreduce items
  unfold operation
  cases meaning with
  | traversing reply =>
      refine hargs.bind fun standing hstanding => ?_
      cases standing with
      | done value =>
          refine Judgement.Ensures.after ?_ _
          cases hreply : reply value scope with
          | value x => exact settled_done x
          | asks => exact absurd ⟨value, scope, hreply⟩ hquiet
          | fails => exact .fails
      | waits points next => cases hstanding
  | data => exact settled_done _
  | decide stop => exact deciding_settled harguments .null
  | branch => exact branching_settled harguments
  | _ => exact absurd rfl hiterates

end Meaning

theorem Standing.join_settled {items : List Logic} {standings : List Standing}
    (hstandings : List.Forall₂ (fun _ standing => standing.isWaiting = false) items standings) :
    (join standings).isWaiting = false := by
  have hnone : standings.any isWaiting = false := by
    induction hstandings with
    | nil => rfl
    | cons hfirst _ ih => rw [List.any_cons, hfirst, ih, Bool.false_or]
  simp [join, hnone, isWaiting]

/-- A quiet tree never waits. -/
theorem Logic.Quiet.settled {node : Logic} (hquiet : node.Quiet meanings) (levels : Nat)
    (scope : Scope) : (Meaning.judge f meanings levels node scope).Settled := by
  induction levels generalizing node scope with
  | zero => exact .fails
  | succ levels ih =>
      unfold Meaning.judge
      cases node with
      | literal value => exact Meaning.settled_done value
      | sequence items =>
          have hitems : List.Forall₂ (fun _ judgement => Judgement.Settled judgement) items
              (items.map fun item => Meaning.judge f meanings levels item scope) := by
            rw [List.forall₂_map_right_iff, List.forall₂_same]
            intro item hitem
            exact ih (hquiet.within (.item hitem (.self item))) scope
          refine (Judgement.Ensures.all hitems).bind fun standings hstandings => ?_
          exact .pure (Standing.join_settled hstandings)
      | operation name args =>
          dsimp only
          cases hname : meanings name with
          | none => exact .fails
          | some meaning =>
              have hargs : args.Quiet meanings := hquiet.within (.args (.self args))
              apply Meaning.operation_settled (hquiet name args meaning (.self _) hname)
              · exact ih hargs scope
              · intro node hnode
                exact ih (hargs.within (within_of_mem_arguments hnode)) scope

end DecisionLogic
