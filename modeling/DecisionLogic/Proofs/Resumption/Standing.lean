import DecisionLogic.Proofs.Alike.Evaluation
import DecisionLogic.Proofs.Judgement.Judged
import DecisionLogic.Proofs.Resumption.Plain
import Mathlib.Algebra.GroupWithZero.Nat

/-!
# Where an evaluation stands

Once it is fixed which value answers a point, all that matters of a suspended outcome is the logic
that continues it, with the answers in their places, and the number of its points.  The identifiers
are those made from the numbers drawn.
-/

namespace DecisionLogic

variable {f : Json → Json}

namespace PartialTree

mutual

/-- The logic that continues a tree when `f` answers the input of each point. -/
def answer (f : Json → Json) : PartialTree → Logic
  | .done value => .literal value
  | .point p => .literal (f p.input)
  | .sequence items => .sequence (answerItems f items)
  | .pending logic => .parse logic
  | .call operator _ args => .operation operator (args.answer f)

def answerItems (f : Json → Json) : List PartialTree → List Logic
  | [] => []
  | item :: items => item.answer f :: answerItems f items

end

end PartialTree

@[simp] theorem PartialTree.points_ofLogic (node : Logic) : (ofLogic node).points = [] := by
  simp [ofLogic, points]

@[simp] theorem PartialTree.itemPoints_ofLogic (nodes : List Logic) :
    itemPoints (nodes.map ofLogic) = [] := by
  induction nodes with
  | nil => simp [itemPoints]
  | cons node nodes ih => simp [itemPoints, ih]

@[simp] theorem PartialTree.answer_ofLogic (node : Logic) :
    (ofLogic node).answer f = node.reparse := by
  simp [ofLogic, answer, Logic.reparse]

/-- An outcome: a value, or the number of points it waits for and the logic that continues it. -/
inductive Standing where
  | done (value : Json)
  | waits (points : Nat) (next : Logic)

namespace Standing

def isWaiting : Standing → Bool
  | .done _ => false
  | .waits _ _ => true

def value? : Standing → Option Json
  | .done value => some value
  | .waits _ _ => none

def points : Standing → Nat
  | .done _ => 0
  | .waits points _ => points

def node : Standing → Logic
  | .done value => .literal value
  | .waits _ next => next

def join (standings : List Standing) : Standing :=
  if standings.any isWaiting then
    .waits (standings.map points).sum (.sequence (standings.map node))
  else .done (.array (standings.filterMap value?))

theorem sum_points_eq_zero {standings : List Standing}
    (hwaiting : standings.any isWaiting = false) : (standings.map points).sum = 0 := by
  induction standings with
  | nil => rfl
  | cons standing standings ih =>
      simp only [List.any_cons, Bool.or_eq_false_iff] at hwaiting
      cases standing with
      | done value => simp [points, ih hwaiting.2]
      | waits points next => cases hwaiting.1

end Standing

def Judgement.Settled (judgement : Judgement Standing) : Prop :=
  judgement.Ensures fun standing => standing.isWaiting = false

namespace Evaluation

inductive Stands (f : Json → Json) : Reading Evaluation Standing
  | done (value : Json) : Stands f 0 (.done value) (.done value)
  | waits {s : Suspension} {drawn : Multiset Nat}
      (hids : (s.points.map SuspensionPoint.id : Multiset PointId) = drawn.map PointId.fresh) :
      Stands f drawn (.suspended s) (.waits s.points.length (s.root.answer f))

theorem Stands.isSuspended {drawn : Multiset Nat} {evaluation : Evaluation} {standing : Standing}
    (hstands : Stands f drawn evaluation standing) :
    evaluation.isSuspended = standing.isWaiting := by
  cases hstands with
  | done value => rfl
  | waits hids => rfl

theorem Stands.value? {drawn : Multiset Nat} {evaluation : Evaluation} {standing : Standing}
    (hstands : Stands f drawn evaluation standing) :
    evaluation.value? = standing.value? := by
  cases hstands with
  | done value => rfl
  | waits hids => rfl

theorem Stands.ids {drawn : Multiset Nat} {evaluation : Evaluation} {standing : Standing}
    (hstands : Stands f drawn evaluation standing) :
    (evaluation.ids : Multiset PointId) = drawn.map PointId.fresh := by
  cases hstands with
  | done value => rfl
  | waits hids => exact hids

theorem Stands.node {drawn : Multiset Nat} {evaluation : Evaluation} {standing : Standing}
    (hstands : Stands f drawn evaluation standing) :
    (PartialTree.ofEvaluation evaluation).answer f = standing.node := by
  cases hstands with
  | done value => simp [PartialTree.ofEvaluation, PartialTree.answer, Standing.node]
  | waits hids => rfl

theorem Stands.points {drawn : Multiset Nat} {evaluation : Evaluation} {standing : Standing}
    (hstands : Stands f drawn evaluation standing) :
    (PartialTree.ofEvaluation evaluation).points.length = standing.points := by
  cases hstands with
  | done value => simp [PartialTree.ofEvaluation, PartialTree.points, Standing.points]
  | waits hids => rfl

/-! ## Sequences -/

structure JoinStands (f : Json → Json) (drawn : Multiset Nat) (results : List Evaluation)
    (standings : List Standing) : Prop where
  waiting : results.any isSuspended = standings.any Standing.isWaiting
  values : results.filterMap value? = standings.filterMap Standing.value?
  ids : ((PartialTree.itemPoints (results.map PartialTree.ofEvaluation)).map SuspensionPoint.id :
    Multiset PointId) = drawn.map PointId.fresh
  nodes : PartialTree.answerItems f (results.map PartialTree.ofEvaluation) =
    standings.map Standing.node
  points : (PartialTree.itemPoints (results.map PartialTree.ofEvaluation)).length =
    (standings.map Standing.points).sum

theorem ids_ofEvaluation (evaluation : Evaluation) :
    (PartialTree.ofEvaluation evaluation).points.map SuspensionPoint.id = evaluation.ids := by
  cases evaluation with
  | done value => simp [PartialTree.ofEvaluation, PartialTree.points, ids]
  | suspended suspension => rfl

theorem joinStands {drawn : Multiset Nat} {results : List Evaluation} {standings : List Standing}
    (hstands : Reading.Each (Stands f) drawn results standings) :
    JoinStands f drawn results standings := by
  induction hstands with
  | nil =>
      refine ⟨rfl, rfl, ?_, ?_, ?_⟩ <;> simp [PartialTree.itemPoints, PartialTree.answerItems]
  | @cons drawn more evaluation standing results standings hfirst _ ih =>
      refine ⟨?_, ?_, ?_, ?_, ?_⟩
      · simp only [List.any_cons, hfirst.isSuspended, ih.waiting]
      · simp only [List.filterMap_cons, hfirst.value?, ih.values]
      · have hids := hfirst.ids
        have hrest := ih.ids
        simp only [List.map_cons, PartialTree.itemPoints, List.map_append, ids_ofEvaluation,
          Multiset.map_add, ← hids, ← hrest, Multiset.coe_add]
      · simp only [List.map_cons, PartialTree.answerItems, hfirst.node, ih.nodes]
      · simp only [List.map_cons, PartialTree.itemPoints, List.length_append, hfirst.points,
          ih.points, List.sum_cons]

theorem stands_join {drawn : Multiset Nat} {results : List Evaluation} {standings : List Standing}
    (hstands : Reading.Each (Stands f) drawn results standings) :
    Stands f drawn (join results) (Standing.join standings) := by
  have hjoin := joinStands hstands
  unfold join Standing.join
  rw [hjoin.waiting, hjoin.values]
  cases hwaiting : standings.any Standing.isWaiting with
  | false =>
      have hnone : PartialTree.itemPoints (results.map PartialTree.ofEvaluation) = [] := by
        apply List.eq_nil_of_length_eq_zero
        rw [hjoin.points, Standing.sum_points_eq_zero hwaiting]
      have hdrawn : drawn = 0 := by
        have hids := hjoin.ids
        rw [hnone] at hids
        exact Multiset.map_eq_zero.mp hids.symm
      rw [hdrawn]
      exact .done _
  | true =>
      let joined : Suspension := ⟨.sequence (results.map PartialTree.ofEvaluation)⟩
      have hpoints : joined.points =
          PartialTree.itemPoints (results.map PartialTree.ofEvaluation) := by
        simp [joined, Suspension.points, PartialTree.points]
      have hnode : joined.root.answer f = .sequence (standings.map Standing.node) := by
        simp [joined, PartialTree.answer, hjoin.nodes]
      have hstands := @Stands.waits f joined drawn (hpoints ▸ hjoin.ids)
      rw [hpoints, hjoin.points, hnode] at hstands
      exact hstands

end Evaluation
end DecisionLogic
