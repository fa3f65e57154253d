import DecisionLogic.Suspension.Basic
import Mathlib.Data.List.Forall2
import Mathlib.Data.Set.Function

/-!
# Outcomes that differ in identifiers only

Two runs of the same logic draw the identifiers of their points from different places of the supply.
`Evaluation.Alike` compares outcomes up to a relation of identifiers, and
`Evaluation.SameUpToIds` says that one outcome is the other one with its identifiers renamed.
-/

namespace DecisionLogic

/-! ## Outcomes up to a relation of identifiers -/

structure SuspensionPoint.Alike (ids : PointId → PointId → Prop) (p q : SuspensionPoint) :
    Prop where
  id : ids p.id q.id
  operator : p.operator = q.operator
  input : p.input = q.input
  reason : p.reason = q.reason

theorem SuspensionPoint.Alike.mono {ids others : PointId → PointId → Prop}
    {p q : SuspensionPoint} (hle : ∀ a b, ids a b → others a b) (halike : p.Alike ids q) :
    p.Alike others q :=
  ⟨hle _ _ halike.id, halike.operator, halike.input, halike.reason⟩

namespace PartialTree

variable {ids others : PointId → PointId → Prop}

mutual

def Alike (ids : PointId → PointId → Prop) : PartialTree → PartialTree → Prop
  | .done x, .done y => x = y
  | .point p, .point q => p.Alike ids q
  | .sequence items, .sequence items' => AlikeItems ids items items'
  | .pending logic, .pending logic' => logic = logic'
  | .call operator input args, .call operator' input' args' =>
      operator = operator' ∧ input = input' ∧ Alike ids args args'
  | _, _ => False

def AlikeItems (ids : PointId → PointId → Prop) : List PartialTree → List PartialTree → Prop
  | [], [] => True
  | item :: items, item' :: items' => Alike ids item item' ∧ AlikeItems ids items items'
  | _, _ => False

end

theorem alikeItems_of_forall₂ {items items' : List PartialTree}
    (halike : List.Forall₂ (Alike ids) items items') : AlikeItems ids items items' := by
  induction halike with
  | nil => trivial
  | cons hitem _ ih => exact ⟨hitem, ih⟩

mutual

theorem Alike.mono (hle : ∀ a b, ids a b → others a b) :
    ∀ {tree tree' : PartialTree}, tree.Alike ids tree' → tree.Alike others tree'
  | .done _, .done _, halike => halike
  | .point _, .point _, halike => SuspensionPoint.Alike.mono hle halike
  | .sequence _, .sequence _, halike => AlikeItems.mono hle halike
  | .pending _, .pending _, halike => halike
  | .call _ _ _, .call _ _ _, halike => ⟨halike.1, halike.2.1, Alike.mono hle halike.2.2⟩

theorem AlikeItems.mono (hle : ∀ a b, ids a b → others a b) :
    ∀ {items items' : List PartialTree}, AlikeItems ids items items' →
      AlikeItems others items items'
  | [], [], _ => trivial
  | _ :: _, _ :: _, halike => ⟨Alike.mono hle halike.1, AlikeItems.mono hle halike.2⟩

end

mutual

theorem Alike.points : ∀ {tree tree' : PartialTree}, tree.Alike ids tree' →
    List.Forall₂ (SuspensionPoint.Alike ids) tree.points tree'.points
  | .done _, .done _, _ => .nil
  | .point _, .point _, halike => .cons halike .nil
  | .sequence _, .sequence _, halike => AlikeItems.points halike
  | .pending _, .pending _, _ => .nil
  | .call _ _ _, .call _ _ _, halike => by
      rw [PartialTree.points, PartialTree.points]
      exact Alike.points halike.2.2

theorem AlikeItems.points : ∀ {items items' : List PartialTree}, AlikeItems ids items items' →
    List.Forall₂ (SuspensionPoint.Alike ids) (itemPoints items) (itemPoints items')
  | [], [], _ => .nil
  | _ :: _, _ :: _, halike => List.rel_append (Alike.points halike.1) (AlikeItems.points halike.2)

end

end PartialTree

namespace Evaluation

inductive Alike (ids : PointId → PointId → Prop) : Evaluation → Evaluation → Prop where
  | done (value : Json) : Alike ids (.done value) (.done value)
  | suspended {s t : Suspension} (hroot : s.root.Alike ids t.root) :
      Alike ids (.suspended s) (.suspended t)

variable {ids others : PointId → PointId → Prop} {evaluation evaluation' : Evaluation}

theorem Alike.mono (hle : ∀ a b, ids a b → others a b)
    (halike : evaluation.Alike ids evaluation') : evaluation.Alike others evaluation' := by
  cases halike with
  | done value => exact .done value
  | suspended hroot => exact .suspended (hroot.mono hle)

theorem Alike.isSuspended (halike : evaluation.Alike ids evaluation') :
    evaluation.isSuspended = evaluation'.isSuspended := by
  cases halike with
  | done value => rfl
  | suspended hroot => rfl

theorem Alike.value? (halike : evaluation.Alike ids evaluation') :
    evaluation.value? = evaluation'.value? := by
  cases halike with
  | done value => rfl
  | suspended hroot => rfl

theorem Alike.ofEvaluation (halike : evaluation.Alike ids evaluation') :
    (PartialTree.ofEvaluation evaluation).Alike ids (PartialTree.ofEvaluation evaluation') := by
  cases halike with
  | done value => exact rfl
  | suspended hroot => exact hroot

theorem alike_join {results results' : List Evaluation}
    (halike : List.Forall₂ (Alike ids) results results') :
    (join results).Alike ids (join results') := by
  have hany : results.any isSuspended = results'.any isSuspended := by
    induction halike with
    | nil => rfl
    | cons hresult _ ih => simp only [List.any_cons, hresult.isSuspended, ih]
  have hvalues : results.filterMap Evaluation.value? = results'.filterMap Evaluation.value? := by
    clear hany
    induction halike with
    | nil => rfl
    | cons hresult _ ih => simp only [List.filterMap_cons, hresult.value?, ih]
  have htrees : PartialTree.AlikeItems ids (results.map PartialTree.ofEvaluation)
      (results'.map PartialTree.ofEvaluation) := by
    apply PartialTree.alikeItems_of_forall₂
    rw [List.forall₂_map_left_iff, List.forall₂_map_right_iff]
    exact halike.imp fun _ _ hresult => hresult.ofEvaluation
  unfold join
  rw [← hany, ← hvalues]
  split
  · exact .suspended htrees
  · exact .done _

end Evaluation

/-! ## Renaming -/

def SuspensionPoint.rename (relabel : PointId → PointId) (p : SuspensionPoint) :
    SuspensionPoint :=
  { p with id := relabel p.id }

namespace PartialTree

mutual

def rename (relabel : PointId → PointId) : PartialTree → PartialTree
  | .done value => .done value
  | .point p => .point (p.rename relabel)
  | .sequence items => .sequence (renameItems relabel items)
  | .pending logic => .pending logic
  | .call operator input args => .call operator input (args.rename relabel)

def renameItems (relabel : PointId → PointId) : List PartialTree → List PartialTree
  | [] => []
  | item :: items => item.rename relabel :: renameItems relabel items

end

variable {ids : PointId → PointId → Prop} {relabel : PointId → PointId}

mutual

theorem Alike.rename_eq (hrelabel : ∀ a b, ids a b → relabel a = b) :
    ∀ {tree tree' : PartialTree}, tree.Alike ids tree' → tree.rename relabel = tree'
  | .done _, .done _, halike => congrArg PartialTree.done halike
  | .point p, .point q, halike => by
      have hid := hrelabel _ _ halike.id
      obtain ⟨_, hoperator, hinput, hreason⟩ := halike
      cases p
      cases q
      simp_all [rename, SuspensionPoint.rename]
  | .sequence _, .sequence _, halike =>
      congrArg PartialTree.sequence (AlikeItems.rename_eq hrelabel halike)
  | .pending _, .pending _, halike => congrArg PartialTree.pending halike
  | .call _ _ _, .call _ _ _, ⟨hoperator, hinput, hargs⟩ => by
      rw [rename, Alike.rename_eq hrelabel hargs, hoperator, hinput]

theorem AlikeItems.rename_eq (hrelabel : ∀ a b, ids a b → relabel a = b) :
    ∀ {items items' : List PartialTree}, AlikeItems ids items items' →
      renameItems relabel items = items'
  | [], [], _ => rfl
  | _ :: _, _ :: _, halike => by
      rw [renameItems, Alike.rename_eq hrelabel halike.1, AlikeItems.rename_eq hrelabel halike.2]

end

end PartialTree

namespace Evaluation

def ids : Evaluation → List PointId
  | .done _ => []
  | .suspended suspension => suspension.points.map SuspensionPoint.id

def rename (relabel : PointId → PointId) : Evaluation → Evaluation
  | .done value => .done value
  | .suspended suspension => .suspended ⟨suspension.root.rename relabel⟩

/-- The second outcome is the first one with its identifiers renamed, different ones differently. -/
def SameUpToIds (evaluation evaluation' : Evaluation) : Prop :=
  ∃ relabel : PointId → PointId,
    Set.InjOn relabel {id | id ∈ evaluation.ids} ∧ evaluation.rename relabel = evaluation'

theorem Alike.exists_of_mem_ids {ids : PointId → PointId → Prop}
    {evaluation evaluation' : Evaluation} (halike : evaluation.Alike ids evaluation')
    {a : PointId} (ha : a ∈ evaluation.ids) : ∃ b, ids a b := by
  cases halike with
  | done value => simp [Evaluation.ids] at ha
  | suspended hroot =>
      obtain ⟨p, hp, rfl⟩ := List.mem_map.mp ha
      obtain ⟨n, hn, rfl⟩ := List.getElem_of_mem hp
      have hlength := hroot.points.length_eq
      have hget := hroot.points.get hn (by rwa [← hlength])
      exact ⟨_, hget.id⟩

/-- Related outcomes are the same up to identifiers when the relation pairs these off. -/
theorem Alike.sameUpToIds {ids : PointId → PointId → Prop}
    {evaluation evaluation' : Evaluation} (halike : evaluation.Alike ids evaluation')
    (hfunctional : ∀ a b c, ids a b → ids a c → b = c)
    (hinjective : ∀ a b c, ids a c → ids b c → a = b) :
    evaluation.SameUpToIds evaluation' := by
  classical
  let relabel : PointId → PointId := fun a => if h : ∃ b, ids a b then h.choose else a
  have hrelabel : ∀ a b, ids a b → relabel a = b := by
    intro a b hab
    have hexists : ∃ b, ids a b := ⟨b, hab⟩
    have hchosen : relabel a = hexists.choose := dif_pos hexists
    rw [hchosen]
    exact hfunctional a _ _ hexists.choose_spec hab
  refine ⟨relabel, ?_, ?_⟩
  · intro a ha b hb heq
    obtain ⟨c, hac⟩ := halike.exists_of_mem_ids ha
    obtain ⟨d, hbd⟩ := halike.exists_of_mem_ids hb
    rw [hrelabel a c hac, hrelabel b d hbd] at heq
    subst heq
    exact hinjective a b c hac hbd
  · cases halike with
    | done value => rfl
    | suspended hroot => simp only [rename, hroot.rename_eq hrelabel]

end Evaluation
end DecisionLogic
