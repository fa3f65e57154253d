import DecisionLogic.Scope
import Mathlib.Data.List.Basic

/-!
# Texts of paths

A text names the path that climbs once for each leading `../` and then has the pieces between the
dots of what is left as keys, none if nothing is left.
-/

namespace DecisionLogic.Path

/-- The text consists of `ups` steps up and a rest that has no further one in front. -/
structure Climbs (text : String) (ups : Nat) (rest : List Char) : Prop where
  split : text.toList = (List.replicate ups ['.', '.', '/']).flatten ++ rest
  last : ¬ ['.', '.', '/'] <+: rest

/-- The pieces of a text between its dots. -/
def pieces (rest : List Char) : List String :=
  (rest.splitOn '.').map String.ofList

theorem stripUps_of_last {rest : List Char} (hlast : ¬ ['.', '.', '/'] <+: rest) :
    stripUps rest = (0, rest) := by
  unfold stripUps
  split
  next tail =>
    exact absurd (List.prefix_append ['.', '.', '/'] tail) hlast
  next => rfl

theorem stripUps_append {rest : List Char} (hlast : ¬ ['.', '.', '/'] <+: rest) (ups : Nat) :
    stripUps ((List.replicate ups ['.', '.', '/']).flatten ++ rest) = (ups, rest) := by
  induction ups with
  | zero => exact stripUps_of_last hlast
  | succ ups ih =>
      rw [List.replicate_succ, List.flatten_cons, List.append_assoc]
      simp only [List.cons_append, List.nil_append, stripUps, ih]

theorem exists_split (cs : List Char) : ∃ ups rest,
    cs = (List.replicate ups ['.', '.', '/']).flatten ++ rest ∧ ¬ ['.', '.', '/'] <+: rest := by
  induction cs using stripUps.induct with
  | case1 tail _ _ _ ih =>
      obtain ⟨ups, rest, hsplit, hlast⟩ := ih
      refine ⟨ups + 1, rest, ?_, hlast⟩
      rw [List.replicate_succ, List.flatten_cons, List.append_assoc, ← hsplit]
      rfl
  | case2 cs hnone =>
      refine ⟨0, cs, rfl, ?_⟩
      rintro ⟨tail, rfl⟩
      exact hnone tail rfl

/-- Every text is some steps up and a rest. -/
theorem exists_climbs (text : String) : ∃ ups rest, Climbs text ups rest := by
  obtain ⟨ups, rest, hsplit, hlast⟩ := exists_split text.toList
  exact ⟨ups, rest, hsplit, hlast⟩

theorem segments_eq_splitOn (cs : List Char) : segments cs = cs.splitOn '.' := by
  induction cs with
  | nil => rfl
  | cons c cs ih =>
      have hsome : segments cs ≠ [] := by simp [ih]
      rw [List.splitOn_cons_eq_if_modifyHead, ← ih, segments]
      by_cases hdot : c = '.'
      · simp [hdot]
      · obtain ⟨first, rest, hsegments⟩ := List.exists_cons_of_ne_nil hsome
        simp [hdot, hsegments]

namespace Climbs

variable {text : String} {ups : Nat} {rest : List Char}

theorem stripUps_eq (hclimbs : Climbs text ups rest) :
    stripUps text.toList = (ups, rest) := by
  rw [hclimbs.split]
  exact stripUps_append hclimbs.last ups

theorem parse_eq (hclimbs : Climbs text ups rest) :
    parse text = if rest = [] then ⟨ups, []⟩ else ⟨ups, pieces rest⟩ := by
  simp only [parse, hclimbs.stripUps_eq, List.isEmpty_iff, segments_eq_splitOn, pieces]

end Climbs
end DecisionLogic.Path
