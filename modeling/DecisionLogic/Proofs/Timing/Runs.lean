import DecisionLogic.Proofs.Resumption.Ending
import DecisionLogic.Proofs.Resumption.Rebuild
import DecisionLogic.Proofs.Timing.Engine
import Mathlib.Data.List.Zip

/-!
# Runs do not depend on timing

Runs by two engines that differ in timing only come to the same: both to one value, both to one
suspended tree with other identifiers, or both to a failure.
-/

namespace DecisionLogic

/-! ## Identifiers by their places -/

theorem eq_of_mem_zip {α β : Type} {xs : List α} {ys : List β} (hnodup : xs.Nodup) {a : α} {b c : β}
    (hb : (a, b) ∈ xs.zip ys) (hc : (a, c) ∈ xs.zip ys) : b = c := by
  obtain ⟨i, hi, hib⟩ := List.getElem_of_mem hb
  obtain ⟨j, hj, hjc⟩ := List.getElem_of_mem hc
  rw [List.getElem_zip, Prod.mk.injEq] at hib hjc
  have heq : i = j := (List.Nodup.getElem_inj_iff hnodup).mp (hib.1.trans hjc.1.symm)
  subst heq
  exact hib.2.symm.trans hjc.2

theorem eq_of_mem_zip_right {α β : Type} {xs : List α} {ys : List β} (hnodup : ys.Nodup) {a b : α}
    {c : β} (ha : (a, c) ∈ xs.zip ys) (hb : (b, c) ∈ xs.zip ys) : a = b := by
  have hswap {x : α} (hx : (x, c) ∈ xs.zip ys) : (c, x) ∈ ys.zip xs := by
    rw [← List.zip_swap]
    exact List.mem_map_of_mem (f := Prod.swap) hx
  exact eq_of_mem_zip hnodup (hswap ha) (hswap hb)

namespace PartialTree

variable {ids : PointId → PointId → Prop}

mutual

/-- Trees of one shape are related by the identifiers in the same places. -/
theorem Alike.byPlace : ∀ {tree tree' : PartialTree}, tree.Alike (fun _ _ => True) tree' →
    (∀ a b, (a, b) ∈ (tree.points.map SuspensionPoint.id).zip
      (tree'.points.map SuspensionPoint.id) → ids a b) → tree.Alike ids tree'
  | .done _, .done _, halike, _ => halike
  | .point p, .point q, halike, hids =>
      ⟨hids p.id q.id (by simp [points]), halike.operator, halike.input, halike.reason⟩
  | .sequence items, .sequence items', halike, hids => AlikeItems.byPlace halike hids
  | .pending _, .pending _, halike, _ => halike
  | .call _ _ args, .call _ _ args', halike, hids =>
      ⟨halike.1, halike.2.1, Alike.byPlace halike.2.2 hids⟩

theorem AlikeItems.byPlace : ∀ {items items' : List PartialTree},
    AlikeItems (fun _ _ => True) items items' →
      (∀ a b, (a, b) ∈ ((itemPoints items).map SuspensionPoint.id).zip
        ((itemPoints items').map SuspensionPoint.id) → ids a b) → AlikeItems ids items items'
  | [], [], _, _ => trivial
  | item :: items, item' :: items', halike, hids => by
      have hlength := halike.1.points.length_eq
      simp only [itemPoints, List.map_append] at hids
      rw [List.zip_append (by simpa using hlength)] at hids
      simp only [List.mem_append] at hids
      exact ⟨Alike.byPlace halike.1 fun a b h => hids a b (.inl h),
        AlikeItems.byPlace halike.2 fun a b h => hids a b (.inr h)⟩

end

end PartialTree

/-- Outcomes of one shape are the same but for identifiers when no identifier occurs twice. -/
theorem Evaluation.Alike.sameUpToIds_of_nodup {evaluation evaluation' : Evaluation}
    (halike : evaluation.Alike (fun _ _ => True) evaluation') (hnodup : evaluation.ids.Nodup)
    (hnodup' : evaluation'.ids.Nodup) : evaluation.SameUpToIds evaluation' := by
  have hplaces : evaluation.Alike (fun a b => (a, b) ∈ evaluation.ids.zip evaluation'.ids)
      evaluation' := by
    cases halike with
    | done value => exact .done value
    | suspended hroot => exact .suspended (hroot.byPlace fun _ _ => id)
  exact hplaces.sameUpToIds (fun _ _ _ => eq_of_mem_zip hnodup)
    fun _ _ _ => eq_of_mem_zip_right hnodup'

/-! ## Runs -/

theorem Computation.Coincides.ends {α β : Type} {R : Reading α β} {c : Computation α}
    {d : Computation β} (hcoincides : Coincides R c d) (w v : World) :
    ∃ x w' y v' count, c.Ends w x w' ∧ d.Ends v y v' ∧ w'.nextPoint = w.nextPoint + count ∧
      Matched (R (w.nextNumbers count)) x y := by
  obtain ⟨x, w', effect, hx, houtcome, hdoes⟩ := hcoincides.left.outcome.ends_does w
  obtain ⟨y, v', effect', hy, houtcome', -⟩ := hcoincides.right.outcome.ends_does v
  obtain ⟨count, hnext, hdrawn⟩ := hdoes.draws
  have hmatched := hcoincides.matched _ _ _ _ houtcome houtcome'
  rw [hdrawn] at hmatched
  exact ⟨x, w', y, v', count, hx, hy, hnext, hmatched⟩

theorem Engine.SameButTiming.symm {engine engine' : Engine} (hsame : engine.SameButTiming engine') :
    engine'.SameButTiming engine := by
  refine ⟨hsame.options.symm, fun name => ?_⟩
  have hoperator := hsame.operators name
  generalize engine.registry.lookup name = known at hoperator ⊢
  generalize engine'.registry.lookup name = known' at hoperator ⊢
  cases hoperator with
  | unknown => exact .unknown
  | standard hlookup => exact .standard hlookup
  | responding hresponds hresponds' => exact .responding hresponds' hresponds

namespace Engine

variable {engine engine' : Engine} {logic data : Json} {above : List Json} {w v w' v' : World}

theorem run_timing (hsame : engine.SameButTiming engine') (logic data : Json) (above : List Json) :
    Congruence.timing.Rel (Evaluation.Linked Linkage.Renaming) (engine.run logic data above)
      (engine'.run logic data above) := by
  have hlevels : engine'.levels = engine.levels := by
    unfold levels
    rw [hsame.options]
  unfold run
  rw [← hsame.options]
  cases Logic.parseBounded engine.options.maxDepth logic with
  | error failure => exact Congruence.timing.fail trivial
  | ok node =>
      change Congruence.timing.Rel _ (engine.evaluate engine.levels node (.withAbove data above))
        (engine'.evaluate engine'.levels node (.withAbove data above))
      rw [hlevels]
      exact (compatible_timing hsame).evaluate_rel engine.levels node _ _ rfl

/-- No identifier is drawn twice unless the supply starts over. -/
theorem nodup_ids_of_run (hsame : engine.SameButTiming engine') {evaluation : Evaluation}
    (hends : (engine.run logic data above).Ends w (.ok evaluation) w')
    (hsupply : w'.nextPoint ≤ w.nextPoint + PointId.count) : evaluation.ids.Nodup := by
  obtain ⟨x, u, y, _, count, hx, -, hnext, hmatched⟩ := (run_timing hsame logic data above).ends w w
  obtain ⟨rfl, rfl⟩ := hends.unique hx
  have hcount : count ≤ PointId.count := by omega
  cases hmatched with
  | ok hlinked =>
      cases hlinked with
      | done _ value => exact .nil
      | suspended hrenaming =>
          rw [← Multiset.coe_nodup]
          exact Multiset.nodup_of_le hrenaming.ids (nodup_fresh_nextNumbers w hcount)

/-- Runs by engines that differ in timing only come to the same.  They always end; a value is the
same value, a suspended tree is the same tree with other identifiers, and where one run fails the
other one fails as well. -/
theorem run_ignores_timing (hsame : engine.SameButTiming engine') (logic data : Json)
    (above : List Json) (w v : World) :
    (∃ result w', (engine.run logic data above).Ends w result w') ∧
    (∀ value, (∃ w', (engine.run logic data above).Ends w (.ok (.done value)) w') →
      ∃ v', (engine'.run logic data above).Ends v (.ok (.done value)) v') ∧
    (∀ suspension w', (engine.run logic data above).Ends w (.ok (.suspended suspension)) w' →
      ∃ suspension' v', (engine'.run logic data above).Ends v (.ok (.suspended suspension')) v' ∧
        suspension.root.Alike (fun _ _ => True) suspension'.root ∧
        (w'.nextPoint ≤ w.nextPoint + PointId.count →
          v'.nextPoint ≤ v.nextPoint + PointId.count →
            Evaluation.SameUpToIds (.suspended suspension) (.suspended suspension'))) ∧
    ((∃ failure w', (engine.run logic data above).Ends w (.error failure) w') →
      ∃ failure v', (engine'.run logic data above).Ends v (.error failure) v') := by
  obtain ⟨x, w', y, v', _, hx, hy, -, hmatched⟩ := (run_timing hsame logic data above).ends w v
  refine ⟨⟨x, w', hx⟩, ?_, ?_, ?_⟩
  · rintro value ⟨u, hends⟩
    obtain ⟨rfl, rfl⟩ := hends.unique hx
    cases hmatched with
    | ok hlinked =>
        cases hlinked
        exact ⟨v', hy⟩
  · intro suspension u hends
    obtain ⟨rfl, rfl⟩ := hends.unique hx
    cases hmatched with
    | ok hlinked =>
        cases hlinked with
        | @suspended _ _ suspension' hrenaming =>
            refine ⟨suspension', v', hy, hrenaming.alike, fun hleft hright => ?_⟩
            exact (Evaluation.Alike.suspended hrenaming.alike).sameUpToIds_of_nodup
              (nodup_ids_of_run hsame hends hleft) (nodup_ids_of_run hsame.symm hy hright)
  · rintro ⟨failure, u, hends⟩
    obtain ⟨rfl, rfl⟩ := hends.unique hx
    cases hmatched with
    | error _ failure' => exact ⟨failure', v', hy⟩

end Engine

/-! ## Two operators that wait -/

/-- Wait as long as `delay` says of the input.  Null and truth values are asked for, all other
values come back after as many polls again. -/
def fetchOnce (delay : Json → Nat) : AwaitingBody := fun input _ _ => do
  Computation.pause (delay input.toJson)
  match input.toJson with
  | .null => return .yield .null
  | .bool b => return .yield (.bool b)
  | value => return .pending [do Computation.pause (delay value); return value]

def fetchOperator (delay : Json → Nat) : Operator :=
  { body := .awaiting (fetchOnce delay), traverse := true, deterministic := false, yields := true,
    useContext := false, rawData := false, sync := false, origin := .custom }

def fetchEngine (delay : Json → Nat) : Engine :=
  ⟨Standard.registry.insert "fetch" (fetchOperator delay), { yieldSupported := true }⟩

def fetchResponse (value : Json) (_ : Scope) : Response :=
  match value with
  | .null => .yields .null
  | .bool b => .yields (.bool b)
  | value => .pending [some value]

theorem concludes_pause (polls : Nat) {α : Type} {next : Computation α}
    {condition : Except Failure α → Prop} (hnext : next.Concludes True fun _ => condition) :
    (Computation.pause polls >>= fun _ => next).Concludes True fun _ => condition := by
  induction polls with
  | zero => exact hnext
  | succ polls ih =>
      intro w hactive
      exact .waiting trivial (.refl hactive) (fun _ _ => rfl) ih

theorem fetchOperator_responds (delay : Json → Nat) :
    (fetchOperator delay).Responds fetchResponse := by
  have hreturns (value : Json) : Computation.Returns (some value)
      (do Computation.pause (delay value); return value) :=
    concludes_pause _ fun _ hactive => .finished (.refl hactive) rfl
  have hpending (value : Json) : Computation.Concludes True
      (fun _ result => (Response.pending [some value]).Gives result)
      (pure (.pending [do Computation.pause (delay value); return value])) :=
    fun _ hactive => .finished (.refl hactive) (.pending (.cons (hreturns value) .nil))
  have hbody (value : Json) (scope : Scope) (handle : Handle) :
      (fetchOnce delay (.evaluated value) scope handle).Concludes True fun _ result =>
        (fetchResponse value scope).Gives result := by
    apply concludes_pause
    cases value with
    | null => exact fun _ hactive => .finished (.refl hactive) (.yields .null)
    | bool b => exact fun _ hactive => .finished (.refl hactive) (.yields (.bool b))
    | _ => exact hpending _
  refine ⟨rfl, fun value scope handle w hactive => ?_⟩
  simp only [OperatorBody.run, fetchOperator, Computation.cancellable, hactive]
  exact (hbody value scope handle w hactive).guarded

theorem fetchEngine_sameButTiming (delay delay' : Json → Nat) :
    (fetchEngine delay).SameButTiming (fetchEngine delay') := by
  refine ⟨rfl, fun name => ?_⟩
  by_cases hname : "fetch" = name
  · subst hname
    simp only [fetchEngine, Registry.lookup_insert_self]
    exact .responding (fetchOperator_responds delay) (fetchOperator_responds delay')
  · simp only [fetchEngine, Registry.lookup_insert_of_ne _ hname]
    cases hlookup : Standard.registry.lookup name with
    | none => exact .unknown
    | some operator => exact .standard hlookup

/-- An engine that waits for null only, and one that waits for all other values. -/
def slowAtNull : Engine :=
  fetchEngine fun value => if value.isNull then 2 else 0

def quickAtNull : Engine :=
  fetchEngine fun value => if value.isNull then 0 else 1

/-- Two calls that are asked for, and one that answers with a computed value. -/
def fetchLogic : Json :=
  .array [.object [("fetch", .null)], .object [("fetch", .bool true)],
    .object [("fetch", .string "x")]]

/-- The identifier of the second call is drawn first. -/
theorem slowAtNull_ends : ∃ suspension w',
    (slowAtNull.run fetchLogic .null []).Ends (.start 0) (.ok (.suspended suspension)) w' ∧
      suspension.points.map SuspensionPoint.id = [.fresh 1, .fresh 0] ∧ w'.nextPoint = 2 :=
  ⟨_, _, ⟨3, _, rfl⟩, rfl, rfl⟩

theorem quickAtNull_ends : ∃ suspension w',
    (quickAtNull.run fetchLogic .null []).Ends (.start 7) (.ok (.suspended suspension)) w' ∧
      suspension.points.map SuspensionPoint.id = [.fresh 7, .fresh 8] ∧ w'.nextPoint = 9 :=
  ⟨_, _, ⟨3, _, rfl⟩, rfl, rfl⟩

/-- The trees are the same but for the identifiers, which were drawn in opposite orders. -/
theorem run_ignores_timing_delayed :
    slowAtNull.SameButTiming quickAtNull ∧
      ∃ suspension w',
        (slowAtNull.run fetchLogic .null []).Ends (.start 0) (.ok (.suspended suspension)) w' ∧
        suspension.points.map SuspensionPoint.id = [.fresh 1, .fresh 0] ∧
        ∃ suspension' v',
          (quickAtNull.run fetchLogic .null []).Ends (.start 7) (.ok (.suspended suspension')) v' ∧
            suspension'.points.map SuspensionPoint.id = [.fresh 7, .fresh 8] ∧
            Evaluation.SameUpToIds (.suspended suspension) (.suspended suspension') := by
  have hsame : slowAtNull.SameButTiming quickAtNull := fetchEngine_sameButTiming _ _
  obtain ⟨-, -, hsuspended, -⟩ :=
    Engine.run_ignores_timing hsame fetchLogic .null [] (.start 0) (.start 7)
  obtain ⟨suspension, w', hends, hids, hnext⟩ := slowAtNull_ends
  obtain ⟨suspension', v', hends', hids', hnext'⟩ := quickAtNull_ends
  obtain ⟨other, u, hother, -, hrenamed⟩ := hsuspended suspension w' hends
  obtain ⟨hresult, rfl⟩ := hends'.unique hother
  cases hresult
  refine ⟨hsame, suspension, w', hends, hids, suspension', v', hends', hids', hrenamed ?_ ?_⟩
  · rw [hnext]
    decide
  · rw [hnext']
    decide

end DecisionLogic
