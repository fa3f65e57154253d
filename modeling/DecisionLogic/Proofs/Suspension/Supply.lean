import DecisionLogic.Proofs.Alike.Numbers
import DecisionLogic.Proofs.Congruence.Obedience
import DecisionLogic.Proofs.Suspension.WellFormed

/-!
# Suspensions made from the supply of identifiers

A poll draws the numbers that come next in the supply.  The trees that an evaluation suspends with
are anchored, and their identifiers are made from numbers drawn on the way, each number used at most
once.  As long as the supply of a poll never falls behind that of an earlier one, the numbers of
all polls together are different.
-/

namespace DecisionLogic

/-! ## Drawing from the supply -/

namespace World

theorem nextNumbers_add {w w' : World} {count : Nat} (hnext : w'.nextPoint = w.nextPoint + count)
    (more : Nat) : w.nextNumbers (count + more) = w.nextNumbers count + w'.nextNumbers more := by
  unfold nextNumbers
  rw [Multiset.range_add, Multiset.map_add, Multiset.map_map, hnext]
  simp only [Function.comp_def, add_assoc]

theorem nextNumbers_one (w : World) : w.nextNumbers 1 = {w.nextPoint} := by
  simp [nextNumbers]

theorem nodup_nextNumbers (w : World) (count : Nat) : (w.nextNumbers count).Nodup :=
  (Multiset.nodup_range count).map (add_right_injective w.nextPoint)

theorem bounds_of_mem_nextNumbers {w : World} {count n : Nat} (hn : n ∈ w.nextNumbers count) :
    w.nextPoint ≤ n ∧ n < w.nextPoint + count := by
  obtain ⟨i, hi, rfl⟩ := Multiset.mem_map.mp hn
  have hlt := Multiset.mem_range.mp hi
  omega

end World

/-- Numbers are drawn from the supply in order.  With `tracking`, no failure says that suspensions
are disabled. -/
def Law.supply (tracking : Bool) : Law where
  Step w w' drawn := ∃ count, w'.nextPoint = w.nextPoint + count ∧ drawn = w.nextNumbers count
  Fails failure := tracking = true → ∀ name, failure ≠ .suspensionDisabled name
  refl w := ⟨0, rfl, rfl⟩
  trans := by
    rintro w w' w'' _ _ ⟨count, hnext, rfl⟩ ⟨more, hnext', rfl⟩
    refine ⟨count + more, ?_, (World.nextNumbers_add hnext more).symm⟩
    rw [hnext', hnext, add_assoc]
  cancelled := nofun

theorem Law.supply_supplies (tracking : Bool) : (Law.supply tracking).Supplies :=
  fun w => ⟨w.nextNumbers 1, 1, rfl, rfl⟩

/-! ## What holds of suspensions -/

namespace PartialTree

def ids (tree : PartialTree) : Multiset PointId :=
  tree.points.map SuspensionPoint.id

/-- The identifiers in a list of trees. -/
def itemIds (items : List PartialTree) : Multiset PointId :=
  (itemPoints items).map SuspensionPoint.id

theorem itemPoints_append (items others : List PartialTree) :
    itemPoints (items ++ others) = itemPoints items ++ itemPoints others := by
  induction items with
  | nil => simp [itemPoints]
  | cons item items ih => simp [itemPoints, ih]

theorem itemIds_cons (item : PartialTree) (items : List PartialTree) :
    itemIds (item :: items) = item.ids + itemIds items := by
  simp [itemIds, ids, itemPoints]

theorem itemPoints_of_settled {items : List PartialTree}
    (hsettled : ∀ tree ∈ items, Law.Settled tree) : itemPoints items = [] := by
  induction items with
  | nil => simp [itemPoints]
  | cons item items ih =>
      have hrest := ih fun tree htree => hsettled tree (List.mem_cons_of_mem item htree)
      cases hsettled item List.mem_cons_self with
      | done value | pending logic => simp [itemPoints, points, hrest]

theorem anchored_of_settled {tree : PartialTree} (hsettled : Law.Settled tree) :
    tree.Anchored := by
  cases hsettled with
  | done value => exact .done value
  | pending logic => exact .pending logic

end PartialTree

/-- The tree waits for something in all its open parts, and its identifiers were drawn. -/
structure Suspension.Supplied (tracking : Bool) (drawn : Multiset Nat) (s : Suspension) :
    Prop where
  tracked : tracking = true
  anchored : s.root.Anchored
  pointed : s.points ≠ []
  ids : s.root.ids ≤ drawn.map PointId.fresh

namespace Suspension.Supplied

variable {tracking : Bool} {drawn : Multiset Nat} {s : Suspension}

theorem lasting (drawn more : Multiset Nat) (hsupplied : s.Supplied tracking more) :
    s.Supplied tracking (drawn + more) := by
  refine { hsupplied with ids := hsupplied.ids.trans ?_ }
  rw [Multiset.map_add]
  exact Multiset.le_add_left _ _

theorem ofPoint (htracking : tracking = true) {p : SuspensionPoint}
    (hid : p.id ∈ drawn.map PointId.fresh) : (Suspension.ofPoint p).Supplied tracking drawn := by
  refine ⟨htracking, .point p, by simp, ?_⟩
  simpa [Suspension.ofPoint, PartialTree.ids, PartialTree.points] using hid

theorem withinCall (hsupplied : s.Supplied tracking drawn) (name : String) (input : Json) :
    (s.withinCall name input).Supplied tracking drawn := by
  refine ⟨hsupplied.tracked, .call hsupplied.anchored hsupplied.pointed, ?_, ?_⟩
  · simpa using hsupplied.pointed
  · simpa [Suspension.withinCall, PartialTree.ids, PartialTree.points] using hsupplied.ids

theorem ofArguments (hsupplied : s.Supplied tracking drawn) {before after : List PartialTree}
    (hsettled : ∀ tree ∈ before ++ after, Law.Settled tree) (name : String) (input : Json) :
    (Suspension.ofArguments name input (before ++ s.root :: after)).Supplied tracking drawn := by
  have hbefore := PartialTree.itemPoints_of_settled fun tree htree =>
    hsettled tree (List.mem_append_left after htree)
  have hafter := PartialTree.itemPoints_of_settled fun tree htree =>
    hsettled tree (List.mem_append_right before htree)
  have hpoints : PartialTree.itemPoints (before ++ s.root :: after) = s.root.points := by
    simp [PartialTree.itemPoints_append, PartialTree.itemPoints, hbefore, hafter]
  have hanchored : (PartialTree.sequence (before ++ s.root :: after)).Anchored := by
    refine .sequence (fun tree htree => ?_) (hpoints ▸ hsupplied.pointed)
    simp only [List.mem_append, List.mem_cons] at htree hsettled
    rcases htree with hbefore | rfl | hafter
    · exact PartialTree.anchored_of_settled (hsettled tree (.inl hbefore))
    · exact hsupplied.anchored
    · exact PartialTree.anchored_of_settled (hsettled tree (.inr hafter))
  have hwhole : (Suspension.ofArguments name input (before ++ s.root :: after)).root.points =
      s.root.points := by
    simp [Suspension.ofArguments, PartialTree.points, hpoints]
  refine ⟨hsupplied.tracked, .call hanchored ?_, ?_, ?_⟩
  · rw [PartialTree.points, hpoints]
    exact hsupplied.pointed
  · unfold Suspension.points
    rw [hwhole]
    exact hsupplied.pointed
  · unfold PartialTree.ids
    rw [hwhole]
    exact hsupplied.ids

theorem firstPoint (hsupplied : s.Supplied tracking drawn) {p : SuspensionPoint}
    (hp : p ∈ s.firstPoint?) (name : String) (input : Json) :
    (Suspension.ofPoint ⟨p.id, name, input, p.reason⟩).Supplied tracking drawn := by
  have hmem : p.id ∈ s.root.points.map SuspensionPoint.id :=
    List.mem_map_of_mem (List.mem_of_mem_head? hp)
  exact ofPoint hsupplied.tracked (Multiset.mem_of_le hsupplied.ids (Multiset.mem_coe.mpr hmem))

/-- The results of a sequence, as parts of a tree. -/
structure Items (tracking : Bool) (drawn : Multiset Nat) (results : List Evaluation) : Prop where
  anchored : ∀ result ∈ results, (PartialTree.ofEvaluation result).Anchored
  pointed : results.any Evaluation.isSuspended = true →
    tracking = true ∧ PartialTree.itemPoints (results.map PartialTree.ofEvaluation) ≠ []
  ids : PartialTree.itemIds (results.map PartialTree.ofEvaluation) ≤ drawn.map PointId.fresh

theorem items {results results' : List Evaluation}
    (heach : Reading.Each (Evaluation.Linked (Linkage.of (Supplied tracking))) drawn results
      results') : Items tracking drawn results := by
  induction heach with
  | nil => exact ⟨nofun, nofun, by simp [PartialTree.itemIds, PartialTree.itemPoints]⟩
  | @cons drawn more result _ results _ hfirst _ ih =>
      cases hfirst with
      | done _ value =>
          refine ⟨?_, fun hany => ?_, ?_⟩
          · exact List.forall_mem_cons.mpr ⟨.done value, ih.anchored⟩
          · have hrest := ih.pointed hany
            refine ⟨hrest.1, ?_⟩
            simpa [PartialTree.itemPoints, PartialTree.ofEvaluation, PartialTree.points]
              using hrest.2
          · rw [List.map_cons, PartialTree.itemIds_cons, Multiset.map_add]
            have hnone : (PartialTree.done value).ids = 0 := by
              simp [PartialTree.ids, PartialTree.points]
            exact add_le_add (hnone ▸ Multiset.zero_le _) ih.ids
      | @suspended _ s _ hsupplied =>
          have hsupplied : s.Supplied tracking drawn := hsupplied
          refine ⟨?_, fun _ => ⟨hsupplied.tracked, ?_⟩, ?_⟩
          · exact List.forall_mem_cons.mpr ⟨hsupplied.anchored, ih.anchored⟩
          · have hpoints : s.root.points ≠ [] := hsupplied.pointed
            simp [PartialTree.itemPoints, PartialTree.ofEvaluation, hpoints]
          · rw [List.map_cons, PartialTree.itemIds_cons, Multiset.map_add]
            exact add_le_add hsupplied.ids ih.ids

theorem joins : Evaluation.Joins (Linkage.of (Supplied tracking))
    (Linkage.of (Supplied tracking)) := by
  intro drawn results results' heach hany
  have hitems := items heach
  obtain ⟨htracking, hpoints⟩ := hitems.pointed hany
  refine ⟨htracking, .sequence (fun tree htree => ?_) hpoints, ?_, ?_⟩
  · obtain ⟨result, hresult, rfl⟩ := List.mem_map.mp htree
    exact hitems.anchored result hresult
  · simpa [Suspension.points, PartialTree.points] using hpoints
  · simpa [PartialTree.ids, PartialTree.itemIds, PartialTree.points] using hitems.ids

/-- Whatever an evaluation suspends with is supplied. -/
theorem carries (options : Options) :
    (Law.supply options.yieldSupported).Carries options (fun drawn s =>
      s.Supplied options.yieldSupported drawn) := by
  refine ⟨fun drawn more _ => lasting drawn more, joins, ?_, ?_, ?_, ?_⟩
  · exact fun _ _ name input hsupplied => hsupplied.withinCall name input
  · exact fun _ _ name input _ _ hsupplied hsettled => hsupplied.ofArguments hsettled name input
  · exact fun _ _ name input hsupplied p hp => hsupplied.firstPoint hp name input
  · rintro drawn id _ name input reason htracking ⟨w, rfl, count, hcount, rfl⟩
    have hsupported : options.yieldSupported = true := by
      rcases htracking with hsupported | ⟨_, _, hsupplied⟩
      · exact hsupported
      · exact hsupplied.tracked
    obtain rfl : count = 1 := Nat.add_left_cancel hcount.symm
    refine ofPoint hsupported ?_
    simp [World.nextNumbers_one]

theorem nodup_ids (hsupplied : s.Supplied tracking drawn) (hdrawn : drawn.Nodup)
    (hcount : ∀ n ∈ drawn, n < PointId.count) : (s.points.map SuspensionPoint.id).Nodup := by
  have hfresh : (drawn.map PointId.fresh).Nodup :=
    hdrawn.map_on fun m hm n hn => PointId.fresh_injective (hcount m hm) (hcount n hn)
  exact Multiset.coe_nodup.mp (Multiset.nodup_of_le hsupplied.ids hfresh)

end Suspension.Supplied

/-! ## Jobs -/

variable {α : Type}

/-- A job of the computation after polls in worlds whose supply of points never falls behind: `next`
is the first number that has not come up. -/
inductive Job.ReachedInOrder (computation : Computation α) : Nat → Job α → Prop
  | new (cancelled : Bool) : ReachedInOrder computation 0 (Job.new computation cancelled)
  | share {next : Nat} {job : Job α} (hreached : ReachedInOrder computation next job)
      (bag : Fields Json) : ReachedInOrder computation next { job with bag }
  | poll {next : Nat} {job : Job α} (hreached : ReachedInOrder computation next job)
      {world : World} (hnext : next ≤ world.nextPoint) :
      ReachedInOrder computation (job.poll world).2.2.nextPoint (job.poll world).2.1
  | cancel {next : Nat} {job : Job α} (hreached : ReachedInOrder computation next job) :
      ReachedInOrder computation next job.cancel
  | drop {next : Nat} {job : Job α} (hreached : ReachedInOrder computation next job) :
      ReachedInOrder computation next job.drop

/-- What is left of the job keeps the law, after the numbers `drawn`. -/
inductive Progress.Awaits (law : Law) (condition : Multiset Nat → Except Failure α → Prop)
    (drawn : Multiset Nat) : Progress α → Prop
  | unstarted {computation : Computation α}
      (hkeeps : computation.Keeps law fun more => condition (drawn + more)) :
      Awaits law condition drawn (.unstarted computation)
  | running {moment : Moment α}
      (hkeeps : ∀ later,
        (moment.poll later).Keeps law (fun more => condition (drawn + more)) later) :
      Awaits law condition drawn (.running moment)
  | over : Awaits law condition drawn .over

namespace Job

variable {tracking : Bool} {condition : Multiset Nat → Except Failure α → Prop}
  {drawn : Multiset Nat} {job : Job α}

/-- What a poll did that draws numbers from the supply of its world. -/
structure Draws (tracking : Bool) (condition : Multiset Nat → Except Failure α → Prop)
    (drawn : Multiset Nat) (world : World) (polled : JobAnswer α × Job α × World)
    (count : Nat) : Prop where
  next : polled.2.2.nextPoint = world.nextPoint + count
  awaits : polled.2.1.progress.Awaits (.supply tracking) condition
    (drawn + world.nextNumbers count)
  ends : ∀ result, polled.1 = .finished result → condition (drawn + world.nextNumbers count) result

theorem settle_draws {m : Moment α} {w : World}
    (hkeeps : m.Keeps (.supply tracking) (fun more => condition (drawn + more)) w) :
    ∃ count, Draws tracking condition drawn w (settle m) count := by
  obtain ⟨more, ⟨count, hnext, rfl⟩, hpoll⟩ := hkeeps.poll
  cases hkeeps with
  | finished hstep hresult =>
      obtain ⟨count', hnext', rfl⟩ := hstep
      obtain rfl : count' = count := Nat.add_left_cancel (hnext'.symm.trans hnext)
      refine ⟨count', hnext, .over, fun result hanswer => ?_⟩
      cases hanswer
      exact hresult
  | waiting _ _ =>
      simp only [← add_assoc] at hpoll
      exact ⟨count, hnext, .running hpoll, nofun⟩

theorem poll_draws (hawaits : job.progress.Awaits (.supply tracking) condition drawn)
    (world : World) : ∃ count, Draws tracking condition drawn world (job.poll world) count := by
  unfold poll
  cases hprogress : job.progress with
  | unstarted computation =>
      rw [hprogress] at hawaits
      cases hawaits with
      | unstarted hkeeps =>
          obtain ⟨count, hdraws⟩ :=
            settle_draws (hkeeps { world with bag := job.bag, cancelled := job.cancelled })
          exact ⟨count, hdraws.next, hdraws.awaits, hdraws.ends⟩
  | running moment =>
      rw [hprogress] at hawaits
      cases hawaits with
      | running hkeeps =>
          obtain ⟨count, hdraws⟩ :=
            settle_draws (hkeeps { world with bag := job.bag, cancelled := job.cancelled })
          exact ⟨count, hdraws.next, hdraws.awaits, hdraws.ends⟩
  | _ =>
      refine ⟨0, rfl, ?_, nofun⟩
      dsimp only
      rw [hprogress]
      exact .over

/-- All numbers that have come up are different. -/
structure Unrepeated (tracking : Bool) (condition : Multiset Nat → Except Failure α → Prop)
    (next : Nat) (job : Job α) (drawn : Multiset Nat) : Prop where
  nodup : drawn.Nodup
  below : ∀ n ∈ drawn, n < next
  awaits : job.progress.Awaits (.supply tracking) condition drawn

theorem Unrepeated.poll {next : Nat} {world : World}
    (hunrepeated : job.Unrepeated tracking condition next drawn) (hnext : next ≤ world.nextPoint) :
    ∃ more, (job.poll world).2.1.Unrepeated tracking condition (job.poll world).2.2.nextPoint
        more ∧
      ∀ result, (job.poll world).1 = .finished result → condition more result := by
  obtain ⟨count, hdraws⟩ := poll_draws hunrepeated.awaits world
  refine ⟨drawn + world.nextNumbers count, ⟨?_, fun n hn => ?_, hdraws.awaits⟩, hdraws.ends⟩
  · refine Multiset.nodup_add.mpr ⟨hunrepeated.nodup, world.nodup_nextNumbers count, ?_⟩
    refine Multiset.disjoint_left.mpr fun {n} hold hnew => ?_
    have hbelow := hunrepeated.below n hold
    have hbounds := World.bounds_of_mem_nextNumbers hnew
    omega
  · rw [hdraws.next]
    rcases Multiset.mem_add.mp hn with hold | hnew
    · have hbelow := hunrepeated.below n hold
      omega
    · exact (World.bounds_of_mem_nextNumbers hnew).2

theorem ReachedInOrder.unrepeated {computation : Computation α} {next : Nat}
    (hreached : ReachedInOrder computation next job)
    (hkeeps : computation.Keeps (.supply tracking) condition) :
    ∃ drawn, job.Unrepeated tracking condition next drawn := by
  induction hreached with
  | new cancelled =>
      refine ⟨0, Multiset.nodup_zero, by simp, .unstarted ?_⟩
      simpa only [zero_add] using hkeeps
  | share _ _ ih =>
      obtain ⟨drawn, hunrepeated⟩ := ih
      exact ⟨drawn, hunrepeated.nodup, hunrepeated.below, hunrepeated.awaits⟩
  | poll _ hnext ih =>
      obtain ⟨drawn, hunrepeated⟩ := ih
      obtain ⟨more, hmore, -⟩ := hunrepeated.poll hnext
      exact ⟨more, hmore⟩
  | cancel _ ih =>
      obtain ⟨drawn, hunrepeated⟩ := ih
      exact ⟨drawn, hunrepeated.nodup, hunrepeated.below, hunrepeated.awaits⟩
  | drop _ ih =>
      obtain ⟨drawn, hunrepeated⟩ := ih
      exact ⟨drawn, hunrepeated.nodup, hunrepeated.below, .over⟩

end Job
end DecisionLogic
