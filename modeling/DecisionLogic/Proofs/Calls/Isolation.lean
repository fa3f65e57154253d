import DecisionLogic.Proofs.Alike.Standard
import DecisionLogic.Proofs.Calls.Pace
import DecisionLogic.Proofs.Calls.Seats

/-!
# Concurrent calls do not see each other

The invariant `Calls.Apart` says that each call that is not over goes with its claim and keeps pace
with a lone call for its data.  Instances are emptied when they are taken, and no two calls work on
one instance, so the state that a call finds on its instance is always the one that it left there.
-/

namespace DecisionLogic

namespace Calls

/-- The job of a call with the state that its next poll finds. -/
def jobOf (calls : Calls) (call : Call) : Job Evaluation :=
  match call.seat with
  | none => call.job
  | some seat => { call.job with bag := calls.bags.read seat }

/-- The call keeps pace with a lone call, and its token has not fired by itself before it got an
instance. -/
structure Served (program : Program) (calls : Calls) (fired : List Nat) (nextPoint number : Nat)
    (call : Call) : Prop where
  paced : call.job.isOver = false →
    (calls.jobOf call).Paced program call.data (number ∈ fired) nextPoint
  untouched : call.ticket.isSome = true → call.seat = none → call.job.cancelled = true →
    number ∈ fired

structure Apart (program : Program) (limit : Nat) (calls : Calls) (fired : List Nat)
    (nextPoint : Nat) : Prop where
  origin : calls.program = program
  pooled : ∀ pool, calls.pool = some pool → calls.Seated limit pool
  direct : calls.pool = none → ∀ call ∈ calls.calls, call.ticket = none ∧ call.seat = none
  served : ∀ (number : Nat) (call : Call), calls.calls[number]? = some call →
    calls.Served program fired nextPoint number call

variable {program : Program} {calls calls' : Calls} {fired : List Nat}
  {limit nextPoint number : Nat} {call : Call}

theorem jobOf_of_seat_none (hseat : call.seat = none) : calls.jobOf call = call.job := by
  simp [jobOf, hseat]

/-- Only what happens to one call matters when the states of all others stay. -/
theorem served_change {fired' : List Nat} {next : Nat} {new : Call}
    (hserved : ∀ (other : Nat) (call : Call), calls.calls[other]? = some call →
      calls.Served program fired nextPoint other call)
    (hcalls : calls'.calls = calls.calls.set number new)
    (hjobs : ∀ (other : Nat) (call : Call), other ≠ number → calls.calls[other]? = some call →
      call.job.isOver = false → calls'.jobOf call = calls.jobOf call)
    (hfired : ∀ other, other ≠ number → (other ∈ fired' ↔ other ∈ fired)) (hle : nextPoint ≤ next)
    (hnew : number < calls.calls.length → calls'.Served program fired' next number new)
    (other : Nat) (call : Call) (hcall : calls'.calls[other]? = some call) :
    calls'.Served program fired' next other call := by
  rw [hcalls] at hcall
  by_cases heq : other = number
  · subst heq
    obtain ⟨hlt, rfl⟩ : other < calls.calls.length ∧ new = call := by
      simpa [List.getElem?_set] using hcall
    exact hnew hlt
  · rw [List.getElem?_set_ne (Ne.symm heq)] at hcall
    have hold := hserved other call hcall
    constructor
    · intro hactive
      rw [hjobs other call heq hcall hactive, hfired other heq]
      exact (hold.paced hactive).later hle
    · intro hticket hseat hcancelled
      rw [hfired other heq]
      exact hold.untouched hticket hseat hcancelled

/-! ## Calls come and go -/

theorem apart_new (program : Program) (top : Bool) (max : Option Nat) (nextPoint : Nat) :
    (Calls.new program top max).Apart program
      (Nat.max (max.getD program.engine.options.poolMax) 1) [] nextPoint where
  origin := rfl
  pooled := by
    intro pool hpool
    simp only [new] at hpool
    split at hpool
    · obtain rfl := Option.some.inj hpool
      exact ⟨Pool.Seating.new _, by simp [new]⟩
    · cases hpool
  direct := by simp [new]
  served := by simp [new]

theorem Apart.start
    (hself : ∀ data, Computation.AlikeFrom Likeness.evaluation [] (program.call data)
      (program.call data))
    (hapart : calls.Apart program limit fired nextPoint) (data : Json) (cancelled : Bool) :
    (calls.start data cancelled).2.Apart program limit
      (if cancelled then calls.calls.length :: fired else fired) nextPoint := by
  rw [start_eq, hapart.origin]
  refine ⟨rfl, ?_, ?_, ?_⟩
  · intro pool' hpool'
    obtain ⟨pool, hpool, rfl⟩ := Option.map_eq_some_iff.mp hpool'
    have hseated := hapart.pooled pool hpool
    apply hseated.enter rfl
    refine ⟨?_, fun hover => ?_, fun _ => ?_, fun _ => rfl, fun _ => rfl⟩
    · rw [hpool, Option.map_some, hseated.seating.length]
    · cases hover
    · simp
  · intro hpool' call hcall
    have hpool : calls.pool = none := Option.map_eq_none_iff.mp hpool'
    rcases List.mem_append.mp hcall with hold | hnew
    · exact hapart.direct hpool call hold
    · rw [List.mem_singleton.mp hnew, hpool]
      exact ⟨rfl, rfl⟩
  · intro number call hcall
    rcases getElem?_concat hcall with ⟨hlt, hold⟩ | ⟨rfl, rfl⟩
    · have hserved := hapart.served number call hold
      have hfired : (number ∈ if cancelled then calls.calls.length :: fired else fired) ↔
          number ∈ fired := by
        cases cancelled with
        | true => simp [Nat.ne_of_lt hlt]
        | false => simp
      constructor
      · rw [hfired]
        exact hserved.paced
      · rw [hfired]
        exact hserved.untouched
    · have hmade : cancelled = true →
          calls.calls.length ∈ if cancelled then calls.calls.length :: fired else fired := by
        intro hcancelled
        simp [hcancelled]
      exact ⟨fun _ => Job.paced_new (hself data) cancelled hmade nextPoint, fun _ _ => hmade⟩

/-- One call changes, and with it its claim; the states that the others find stay. -/
theorem Apart.change {fired' : List Nat} {next : Nat} {new : Call}
    (hapart : calls.Apart program limit fired nextPoint) (horigin : calls'.program = calls.program)
    (hcalls : calls'.calls = calls.calls.set number new)
    (hpooled : ∀ pool', calls'.pool = some pool' → ∃ pool, calls.pool = some pool ∧
      pool'.Seating limit calls.calls.length ∧ new.Holds number (pool'.claim number) ∧
      ∀ other, other ≠ number → (pool'.claim other).SameHold (pool.claim other))
    (hdirect : calls'.pool = none → calls.pool = none ∧ new.ticket = none ∧ new.seat = none)
    (hjobs : ∀ (other : Nat) (call : Call), other ≠ number → calls.calls[other]? = some call →
      call.job.isOver = false → calls'.jobOf call = calls.jobOf call)
    (hfired : ∀ other, other ≠ number → (other ∈ fired' ↔ other ∈ fired)) (hle : nextPoint ≤ next)
    (hnew : calls'.Served program fired' next number new) :
    calls'.Apart program limit fired' next where
  origin := horigin.trans hapart.origin
  pooled := by
    intro pool' hpool'
    obtain ⟨pool, hpool, hseating, hholds, hothers⟩ := hpooled pool' hpool'
    exact (hapart.pooled pool hpool).change hseating hcalls hholds hothers
  direct := by
    intro hpool' call hcall
    obtain ⟨hpool, hticket, hseat⟩ := hdirect hpool'
    rw [hcalls] at hcall
    rcases List.mem_or_eq_of_mem_set hcall with hold | rfl
    · exact hapart.direct hpool call hold
    · exact ⟨hticket, hseat⟩
  served := served_change hapart.served hcalls hjobs hfired hle fun _ => hnew

theorem Apart.cancel (hapart : calls.Apart program limit fired nextPoint) (number : Nat) :
    (calls.cancel number).Apart program limit
      (if number < calls.calls.length then number :: fired else fired) nextPoint := by
  unfold Calls.cancel
  cases hcall : calls.calls[number]? with
  | none =>
      have hge : ¬ number < calls.calls.length := by
        rw [List.getElem?_eq_none_iff] at hcall
        omega
      simpa only [hge, if_false] using hapart
  | some call =>
      obtain ⟨hlt, -⟩ := List.getElem?_eq_some_iff.mp hcall
      have hserved := hapart.served number call hcall
      simp only [hlt, if_true]
      refine hapart.change rfl rfl ?_ ?_ ?_ ?_ (Nat.le_refl _) ⟨?_, ?_⟩
      · intro pool hpool
        have hholds := (hapart.pooled pool hpool).holds number call hcall
        refine ⟨pool, hpool, (hapart.pooled pool hpool).seating, ?_, fun _ _ => .refl _⟩
        exact ⟨hholds.ticket, hholds.ended, hholds.notGone, hholds.seat, hholds.unseated⟩
      · intro hpool
        exact ⟨hpool, hapart.direct hpool call (List.mem_of_getElem? hcall)⟩
      · intro other call _ _ _
        rfl
      · intro other hne
        simp [hne]
      · intro hactive
        have hjob : (calls.setCall number { call with job := call.job.cancel }).jobOf
            { call with job := call.job.cancel } = (calls.jobOf call).cancel := by
          unfold jobOf
          cases call.seat <;> rfl
        rw [hjob]
        exact (hserved.paced hactive).cancel List.mem_cons_self
      · intro _ _ _
        exact List.mem_cons_self

theorem Apart.giveUp (hapart : calls.Apart program limit fired nextPoint)
    (hcall : calls.calls[number]? = some call) {pool pool' : Pool Nat}
    (hpool : calls.pool = some pool) (hseating : pool'.Seating limit calls.calls.length)
    (hgone : pool'.claim number = .gone)
    (hothers : ∀ other, other ≠ number → (pool'.claim other).SameHold (pool.claim other)) :
    ((calls.setPool pool').setCall number { call with job := call.job.drop }).Apart program limit fired
      nextPoint := by
  have hholds := (hapart.pooled pool hpool).holds number call hcall
  have hserved := hapart.served number call hcall
  refine hapart.change rfl rfl ?_ ?_ ?_ (fun _ _ => Iff.rfl) (Nat.le_refl _) ⟨?_, ?_⟩
  · intro pool'' hpool''
    obtain rfl := Option.some.inj hpool''
    refine ⟨pool, hpool, hseating, ?_, hothers⟩
    exact ⟨hholds.ticket, fun _ => hgone, nofun, nofun, hholds.unseated⟩
  · intro hnone
    cases hnone
  · intro other call _ _ _
    rfl
  · intro hactive
    cases hactive
  · exact hserved.untouched

theorem Apart.drop (hapart : calls.Apart program limit fired nextPoint) (number : Nat) :
    (calls.drop number).2.Apart program limit fired nextPoint := by
  unfold Calls.drop
  cases hcall : calls.calls[number]? with
  | none => exact hapart
  | some call =>
      dsimp only
      split
      · exact hapart
      cases hpool : calls.pool with
      | none =>
          have hserved := hapart.served number call hcall
          have hdirect := hapart.direct hpool call (List.mem_of_getElem? hcall)
          refine hapart.change rfl rfl ?_ ?_ ?_ (fun _ _ => Iff.rfl) (Nat.le_refl _) ⟨?_, ?_⟩
          · intro pool' hpool'
            cases hpool.symm.trans hpool'
          · intro _
            exact ⟨hpool, hdirect⟩
          · intro other call _ _ _
            rfl
          · intro hactive
            cases hactive
          · exact hserved.untouched
      | some pool =>
          have hseated := hapart.pooled pool hpool
          have hticket := (hseated.holds number call hcall).ticket
          have hdropped := hapart.giveUp hcall hpool (hseated.seating.drop number)
            (pool.claim_drop_self number) fun other hne => pool.sameHold_drop hne
          simp only [hticket] at hdropped ⊢
          exact hdropped

/-! ## Polls -/

/-- What a poll of a call for `data` leaves behind, and that its result is that of a lone call. -/
structure PolledApart (program : Program) (limit : Nat) (fired : List Nat) (number : Nat)
    (data : Json) (polled : JobAnswer Evaluation × Calls × World) : Prop where
  apart : polled.2.1.Apart program limit fired polled.2.2.nextPoint
  answers : ∀ result, polled.1 = .finished result → number ∉ fired →
    program.Answers data (number ∈ fired) result polled.2.2.nextPoint

variable {world : World}

theorem Apart.pollAlone (hapart : calls.Apart program limit fired world.nextPoint)
    (hcall : calls.calls[number]? = some call) (hpool : calls.pool = none)
    (hactive : call.job.isOver = false) :
    PolledApart program limit fired number call.data (calls.pollAlone number call world) := by
  have hserved := hapart.served number call hcall
  obtain ⟨hticket, hseat⟩ := hapart.direct hpool call (List.mem_of_getElem? hcall)
  have hpaced := hserved.paced hactive
  rw [jobOf_of_seat_none hseat] at hpaced
  have hpolled := hpaced.poll
  have hchange : ∀ (job : Job Evaluation) (world' : World), world.nextPoint ≤ world'.nextPoint →
      (job.isOver = false → job.Paced program call.data (number ∈ fired) world'.nextPoint) →
      (calls.setCall number { call with job }).Apart program limit fired world'.nextPoint := by
    intro job world' hle hjob
    refine hapart.change rfl rfl ?_ ?_ ?_ (fun _ _ => Iff.rfl) hle ⟨?_, ?_⟩
    · intro pool' hpool'
      cases hpool.symm.trans hpool'
    · intro _
      exact ⟨hpool, hticket, hseat⟩
    · intro other call _ _ _
      rfl
    · intro hactive'
      have hseat' : ({ call with job } : Call).seat = none := hseat
      rw [jobOf_of_seat_none hseat']
      exact hjob hactive'
    · intro hissome
      rw [hticket] at hissome
      cases hissome
  unfold Calls.pollAlone
  generalize call.job.poll world = polled at hpolled
  cases hpolled with
  | finished hle hover hanswers =>
      refine ⟨hchange _ _ hle ?_, ?_⟩
      · intro hactive'
        cases hover.symm.trans hactive'
      · intro result hresult _
        cases hresult
        exact hanswers
  | pending hle hpaced' => exact ⟨hchange _ _ hle fun _ => hpaced', fun _ hresult => by cases hresult⟩

theorem jobOf_of_ne {pool : Pool Nat} (hseated : calls.Seated limit pool) {pool' : Pool Nat} {seat : Nat}
    (hseating : pool'.Seating limit calls.calls.length) (hheld : pool'.claim number = .held seat)
    (hothers : ∀ other, other ≠ number → (pool'.claim other).SameHold (pool.claim other))
    {other : Nat} {otherCall : Call} (hne : other ≠ number)
    (hother : calls.calls[other]? = some otherCall) (hactive : otherCall.job.isOver = false)
    (bag : Bag) (hbags : calls'.bags = calls.bags.write seat bag) :
    calls'.jobOf otherCall = calls.jobOf otherCall := by
  unfold jobOf
  cases hseat : otherCall.seat with
  | none => rfl
  | some seat' =>
      have hholds := (hseated.holds other otherCall hother).sameHold (hothers other hne)
      have hapart : seat' ≠ seat :=
        hseating.held_ne hne (hholds.held hactive hseat) hheld
      simp only [hbags, Bags.read_write_of_ne _ hapart]

theorem Apart.takeSeat (hapart : calls.Apart program limit fired nextPoint)
    (hcall : calls.calls[number]? = some call) {pool pool' : Pool Nat} {seat : Nat}
    (hpool : calls.pool = some pool) (hseating : pool'.Seating limit calls.calls.length)
    (hactive : call.job.isOver = false) (hseat : call.seat = none)
    (hheld : pool'.claim number = .held seat)
    (hothers : ∀ other, other ≠ number → (pool'.claim other).SameHold (pool.claim other)) :
    (((calls.setPool pool').setBag seat []).setCall number { call with seat := some seat }).Apart
      program limit fired nextPoint := by
  have hseated := hapart.pooled pool hpool
  have hholds := hseated.holds number call hcall
  have hserved := hapart.served number call hcall
  refine hapart.change rfl rfl ?_ ?_ ?_ (fun _ _ => Iff.rfl) (Nat.le_refl _) ⟨?_, ?_⟩
  · intro pool'' hpool''
    obtain rfl := Option.some.inj hpool''
    refine ⟨pool, hpool, hseating, ⟨hholds.ticket, ?_, ?_, ?_, ?_⟩, hothers⟩
    · intro hover
      cases hover.symm.trans hactive
    · intro _
      simp [hheld]
    · intro _
      rw [hheld]
      rfl
    · intro hunseated
      cases hunseated
  · intro hnone
    cases hnone
  · intro other otherCall hne hother hactive'
    exact jobOf_of_ne hseated hseating hheld hothers hne hother hactive' [] rfl
  · intro _
    have hpaced := hserved.paced hactive
    rw [jobOf_of_seat_none hseat] at hpaced
    have hbag := hholds.unseated hseat
    simp only [jobOf, setCall, setBag, setPool, Bags.read_write_self]
    rw [← hbag]
    exact hpaced
  · intro _ hunseated
    cases hunseated

theorem Apart.pollSeated (hapart : calls.Apart program limit fired world.nextPoint)
    (hcall : calls.calls[number]? = some call) {pool : Pool Nat} {seat : Nat}
    (hpool : calls.pool = some pool) (hactive : call.job.isOver = false)
    (hseat : call.seat = some seat) :
    PolledApart program limit fired number call.data
      (calls.pollSeated number call pool number seat world) := by
  have hseated := hapart.pooled pool hpool
  have hholds := hseated.holds number call hcall
  have hserved := hapart.served number call hcall
  have hheld := hholds.held hactive hseat
  have hpaced := hserved.paced hactive
  simp only [jobOf, hseat] at hpaced
  have hpolled := hpaced.poll
  have hjobs : ∀ (bag : Bag) (other : Nat) (otherCall : Call), other ≠ number →
      calls.calls[other]? = some otherCall → otherCall.job.isOver = false →
        (calls.setBag seat bag).jobOf otherCall = calls.jobOf otherCall := by
    intro bag other otherCall hne hother hactive'
    exact jobOf_of_ne hseated hseated.seating hheld (fun _ _ => .refl _) hne hother hactive' bag rfl
  have hseatOf : some seat = (pool.claim number).guarded? := by
    rw [hheld]
    rfl
  unfold Calls.pollSeated
  generalize Job.poll { call.job with bag := calls.bags.read seat } world = polled at hpolled
  cases hpolled with
  | @finished result job world' hle hover hanswers =>
      refine ⟨?_, ?_⟩
      · refine hapart.change rfl rfl ?_ nofun (hjobs job.bag) (fun _ _ => Iff.rfl) hle ⟨?_, nofun⟩
        · intro pool' hpool'
          obtain rfl := Option.some.inj hpool'
          have hgone := pool.claim_drop_self number
          refine ⟨pool, hpool, hseated.seating.drop number, ?_, fun other => pool.sameHold_drop⟩
          refine ⟨hholds.ticket, fun _ => hgone, ?_, ?_, nofun⟩
          · intro hactive'
            cases hover.symm.trans hactive'
          · intro hactive'
            cases hover.symm.trans hactive'
        · intro hactive'
          cases hover.symm.trans hactive'
      · intro result' hresult _
        cases hresult
        exact hanswers
  | @pending job world' hle hpaced' =>
      refine ⟨?_, fun _ hresult => by cases hresult⟩
      refine hapart.change rfl rfl ?_ ?_ (hjobs job.bag) (fun _ _ => Iff.rfl) hle ⟨?_, nofun⟩
      · intro pool' hpool'
        obtain rfl := Option.some.inj (hpool.symm.trans hpool')
        refine ⟨pool, hpool, hseated.seating, ?_, fun _ _ => .refl _⟩
        refine ⟨hholds.ticket, ?_, ?_, fun _ => hseatOf, nofun⟩
        · intro hover
          cases hover.symm.trans hpaced'.isOver_eq_false
        · intro _
          simp [hheld]
      · intro hnone
        cases hpool.symm.trans hnone
      · intro _
        simp only [jobOf, setCall, setBag, Bags.read_write_self]
        exact hpaced'

theorem pollSeated_takeSeat (calls : Calls) (number : Nat) (call : Call) (pool : Pool Nat)
    (ticket seat : Nat) (world : World) :
    (calls.setCall number { call with seat := some seat }).pollSeated number
        { call with seat := some seat } pool ticket seat world =
      calls.pollSeated number call pool ticket seat world := by
  simp [Calls.pollSeated, setCall, setBag, List.set_set]

theorem Apart.poll (hapart : calls.Apart program limit fired world.nextPoint)
    (hcall : calls.calls[number]? = some call) :
    PolledApart program limit fired number call.data (calls.poll number world) := by
  obtain ⟨hlt, hget⟩ := List.getElem?_eq_some_iff.mp hcall
  have hself : calls.calls = calls.calls.set number call := by
    rw [← hget, List.set_getElem_self]
  unfold Calls.poll
  simp only [hcall]
  cases hactive : call.job.isOver with
  | true => exact ⟨hapart, fun _ hresult => by cases hresult⟩
  | false =>
      simp only [Bool.false_eq_true, if_false]
      cases hpool : calls.pool with
      | none => exact hapart.pollAlone hcall hpool hactive
      | some pool =>
          have hseated := hapart.pooled pool hpool
          have hholds := hseated.holds number call hcall
          have hserved := hapart.served number call hcall
          simp only [hholds.ticket]
          cases hseat : call.seat with
          | some seat => exact hapart.pollSeated hcall hpool hactive hseat
          | none =>
              -- The call has no instance yet, so its claim is polled first.
              have hseating := hseated.seating.poll number call.job.cancelled
              have hothers : ∀ other, other ≠ number →
                  ((pool.poll number call.job.cancelled).2.claim other).SameHold
                    (pool.claim other) :=
                fun other => pool.sameHold_poll call.job.cancelled
              have hcancelled : (pool.poll number call.job.cancelled).1 = .cancelled →
                  call.job.cancelled = true := pool.cancelled_of_poll number call.job.cancelled
              have hpolled := Pool.polled_poll (hholds.notGone hactive) call.job.cancelled
              dsimp only
              generalize pool.poll number call.job.cancelled = answered
                at hseating hothers hcancelled hpolled ⊢
              cases hpolled with
              | @held seat pool' hheld =>
                  dsimp only
                  have htaken := hapart.takeSeat hcall hpool hseating hactive hseat hheld hothers
                  have hcall' : (((calls.setPool pool').setBag seat []).setCall number
                      { call with seat := some seat }).calls[number]? =
                        some { call with seat := some seat } := by
                    simp [setCall, setBag, setPool, hlt]
                  have hpolled := htaken.pollSeated hcall' rfl hactive rfl
                  rw [pollSeated_takeSeat] at hpolled
                  exact hpolled
              | @waiting pool' hnotGone hunheld =>
                  refine ⟨?_, fun _ hresult => by cases hresult⟩
                  refine hapart.change rfl hself ?_ ?_ ?_ (fun _ _ => Iff.rfl) (Nat.le_refl _)
                    ⟨hserved.paced, hserved.untouched⟩
                  · intro pool'' hpool''
                    obtain rfl := Option.some.inj hpool''
                    refine ⟨pool, hpool, hseating, ⟨hholds.ticket, ?_, fun _ => hnotGone, ?_,
                      hholds.unseated⟩, hothers⟩
                    · intro hover
                      cases hover.symm.trans hactive
                    · intro _
                      rw [hseat]
                      exact hunheld.symm
                  · intro hnone
                    cases hnone
                  · intro other otherCall _ _ _
                    rfl
              | @cancelled pool' hgone =>
                  have hended := hapart.giveUp hcall hpool hseating hgone hothers
                  simp only [hholds.ticket, hseat] at hended
                  refine ⟨hended, ?_⟩
                  intro result _ hfired
                  -- Only its caller fires the token of a call that has no instance yet.
                  have hticket : call.ticket.isSome = true := by
                    rw [hholds.ticket]
                    rfl
                  exact absurd (hserved.untouched hticket hseat (hcancelled rfl)) hfired

end Calls

/-! ## Histories -/

theorem Program.call_alike_self {engine : Engine} {logic : Json} {above : List Json} {world : World}
    {program : Program} (huniform : engine.registry.Uniform fun _ _ => True)
    (hbuild : (Program.build engine logic above world).1 = .ok program) (data : Json) :
    Computation.AlikeFrom Likeness.evaluation [] (program.call data) (program.call data) := by
  obtain ⟨hengine, -, node, -, htranslates⟩ := Program.translates_of_build hbuild
  unfold Program.call
  rw [hengine]
  exact Compiled.execute_alike_self huniform _ htranslates

namespace CallTraffic

variable {program : Program} {limit : Nat} {traffic : CallTraffic}

def Apart (program : Program) (limit : Nat) (traffic : CallTraffic) : Prop :=
  traffic.calls.Apart program limit traffic.fired traffic.world.nextPoint

theorem Apart.step
    (hself : ∀ data, Computation.AlikeFrom Likeness.evaluation [] (program.call data)
      (program.call data))
    (hapart : traffic.Apart program limit) (event : CallEvent) :
    (traffic.step event).Apart program limit := by
  cases event with
  | start data cancelled => exact Calls.Apart.start hself hapart data cancelled
  | poll number =>
      cases hcall : traffic.calls.calls[number]? with
      | none =>
          have hpoll : traffic.calls.poll number traffic.world =
              (.over, traffic.calls, traffic.world) := by
            simp [Calls.poll, hcall]
          change Calls.Apart program limit (traffic.calls.poll number traffic.world).2.1
            traffic.fired (traffic.calls.poll number traffic.world).2.2.nextPoint
          rw [hpoll]
          exact hapart
      | some call => exact (Calls.Apart.poll hapart hcall).apart
  | cancel number => exact Calls.Apart.cancel hapart number
  | drop number => exact Calls.Apart.drop hapart number

theorem run_apart
    (hself : ∀ data, Computation.AlikeFrom Likeness.evaluation [] (program.call data)
      (program.call data)) (top : Bool) (max : Option Nat) (world : World)
    (events : List CallEvent) :
    ((CallTraffic.new program top max world).run events).Apart program
      (Nat.max (max.getD program.engine.options.poolMax) 1) := by
  apply run_induction _ (fun traffic event hapart => hapart.step hself event)
  exact Calls.apart_new program top max world.nextPoint

end CallTraffic

/-- The results are equal, or outcomes that differ in the identifiers of their points only. -/
theorem Program.Answers.same {program : Program} {data : Json} {fired : Prop}
    {result : Except Failure Evaluation} {nextPoint : Nat}
    (hanswers : program.Answers data fired result nextPoint) (hnotFired : ¬ fired)
    (max : Option Nat) :
    ∃ polls expected,
      (program.callAlone false max data (.start 0) polls).1 = .finished expected ∧
      ResultAlike (Evaluation.Alike fun _ _ => True) result expected ∧
      (nextPoint ≤ PointId.count → ResultAlike Evaluation.SameUpToIds result expected) := by
  obtain ⟨polls, pairs, lone, later, expected, hrun, hresult, hincreasing, hdrawn⟩ := hanswers
  refine ⟨polls, expected, ?_, ?_, ?_⟩
  · rw [(program.callAlone_eq false max data (.start 0) polls).1, hrun hnotFired]
  · cases hresult with
    | ok hvalue => exact .ok (hvalue.mono fun _ _ _ => trivial)
    | error failure => exact .error failure
  · intro hsupply
    cases hresult with
    | ok hvalue =>
        refine .ok (hvalue.sameUpToIds ?_ ?_)
        · intro a b c
          exact hincreasing.ids_functional hsupply
        · intro a b c
          exact hincreasing.ids_injective (Nat.le_trans hdrawn hsupply)
    | error failure => exact .error failure

namespace CallTraffic

/-- Whatever happens to the calls of a built program, one that ends without its token having been
fired ends with the result of a lone call of the unpooled program for the same data.  Outcomes may
differ in the identifiers of their points; as long as no identifier was handed out twice, one is the
other with its identifiers renamed.  In a pool of `max` instances no more calls hold an instance
than that, or one where `max` is zero. -/
theorem run_isolated {engine : Engine} {logic : Json} {above : List Json} {built : World}
    {program : Program} (top : Bool) (max : Option Nat) (world : World) (events : List CallEvent)
    (huniform : engine.registry.Uniform fun _ _ => True)
    (hbuild : (Program.build engine logic above built).1 = .ok program) :
    let traffic := (CallTraffic.new program top max world).run events
    let polled := fun number => traffic.calls.poll number traffic.world
    (∀ number result, (polled number).1 = .finished result → number ∉ traffic.fired →
      ∃ data polls expected, (events.filterMap CallEvent.data?)[number]? = some data ∧
        (program.callAlone false max data (.start 0) polls).1 = .finished expected ∧
        ResultAlike (Evaluation.Alike fun _ _ => True) result expected ∧
        ((polled number).2.2.nextPoint ≤ PointId.count →
          ResultAlike Evaluation.SameUpToIds result expected)) ∧
    (traffic.calls.pool.isSome = true →
      traffic.calls.holders.length ≤ Nat.max (max.getD engine.options.poolMax) 1) := by
  intro traffic polled
  have hself := Program.call_alike_self huniform hbuild
  have hengine : program.engine = engine := (Program.translates_of_build hbuild).1
  have hapart := run_apart hself top max world events
  rw [hengine] at hapart
  constructor
  · intro number result hresult hfired
    cases hcall : traffic.calls.calls[number]? with
    | none =>
        simp only [polled, Calls.poll, hcall] at hresult
        cases hresult
    | some call =>
        have hanswers := (Calls.Apart.poll hapart hcall).answers result hresult hfired
        obtain ⟨polls, expected, hsame⟩ := hanswers.same hfired max
        refine ⟨call.data, polls, expected, ?_, hsame⟩
        have hdata := data_run (CallTraffic.new program top max world) events
        have hnone : (CallTraffic.new program top max world).calls.data = [] := rfl
        rw [hnone, List.nil_append] at hdata
        rw [← hdata, Calls.data, List.getElem?_map]
        exact congrArg (Option.map Call.data) hcall
  · intro hpooled
    obtain ⟨pool, hpool⟩ := Option.isSome_iff_exists.mp hpooled
    exact (hapart.pooled pool hpool).holders_le

end CallTraffic

/-! ## A program whose operator keeps state -/

/-- Leave a mark in the state of the invocation, wait for a poll, and tell whether the state was empty
before. -/
def markOnce : AwaitingBody := fun _ _ _ => do
  let bag ← Computation.ofAction Action.getBag
  Computation.ofAction (Action.setBag [("mark", .null)])
  Computation.pause 1
  return .value (.bool bag.isEmpty)

def markOperator : Operator :=
  { body := .awaiting markOnce, traverse := false, deterministic := false, yields := false,
    useContext := true, rawData := false, sync := false, origin := .custom }

def markEngine : Engine :=
  ⟨Standard.registry.insert "mark" markOperator, {}⟩

def markProgram : Program :=
  { root := .rawCall "mark" markOperator (.literal .null), kind := .async, stateful := true,
    fingerprint := Logic.fingerprint (.object [("mark", .null)]), engine := markEngine,
    above := [] }

theorem markOperator_uniform : markOperator.Uniform fun _ _ => True := by
  intro input scope handle handle' _
  refine (Computation.AlikeFrom.bind .getBag ?_).cancellable
  rintro more bag _ _ rfl
  refine .bind (.setBag _) fun _ _ _ _ _ => ?_
  refine .bind (.pause 1) fun _ _ _ _ _ => ?_
  exact .pure Likeness.output_lasting (.value _)

theorem markEngine_uniform : markEngine.registry.Uniform fun _ _ => True := by
  intro name operator hlookup
  by_cases hname : "mark" = name
  · subst hname
    simp only [markEngine, Registry.lookup_insert_self, Option.some.injEq] at hlookup
    rw [← hlookup]
    exact markOperator_uniform
  · simp only [markEngine, Registry.lookup_insert_of_ne _ hname] at hlookup
    exact (Standard.standardOperator_of_lookup hlookup).uniform.mono fun _ _ _ => trivial

theorem build_markProgram :
    (Program.build markEngine (.object [("mark", .null)]) [] (.start 0)).1 = .ok markProgram := by
  have hlookup : markEngine.registry.lookup "mark" = some markOperator :=
    Registry.lookup_insert_self _ _ _
  have hparse : Logic.parseBounded markEngine.options.maxDepth (.object [("mark", .null)]) =
      .ok (.operation "mark" (.literal .null)) := rfl
  have hcompile : (Compiled.ofLogic markEngine 0 (.operation "mark" (.literal .null))).run.run
      ⟨.none, 0, .start 0⟩ =
        (.ok markProgram.root, ⟨⟨true, true⟩, 0, .start 0⟩) := by
    unfold Compiled.ofLogic
    rw [hlookup]
    rfl
  unfold Program.build
  rw [hparse]
  simp only [hcompile]
  rfl

/-- The first of two calls is dropped while it works on the only instance; the second one takes over
that instance and finds no mark on it, as if it were alone. -/
theorem run_isolated_handedOver :
    let traffic := (CallTraffic.new markProgram true (some 0) (.start 0)).run
      [.start .null false, .start (.bool true) false, .poll 0, .poll 1, .drop 0, .poll 1]
    (markEngine.registry.Uniform fun _ _ => True) ∧
      (Program.build markEngine (.object [("mark", .null)]) [] (.start 0)).1 = .ok markProgram ∧
      (traffic.calls.poll 1 traffic.world).1 = .finished (.ok (.done (.bool true))) ∧
      1 ∉ traffic.fired ∧
      (∃ polls, (markProgram.callAlone false (some 0) (.bool true) (.start 0) polls).1 =
        .finished (.ok (.done (.bool true)))) ∧
      traffic.calls.holders.length ≤ 1 := by
  intro traffic
  have hpoll : (traffic.calls.poll 1 traffic.world).1 = .finished (.ok (.done (.bool true))) := rfl
  have hfired : 1 ∉ traffic.fired := by
    have hnone : traffic.fired = [] := rfl
    simp [hnone]
  obtain ⟨hanswers, hholders⟩ := CallTraffic.run_isolated true (some 0) (.start 0)
    [.start .null false, .start (.bool true) false, .poll 0, .poll 1, .drop 0, .poll 1]
    markEngine_uniform build_markProgram
  obtain ⟨data, polls, expected, hdata, hlone, hsame, -⟩ := hanswers 1 _ hpoll hfired
  obtain rfl : Json.bool true = data := Option.some.inj hdata
  refine ⟨markEngine_uniform, build_markProgram, hpoll, hfired, ⟨polls, ?_⟩, hholders rfl⟩
  rw [hlone]
  cases hsame with
  | ok hvalue =>
      cases hvalue with
      | done value => rfl

end DecisionLogic
