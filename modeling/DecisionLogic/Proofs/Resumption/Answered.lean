import DecisionLogic.Proofs.Resumption.Levels
import DecisionLogic.Proofs.Resumption.Progress

/-!
# Suspending changes nothing

Let every operator return the answer to its input where it would ask.  Judging a tree with these
operators is judging it with the original ones and then, if it waits, what continues it; values and
calls are the same.  Since judgements do not order calls, it does not matter that the arguments
behind a suspended one are evaluated before the answer comes or after it.
-/

namespace DecisionLogic

variable {f : Json → Json} {meanings : String → Option Meaning} {levels : Nat}

def Reply.answered (f : Json → Json) (input : Json) : Reply → Reply
  | .asks => .value (f input)
  | reply => reply

def Meaning.answered (f : Json → Json) : Meaning → Meaning
  | .traversing reply => .traversing fun input scope => (reply input scope).answered f input
  | meaning => meaning

/-- Every operator that asks returns the answer instead. -/
def answeredMeanings (f : Json → Json) (meanings : String → Option Meaning) (name : String) :
    Option Meaning :=
  (meanings name).map (Meaning.answered f)

@[simp] theorem Meaning.chooses_answered (meaning : Meaning) :
    (meaning.answered f).chooses = meaning.chooses := by
  cases meaning <;> rfl

@[simp] theorem Meaning.iterates_answered (meaning : Meaning) :
    (meaning.answered f).iterates = meaning.iterates := by
  cases meaning <;> rfl

theorem answeredMeanings_of_some {name : String} {meaning : Meaning}
    (hname : meanings name = some meaning) :
    answeredMeanings f meanings name = some (meaning.answered f) := by
  simp [answeredMeanings, hname]

theorem answeredMeanings_of_none {name : String} (hname : meanings name = none) :
    answeredMeanings f meanings name = none := by
  simp [answeredMeanings, hname]

theorem Meaning.not_asks_answered (meaning : Meaning) : ¬ (meaning.answered f).Asks := by
  cases meaning with
  | traversing reply =>
      rintro ⟨input, scope, hasks⟩
      cases hreply : reply input scope <;> simp [hreply, Reply.answered] at hasks
  | _ => exact id

theorem Logic.quiet_answered (node : Logic) : node.Quiet (answeredMeanings f meanings) := by
  intro name args meaning _ hname
  obtain ⟨original, -, rfl⟩ := Option.map_eq_some_iff.mp hname
  exact original.not_asks_answered

theorem Logic.Fit.answered {node : Logic} (hfit : node.Fit meanings levels) :
    node.Fit (answeredMeanings f meanings) levels := by
  induction hfit with
  | literal value => exact .literal value
  | sequence _ ih => exact .sequence ih
  | unknown hname => exact .unknown (answeredMeanings_of_none hname)
  | traversing hname _ ih => exact .traversing (answeredMeanings_of_some hname) ih
  | data hname => exact .data (answeredMeanings_of_some hname)
  | choice hname hchooses _ htail ih =>
      exact .choice (answeredMeanings_of_some hname) (by simpa using hchooses) ih htail
  | iteration hname hiterates _ _ _ hplain htail ih ihbody =>
      exact .iteration (answeredMeanings_of_some hname) (by simpa using hiterates) ih ihbody
        (quiet_answered _) hplain htail

/-! ## Going on -/

def Standing.goOn (f : Json → Json) (meanings : String → Option Meaning) (levels : Nat)
    (scope : Scope) : Standing → Judgement Standing
  | .done value => pure (.done value)
  | .waits _ next => Meaning.judge f (answeredMeanings f meanings) levels next scope

theorem Judgement.Settled.goOn {judgement : Judgement Standing} (hsettled : judgement.Settled)
    (scope : Scope) : judgement >>= Standing.goOn f meanings levels scope = judgement := by
  have hpure : judgement >>= Standing.goOn f meanings levels scope = judgement >>= pure := by
    apply Judgement.bind_congr_of_ensures hsettled
    intro standing hstanding
    cases standing with
    | done value => rfl
    | waits points next => cases hstanding
  rw [hpure, bind_pure]

/-- Going on one level further up makes no difference. -/
theorem Logic.Fit.goOn_succ {node : Logic} (hfit : node.Fit meanings levels) (scope : Scope) :
    Meaning.judge f meanings levels node scope >>= Standing.goOn f meanings (levels + 1) scope =
      Meaning.judge f meanings levels node scope >>= Standing.goOn f meanings levels scope := by
  apply Judgement.bind_congr_of_ensures (hfit.continues scope)
  intro standing hstanding
  cases standing with
  | done value => rfl
  | waits points next => exact hstanding.2.1.answered.judge_succ scope

theorem Standing.judge_node {standing : Standing} (hlevels : 0 < levels) (scope : Scope) :
    Meaning.judge f (answeredMeanings f meanings) levels standing.node scope =
      standing.goOn f meanings levels scope := by
  obtain ⟨below, rfl⟩ : ∃ below, levels = below + 1 := ⟨levels - 1, by omega⟩
  cases standing with
  | done value => simp only [node, Meaning.judge, goOn]
  | waits points next => rfl

theorem Standing.goOn_join {standings : List Standing} (hlevels : standings ≠ [] → 0 < levels)
    (scope : Scope) :
    (do let standings ← Judgement.all (standings.map (goOn f meanings levels scope))
        return join standings) = (join standings).goOn f meanings (levels + 1) scope := by
  by_cases hwaiting : standings.any isWaiting = true
  · have hnodes : (standings.map (goOn f meanings levels scope)) = (standings.map node).map
        fun next => Meaning.judge f (answeredMeanings f meanings) levels next scope := by
      rw [List.map_map]
      apply List.map_congr_left
      intro standing hstanding
      exact (judge_node (hlevels (List.ne_nil_of_mem hstanding)) scope).symm
    have hjoin : join standings =
        .waits (standings.map points).sum (.sequence (standings.map node)) := by
      simp [join, hwaiting]
    rw [hjoin, hnodes, goOn, Meaning.judge]
  · have hdone : standings.map (goOn f meanings levels scope) = standings.map pure := by
      apply List.map_congr_left
      intro standing hstanding
      cases standing with
      | done value => rfl
      | waits points next => exact absurd (List.any_eq_true.mpr ⟨_, hstanding, rfl⟩) hwaiting
    have hjoin : join standings = .done (.array (standings.filterMap value?)) := by
      simp [join, hwaiting]
    rw [hdone, Judgement.all_map_pure, pure_bind, hjoin, goOn]

/-! ## Operations -/

namespace Meaning

theorem answered_of_chooses {meaning : Meaning} (hchooses : meaning.chooses = true) :
    meaning.answered f = meaning := by
  cases meaning with
  | traversing reply => cases hchooses
  | _ => rfl

theorem answered_of_iterates {meaning : Meaning} (hiterates : meaning.iterates = true) :
    meaning.answered f = meaning := by
  cases meaning with
  | traversing reply => cases hiterates
  | _ => rfl

/-- How the arguments of an operation are judged with answers: `resume` goes on with an argument,
`up` with the whole operation. -/
structure Resumes (evaluate evaluate' : Logic → Judgement Standing)
    (resume up : Standing → Judgement Standing) (arguments : List Logic) : Prop where
  step : ∀ node ∈ arguments, evaluate' node = evaluate node >>= resume
  done : ∀ value, resume (.done value) = pure (.done value)
  waits : ∀ points next, resume (.waits points next) = evaluate' next
  upDone : ∀ value, up (.done value) = pure (.done value)

section Arguments

variable {evaluate evaluate' : Logic → Judgement Standing}
  {resume up : Standing → Judgement Standing} {name : String} {node : Logic}
  {arguments rest : List Logic}

theorem Resumes.tail (hresumes : Resumes evaluate evaluate' resume up (node :: rest)) :
    Resumes evaluate evaluate' resume up rest :=
  ⟨fun other hother => hresumes.step other (List.mem_cons_of_mem _ hother), hresumes.done,
    hresumes.waits, hresumes.upDone⟩

theorem deciding_answered {stop : Bool}
    (hresumes : Resumes evaluate evaluate' resume up arguments)
    (hplain : ∀ node ∈ arguments.tail, node.Plain)
    (hup : ∀ points next rest, (∀ other ∈ rest, other.Plain) →
      up (waitsAt name points next rest) = deciding evaluate' name stop .null (next :: rest))
    (last : Json) :
    deciding evaluate' name stop last arguments =
      deciding evaluate name stop last arguments >>= up := by
  induction arguments generalizing last with
  | nil => rw [deciding, deciding, pure_bind, hresumes.upDone]
  | cons node rest ih =>
      rw [List.tail_cons] at hplain
      have hrest := ih hresumes.tail fun other hother => hplain other (List.mem_of_mem_tail hother)
      rw [deciding, deciding, hresumes.step node List.mem_cons_self, bind_assoc, bind_assoc]
      congr 1
      funext standing
      cases standing with
      | done value =>
          rw [hresumes.done, pure_bind]
          dsimp only
          split
          · rw [pure_bind, hresumes.upDone]
          · exact hrest value
      | waits points next =>
          dsimp only
          rw [hresumes.waits, pure_bind, hup points next rest hplain, deciding]

theorem branching_answered (hresumes : Resumes evaluate evaluate' resume up arguments)
    (hplain : ∀ node ∈ arguments.tail, node.Plain)
    (hpassed : ∀ node ∈ arguments, evaluate node >>= up = evaluate node >>= resume)
    (hup : ∀ points next result rest, (∀ other ∈ result :: rest, other.Plain) →
      up (waitsAt name points next (result :: rest)) =
        branching evaluate' name (next :: result :: rest)) :
    branching evaluate' name arguments = branching evaluate name arguments >>= up := by
  induction arguments using branching.induct with
  | case1 => rw [branching, branching, pure_bind, hresumes.upDone]
  | case2 otherwise =>
      have hmem : otherwise ∈ [otherwise] := List.mem_cons_self
      rw [branching, branching, hresumes.step otherwise hmem, hpassed otherwise hmem]
  | case3 condition result rest ih =>
      have hrest := ih hresumes.tail.tail
        (fun other hother => hplain other (by simp [List.mem_of_mem_tail hother]))
        fun other hother => hpassed other (by simp [hother])
      rw [branching, branching, hresumes.step condition List.mem_cons_self, bind_assoc, bind_assoc]
      congr 1
      funext standing
      cases standing with
      | done value =>
          rw [hresumes.done, pure_bind]
          dsimp only
          split
          · rw [hresumes.step result (by simp), hpassed result (by simp)]
          · exact hrest
      | waits points next =>
          dsimp only
          rw [hresumes.waits, pure_bind, hup points next result rest hplain, branching]

theorem source_answered {next next' : List Json → Judgement Standing}
    (hresumes : Resumes evaluate evaluate' resume up arguments)
    (hnext : ∀ items, next' items = next items >>= up)
    (hup : ∀ node rest, arguments = node :: rest → (evaluate node).Ensures fun standing =>
      ∀ points logic, standing = .waits points logic →
        up (waitsAt name points logic rest) = source evaluate' name next' (logic :: rest)) :
    source evaluate' name next' arguments = source evaluate name next arguments >>= up := by
  cases arguments with
  | nil => exact hnext []
  | cons node rest =>
      rw [source, source, hresumes.step node List.mem_cons_self, bind_assoc, bind_assoc]
      apply Judgement.bind_congr_of_ensures (hup node rest rfl)
      intro standing hstanding
      cases standing with
      | done value =>
          rw [hresumes.done, pure_bind]
          exact hnext _
      | waits points logic =>
          dsimp only
          rw [hresumes.waits, pure_bind, hstanding points logic rfl, source]

theorem reducing_answered {body : Scope → Judgement Json} {scope : Scope}
    (hresumes : Resumes evaluate evaluate' resume up arguments)
    (hsettled : ∀ judgement, Judgement.Settled judgement → judgement >>= up = judgement)
    (hup : ∀ points next items, up (.waits points (.operation name (.sequence
      [.literal (.array items), (bodyOf arguments).reparse, next]))) =
        reducing evaluate' name body scope
          [.literal (.array items), (bodyOf arguments).reparse, next] items)
    (hplain : (bodyOf arguments).Plain) (items : List Json) :
    reducing evaluate' name body scope arguments items =
      reducing evaluate name body scope arguments items >>= up := by
  unfold reducing
  cases hnode : arguments[2]? with
  | none =>
      cases items with
      | nil => exact (hsettled _ (settled_done _)).symm
      | cons first rest => exact (hsettled _ (folding_settled first rest)).symm
  | some node =>
      dsimp only
      rw [hresumes.step node (List.mem_of_getElem? hnode), bind_assoc, bind_assoc]
      congr 1
      funext standing
      cases standing with
      | done initial =>
          rw [hresumes.done, pure_bind]
          exact (hsettled _ (folding_settled initial items)).symm
      | waits points next =>
          have hbody : bodyOf [.literal (.array items), (bodyOf arguments).reparse, next] =
              bodyOf arguments := hplain
          dsimp only
          rw [hresumes.waits, pure_bind, hup points next items]
          unfold reducing
          rw [hbody]
          rfl

end Arguments

theorem takeUp_answered {evaluate evaluate' : Logic → Scope → Judgement Standing}
    {resume up : Standing → Judgement Standing} {name : String} {args : Logic} {scope : Scope}
    {meaning : Meaning}
    (hresumes : Resumes (evaluate · scope) (evaluate' · scope) resume up args.arguments)
    (hbody : bodyValue evaluate' args = bodyValue evaluate args)
    (hsettled : ∀ judgement, Judgement.Settled judgement → judgement >>= up = judgement)
    (hup : meaning = .reduce → ∀ points next items, up (.waits points (.operation name (.sequence
      [.literal (.array items), (bodyOf args.arguments).reparse, next]))) =
        reducing (evaluate' · scope) name (bodyValue evaluate args) scope
          [.literal (.array items), (bodyOf args.arguments).reparse, next] items)
    (hplain : (bodyOf args.arguments).Plain) (items : List Json) :
    takeUp evaluate' name args scope meaning items =
      takeUp evaluate name args scope meaning items >>= up := by
  by_cases hreduce : meaning = .reduce
  · subst hreduce
    unfold takeUp
    rw [hbody]
    exact reducing_answered hresumes hsettled (hup rfl) hplain items
  · have hsame : takeUp evaluate' name args scope meaning items =
        takeUp evaluate name args scope meaning items := by
      unfold takeUp
      rw [hbody]
      cases meaning with
      | reduce => exact absurd rfl hreduce
      | _ => rfl
    rw [hsame]
    exact (hsettled _ (takeUp_settled hreduce items)).symm

end Meaning

open Meaning

theorem Standing.goOn_waitsAt {name : String} {points : Nat} {next : Logic} {rest : List Logic}
    {meaning : Meaning} (hname : answeredMeanings f meanings name = some meaning)
    (hplain : ∀ other ∈ rest, other.Plain) (scope : Scope) :
    (waitsAt name points next rest).goOn f meanings (levels + 1) scope =
      meaning.operation f (judge f (answeredMeanings f meanings) levels) name
        (.sequence (next :: rest)) scope := by
  rw [waitsAt, goOn, Logic.map_reparse hplain, judge]
  simp only [hname]

/-- A fold that waits for the value to start with has its items as a literal. -/
theorem goOn_initial {name : String} {args : Logic} {scope : Scope}
    (hname : answeredMeanings f meanings name = some .reduce) (hpos : 0 < levels)
    (hplain : (bodyOf args.arguments).Plain)
    (hbody : bodyValue (judge f (answeredMeanings f meanings) levels) args =
      bodyValue (judge f meanings levels) args) (points : Nat) (next : Logic) (items : List Json) :
    Standing.goOn f meanings (levels + 1) scope (.waits points (.operation name (.sequence
      [.literal (.array items), (bodyOf args.arguments).reparse, next]))) =
        reducing (judge f (answeredMeanings f meanings) levels · scope) name
          (bodyValue (judge f meanings levels) args) scope
          [.literal (.array items), (bodyOf args.arguments).reparse, next] items := by
  let folded : Logic := .sequence [.literal (.array items), (bodyOf args.arguments).reparse, next]
  have hbodyOf : bodyOf folded.arguments = bodyOf args.arguments := hplain
  have hfolded : bodyValue (judge f (answeredMeanings f meanings) levels) folded =
      bodyValue (judge f meanings levels) args := by
    rw [← hbody]
    unfold bodyValue
    rw [hbodyOf]
  obtain ⟨below, rfl⟩ : ∃ below, levels = below + 1 := ⟨levels - 1, by omega⟩
  have hitems : judge f (answeredMeanings f meanings) (below + 1) (.literal (.array items)) scope =
      pure (.done (.array items)) := by
    rw [judge]
  rw [Standing.goOn, judge]
  simp only [hname]
  rw [← hfolded]
  simp only [operation, Logic.arguments, source, hitems, pure_bind, itemsOf]
  rfl

theorem iteration_answered {name : String} {args : Logic} {meaning : Meaning} {scope : Scope}
    (hname : meanings name = some meaning) (hiterates : meaning.iterates = true)
    (hpos : 0 < levels) (hplain : (bodyOf args.arguments).Plain)
    (htail : (∃ value, args.arguments.head? = some (.literal value)) ∨
      ∀ node ∈ args.arguments.tail, node.Plain)
    (hresumes : Resumes (judge f meanings levels · scope)
      (judge f (answeredMeanings f meanings) levels · scope)
      (Standing.goOn f meanings levels scope) (Standing.goOn f meanings (levels + 1) scope)
      args.arguments)
    (hbody : bodyValue (judge f (answeredMeanings f meanings) levels) args =
      bodyValue (judge f meanings levels) args) :
    meaning.operation f (judge f (answeredMeanings f meanings) levels) name args scope =
      meaning.operation f (judge f meanings levels) name args scope >>=
        Standing.goOn f meanings (levels + 1) scope := by
  have hanswered : answeredMeanings f meanings name = some meaning := by
    rw [answeredMeanings_of_some hname, answered_of_iterates hiterates]
  rw [operation_of_iterates hiterates, operation_of_iterates hiterates]
  apply source_answered hresumes
  · apply takeUp_answered hresumes hbody (fun judgement hsettled => hsettled.goOn scope) ?_ hplain
    rintro rfl points next items
    exact goOn_initial hanswered hpos hplain hbody points next items
  · intro node rest hnode
    rw [hnode] at htail
    rcases htail with ⟨value, hvalue⟩ | hrest
    · obtain rfl : node = .literal value := Option.some.inj hvalue
      obtain ⟨below, rfl⟩ : ∃ below, levels = below + 1 := ⟨levels - 1, by omega⟩
      simp only [judge]
      apply Judgement.Ensures.pure
      intro points logic hwaits
      cases hwaits
    · rw [List.tail_cons] at hrest
      intro standing calls _ points logic _
      rw [Standing.goOn_waitsAt hanswered hrest, operation_of_iterates hiterates,
        takeUp_first hnode logic]
      rfl

theorem reply_answered (reply : Reply) (name : String) (input : Json) (scope : Scope) :
    (reply.answered f input).judge f name input =
      reply.judge f name input >>= Standing.goOn f meanings (levels + 1) scope := by
  unfold Reply.judge
  rw [Judgement.after_bind]
  congr 1
  cases reply with
  | value x => rfl
  | asks =>
      simp only [Reply.answered, Reply.standing, pure_bind, Standing.goOn]
      rw [judge]
  | fails => rfl

theorem Logic.Fit.resumes {args : Logic} {scope : Scope}
    (hstep : ∀ node ∈ args.arguments, judge f (answeredMeanings f meanings) levels node scope =
      judge f meanings levels node scope >>= Standing.goOn f meanings levels scope) :
    Resumes (judge f meanings levels · scope) (judge f (answeredMeanings f meanings) levels · scope)
      (Standing.goOn f meanings levels scope) (Standing.goOn f meanings (levels + 1) scope)
      args.arguments :=
  ⟨hstep, fun _ => rfl, fun _ _ => rfl, fun _ => rfl⟩

/-- Judging with answers is judging without them and then going on. -/
theorem Logic.Fit.judge_answered {node : Logic} (hfit : node.Fit meanings levels) (scope : Scope) :
    judge f (answeredMeanings f meanings) levels node scope =
      judge f meanings levels node scope >>= Standing.goOn f meanings levels scope := by
  induction hfit generalizing scope with
  | literal value => simp only [judge, pure_bind, Standing.goOn]
  | @sequence levels items hitems ih =>
      have hall : (items.map fun item => judge f (answeredMeanings f meanings) levels item scope) =
          (items.map fun item => judge f meanings levels item scope).map
            (· >>= Standing.goOn f meanings levels scope) := by
        rw [List.map_map]
        exact List.map_congr_left fun item hitem => ih item hitem scope
      rw [judge, judge]
      simp only [hall, Judgement.all_map_bind, bind_assoc, pure_bind]
      have hsame : (Judgement.all (items.map fun item => judge f meanings levels item scope)).Ensures
          fun standings => List.Forall₂ (fun _ _ => True) items standings := by
        apply Judgement.Ensures.all
        rw [List.forall₂_map_right_iff, List.forall₂_same]
        exact fun _ _ _ _ _ => trivial
      apply Judgement.bind_congr_of_ensures hsame
      intro standings hstandings
      apply Standing.goOn_join
      intro hne
      cases hstandings with
      | nil => exact absurd rfl hne
      | cons _ _ => exact (hitems _ List.mem_cons_self).pos
  | unknown hname =>
      rw [judge, judge]
      simp only [hname, answeredMeanings_of_none hname, Judgement.fails_bind]
  | @traversing levels name args reply hname _ ih =>
      have hanswered := answeredMeanings_of_some hname (f := f)
      rw [judge, judge]
      simp only [hname, hanswered, Meaning.answered, Meaning.operation, ih scope, bind_assoc]
      congr 1
      funext standing
      cases standing with
      | done value =>
          simp only [Standing.goOn, pure_bind]
          exact reply_answered (reply value scope) name value scope
      | waits points next =>
          simp only [Standing.goOn, pure_bind]
          rw [judge]
          simp only [hanswered, Meaning.answered, Meaning.operation]
  | @data levels name args hname =>
      rw [judge, judge]
      simp only [hname, answeredMeanings_of_some hname, Meaning.answered, Meaning.operation,
        pure_bind, Standing.goOn]
  | @choice levels name args meaning hname hchooses harguments htail ih =>
      have hanswered : answeredMeanings f meanings name = some meaning := by
        rw [answeredMeanings_of_some hname, answered_of_chooses hchooses]
      have hresumes := Logic.Fit.resumes fun node hnode => ih node hnode scope
      -- A branch is passed on as it is, so it goes on one level further up.
      have hpassed : ∀ node ∈ args.arguments,
          judge f meanings levels node scope >>= Standing.goOn f meanings (levels + 1) scope =
            judge f meanings levels node scope >>= Standing.goOn f meanings levels scope :=
        fun node hnode => (harguments node hnode).goOn_succ scope
      rw [judge, judge]
      simp only [hname, hanswered]
      cases meaning with
      | decide stop =>
          refine deciding_answered hresumes htail (fun points next rest hplain => ?_) .null
          rw [Standing.goOn_waitsAt hanswered hplain]
          rfl
      | branch =>
          refine branching_answered hresumes htail hpassed fun points next result rest hplain => ?_
          rw [Standing.goOn_waitsAt hanswered hplain]
          rfl
      | _ => cases hchooses
  | @iteration levels name args meaning hname hiterates harguments hbody hquiet hplain htail ih ihb =>
      have hanswered : answeredMeanings f meanings name = some meaning := by
        rw [answeredMeanings_of_some hname, answered_of_iterates hiterates]
      have hresumes := Logic.Fit.resumes fun node hnode => ih node hnode scope
      have hbodyValue : bodyValue (judge f (answeredMeanings f meanings) levels) args =
          bodyValue (judge f meanings levels) args := by
        funext inner
        unfold bodyValue
        rw [ihb inner, (hquiet.settled levels inner).goOn]
      rw [judge, judge]
      simp only [hname, hanswered]
      exact iteration_answered hname hiterates hbody.pos hplain htail hresumes hbodyValue

end DecisionLogic
