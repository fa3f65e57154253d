import DecisionLogic.Proofs.Resumption.Fit

/-!
# Levels to spare

A tree that fits is judged alike when one more level is left.  A conditional passes the outcome of
its branch on as it is, so a suspension in a branch is continued one level further up.
-/

namespace DecisionLogic

variable {f : Json → Json} {meanings : String → Option Meaning} {levels : Nat}

namespace Meaning

section Arguments

variable {evaluate evaluate' : Logic → Judgement Standing} {name : String} {arguments : List Logic}
  (hsame : ∀ node ∈ arguments, evaluate node = evaluate' node)

include hsame

theorem deciding_congr (stop : Bool) (last : Json) :
    deciding evaluate name stop last arguments = deciding evaluate' name stop last arguments := by
  induction arguments generalizing last with
  | nil => rfl
  | cons node rest ih =>
      rw [List.forall_mem_cons] at hsame
      simp only [deciding, hsame.1, ih hsame.2]

theorem branching_congr :
    branching evaluate name arguments = branching evaluate' name arguments := by
  induction arguments using branching.induct with
  | case1 => rfl
  | case2 otherwise => exact hsame otherwise List.mem_cons_self
  | case3 condition result rest ih =>
      have hrest := ih fun node hnode => hsame node (by simp [hnode])
      simp only [branching, hsame condition List.mem_cons_self, hsame result (by simp), hrest]

theorem source_congr {next next' : List Json → Judgement Standing} (hnext : next = next') :
    source evaluate name next arguments = source evaluate' name next' arguments := by
  cases arguments with
  | nil => simp only [source, hnext]
  | cons node rest => simp only [source, hnext, hsame node List.mem_cons_self]

theorem reducing_congr (body : Scope → Judgement Json) (scope : Scope) :
    reducing evaluate name body scope arguments = reducing evaluate' name body scope arguments := by
  funext items
  unfold reducing
  cases hnode : arguments[2]? with
  | none => rfl
  | some node => simp only [hsame node (List.mem_of_getElem? hnode)]

end Arguments

theorem takeUp_congr {evaluate evaluate' : Logic → Scope → Judgement Standing} {name : String}
    {args : Logic} {scope : Scope}
    (harguments : ∀ node ∈ args.arguments, evaluate node scope = evaluate' node scope)
    (hbody : bodyValue evaluate args = bodyValue evaluate' args) (meaning : Meaning) :
    takeUp evaluate name args scope meaning = takeUp evaluate' name args scope meaning := by
  funext items
  unfold takeUp
  rw [hbody]
  cases meaning with
  | reduce => exact congrFun (reducing_congr harguments _ _) items
  | _ => rfl

theorem iteration_congr {evaluate evaluate' : Logic → Scope → Judgement Standing} {name : String}
    {args : Logic} {scope : Scope} {meaning : Meaning} (hiterates : meaning.iterates = true)
    (harguments : ∀ node ∈ args.arguments, evaluate node scope = evaluate' node scope)
    (hbody : bodyValue evaluate args = bodyValue evaluate' args) :
    meaning.operation f evaluate name args scope =
      meaning.operation f evaluate' name args scope := by
  rw [operation_of_iterates hiterates, operation_of_iterates hiterates]
  exact source_congr harguments (takeUp_congr harguments hbody meaning)

theorem choice_congr {evaluate evaluate' : Logic → Scope → Judgement Standing} {name : String}
    {args : Logic} {scope : Scope} {meaning : Meaning} (hchooses : meaning.chooses = true)
    (harguments : ∀ node ∈ args.arguments, evaluate node scope = evaluate' node scope) :
    meaning.operation f evaluate name args scope =
      meaning.operation f evaluate' name args scope := by
  unfold operation
  cases meaning with
  | decide stop => exact deciding_congr harguments stop .null
  | branch => exact branching_congr harguments
  | _ => cases hchooses

end Meaning

theorem Logic.Fit.judge_succ {node : Logic} (hfit : node.Fit meanings levels) (scope : Scope) :
    Meaning.judge f meanings (levels + 1) node scope =
      Meaning.judge f meanings levels node scope := by
  induction hfit generalizing scope with
  | literal value => simp only [Meaning.judge]
  | @sequence levels items _ ih =>
      have hitems : (items.map fun item => Meaning.judge f meanings (levels + 1) item scope) =
          items.map fun item => Meaning.judge f meanings levels item scope :=
        List.map_congr_left fun item hitem => ih item hitem scope
      rw [Meaning.judge, Meaning.judge]
      simp only [hitems]
  | unknown hname =>
      rw [Meaning.judge, Meaning.judge]
      simp only [hname]
  | traversing hname _ ih =>
      rw [Meaning.judge, Meaning.judge]
      simp only [hname, Meaning.operation, ih scope]
  | data hname =>
      rw [Meaning.judge, Meaning.judge]
      simp only [hname, Meaning.operation]
  | choice hname hchooses _ _ ih =>
      rw [Meaning.judge, Meaning.judge]
      simp only [hname]
      exact Meaning.choice_congr hchooses fun node hnode => ih node hnode scope
  | iteration hname hiterates _ _ _ _ _ ih ihbody =>
      rw [Meaning.judge, Meaning.judge]
      simp only [hname]
      apply Meaning.iteration_congr hiterates fun node hnode => ih node hnode scope
      funext inner
      simp only [Meaning.bodyValue, ihbody inner]

end DecisionLogic
