import DecisionLogic.Proofs.Resumption.Fit

/-!
# What continues a tree

The logic that continues a tree that fits fits too, and it has fewer operations: each point took the
place of at least one.  So a chain of suspensions comes to an end.
-/

namespace DecisionLogic

variable {f : Json → Json} {meanings : String → Option Meaning} {levels : Nat}

namespace Logic

mutual

def operations : Logic → Nat
  | .literal _ => 0
  | .sequence items => itemsOperations items
  | .operation _ args => args.operations + 1

def itemsOperations : List Logic → Nat
  | [] => 0
  | item :: items => item.operations + itemsOperations items

end

@[simp] theorem operations_literal (value : Json) : (literal value).operations = 0 := by
  simp [operations]

@[simp] theorem operations_sequence (items : List Logic) :
    (sequence items).operations = itemsOperations items := by
  simp [operations]

@[simp] theorem operations_operation (name : String) (args : Logic) :
    (operation name args).operations = args.operations + 1 := by
  simp [operations]

@[simp] theorem itemsOperations_cons (item : Logic) (items : List Logic) :
    itemsOperations (item :: items) = item.operations + itemsOperations items := by
  simp [itemsOperations]

theorem itemsOperations_arguments (args : Logic) :
    itemsOperations args.arguments = args.operations := by
  cases args with
  | sequence items => simp [arguments]
  | literal value => simp [arguments, itemsOperations]
  | operation name args => simp [arguments, itemsOperations]

end Logic

/-- An outcome that waits has points, and what continues it fits and leaves room for them among
`bound` operations. -/
def Standing.Continues (meanings : String → Option Meaning) (levels bound : Nat) :
    Standing → Prop
  | .done _ => True
  | .waits points next =>
      0 < points ∧ next.Fit meanings levels ∧ points + next.operations ≤ bound

namespace Standing

theorem Continues.succ {bound more : Nat} {standing : Standing}
    (hcontinues : standing.Continues meanings levels bound) (hle : bound ≤ more) :
    standing.Continues meanings (levels + 1) more := by
  cases standing with
  | done value => trivial
  | waits points next =>
      obtain ⟨hpoints, hfit, hbound⟩ := hcontinues
      exact ⟨hpoints, hfit.succ, Nat.le_trans hbound hle⟩

theorem continues_join {items : List Logic} {standings : List Standing}
    (hitems : ∀ item ∈ items, item.Fit meanings levels)
    (hstandings : List.Forall₂
      (fun item standing => Continues meanings levels item.operations standing) items standings) :
    (join standings).Continues meanings (levels + 1) (Logic.itemsOperations items) := by
  have hnodes : ∀ next ∈ standings.map node, next.Fit meanings levels := by
    induction hstandings with
    | nil => simp
    | @cons item standing items standings hfirst _ ih =>
        have hrest := ih fun other hother => hitems other (List.mem_cons_of_mem _ hother)
        have hpos := (hitems item List.mem_cons_self).pos
        intro next hnext
        rcases List.mem_cons.mp hnext with rfl | hmem
        · cases standing with
          | done value =>
              obtain ⟨below, rfl⟩ : ∃ below, levels = below + 1 := ⟨levels - 1, by omega⟩
              exact .literal value
          | waits points continued => exact hfirst.2.1
        · exact hrest next hmem
  have hbound : (standings.map points).sum + Logic.itemsOperations (standings.map node) ≤
      Logic.itemsOperations items := by
    clear hnodes hitems
    induction hstandings with
    | nil => simp [Logic.itemsOperations]
    | @cons item standing items standings hfirst _ ih =>
        simp only [List.map_cons, List.sum_cons, Logic.itemsOperations_cons]
        cases standing with
        | done value =>
            simp only [points, node, Logic.operations_literal]
            omega
        | waits points continued =>
            have hle := hfirst.2.2
            simp only [Standing.points, node]
            omega
  have hpositive : standings.any isWaiting = true → 0 < (standings.map points).sum := by
    clear hnodes hbound hitems
    induction hstandings with
    | nil => simp
    | @cons item standing items standings hfirst _ ih =>
        intro hany
        simp only [List.map_cons, List.sum_cons]
        cases standing with
        | done value =>
            have hrest := ih (by simpa [isWaiting] using hany)
            omega
        | waits points continued =>
            have hpoints := hfirst.1
            simp only [Standing.points]
            omega
  unfold join
  split
  next hany => exact ⟨hpositive hany, .sequence hnodes, by simpa using hbound⟩
  next => trivial

end Standing

namespace Meaning

/-! ## Operations -/

theorem ensures_of_settled {P : Standing → Prop} {judgement : Judgement Standing}
    (hsettled : judgement.Settled) (hdone : ∀ value, P (.done value)) : judgement.Ensures P := by
  refine hsettled.mono fun standing hstanding => ?_
  cases standing with
  | done value => exact hdone value
  | waits points next => cases hstanding

section Arguments

variable {evaluate : Logic → Judgement Standing} {name : String} {meaning : Meaning} {bound : Nat}
  {arguments : List Logic}

theorem waitsAt_continues (hname : meanings name = some meaning)
    (hchooses : meaning.chooses = true) {node next : Logic} {rest : List Logic} {points : Nat}
    (hwaits : Standing.Continues meanings levels node.operations (.waits points next))
    (hrest : ∀ other ∈ rest, other.Fit meanings levels) (hplain : ∀ other ∈ rest, other.Plain)
    (hbound : Logic.itemsOperations (node :: rest) + 1 ≤ bound) :
    Standing.Continues meanings (levels + 1) bound (waitsAt name points next rest) := by
  obtain ⟨hpoints, hfit, hle⟩ := hwaits
  unfold waitsAt
  rw [Logic.map_reparse hplain]
  refine ⟨hpoints, .choice hname hchooses ?_ hplain, ?_⟩
  · exact List.forall_mem_cons.mpr ⟨hfit, hrest⟩
  · simp only [Logic.itemsOperations_cons, Logic.operations_operation,
      Logic.operations_sequence] at hbound ⊢
    omega

theorem deciding_continues (hname : meanings name = some meaning)
    (hchooses : meaning.chooses = true) {stop : Bool}
    (hfit : ∀ node ∈ arguments, node.Fit meanings levels)
    (hplain : ∀ node ∈ arguments.tail, node.Plain)
    (hbound : Logic.itemsOperations arguments + 1 ≤ bound)
    (hevaluate : ∀ node ∈ arguments,
      (evaluate node).Ensures (Standing.Continues meanings levels node.operations)) (last : Json) :
    (deciding evaluate name stop last arguments).Ensures
      (Standing.Continues meanings (levels + 1) bound) := by
  induction arguments generalizing last with
  | nil => exact .pure trivial
  | cons node rest ih =>
      rw [List.forall_mem_cons] at hfit hevaluate
      refine hevaluate.1.bind fun standing hstanding => ?_
      cases standing with
      | done value =>
          dsimp only
          split
          · exact .pure trivial
          · apply ih hfit.2 (fun other hother => hplain other (List.mem_of_mem_tail hother)) ?_
              hevaluate.2
            rw [Logic.itemsOperations_cons] at hbound
            omega
      | waits points next =>
          exact .pure (waitsAt_continues hname hchooses hstanding hfit.2 hplain hbound)

theorem branching_continues (hname : meanings name = some meaning)
    (hchooses : meaning.chooses = true) (hfit : ∀ node ∈ arguments, node.Fit meanings levels)
    (hplain : ∀ node ∈ arguments.tail, node.Plain)
    (hbound : Logic.itemsOperations arguments + 1 ≤ bound)
    (hevaluate : ∀ node ∈ arguments,
      (evaluate node).Ensures (Standing.Continues meanings levels node.operations)) :
    (branching evaluate name arguments).Ensures
      (Standing.Continues meanings (levels + 1) bound) := by
  induction arguments using branching.induct with
  | case1 => exact .pure trivial
  | case2 otherwise =>
      rw [Logic.itemsOperations_cons] at hbound
      refine (hevaluate otherwise List.mem_cons_self).mono fun standing hstanding => ?_
      exact hstanding.succ (by omega)
  | case3 condition result rest ih =>
      have hcondition := hevaluate condition List.mem_cons_self
      have hresult := hevaluate result (by simp)
      refine hcondition.bind fun standing hstanding => ?_
      cases standing with
      | done value =>
          simp only [Logic.itemsOperations_cons] at hbound
          dsimp only
          split
          · refine hresult.mono fun standing hstanding => hstanding.succ ?_
            omega
          · apply ih
            · exact fun other hother => hfit other (by simp [hother])
            · exact fun other hother => hplain other (by simp [List.mem_of_mem_tail hother])
            · omega
            · exact fun other hother => hevaluate other (by simp [hother])
      | waits points next =>
          refine .pure (waitsAt_continues hname hchooses hstanding ?_ hplain hbound)
          exact fun other hother => hfit other (List.mem_cons_of_mem _ hother)

theorem source_ensures {P : Standing → Prop} {next : List Json → Judgement Standing}
    (hnext : ∀ items, (next items).Ensures P)
    (hsource : ∀ node rest, arguments = node :: rest → (evaluate node).Ensures fun standing =>
      ∀ points logic, standing = .waits points logic → P (waitsAt name points logic rest)) :
    (source evaluate name next arguments).Ensures P := by
  cases arguments with
  | nil => exact hnext []
  | cons node rest =>
      refine (hsource node rest rfl).bind fun standing hstanding => ?_
      cases standing with
      | done value => exact hnext _
      | waits points logic => exact .pure (hstanding points logic rfl)

theorem reducing_ensures {P : Standing → Prop} {body : Scope → Judgement Json} {scope : Scope}
    (hdone : ∀ value, P (.done value))
    (hinitial : ∀ node, arguments[2]? = some node → (evaluate node).Ensures fun standing =>
      ∀ points next items, standing = .waits points next →
        P (.waits points (.operation name (.sequence
          [.literal (.array items), (bodyOf arguments).reparse, next])))) (items : List Json) :
    (reducing evaluate name body scope arguments items).Ensures P := by
  unfold reducing
  cases hnode : arguments[2]? with
  | none =>
      cases items with
      | nil => exact .pure (hdone _)
      | cons first rest => exact ensures_of_settled (folding_settled first rest) hdone
  | some node =>
      refine (hinitial node hnode).bind fun standing hstanding => ?_
      cases standing with
      | done initial => exact ensures_of_settled (folding_settled initial items) hdone
      | waits points next => exact .pure (hstanding points next items rfl)

end Arguments

theorem arguments_of_third {arguments : List Logic} {node : Logic}
    (hnode : arguments[2]? = some node) :
    ∃ first body more, arguments = first :: body :: node :: more := by
  match arguments, hnode with
  | first :: body :: _ :: more, hnode =>
      cases hnode
      exact ⟨first, body, more, rfl⟩

section Iterations

variable {evaluate : Logic → Scope → Judgement Standing} {name : String} {args : Logic}
  {scope : Scope} {meaning : Meaning}

/-- An iteration that waits for its items keeps its body and what is behind it. -/
theorem items_continue {node next : Logic} {rest : List Logic} {points : Nat}
    (hname : meanings name = some meaning) (hiterates : meaning.iterates = true)
    (hnode : args.arguments = node :: rest)
    (hrestFit : ∀ other ∈ rest, other.Fit meanings levels) (hrest : ∀ other ∈ rest, other.Plain)
    (hbody : (bodyOf args.arguments).Fit meanings levels)
    (hquiet : (bodyOf args.arguments).Quiet meanings) (hplain : (bodyOf args.arguments).Plain)
    (hwaits : Standing.Continues meanings levels node.operations (.waits points next)) :
    Standing.Continues meanings (levels + 1) (args.operations + 1)
      (waitsAt name points next rest) := by
  obtain ⟨hpoints, hfit, hle⟩ := hwaits
  rw [hnode] at hbody hquiet hplain
  unfold waitsAt
  rw [Logic.map_reparse hrest]
  have harguments : ∀ other ∈ next :: rest, other.Fit meanings levels :=
    List.forall_mem_cons.mpr ⟨hfit, hrestFit⟩
  refine ⟨hpoints, .iteration hname hiterates harguments hbody hquiet hplain (.inr hrest), ?_⟩
  rw [← Logic.itemsOperations_arguments args, hnode]
  simp only [Logic.itemsOperations_cons, Logic.operations_operation, Logic.operations_sequence]
  omega

/-- A fold that waits for the value to start with has its items as a literal. -/
theorem initial_continues {node next : Logic} {points : Nat} (items : List Json)
    (hname : meanings name = some meaning) (hiterates : meaning.iterates = true)
    (hnode : args.arguments[2]? = some node) (hbody : (bodyOf args.arguments).Fit meanings levels)
    (hquiet : (bodyOf args.arguments).Quiet meanings) (hplain : (bodyOf args.arguments).Plain)
    (hwaits : Standing.Continues meanings levels node.operations (.waits points next)) :
    Standing.Continues meanings (levels + 1) (args.operations + 1)
      (.waits points (.operation name (.sequence
        [.literal (.array items), (bodyOf args.arguments).reparse, next]))) := by
  obtain ⟨hpoints, hfit, hle⟩ := hwaits
  obtain ⟨first, body, more, hall⟩ := arguments_of_third hnode
  have hbodyOf : bodyOf args.arguments = body := by
    rw [hall]
    rfl
  have hreparse : (bodyOf args.arguments).reparse = body := by rw [hplain, hbodyOf]
  rw [hreparse]
  rw [hbodyOf] at hbody hquiet hplain
  have hpos := hbody.pos
  obtain ⟨below, rfl⟩ : ∃ below, levels = below + 1 := ⟨levels - 1, by omega⟩
  have harguments : ∀ other ∈ [.literal (.array items), body, next],
      Logic.Fit meanings (below + 1) other := by
    intro other hother
    simp only [List.mem_cons, List.not_mem_nil, or_false] at hother
    rcases hother with rfl | rfl | rfl
    · exact .literal _
    · exact hbody
    · exact hfit
  refine ⟨hpoints, .iteration hname hiterates harguments hbody hquiet hplain (.inl ⟨_, rfl⟩), ?_⟩
  rw [← Logic.itemsOperations_arguments args, hall]
  simp only [Logic.itemsOperations, Logic.operations_operation, Logic.operations_sequence,
    Logic.operations_literal]
  omega

theorem iteration_continues (hname : meanings name = some meaning)
    (hiterates : meaning.iterates = true)
    (harguments : ∀ node ∈ args.arguments, node.Fit meanings levels)
    (hbody : (bodyOf args.arguments).Fit meanings levels)
    (hquiet : (bodyOf args.arguments).Quiet meanings) (hplain : (bodyOf args.arguments).Plain)
    (htail : (∃ value, args.arguments.head? = some (.literal value)) ∨
      ∀ node ∈ args.arguments.tail, node.Plain)
    (hliteral : ∀ value, (evaluate (.literal value) scope).Settled)
    (hevaluate : ∀ node ∈ args.arguments,
      (evaluate node scope).Ensures (Standing.Continues meanings levels node.operations)) :
    (meaning.operation f evaluate name args scope).Ensures
      (Standing.Continues meanings (levels + 1) (args.operations + 1)) := by
  rw [operation_of_iterates hiterates]
  apply source_ensures
  · intro items
    by_cases hreduce : meaning = .reduce
    · subst hreduce
      refine reducing_ensures (fun _ => trivial) (fun node hnode => ?_) items
      have hinitial := hevaluate node (List.mem_of_getElem? hnode)
      refine hinitial.mono fun standing hstanding points next items hwaits => ?_
      subst hwaits
      exact initial_continues items hname hiterates hnode hbody hquiet hplain hstanding
    · exact ensures_of_settled (takeUp_settled hreduce items) fun _ => trivial
  · intro node rest hnode
    have hsource := hevaluate node
    rw [hnode, List.forall_mem_cons] at harguments
    rcases htail with ⟨value, hvalue⟩ | hrest
    · rw [hnode] at hvalue
      obtain rfl : node = .literal value := Option.some.inj hvalue
      refine (hliteral value).mono fun standing hstanding points logic hwaits => ?_
      subst hwaits
      cases hstanding
    · rw [hnode] at hrest
      have hmem : node ∈ args.arguments := by simp [hnode]
      refine (hsource hmem).mono fun standing hstanding points logic hwaits => ?_
      subst hwaits
      exact items_continue hname hiterates hnode harguments.2 hrest hbody hquiet hplain hstanding

end Iterations

end Meaning

/-- What continues a tree that fits is a tree that fits, with fewer operations. -/
theorem Logic.Fit.continues {node : Logic} (hfit : node.Fit meanings levels) (scope : Scope) :
    (Meaning.judge f meanings levels node scope).Ensures
      (Standing.Continues meanings levels node.operations) := by
  induction hfit generalizing scope with
  | literal value => exact .pure trivial
  | @sequence levels items hitems ih =>
      have hall : List.Forall₂ (fun item judgement => Judgement.Ensures
          (Standing.Continues meanings levels item.operations) judgement) items
          (items.map fun item => Meaning.judge f meanings levels item scope) := by
        rw [List.forall₂_map_right_iff, List.forall₂_same]
        exact fun item hitem => ih item hitem scope
      unfold Meaning.judge
      rw [operations_sequence]
      refine (Judgement.Ensures.all hall).bind fun standings hstandings => ?_
      exact .pure (Standing.continues_join hitems hstandings)
  | @unknown levels name args hname =>
      unfold Meaning.judge
      simp only [hname]
      exact .fails
  | @traversing levels name args reply hname hargs ih =>
      unfold Meaning.judge
      simp only [hname]
      refine (ih scope).bind fun standing hstanding => ?_
      cases standing with
      | done value =>
          refine Judgement.Ensures.after ?_ _
          cases reply value scope with
          | value x => exact .pure trivial
          | asks =>
              refine .pure ⟨Nat.one_pos, .literal _, ?_⟩
              rw [operations_literal, operations_operation]
              omega
          | fails => exact .fails
      | waits points next =>
          obtain ⟨hpoints, hfit, hle⟩ := hstanding
          refine .pure ⟨hpoints, .traversing hname hfit, ?_⟩
          rw [operations_operation, operations_operation]
          omega
  | @data levels name args hname =>
      unfold Meaning.judge
      simp only [hname]
      exact .pure trivial
  | @choice levels name args meaning hname hchooses harguments htail ih =>
      have hbound : itemsOperations args.arguments + 1 ≤ (operation name args).operations := by
        rw [itemsOperations_arguments, operations_operation]
      have hevaluate : ∀ node ∈ args.arguments, (Meaning.judge f meanings levels node scope).Ensures
          (Standing.Continues meanings levels node.operations) :=
        fun node hnode => ih node hnode scope
      unfold Meaning.judge
      simp only [hname]
      unfold Meaning.operation
      cases meaning with
      | decide stop =>
          exact Meaning.deciding_continues hname hchooses harguments htail hbound hevaluate .null
      | branch => exact Meaning.branching_continues hname hchooses harguments htail hbound hevaluate
      | _ => cases hchooses
  | @iteration levels name args meaning hname hiterates harguments hbody hquiet hplain htail ih _ =>
      unfold Meaning.judge
      simp only [hname]
      rw [operations_operation]
      apply Meaning.iteration_continues hname hiterates harguments hbody hquiet hplain htail
      · intro value
        have hliteral : (Logic.literal value).Quiet meanings := by
          intro other otherArgs otherMeaning hwithin
          cases hwithin
        exact hliteral.settled levels scope
      · exact fun node hnode => ih node hnode scope

end DecisionLogic
