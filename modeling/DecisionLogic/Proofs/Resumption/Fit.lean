import DecisionLogic.Proofs.Program.Height
import DecisionLogic.Proofs.Resumption.Quiet

/-!
# Trees that fit

A tree fits when the levels that are left suffice for it, no operator that asks occurs in the body
of an iteration, and whatever a suspension keeps as a value reads back as it was.  A tree that was
read from a value fits if its bodies are quiet, and so does all that continues it.

An operation that evaluates its own arguments does so one level below itself, whether they come in
a sequence or not.  This is why the levels are counted here and not the height of the tree.
-/

namespace DecisionLogic

variable {f : Json → Json} {meanings : String → Option Meaning} {levels : Nat}

/-- Arguments are evaluated one after the other until a decision is made. -/
def Meaning.chooses : Meaning → Bool
  | .decide _ => true
  | .branch => true
  | _ => false

inductive Logic.Fit (meanings : String → Option Meaning) : Nat → Logic → Prop
  | literal {levels : Nat} (value : Json) : Fit meanings (levels + 1) (.literal value)
  | sequence {levels : Nat} {items : List Logic}
      (hitems : ∀ item ∈ items, Fit meanings levels item) :
      Fit meanings (levels + 1) (.sequence items)
  | unknown {levels : Nat} {name : String} {args : Logic} (hname : meanings name = none) :
      Fit meanings (levels + 1) (.operation name args)
  | traversing {levels : Nat} {name : String} {args : Logic} {reply : Json → Scope → Reply}
      (hname : meanings name = some (.traversing reply)) (hargs : Fit meanings levels args) :
      Fit meanings (levels + 1) (.operation name args)
  | data {levels : Nat} {name : String} {args : Logic} (hname : meanings name = some .data) :
      Fit meanings (levels + 1) (.operation name args)
  | choice {levels : Nat} {name : String} {args : Logic} {meaning : Meaning}
      (hname : meanings name = some meaning) (hchooses : meaning.chooses = true)
      (harguments : ∀ node ∈ args.arguments, Fit meanings levels node)
      (htail : ∀ node ∈ args.arguments.tail, node.Plain) :
      Fit meanings (levels + 1) (.operation name args)
  /-- Once the items are known they stay as a literal, and what is behind the body need not read
  back any more. -/
  | iteration {levels : Nat} {name : String} {args : Logic} {meaning : Meaning}
      (hname : meanings name = some meaning) (hiterates : meaning.iterates = true)
      (harguments : ∀ node ∈ args.arguments, Fit meanings levels node)
      (hbody : Fit meanings levels (Meaning.bodyOf args.arguments))
      (hquiet : (Meaning.bodyOf args.arguments).Quiet meanings)
      (hplain : (Meaning.bodyOf args.arguments).Plain)
      (htail : (∃ value, args.arguments.head? = some (.literal value)) ∨
        ∀ node ∈ args.arguments.tail, node.Plain) :
      Fit meanings (levels + 1) (.operation name args)

/-- The bodies of all iterations in the tree are quiet. -/
def Logic.BodiesQuiet (meanings : String → Option Meaning) (tree : Logic) : Prop :=
  ∀ name args meaning, (Logic.operation name args).Within tree → meanings name = some meaning →
    meaning.iterates = true → (Meaning.bodyOf args.arguments).Quiet meanings

namespace Logic

theorem Fit.pos {node : Logic} (hfit : node.Fit meanings levels) : 0 < levels := by
  cases hfit <;> exact Nat.succ_pos _

theorem Fit.succ {node : Logic} (hfit : node.Fit meanings levels) :
    node.Fit meanings (levels + 1) := by
  induction hfit with
  | literal value => exact .literal value
  | sequence _ ih => exact .sequence ih
  | unknown hname => exact .unknown hname
  | traversing hname _ ih => exact .traversing hname ih
  | data hname => exact .data hname
  | choice hname hchooses _ htail ih => exact .choice hname hchooses ih htail
  | iteration hname hiterates _ _ hquiet hplain htail ih ihbody =>
      exact .iteration hname hiterates ih ihbody hquiet hplain htail

theorem height_le_of_mem_arguments {node args : Logic} (hmem : node ∈ args.arguments) :
    node.height ≤ args.height :=
  (within_of_mem_arguments hmem).height_le

theorem bodyOf_mem_or_null (arguments : List Logic) :
    Meaning.bodyOf arguments ∈ arguments ∨ Meaning.bodyOf arguments = .literal .null := by
  unfold Meaning.bodyOf
  rw [List.getD_eq_getElem?_getD]
  cases hbody : arguments[1]? with
  | none => exact .inr rfl
  | some body => exact .inl (List.mem_of_getElem? hbody)

theorem Plain.fit {node : Logic} (hplain : node.Plain) (hheight : node.height ≤ levels)
    (hbodies : node.BodiesQuiet meanings) : node.Fit meanings levels := by
  induction levels generalizing node with
  | zero =>
      have hpos := node.height_pos
      omega
  | succ levels ih =>
      cases node with
      | literal value => exact .literal value
      | sequence items =>
          rw [height] at hheight
          refine .sequence fun item hitem => ?_
          have hitemHeight := height_le_itemsHeight hitem
          apply ih (hplain.item item hitem) (by omega)
          intro name args meaning hwithin
          exact hbodies name args meaning (.item hitem hwithin)
      | operation name args =>
          rw [height] at hheight
          have hargsBodies : args.BodiesQuiet meanings :=
            fun other otherArgs meaning hwithin => hbodies other otherArgs meaning (.args hwithin)
          have harguments : ∀ node ∈ args.arguments, node.Fit meanings levels := by
            intro node hnode
            have hnodeHeight := height_le_of_mem_arguments hnode
            apply ih (hplain.argument node hnode) (by omega)
            intro other otherArgs meaning hwithin
            exact hargsBodies other otherArgs meaning
              (hwithin.trans (within_of_mem_arguments hnode))
          have htail : ∀ node ∈ args.arguments.tail, node.Plain :=
            fun node hnode => hplain.argument node (List.mem_of_mem_tail hnode)
          cases hname : meanings name with
          | none => exact .unknown hname
          | some meaning =>
              by_cases hchooses : meaning.chooses = true
              · exact .choice hname hchooses harguments htail
              by_cases hiterates : meaning.iterates = true
              · have hquiet := hbodies name args meaning (.self _) hname hiterates
                rcases bodyOf_mem_or_null args.arguments with hmem | hnull
                · exact .iteration hname hiterates harguments (harguments _ hmem) hquiet
                    (hplain.argument _ hmem) (.inr htail)
                · have hpos := args.height_pos
                  obtain ⟨below, rfl⟩ : ∃ below, levels = below + 1 := ⟨levels - 1, by omega⟩
                  refine .iteration hname hiterates harguments ?_ hquiet ?_ (.inr htail)
                  · rw [hnull]
                    exact .literal .null
                  · rw [hnull]
                    exact plain_null
              cases meaning with
              | traversing reply =>
                  exact .traversing hname (ih hplain.args (by omega) hargsBodies)
              | data => exact .data hname
              | decide stop => exact absurd rfl hchooses
              | branch => exact absurd rfl hchooses
              | map => exact absurd rfl hiterates
              | filter => exact absurd rfl hiterates
              | reduce => exact absurd rfl hiterates
              | anyAll stop => exact absurd rfl hiterates

end Logic
end DecisionLogic
