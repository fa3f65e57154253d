import DecisionLogic.Proofs.Program.Compilation
import Mathlib.Data.List.Nodup

/-!
# What compiling makes of a tree

Places lead from the root of a tree down to its nodes, past no operation that does not traverse.
When operators remember nothing, what a node compiles to is a function of the node, and so are the
calls that are tried on the way: those of inlinable operators whose arguments compile to a literal.
Each of them has a place of its own in the tree.
-/

namespace DecisionLogic

/-! ## Places -/

namespace Logic

/-- The nodes directly below a node that are compiled. -/
def openParts (engine : Engine) : Logic → List Logic
  | .literal _ => []
  | .sequence items => items
  | .operation name args =>
      match engine.registry.lookup name with
      | some operator => if operator.traverse then [args] else []
      | none => []

/-- The node at a place outside the arguments of every operation that does not traverse. -/
def openNode? (engine : Engine) (node : Logic) : List Nat → Option Logic
  | [] => some node
  | i :: place => (node.openParts engine)[i]?.bind fun part => part.openNode? engine place

theorem openNode?_cons {engine : Engine} {node found : Logic} {i : Nat} {place : List Nat} :
    node.openNode? engine (i :: place) = some found ↔
      ∃ part, (node.openParts engine)[i]? = some part ∧
        part.openNode? engine place = some found :=
  Option.bind_eq_some_iff

theorem openParts_operation {engine : Engine} {name : String} {operator : Operator} {args : Logic}
    (hlookup : engine.registry.lookup name = some operator) (htraverse : operator.traverse = true) :
    (operation name args).openParts engine = [args] := by
  simp only [openParts, hlookup, htraverse, if_true]

/-- Only an operation of an operator that traverses has compiled arguments. -/
theorem openParts_of_operation {engine : Engine} {name : String} {args part : Logic} {i : Nat}
    (hpart : ((operation name args).openParts engine)[i]? = some part) :
    i = 0 ∧ part = args ∧ ∃ operator, engine.registry.lookup name = some operator ∧
      operator.traverse = true := by
  rw [openParts] at hpart
  split at hpart
  next operator hlookup =>
    split at hpart
    next htraverse =>
      obtain ⟨rfl, rfl⟩ : i = 0 ∧ args = part := by simpa [List.getElem?_singleton] using hpart
      exact ⟨rfl, rfl, operator, hlookup, htraverse⟩
    next => cases hpart
  next => cases hpart

end Logic

namespace Compiled

/-- The nodes directly below a node. -/
def parts : Compiled → List Compiled
  | .sequence items => items
  | .call _ _ args _ => [args]
  | _ => []

def node? (tree : Compiled) : List Nat → Option Compiled
  | [] => some tree
  | i :: place => tree.parts[i]?.bind fun part => part.node? place

theorem node?_cons {tree found : Compiled} {i : Nat} {place : List Nat} :
    tree.node? (i :: place) = some found ↔
      ∃ part, tree.parts[i]? = some part ∧ part.node? place = some found :=
  Option.bind_eq_some_iff

end Compiled

/-! ## Calls that are tried -/

/-- The value that an evaluation has after its first poll. -/
def Moment.done? (moment : Moment Evaluation) : Option Json :=
  match moment.result? with
  | some (.ok (.done value)) => some value
  | _ => none

/-- The call of an operator while compiling: a fresh invocation in an empty scope. -/
def Engine.attempt (engine : Engine) (name : String) (operator : Operator) (input : Json)
    (world : World) : Moment Evaluation :=
  callOperator name operator (.evaluated input) (.ofData .null)
    (engine.handle (engine.evaluate engine.levels)) { world with bag := [], cancelled := false }

/-- What a call gives at once when nothing has happened before. -/
def Engine.constant? (engine : Engine) (name : String) (operator : Operator) (input : Json) :
    Option Json :=
  (engine.attempt name operator input (.start 0)).done?

/-- Whether the call of an inlinable operator gives a value at once, and which, does not depend on
what has happened before. -/
def Engine.Stateless (engine : Engine) : Prop :=
  ∀ name operator, engine.registry.lookup name = some operator → operator.traverse = true →
    operator.isInlinable = true → ∀ input world world',
      (engine.attempt name operator input world).done? =
        (engine.attempt name operator input world').done?

/-- A call that is tried while compiling, at the place of its operation. -/
structure Completion where
  place : List Nat
  name : String
  operator : Operator
  input : Json

namespace Completion

def below (i : Nat) (c : Completion) : Completion :=
  { c with place := i :: c.place }

@[simp] theorem place_below (i : Nat) (c : Completion) : (c.below i).place = i :: c.place :=
  rfl

theorem nodup_below {cs : List Completion} (i : Nat) (hplaces : (cs.map place).Nodup) :
    ((cs.map (below i)).map place).Nodup := by
  have hcons : (cs.map (below i)).map place = (cs.map place).map (i :: ·) := by
    rw [List.map_map, List.map_map]
    rfl
  rw [hcons]
  exact hplaces.map List.cons_injective

theorem below_eq_iff {c c' : Completion} {i j : Nat} {place : List Nat}
    (hplace : c.place = i :: place) :
    c = c'.below j ↔ i = j ∧ { c with place } = c' := by
  obtain ⟨_, name, operator, input⟩ := c
  obtain ⟨place', name', operator', input'⟩ := c'
  cases hplace
  simp [below, and_assoc]

end Completion

namespace Compiled

/-- A sequence of these items, or the array of their values. -/
def collecting (items : List Compiled) : Compiled :=
  match literals? items with
  | some values => .literal (.array values)
  | none => .sequence items

/-- A call with these arguments, or the value it gives at once. -/
def calling (engine : Engine) (name : String) (operator : Operator) (raw : Logic) :
    Compiled → Compiled
  | .literal input =>
      if operator.isInlinable then
        match engine.constant? name operator input with
        | some value => .literal value
        | none => .call name operator (.literal input) raw
      else .call name operator (.literal input) raw
  | args => .call name operator args raw

/-- The calls of an operator that are tried once its arguments are compiled. -/
def attempts (name : String) (operator : Operator) : Compiled → List Completion
  | .literal input => if operator.isInlinable then [⟨[], name, operator, input⟩] else []
  | _ => []

mutual

/-- What a node compiles to, if it compiles at all. -/
def folded (engine : Engine) : Logic → Compiled
  | .literal value => .literal value
  | .sequence items => collecting (foldedItems engine items)
  | .operation name args =>
      match engine.registry.lookup name with
      | none => .literal .null
      | some operator =>
          if operator.traverse then (folded engine args).calling engine name operator args
          else .rawCall name operator args

def foldedItems (engine : Engine) : List Logic → List Compiled
  | [] => []
  | item :: items => folded engine item :: foldedItems engine items

end

mutual

/-- The calls that are tried while a node is compiled, in their order. -/
def completions (engine : Engine) : Logic → List Completion
  | .literal _ => []
  | .sequence items => itemCompletions engine 0 items
  | .operation name args =>
      match engine.registry.lookup name with
      | none => []
      | some operator =>
          if operator.traverse then
            (completions engine args).map (.below 0) ++ attempts name operator (folded engine args)
          else []

/-- The calls that are tried in the last items of a sequence, the first of which is number `i`. -/
def itemCompletions (engine : Engine) (i : Nat) : List Logic → List Completion
  | [] => []
  | item :: items =>
      (completions engine item).map (.below i) ++ itemCompletions engine (i + 1) items

end

variable {engine : Engine}

theorem foldedItems_eq (items : List Logic) :
    foldedItems engine items = items.map (folded engine) := by
  induction items with
  | nil => rfl
  | cons item items ih => rw [foldedItems, List.map_cons, ih]

theorem folded_operation {name : String} {operator : Operator} (args : Logic)
    (hlookup : engine.registry.lookup name = some operator) (htraverse : operator.traverse = true) :
    folded engine (.operation name args) =
      (folded engine args).calling engine name operator args := by
  simp only [folded, hlookup, htraverse, if_true]

theorem completions_operation {name : String} {operator : Operator} (args : Logic)
    (hlookup : engine.registry.lookup name = some operator) (htraverse : operator.traverse = true) :
    completions engine (.operation name args) =
      (completions engine args).map (.below 0) ++
        attempts name operator (folded engine args) := by
  simp only [completions, hlookup, htraverse, if_true]

/-! ## Which calls are tried -/

theorem attempts_literal {name : String} {operator : Operator} {input : Json}
    (hinlinable : operator.isInlinable = true) :
    attempts name operator (.literal input) = [⟨[], name, operator, input⟩] :=
  if_pos hinlinable

theorem attempts_of_ne_literal {args : Compiled} (hargs : ∀ input, args ≠ .literal input)
    (name : String) (operator : Operator) : attempts name operator args = [] := by
  cases args with
  | literal input => exact absurd rfl (hargs input)
  | sequence | call | rawCall => rfl

theorem mem_attempts {name : String} {operator : Operator} {args : Compiled} {c : Completion} :
    c ∈ attempts name operator args ↔
      ∃ input, args = .literal input ∧ operator.isInlinable = true ∧
        c = ⟨[], name, operator, input⟩ := by
  unfold attempts
  split
  next input =>
    split
    next hinlinable => simp [hinlinable]
    next hinlinable => simp [hinlinable]
  next args hliteral =>
    simp only [List.not_mem_nil, false_iff, not_exists]
    rintro input ⟨rfl, -⟩
    exact hliteral input rfl

theorem mem_itemCompletions {items : List Logic} {c : Completion} (i : Nat) :
    c ∈ itemCompletions engine i items ↔
      ∃ k item c', items[k]? = some item ∧ c' ∈ completions engine item ∧ c = c'.below (i + k) := by
  induction items generalizing i with
  | nil => simp [itemCompletions]
  | cons item items ih =>
      rw [itemCompletions, List.mem_append, List.mem_map, ih]
      constructor
      · rintro (⟨c', hmem, rfl⟩ | ⟨k, item', c', hitem, hmem, rfl⟩)
        · exact ⟨0, item, c', rfl, hmem, rfl⟩
        · refine ⟨k + 1, item', c', hitem, hmem, ?_⟩
          rw [Nat.add_right_comm, Nat.add_assoc]
      · rintro ⟨k, item', c', hitem, hmem, rfl⟩
        cases k with
        | zero =>
            obtain rfl : item = item' := Option.some.inj hitem
            exact .inl ⟨c', hmem, rfl⟩
        | succ k =>
            refine .inr ⟨k, item', c', hitem, hmem, ?_⟩
            rw [Nat.add_right_comm, Nat.add_assoc]

/-- The call is tried for an operation of its name with these arguments. -/
def TriesWith (engine : Engine) (args : Logic) (c : Completion) : Prop :=
  engine.registry.lookup c.name = some c.operator ∧ c.operator.traverse = true ∧
    c.operator.isInlinable = true ∧ folded engine args = .literal c.input

theorem mem_completions_root {node : Logic} {c : Completion} (hplace : c.place = []) :
    c ∈ completions engine node ↔
      ∃ args, node = .operation c.name args ∧ TriesWith engine args c := by
  have hbelow (i : Nat) (c' : Completion) : c ≠ c'.below i := by
    rintro rfl
    cases hplace
  cases node with
  | literal value => simp [completions]
  | sequence items =>
      rw [completions, mem_itemCompletions]
      simp [hbelow]
  | operation name args =>
      cases hlookup : engine.registry.lookup name with
      | none =>
          simp only [completions, hlookup, List.not_mem_nil, false_iff, not_exists]
          rintro _ ⟨⟨rfl, rfl⟩, hfound, -⟩
          rw [hlookup] at hfound
          cases hfound
      | some operator =>
          cases htraverse : operator.traverse with
          | false =>
              simp only [completions, hlookup, htraverse, Bool.false_eq_true, if_false,
                List.not_mem_nil, false_iff, not_exists]
              rintro _ ⟨⟨rfl, rfl⟩, hfound, htraverse', -⟩
              rw [hlookup] at hfound
              cases hfound
              rw [htraverse] at htraverse'
              cases htraverse'
          | true =>
              rw [completions_operation args hlookup htraverse, List.mem_append, mem_attempts]
              constructor
              · rintro (hmem | ⟨input, hargs, hinlinable, rfl⟩)
                · obtain ⟨c', -, rfl⟩ := List.mem_map.mp hmem
                  exact absurd rfl (hbelow 0 c')
                · exact ⟨args, rfl, hlookup, htraverse, hinlinable, hargs⟩
              · rintro ⟨_, hoperation, hfound, -, hinlinable, hargs⟩
                cases hoperation
                rw [hlookup] at hfound
                cases hfound
                refine .inr ⟨c.input, hargs, hinlinable, ?_⟩
                rw [← hplace]

theorem mem_completions_below {node : Logic} {c : Completion} {i : Nat} {place : List Nat}
    (hplace : c.place = i :: place) :
    c ∈ completions engine node ↔
      ∃ part, (node.openParts engine)[i]? = some part ∧
        { c with place } ∈ completions engine part := by
  cases node with
  | literal value => simp [completions, Logic.openParts]
  | sequence items =>
      rw [completions, mem_itemCompletions]
      simp only [Completion.below_eq_iff hplace, Nat.zero_add]
      constructor
      · rintro ⟨k, item, c', hitem, hmem, rfl, rfl⟩
        exact ⟨item, hitem, hmem⟩
      · rintro ⟨item, hitem, hmem⟩
        exact ⟨i, item, _, hitem, hmem, rfl, rfl⟩
  | operation name args =>
      cases hlookup : engine.registry.lookup name with
      | none => simp [completions, Logic.openParts, hlookup]
      | some operator =>
          cases htraverse : operator.traverse with
          | false => simp [completions, Logic.openParts, hlookup, htraverse]
          | true =>
              rw [completions_operation args hlookup htraverse,
                Logic.openParts_operation hlookup htraverse, List.mem_append, List.mem_map]
              constructor
              · rintro (⟨c', hmem, hc⟩ | hown)
                · obtain ⟨rfl, rfl⟩ := (Completion.below_eq_iff hplace).mp hc.symm
                  exact ⟨args, rfl, hmem⟩
                · obtain ⟨input, -, -, rfl⟩ := mem_attempts.mp hown
                  cases hplace
              · rintro ⟨part, hpart, hmem⟩
                obtain ⟨rfl, rfl⟩ : i = 0 ∧ args = part := by
                  simpa [List.getElem?_singleton] using hpart
                exact .inl ⟨_, hmem, ((Completion.below_eq_iff hplace).mpr ⟨rfl, rfl⟩).symm⟩

/-- The calls that are tried are those of inlinable operators that traverse, at the places of their
operations, with arguments that fold to a literal. -/
theorem mem_completions_iff {node : Logic} {c : Completion} :
    c ∈ completions engine node ↔
      ∃ args, node.openNode? engine c.place = some (.operation c.name args) ∧
        TriesWith engine args c := by
  obtain ⟨place, name, operator, input⟩ := c
  induction place generalizing node with
  | nil =>
      rw [mem_completions_root rfl]
      simp [Logic.openNode?]
  | cons i place ih =>
      rw [mem_completions_below rfl]
      simp only [ih, Logic.openNode?_cons]
      constructor
      · rintro ⟨part, hpart, args, hnode, htries⟩
        exact ⟨args, ⟨part, hpart, hnode⟩, htries⟩
      · rintro ⟨args, ⟨part, hpart, hnode⟩, htries⟩
        exact ⟨part, hpart, args, hnode, htries⟩

theorem attempts_nodup (name : String) (operator : Operator) (args : Compiled) :
    ((attempts name operator args).map Completion.place).Nodup := by
  unfold attempts
  split
  next input =>
    split
    · exact List.nodup_singleton []
    · exact List.nodup_nil
  next => exact List.nodup_nil

mutual

/-- No two calls are tried at one place. -/
theorem completions_nodup :
    ∀ node : Logic, ((completions engine node).map Completion.place).Nodup
  | .literal _ => by simp [completions]
  | .sequence items => by
      rw [completions]
      exact itemCompletions_nodup 0 items
  | .operation name args => by
      cases hlookup : engine.registry.lookup name with
      | none => simp [completions, hlookup]
      | some operator =>
          cases htraverse : operator.traverse with
          | false => simp [completions, hlookup, htraverse]
          | true =>
              rw [completions_operation args hlookup htraverse, List.map_append,
                List.nodup_append]
              refine ⟨Completion.nodup_below 0 (completions_nodup args), attempts_nodup _ _ _, ?_⟩
              simp only [List.forall_mem_map, mem_attempts]
              rintro c _ _ ⟨input, -, -, rfl⟩
              exact List.cons_ne_nil _ _

theorem itemCompletions_nodup : ∀ (i : Nat) (items : List Logic),
    ((itemCompletions engine i items).map Completion.place).Nodup
  | _, [] => by simp [itemCompletions]
  | i, item :: items => by
      rw [itemCompletions, List.map_append, List.nodup_append]
      refine ⟨Completion.nodup_below i (completions_nodup item),
        itemCompletions_nodup (i + 1) items, ?_⟩
      simp only [List.forall_mem_map, mem_itemCompletions]
      rintro c _ _ ⟨k, _, c', -, -, rfl⟩ hplace
      have hnumber : i = i + 1 + k := (List.cons.inj hplace).1
      omega

end

end Compiled
end DecisionLogic
