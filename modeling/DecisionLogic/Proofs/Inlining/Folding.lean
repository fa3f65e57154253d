import DecisionLogic.Proofs.Inlining.Completions

/-!
# Folded trees

The nodes of a folded tree are what the nodes of the logic at the same places fold to.  A node that
does not fold to a literal is found in the tree at its place, since whatever it is part of does not
fold to one, either.  No sequence in the tree is made of literals alone, and no call in it gives a
value at once.
-/

namespace DecisionLogic.Compiled

variable {engine : Engine}

/-! ## One node -/

theorem eq_map_of_literals? {items : List Compiled} {values : List Json}
    (hvalues : literals? items = some values) : items = values.map .literal := by
  induction items generalizing values with
  | nil =>
      cases hvalues
      rfl
  | cons item items ih =>
      unfold literals? at hvalues
      split at hvalues
      next value rest hitem hrest =>
        cases hvalues
        rw [List.map_cons, ← ih hrest]
        cases item with
        | literal value' =>
            cases hitem
            rfl
        | sequence | call | rawCall => cases hitem
      next => cases hvalues

theorem calling_literal {name : String} {operator : Operator} {raw : Logic} {input : Json}
    (hinlinable : operator.isInlinable = true) :
    (literal input).calling engine name operator raw =
      (engine.constant? name operator input).elim (.call name operator (.literal input) raw)
        .literal := by
  rw [calling, if_pos hinlinable]
  cases engine.constant? name operator input with
  | none => rfl
  | some value => rfl

theorem calling_of_ne_literal {args : Compiled} (hargs : ∀ input, args ≠ .literal input)
    (name : String) (operator : Operator) (raw : Logic) :
    args.calling engine name operator raw = .call name operator args raw := by
  cases args with
  | literal input => exact absurd rfl (hargs input)
  | sequence | call | rawCall => rfl

/-- A call gives a value, or it stays a call of its operator. -/
theorem calling_cases (engine : Engine) (name : String) (operator : Operator) (raw : Logic)
    (args : Compiled) :
    (∃ input value, args = .literal input ∧ operator.isInlinable = true ∧
      engine.constant? name operator input = some value ∧
        args.calling engine name operator raw = .literal value) ∨
    (∀ input, args = .literal input → operator.isInlinable = true →
      engine.constant? name operator input = none) ∧
        args.calling engine name operator raw = .call name operator args raw := by
  cases args with
  | literal input =>
      cases hinlinable : operator.isInlinable with
      | false => exact .inr ⟨by simp, by simp [calling, hinlinable]⟩
      | true =>
          cases hconstant : engine.constant? name operator input with
          | none =>
              refine .inr ⟨?_, by simp [calling, hinlinable, hconstant]⟩
              rintro _ ⟨⟩ -
              exact hconstant
          | some value =>
              exact .inl ⟨input, value, rfl, rfl, hconstant,
                by simp [calling, hinlinable, hconstant]⟩
  | sequence | call | rawCall => exact .inr ⟨by simp, rfl⟩

/-- An operation folds to a value, to a call that is handed its arguments, or to a call with folded
arguments that gives no value at once. -/
theorem folded_operation_cases (engine : Engine) (name : String) (args : Logic) :
    (∃ value, folded engine (.operation name args) = .literal value) ∨
    (∃ operator, folded engine (.operation name args) = .rawCall name operator args) ∨
    ∃ operator, engine.registry.lookup name = some operator ∧ operator.traverse = true ∧
      (∀ input, folded engine args = .literal input → operator.isInlinable = true →
        engine.constant? name operator input = none) ∧
      folded engine (.operation name args) = .call name operator (folded engine args) args := by
  cases hlookup : engine.registry.lookup name with
  | none => exact .inl ⟨.null, by simp [folded, hlookup]⟩
  | some operator =>
      cases htraverse : operator.traverse with
      | false => exact .inr (.inl ⟨operator, by simp [folded, hlookup, htraverse]⟩)
      | true =>
          rw [folded_operation args hlookup htraverse]
          rcases calling_cases engine name operator args (folded engine args) with
            ⟨_, value, -, -, -, hcall⟩ | ⟨hnone, hcall⟩
          · exact .inl ⟨value, hcall⟩
          · exact .inr (.inr ⟨operator, rfl, htraverse, hnone, hcall⟩)

theorem collecting_of_some {items : List Compiled} {values : List Json}
    (hvalues : literals? items = some values) : collecting items = .literal (.array values) := by
  simp only [collecting, hvalues]

theorem collecting_of_none {items : List Compiled} (hvalues : literals? items = none) :
    collecting items = .sequence items := by
  simp only [collecting, hvalues]

theorem collecting_cases (items : List Compiled) :
    (∃ values : List Json, items = values.map .literal ∧
      collecting items = .literal (.array values)) ∨
    literals? items = none ∧ collecting items = .sequence items := by
  cases hvalues : literals? items with
  | none => exact .inr ⟨rfl, collecting_of_none hvalues⟩
  | some values =>
      exact .inl ⟨values, eq_map_of_literals? hvalues, collecting_of_some hvalues⟩

/-! ## Places -/

/-- The parts of a folded tree are the folded parts of the node. -/
theorem parts_folded {node : Logic} {part : Compiled} {i : Nat}
    (hpart : (folded engine node).parts[i]? = some part) :
    ∃ part', (node.openParts engine)[i]? = some part' ∧ folded engine part' = part := by
  cases node with
  | literal value => simp [folded, parts] at hpart
  | sequence items =>
      rw [folded, foldedItems_eq] at hpart
      rcases collecting_cases (items.map (folded engine)) with ⟨values, -, hfolded⟩ | ⟨-, hfolded⟩
      · simp [hfolded, parts] at hpart
      · rw [hfolded, parts, List.getElem?_map] at hpart
        exact Option.map_eq_some_iff.mp hpart
  | operation name args =>
      rcases folded_operation_cases engine name args with
        ⟨value, hfolded⟩ | ⟨operator, hfolded⟩ | ⟨operator, hlookup, htraverse, -, hfolded⟩
      · simp [hfolded, parts] at hpart
      · simp [hfolded, parts] at hpart
      · obtain ⟨rfl, rfl⟩ : i = 0 ∧ folded engine args = part := by
          simpa [hfolded, parts, List.getElem?_singleton] using hpart
        exact ⟨args, by rw [Logic.openParts_operation hlookup htraverse]; rfl, rfl⟩

theorem node?_folded {node : Logic} {part : Compiled} {place : List Nat}
    (hplace : (folded engine node).node? place = some part) :
    ∃ found, node.openNode? engine place = some found ∧ folded engine found = part := by
  induction place generalizing node with
  | nil => exact ⟨node, rfl, Option.some.inj hplace⟩
  | cons i place ih =>
      obtain ⟨_, hpart, hrest⟩ := node?_cons.mp hplace
      obtain ⟨part', hpart', rfl⟩ := parts_folded hpart
      obtain ⟨found, hfound, hfolded⟩ := ih hrest
      exact ⟨found, Logic.openNode?_cons.mpr ⟨part', hpart', hfound⟩, hfolded⟩

/-- What does not fold to a literal keeps what it is part of from folding to one. -/
theorem parts_of_openParts {node part : Logic} {i : Nat}
    (hpart : (node.openParts engine)[i]? = some part)
    (hopen : ∀ value, folded engine part ≠ .literal value) :
    (folded engine node).parts[i]? = some (folded engine part) := by
  cases node with
  | literal value => simp [Logic.openParts] at hpart
  | sequence items =>
      have hfoldedPart : (items.map (folded engine))[i]? = some (folded engine part) := by
        rw [List.getElem?_map]
        exact congrArg _ hpart
      rw [folded, foldedItems_eq]
      rcases collecting_cases (items.map (folded engine)) with ⟨values, hvalues, -⟩ | ⟨-, hfolded⟩
      · rw [hvalues, List.getElem?_map] at hfoldedPart
        obtain ⟨value, -, hvalue⟩ := Option.map_eq_some_iff.mp hfoldedPart
        exact absurd hvalue.symm (hopen value)
      · rw [hfolded]
        exact hfoldedPart
  | operation name args =>
      obtain ⟨rfl, rfl, operator, hlookup, htraverse⟩ := Logic.openParts_of_operation hpart
      rw [folded_operation _ hlookup htraverse, calling_of_ne_literal hopen]
      rfl

theorem node?_of_openNode? {node found : Logic} {place : List Nat}
    (hfound : node.openNode? engine place = some found)
    (hopen : ∀ value, folded engine found ≠ .literal value) :
    (folded engine node).node? place = some (folded engine found) := by
  induction place generalizing node with
  | nil =>
      obtain rfl : node = found := Option.some.inj hfound
      rfl
  | cons i place ih =>
      obtain ⟨part, hpart, hrest⟩ := Logic.openNode?_cons.mp hfound
      have hbelow := ih hrest
      have hpartOpen : ∀ value, folded engine part ≠ .literal value := by
        intro value hliteral
        rw [hliteral] at hbelow
        cases place with
        | nil => exact hopen value (Option.some.inj hbelow).symm
        | cons => simp [node?, parts] at hbelow
      exact node?_cons.mpr ⟨_, parts_of_openParts hpart hpartOpen, hbelow⟩

/-- The operation that a call in a folded tree is made from. -/
theorem folded_eq_call {node raw : Logic} {name : String} {operator : Operator} {args : Compiled}
    (hfolded : folded engine node = .call name operator args raw) :
    node = .operation name raw ∧ engine.registry.lookup name = some operator ∧
      operator.traverse = true ∧ folded engine raw = args ∧
      ∀ input, args = .literal input → operator.isInlinable = true →
        engine.constant? name operator input = none := by
  cases node with
  | literal value => cases hfolded
  | sequence items =>
      rw [folded] at hfolded
      rcases collecting_cases (foldedItems engine items) with ⟨_, -, hsame⟩ | ⟨-, hsame⟩
      · cases hsame.symm.trans hfolded
      · cases hsame.symm.trans hfolded
  | operation name' args' =>
      rcases folded_operation_cases engine name' args' with
        ⟨value, hsame⟩ | ⟨operator', hsame⟩ | ⟨operator', hlookup, htraverse, hnone, hsame⟩
      · cases hsame.symm.trans hfolded
      · cases hsame.symm.trans hfolded
      · cases hsame.symm.trans hfolded
        exact ⟨rfl, hlookup, htraverse, rfl, hnone⟩

/-- No sequence in a folded tree is made of literals alone. -/
theorem folded_eq_sequence {node : Logic} {items : List Compiled}
    (hfolded : folded engine node = .sequence items) : literals? items = none := by
  cases node with
  | literal value => cases hfolded
  | sequence items' =>
      rw [folded] at hfolded
      rcases collecting_cases (foldedItems engine items') with ⟨_, -, hsame⟩ | ⟨hnone, hsame⟩
      · cases hsame.symm.trans hfolded
      · cases hsame.symm.trans hfolded
        exact hnone
  | operation name args =>
      rcases folded_operation_cases engine name args with
        ⟨_, hsame⟩ | ⟨_, hsame⟩ | ⟨_, -, -, -, hsame⟩
      · cases hsame.symm.trans hfolded
      · cases hsame.symm.trans hfolded
      · cases hsame.symm.trans hfolded

end DecisionLogic.Compiled
