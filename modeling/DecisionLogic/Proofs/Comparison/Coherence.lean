import DecisionLogic.Proofs.Comparison.Keys
import DecisionLogic.Proofs.Program.Folding

/-!
# The coherence of equality and order

Strict equality is an equivalence, loose equality contains it and is symmetric, and the order of two
values turns around with them.  Between booleans, numbers and strings loose equality is the equality
of the order, and the comparison operators ask the order about the arguments they are given.
-/

namespace DecisionLogic

theorem Number.toFloat_beq_of_same {m n : Number} (hsame : m.same n = true) :
    (m.toFloat == n.toFloat) = true := by
  cases m with
  | integer i =>
      cases n with
      | integer j =>
          have hvalue : i.val = j.val := eq_of_beq hsame
          change (i.toFloat == j.toFloat) = true
          rw [WideInt.toFloat, WideInt.toFloat, hvalue]
          exact toFloat_beq_self (.integer j)
      | double y => cases hsame
  | double x =>
      cases n with
      | integer j => cases hsame
      | double y => exact hsame

namespace Standard

variable {a b c : Json}

/-! ## Strict equality -/

theorem strictlyEqual_iff (a b : Json) : strictlyEqual a b = true ↔
    (∃ m n, a = .number m ∧ b = .number n ∧ (m.toFloat == n.toFloat) = true) ∨
      a.same b = true := by
  constructor
  · intro hequal
    unfold strictlyEqual at hequal
    split at hequal
    next m n => exact .inl ⟨m, n, rfl, rfl, hequal⟩
    next => exact .inr hequal
  · rintro (⟨m, n, rfl, rfl, hequal⟩ | hsame)
    · exact hequal
    · unfold strictlyEqual
      split
      next m n => exact Number.toFloat_beq_of_same hsame
      next => exact hsame

theorem strictlyEqual_refl (hkeys : a.DistinctKeys) : strictlyEqual a a = true :=
  (strictlyEqual_iff a a).mpr (.inr hkeys.same_self)

theorem strictlyEqual_of_strictlyEqual (hequal : strictlyEqual a b = true) :
    strictlyEqual b a = true := by
  rw [strictlyEqual_iff] at hequal ⊢
  rcases hequal with ⟨m, n, rfl, rfl, hequal⟩ | hsame
  · exact .inl ⟨n, m, rfl, rfl, BEq.symm hequal⟩
  · exact .inr (Json.same_of_same a b hsame)

theorem strictlyEqual_symm (a b : Json) : strictlyEqual a b = strictlyEqual b a :=
  Bool.eq_iff_iff.mpr ⟨strictlyEqual_of_strictlyEqual, strictlyEqual_of_strictlyEqual⟩

/-- What is the same as a number is a number that is read as an equal double. -/
theorem number_of_same {m : Number} (hsame : (Json.number m).same b = true) :
    ∃ n, b = .number n ∧ (m.toFloat == n.toFloat) = true := by
  cases Json.sameParts_of_same hsame with
  | number hsame => exact ⟨_, rfl, Number.toFloat_beq_of_same hsame⟩

theorem strictlyEqual_trans (hfirst : strictlyEqual a b = true)
    (hsecond : strictlyEqual b c = true) : strictlyEqual a c = true := by
  rw [strictlyEqual_iff] at hfirst hsecond ⊢
  rcases hfirst with ⟨m, n, rfl, rfl, hequal⟩ | hsame
  · obtain ⟨l, rfl, hequal'⟩ : ∃ l, c = .number l ∧ (n.toFloat == l.toFloat) = true := by
      rcases hsecond with ⟨_, l, hn, hl, hequal'⟩ | hsame
      · cases hn
        exact ⟨l, hl, hequal'⟩
      · exact number_of_same hsame
    exact .inl ⟨m, l, rfl, rfl, BEq.trans hequal hequal'⟩
  · rcases hsecond with ⟨n, l, rfl, rfl, hequal⟩ | hsame'
    · obtain ⟨m, rfl, hequal'⟩ := number_of_same (Json.same_of_same _ _ hsame)
      exact .inl ⟨m, l, rfl, rfl, BEq.trans (BEq.symm hequal') hequal⟩
    · exact .inr (Json.same_trans a b c hsame hsame')

/-! ## Loose equality -/

theorem sameNumber_symm (a b : Json) : sameNumber a b = sameNumber b a :=
  BEq.comm

theorem looselyEqual_of_strictlyEqual (hequal : strictlyEqual a b = true) :
    looselyEqual a b = true := by
  rcases (strictlyEqual_iff a b).mp hequal with ⟨m, n, rfl, rfl, -⟩ | hsame
  · exact hequal
  · cases Json.sameParts_of_same hsame with
    | null => rfl
    | bool | number | string | array | object => exact hequal

theorem looselyEqual_refl (hkeys : a.DistinctKeys) : looselyEqual a a = true :=
  looselyEqual_of_strictlyEqual (strictlyEqual_refl hkeys)

theorem looselyEqual_symm (a b : Json) : looselyEqual a b = looselyEqual b a := by
  have hstrict := strictlyEqual_symm a b
  have hnumber := sameNumber_symm a b
  have hreadings : (toText a == toText b || sameNumber a b) =
      (toText b == toText a || sameNumber b a) :=
    congrArg₂ or BEq.comm hnumber
  cases a with
  | null =>
      cases b with
      | null | bool | number | string | array | object => rfl
  | bool x =>
      cases b with
      | null => rfl
      | bool => exact hstrict
      | number | string | array | object => exact hnumber
  | number m =>
      cases b with
      | null => rfl
      | number => exact hstrict
      | bool | string => exact hnumber
      | array | object => exact hreadings
  | string s =>
      cases b with
      | null => rfl
      | string => exact hstrict
      | bool | number => exact hnumber
      | array | object => exact hreadings
  | array items =>
      cases b with
      | null => rfl
      | array | object => exact hstrict
      | bool => exact hnumber
      | number | string => exact hreadings
  | object fields =>
      cases b with
      | null => rfl
      | array | object => exact hstrict
      | bool => exact hnumber
      | number | string => exact hreadings

/-! ## Order -/

theorem compareNumbers_swap (x y : Float) :
    compareNumbers y x = (compareNumbers x y).map Ordering.swap := by
  rw [compareNumbers_eq, compareNumbers_eq]
  exact Double.compare_swap _ _

theorem compareNumbers_eq_iff (x y : Float) :
    compareNumbers x y = some .eq ↔ (x == y) = true := by
  rw [compareNumbers_eq, ← beq_iff_eq]
  exact Iff.rfl

theorem compareOfLessAndEq_swap (s t : String) :
    compareOfLessAndEq t s = (compareOfLessAndEq s t).swap :=
  Std.OrientedOrd.eq_swap (α := String)

theorem compare_swap (a b : Json) : compare b a = (compare a b).map Ordering.swap := by
  have hnumbers := compareNumbers_swap (toNumber a) (toNumber b)
  cases a with
  | string s =>
      cases b with
      | string t => exact congrArg some (compareOfLessAndEq_swap s t)
      | null | bool | number | array | object => exact hnumbers
  | null | bool | number | array | object =>
      cases b with
      | null | bool | number | string | array | object => exact hnumbers

/-- The two ways to ask whether booleans, numbers and strings are equal. -/
theorem looselyEqual_iff_compare (ha : Kind.of a = .bool ∨ Kind.of a = .scalar)
    (hb : Kind.of b = .bool ∨ Kind.of b = .scalar) :
    looselyEqual a b = true ↔ compare a b = some .eq := by
  have hnumbers : sameNumber a b = true ↔ compareNumbers (toNumber a) (toNumber b) = some .eq :=
    (compareNumbers_eq_iff _ _).symm
  cases a with
  | null | array | object => rcases ha with ha | ha <;> cases ha
  | bool x =>
      cases b with
      | null | array | object => rcases hb with hb | hb <;> cases hb
      | bool y =>
          refine Iff.trans ?_ hnumbers
          cases x <;> cases y <;> decide
      | number | string => exact hnumbers
  | number m =>
      cases b with
      | null | array | object => rcases hb with hb | hb <;> cases hb
      | bool | number | string => exact hnumbers
  | string s =>
      cases b with
      | null | array | object => rcases hb with hb | hb <;> cases hb
      | bool | number => exact hnumbers
      | string t =>
          change (s == t) = true ↔ some (compareOfLessAndEq s t) = some .eq
          rw [beq_iff_eq, Option.some.injEq]
          exact compare_eq_iff_eq.symm

/-! ## Operators -/

/-- Called with evaluated arguments the standard operator gives the value at once, whatever the
scope, the handle and the world are. -/
def Gives (name : String) (args : List Json) (value : Json) : Prop :=
  ∃ operator, registry.lookup name = some operator ∧ operator.traverse = true ∧
    ∀ scope handle world,
      callOperator name operator (.evaluated (.array args)) scope handle world =
        .finished (world.record ⟨name, operator.origin, .evaluated (.array args)⟩)
          (.ok (.done value))

theorem gives_of_lookup {name : String} {operator : Operator}
    {f : List Json → Except Failure Json} (hlookup : registry.lookup name = some operator)
    (htraverse : operator.traverse = true) (hbody : operator.body = .immediate (ofArguments f))
    {args : List Json} {value : Json} (hvalue : f args = .ok value) : Gives name args value := by
  refine ⟨operator, hlookup, htraverse, fun scope handle world => ?_⟩
  have hargs : (Input.evaluated (.array args)).args = args := rfl
  rw [callOperator_arguments hbody, hargs, hvalue]
  rfl

/-- The order puts the first value before the second one. -/
def precedes (a b : Json) : Bool :=
  compare a b = some .lt

/-- The order puts the first value before the second one or beside it. -/
def precedesOrEquals (a b : Json) : Bool :=
  compare a b = some .lt ∨ compare a b = some .eq

theorem ordered_isLess (a b : Json) : ordered isLess a b = precedes a b := by
  unfold ordered precedes
  cases compare a b with
  | none => rfl
  | some order => cases order <;> rfl

theorem ordered_not_isGreater (a b : Json) :
    ordered (fun order => !isGreater order) a b = precedesOrEquals a b := by
  unfold ordered precedesOrEquals
  cases compare a b with
  | none => rfl
  | some order => cases order <;> rfl

/-- What is asked about two values can be asked the other way about the values turned around. -/
theorem ordered_swap {accept accept' : Ordering → Bool}
    (hswap : ∀ order, accept' order.swap = accept order) (a b : Json) :
    ordered accept a b = ordered accept' b a := by
  unfold ordered
  rw [compare_swap a b]
  cases compare a b with
  | none => rfl
  | some order => exact (hswap order).symm

theorem ordered_isGreater (a b : Json) : ordered isGreater a b = precedes b a := by
  rw [← ordered_isLess]
  exact ordered_swap (fun order => by cases order <;> rfl) a b

theorem ordered_not_isLess (a b : Json) :
    ordered (fun order => !isLess order) a b = precedesOrEquals b a := by
  rw [← ordered_not_isGreater]
  exact ordered_swap (fun order => by cases order <;> rfl) a b

theorem gives_chain_less (args : List Json) : Gives "<" args (.bool (chain isLess args)) :=
  gives_of_lookup rfl rfl rfl rfl

theorem gives_chain_lessEqual (args : List Json) :
    Gives "<=" args (.bool (chain (fun order => !isGreater order) args)) :=
  gives_of_lookup rfl rfl rfl rfl

theorem gives_less (a b : Json) : Gives "<" [a, b] (.bool (precedes a b)) :=
  ordered_isLess a b ▸ gives_chain_less [a, b]

theorem gives_less_of_three (a b c : Json) (rest : List Json) :
    Gives "<" (a :: b :: c :: rest) (.bool (precedes a b && precedes b c)) := by
  rw [← ordered_isLess, ← ordered_isLess]
  exact gives_chain_less (a :: b :: c :: rest)

theorem gives_lessEqual (a b : Json) : Gives "<=" [a, b] (.bool (precedesOrEquals a b)) :=
  ordered_not_isGreater a b ▸ gives_chain_lessEqual [a, b]

theorem gives_lessEqual_of_three (a b c : Json) (rest : List Json) :
    Gives "<=" (a :: b :: c :: rest) (.bool (precedesOrEquals a b && precedesOrEquals b c)) := by
  rw [← ordered_not_isGreater, ← ordered_not_isGreater]
  exact gives_chain_lessEqual (a :: b :: c :: rest)

theorem gives_greater (a b : Json) : Gives ">" [a, b] (.bool (precedes b a)) :=
  ordered_isGreater a b ▸ gives_of_lookup rfl rfl rfl rfl

theorem gives_greaterEqual (a b : Json) : Gives ">=" [a, b] (.bool (precedesOrEquals b a)) :=
  ordered_not_isLess a b ▸ gives_of_lookup rfl rfl rfl rfl

/-- The laws of equality and order at three values, and at any operands that follow them. -/
structure Coherent (a b c : Json) (rest : List Json) : Prop where
  strict_refl : strictlyEqual a a = true
  strict_symm : strictlyEqual a b = strictlyEqual b a
  strict_trans : strictlyEqual a b = true → strictlyEqual b c = true → strictlyEqual a c = true
  loose_refl : looselyEqual a a = true
  loose_symm : looselyEqual a b = looselyEqual b a
  loose_of_strict : strictlyEqual a b = true → looselyEqual a b = true
  order_swap : compare b a = (compare a b).map Ordering.swap
  less_greater : Gives "<" [a, b] (.bool (precedes a b)) ∧ Gives ">" [b, a] (.bool (precedes a b))
  lessEqual_greaterEqual : Gives "<=" [a, b] (.bool (precedesOrEquals a b)) ∧
    Gives ">=" [b, a] (.bool (precedesOrEquals a b))
  loose_iff_order : (Kind.of a = .bool ∨ Kind.of a = .scalar) →
    (Kind.of b = .bool ∨ Kind.of b = .scalar) →
      (looselyEqual a b = true ↔ compare a b = some .eq)
  less_chain : Gives "<" [a, b] (.bool (precedes a b)) ∧
    Gives "<" [b, c] (.bool (precedes b c)) ∧
    Gives "<" (a :: b :: c :: rest) (.bool (precedes a b && precedes b c))
  lessEqual_chain : Gives "<=" [a, b] (.bool (precedesOrEquals a b)) ∧
    Gives "<=" [b, c] (.bool (precedesOrEquals b c)) ∧
    Gives "<=" (a :: b :: c :: rest) (.bool (precedesOrEquals a b && precedesOrEquals b c))

theorem coherent (hkeys : a.DistinctKeys) (b c : Json) (rest : List Json) :
    Coherent a b c rest where
  strict_refl := strictlyEqual_refl hkeys
  strict_symm := strictlyEqual_symm a b
  strict_trans := strictlyEqual_trans
  loose_refl := looselyEqual_refl hkeys
  loose_symm := looselyEqual_symm a b
  loose_of_strict := looselyEqual_of_strictlyEqual
  order_swap := compare_swap a b
  less_greater := ⟨gives_less a b, gives_greater b a⟩
  lessEqual_greaterEqual := ⟨gives_lessEqual a b, gives_greaterEqual b a⟩
  loose_iff_order := looselyEqual_iff_compare
  less_chain := ⟨gives_less a b, gives_less b c, gives_less_of_three a b c rest⟩
  lessEqual_chain := ⟨gives_lessEqual a b, gives_lessEqual b c, gives_lessEqual_of_three a b c rest⟩

/-- A table with a list in it, beside a text and a truth value. -/
theorem coherent_table :
    (Json.object [("on", .array [.bool true]), ("off", .null)]).DistinctKeys ∧
      Coherent (.object [("on", .array [.bool true]), ("off", .null)]) (.string "1") (.bool true)
        [.null] := by
  have hkeys : (Json.object [("on", .array [.bool true]), ("off", .null)]).DistinctKeys := by
    refine .object (by decide) ?_
    rintro _ (_ | ⟨_, _ | ⟨_, hmem⟩⟩)
    · exact .cons .empty_array (.bool true)
    · exact .null
    · cases hmem
  exact ⟨hkeys, coherent hkeys (.string "1") (.bool true) [.null]⟩

end Standard
end DecisionLogic
