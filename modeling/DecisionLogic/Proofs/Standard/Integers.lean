import DecisionLogic.Proofs.Double.Integers
import DecisionLogic.Proofs.Parsing.Numerals
import DecisionLogic.Proofs.Program.Folding

/-!
# Integers as text

As a path an integer is its decimal numeral.  As text it is the same numeral if it has 63 bits or is
a double; any other one is written as the double it is rounded to.  Where the two agree, the text of
an integer is read back as the integer, and a variable named by the number is the one named by its
text.
-/

namespace DecisionLogic

/-- The integer has 63 bits, or it is a double. -/
def WideInt.IsExact (i : WideInt) : Prop :=
  i.val < 2 ^ 63 ∨ 2 ^ 11 ∣ i.val

theorem Text.toString_inj {m n : Nat} (htext : toString m = toString n) : m = n := by
  have hdigits := congrArg (fun text : String => Nat.ofDigitChars 10 text.toList 0) htext
  simpa using hdigits

namespace Standard

/-! ## The text of great integers -/

theorem wholeText?_of_parts {x : Float} {m e : Nat} (hparts : Double.parts x = ⟨false, m, e⟩)
    (hgreat : m * 2 ^ e < 1000000000000000000000) :
    wholeText? x = some (toString (m * 2 ^ e)) := by
  have hfloor : (Double.Parts.mk false m e).floor = m * 2 ^ e := by
    unfold Double.Parts.floor
    rw [if_pos (Int.natCast_nonneg e), Int.toNat_natCast, Nat.shiftLeft_eq]
  have hwhole : (Double.Parts.mk false m e).isIntegral = true := by
    simp [Double.Parts.isIntegral]
  unfold wholeText?
  dsimp only
  rw [hparts, hfloor, hwhole, if_pos (by simpa using hgreat)]
  rfl

/-- An integer that does not have 63 bits is written as the double it is rounded to. -/
theorem toText_of_parts {i : WideInt} (hgreat : 2 ^ 63 ≤ i.val) {m e : Nat}
    (hparts : Double.parts i.val.toNat.toUInt64.toFloat = ⟨false, m, e⟩)
    (hbound : m * 2 ^ e < 1000000000000000000000) :
    toText (.number (.integer i)) = toString (m * 2 ^ e) := by
  have hdouble : i.toFloat = i.val.toNat.toUInt64.toFloat := by
    unfold WideInt.toFloat
    rw [if_pos (by omega)]
  have hlarge : ¬i.val < 0x8000000000000000 := by omega
  rw [toText, numberText, if_neg hlarge, hdouble, wholeText?_of_parts hparts hbound,
    Option.getD_some]

theorem exists_text_of_great {i : WideInt} (hgreat : 2 ^ 63 ≤ i.val) :
    ∃ m e : Nat, toText (.number (.integer i)) = toString (m * 2 ^ e) ∧ 11 ≤ e ∧
      (2 ^ 11 ∣ i.val.toNat → m * 2 ^ e = i.val.toNat) := by
  have hupper := i.upper
  obtain ⟨m, e, hparts, hm, hleast, hgreatest, hexact⟩ :=
    Double.parts_toFloat (n := i.val.toNat) (by omega) (by omega)
  have hbound : m * 2 ^ e < 1000000000000000000000 := by
    have hpower : 2 ^ e ≤ 2 ^ 12 := Nat.pow_le_pow_right (by decide) hgreatest
    have hproduct : m * 2 ^ e ≤ 2 ^ 53 * 2 ^ 12 := Nat.mul_le_mul hm.le hpower
    omega
  exact ⟨m, e, toText_of_parts hgreat hparts hbound, hleast, hexact⟩

theorem toText_integer_iff (i : WideInt) :
    toText (.number (.integer i)) = toString i.val ↔ i.IsExact := by
  by_cases hsmall : i.val < 2 ^ 63
  · have htext : toText (.number (.integer i)) = toString i.val := by
      rw [toText, numberText]
      exact if_pos hsmall
    exact iff_of_true htext (.inl hsmall)
  · obtain ⟨m, e, htext, hleast, hexact⟩ := exists_text_of_great (i := i) (by omega)
    have hnatural : i.val = (i.val.toNat : Int) := by omega
    have hnumeral : toString i.val = toString i.val.toNat := by
      rw [hnatural]
      rfl
    rw [htext, hnumeral]
    constructor
    · intro hsame
      have hvalue := Text.toString_inj hsame
      right
      rw [hnatural, ← hvalue]
      exact_mod_cast (pow_dvd_pow 2 hleast).mul_left m
    · rintro (hfits | hdvd)
      · exact absurd hfits hsmall
      · rw [hexact (by omega)]

theorem concatenate_integer {i : WideInt} (hexact : i.IsExact) :
    concatenate [.number (.integer i)] = .ok (.string (toString i.val)) := by
  have htext := (toText_integer_iff i).mpr hexact
  unfold concatenate
  rw [List.map_singleton, htext]
  simp [String.join]

end Standard

/-! ## Variables named by an integer -/

/-- The variable with that number, and the one with the text of that number. -/
def WideInt.byNumber (i : WideInt) : Json :=
  .object [("var", .number (.integer i))]

def WideInt.byText (i : WideInt) : Json :=
  .object [("var", .object [("cat", .array [.number (.integer i)])])]

namespace Engine

variable {engine : Engine} {levels : Nat} {scope : Scope}

theorem literal_givesAtOnce (value : Json) :
    (engine.evaluate (levels + 1) (.literal value) scope).GivesAtOnce (.done value) :=
  .bind .checkCancelled (.pure _)

theorem singleton_givesAtOnce {item : Logic} {value : Json}
    (hitem : (engine.evaluate levels item scope).GivesAtOnce (.done value)) :
    (engine.evaluate (levels + 1) (.sequence [item]) scope).GivesAtOnce
      (.done (.array [value])) := by
  refine .bind .checkCancelled (.bind (.joinAll (.cons hitem .nil)) ?_)
  exact Evaluation.join_map_done [value] ▸ .pure _

/-- Where the arguments give a value at once, the call gives what the operator gives for it. -/
theorem evaluate_operation {name : String} {operator : Operator} {args : Logic} {value : Json}
    (hlookup : engine.registry.lookup name = some operator) (htraverse : operator.traverse = true)
    (hargs : (engine.evaluate levels args scope).GivesAtOnce (.done value)) {world : World}
    (hactive : world.cancelled = false) :
    ∃ calls, engine.evaluate (levels + 1) (.operation name args) scope world =
      callOperator name operator (.evaluated value) scope (engine.handle (engine.evaluate levels))
        { world with trace := calls ++ world.trace } := by
  obtain ⟨calls, -, hrun⟩ := hargs world hactive
  have hpassed : Computation.checkCancelled world = .finished world (.ok ()) := by
    simp [Computation.checkCancelled, hactive]
  refine ⟨calls, ?_⟩
  rw [evaluate, Computation.bind_apply, hpassed]
  simp only [Moment.andThen, hlookup, htraverse, if_true, Computation.bind_apply, hrun]

theorem givesAtOnce_operation {name : String} {operator : Operator}
    {f : List Json → Except Failure Json} {args : Logic} {value output : Json}
    (hlookup : engine.registry.lookup name = some operator) (htraverse : operator.traverse = true)
    (hbody : operator.body = .immediate (Standard.ofArguments f))
    (horigin : operator.origin = .standard)
    (hargs : (engine.evaluate levels args scope).GivesAtOnce (.done value))
    (houtput : f (Input.evaluated value).args = .ok output) :
    (engine.evaluate (levels + 1) (.operation name args) scope).GivesAtOnce (.done output) := by
  have hcall := callOperator_arguments hbody name (.evaluated value) scope
    (engine.handle (engine.evaluate levels)) (.start 0)
  rw [houtput] at hcall
  unfold evaluate
  simp only [hlookup, htraverse, if_true]
  exact .bind .checkCancelled (.bind hargs (givesAtOnce_of_call hbody horigin hcall _ _))

theorem givesAtOnce_concatenate
    (hstandard : engine.registry.lookup "cat" = Standard.registry.lookup "cat")
    {value output : Json} (houtput : Standard.concatenate [value] = .ok output) :
    (engine.evaluate (levels + 3) (.operation "cat" (.sequence [.literal value])) scope).GivesAtOnce
      (.done output) :=
  givesAtOnce_operation hstandard rfl rfl rfl (singleton_givesAtOnce (literal_givesAtOnce _))
    houtput

/-- A variable whose name is given at once is looked up in the scope by that name. -/
theorem result?_variable {args : Logic} {name : Json}
    (hstandard : engine.registry.lookup "var" = Standard.registry.lookup "var")
    (hargs : (engine.evaluate levels args scope).GivesAtOnce (.done name)) {world : World}
    (hactive : world.cancelled = false) :
    (engine.evaluate (levels + 1) (.operation "var" args) scope world).result? =
      some (((Standard.readVariable (Input.evaluated name).args scope).mapError
        (Failure.within "var")).map .done) := by
  obtain ⟨calls, hrun⟩ := evaluate_operation hstandard rfl hargs hactive
  rw [hrun, callOperator_scope (f := Standard.readVariable) rfl]
  rfl

/-- What a variable with a name that is text evaluates to. -/
def lookedUp (path : String) (scope : Scope) : Except Failure Evaluation :=
  ((Standard.readVariable [.string path] scope).mapError (Failure.within "var")).map .done

theorem result?_numberVariable
    (hstandard : engine.registry.lookup "var" = Standard.registry.lookup "var") (i : WideInt)
    {world : World} (hactive : world.cancelled = false) :
    (engine.evaluate (levels + 2) (.parse i.byNumber) scope world).result? =
      some (lookedUp (toString i.val) scope) :=
  result?_variable hstandard (literal_givesAtOnce _) hactive

theorem result?_textVariable
    (hvar : engine.registry.lookup "var" = Standard.registry.lookup "var")
    (hcat : engine.registry.lookup "cat" = Standard.registry.lookup "cat") {i : WideInt}
    (hexact : i.IsExact) {world : World} (hactive : world.cancelled = false) :
    (engine.evaluate (levels + 4) (.parse i.byText) scope world).result? =
      some (lookedUp (toString i.val) scope) :=
  result?_variable hvar (givesAtOnce_concatenate hcat (Standard.concatenate_integer hexact)) hactive

end Engine

/-! ## Exactness -/

/-- How an integer is written: its numeral as a path, and its numeral as text if it is exact.  The
text of an exact integer tells it from every other exact one, is read back as the integer, and
names the same variable as the number does. -/
structure WideInt.Written (engine : Engine) (i : WideInt) : Prop where
  path : ∀ operator, Standard.pathOf operator (.number (.integer i)) = .ok (toString i.val)
  text_iff : Standard.toText (.number (.integer i)) = toString i.val ↔ i.IsExact
  distinct : i.IsExact → ∀ j : WideInt, j.IsExact →
    Standard.toText (.number (.integer i)) = Standard.toText (.number (.integer j)) → i = j
  readBack : i.IsExact → ∃ text, Standard.concatenate [.number (.integer i)] = .ok (.string text) ∧
    ∀ levels, Json.read? levels text = some (.number (.integer i))
  resolved : i.IsExact → ∀ levels scope world, world.cancelled = false →
    (engine.evaluate (levels + 4) (.parse i.byNumber) scope world).result? =
        some (Engine.lookedUp (toString i.val) scope) ∧
      (engine.evaluate (levels + 4) (.parse i.byText) scope world).result? =
        some (Engine.lookedUp (toString i.val) scope)

theorem WideInt.written {engine : Engine}
    (hvar : engine.registry.lookup "var" = Standard.registry.lookup "var")
    (hcat : engine.registry.lookup "cat" = Standard.registry.lookup "cat") (i : WideInt) :
    i.Written engine where
  path := fun _ => rfl
  text_iff := Standard.toText_integer_iff i
  distinct := by
    intro hexact j hexact' htext
    rw [(Standard.toText_integer_iff i).mpr hexact,
      (Standard.toText_integer_iff j).mpr hexact'] at htext
    exact Json.toString_injective htext
  readBack := fun hexact =>
    ⟨toString i.val, Standard.concatenate_integer hexact,
      fun levels => Json.read?_toString levels i⟩
  resolved := fun hexact _ _ _ hactive =>
    ⟨Engine.result?_numberVariable hvar i hactive,
      Engine.result?_textVariable hvar hcat hexact hactive⟩

def standardEngine : Engine :=
  { registry := Standard.registry, options := {} }

/-- The integer after `2 ^ 63` that is a double, too. -/
theorem written_double :
    (⟨9223372036854777856, by decide, by decide⟩ : WideInt).IsExact ∧
      (⟨9223372036854777856, by decide, by decide⟩ : WideInt).Written standardEngine :=
  ⟨.inr (by decide), WideInt.written rfl rfl _⟩

/-- The integer right after `2 ^ 63`, which is no double. -/
def unroundable : WideInt :=
  ⟨9223372036854775809, by decide, by decide⟩

theorem toText_unroundable :
    Standard.toText (.number (.integer unroundable)) = "9223372036854775808" :=
  Standard.toText_of_parts (m := 0x10000000000000) (e := 11) (by decide) (by decide +kernel)
    (by decide)

/-- A scope with a field for the integer. -/
def numbered : Scope :=
  .ofData (.object [("9223372036854775809", .bool true)])

/-- An integer that is written as another one.  The variable with its number is found and the one
with its text is not. -/
theorem unroundable_rounded :
    toString unroundable.val = "9223372036854775809" ∧
      Standard.toText (.number (.integer unroundable)) = "9223372036854775808" ∧
      Standard.toText (.number (.integer ⟨9223372036854775808, by decide, by decide⟩)) =
        "9223372036854775808" ∧
      (standardEngine.evaluate 4 (.parse unroundable.byNumber) numbered (.start 0)).result? =
        some (.ok (.done (.bool true))) ∧
      (standardEngine.evaluate 4 (.parse unroundable.byText) numbered (.start 0)).result? =
        some (.ok (.done .null)) := by
  have hconcatenate : Standard.concatenate [.number (.integer unroundable)] =
      .ok (.string "9223372036854775808") := by
    unfold Standard.concatenate
    rw [List.map_singleton, toText_unroundable]
    rfl
  have hfound : Engine.lookedUp (toString unroundable.val) numbered = .ok (.done (.bool true)) := by
    cbv
  have hmissed : Engine.lookedUp "9223372036854775808" numbered = .ok (.done .null) := by
    cbv
  refine ⟨rfl, toText_unroundable, ?_, ?_, ?_⟩
  · exact Standard.toText_of_parts (m := 0x10000000000000) (e := 11) (by decide)
      (by decide +kernel) (by decide)
  · rw [Engine.result?_numberVariable rfl unroundable rfl, hfound]
  · have hvar : standardEngine.registry.lookup "var" = Standard.registry.lookup "var" := rfl
    have hcat : standardEngine.registry.lookup "cat" = Standard.registry.lookup "cat" := rfl
    rw [← hmissed]
    exact Engine.result?_variable hvar (Engine.givesAtOnce_concatenate hcat hconcatenate) rfl

end DecisionLogic
