import Mathlib.Algebra.Group.Nat.Defs
import MultiDispatch.Proofs.Decoding
import MultiDispatch.Value.Numeric

/-!
# Integer views

A family takes a value by its type, and the views of 128 bits show what the value
carries.  The two go together on scalars: every integer that a view can hold is shown
exactly, and it is absent only when it is too large or no integer at all.  An object
carries nothing, but one that goes by the name of a number is taken like a number.
-/

namespace MultiDispatch

theorem IntWidth.bits_le (width : IntWidth) : width.bits ≤ 128 := by
  cases width <;> decide

namespace Value

/-- The value is a word of an integer type, and the word stands for the integer. -/
inductive Carries : Value → Int → Prop where
  | signed (width : IntWidth) (word : BitVec width.bits) :
      Carries (.scalar (.signed width) word) word.toInt
  | unsigned (width : IntWidth) (word : BitVec width.bits) :
      Carries (.scalar (.unsigned width) word) word.toNat

theorem carries_iff {value : Value} {integer : Int} :
    value.Carries integer ↔ value.integer? = some integer := by
  constructor
  · intro carries
    cases carries <;> rfl
  · intro carried
    unfold integer? at carried
    split at carried
    · cases carried
      exact .signed _ _
    · cases carried
      exact .unsigned _ _
    · cases carried

/-- An unsigned integer above the largest signed one of 128 bits. -/
def IsOversized (value : Value) : Prop :=
  ∃ width word, value = .scalar (.unsigned width) word ∧ 2 ^ 127 ≤ word.toNat

def IsFloat (value : Value) : Prop := ∃ width word, value = .scalar (.float width) word

section

variable (object : Object)

theorem not_carries_object (integer : Int) : ¬(Value.object object).Carries integer := by
  intro carries
  cases carries

theorem not_isOversized_object : ¬(Value.object object).IsOversized := by
  intro isOversized
  rcases isOversized with ⟨_, _, same, _⟩
  cases same

theorem not_isFloat_object : ¬(Value.object object).IsFloat := by
  intro isFloat
  rcases isFloat with ⟨_, _, same⟩
  cases same

end

section

variable {value : Value} {integer : Int}

/-- Where there is a signed word, it is exact. -/
theorem signed128?_eq_some_iff {word : BitVec 128} :
    value.signed128? = some word ↔ value.Carries word.toInt := by
  rw [carries_iff, signed128?, Option.bind_eq_some_iff]
  constructor
  · intro shown
    rcases shown with ⟨integer, carried, fits⟩
    rcases Option.ite_none_right_eq_some.mp fits with ⟨exact, isWord⟩
    cases isWord
    rw [carried, exact]
  · intro carried
    refine ⟨word.toInt, carried, ?_⟩
    simp

theorem signed128?_signed (width : IntWidth) (word : BitVec width.bits) :
    (Value.scalar (.signed width) word).signed128? = some (word.signExtend 128) := by
  rw [signed128?_eq_some_iff, BitVec.toInt_signExtend_of_le width.bits_le]
  exact .signed width word

theorem signed128?_unsigned_eq_none_iff {width : IntWidth} {word : BitVec width.bits} :
    (Value.scalar (.unsigned width) word).signed128? = none ↔ 2 ^ 127 ≤ word.toNat := by
  constructor
  · intro absent
    by_contra fits
    have exact : (BitVec.ofInt 128 word.toNat).toInt = word.toNat := by
      apply BitVec.toInt_ofInt_eq_self <;> omega
    have shown : (Value.scalar (.unsigned width) word).signed128? =
        some (.ofInt 128 word.toNat) := by
      rw [signed128?_eq_some_iff, exact]
      exact .unsigned width word
    rw [absent] at shown
    cases shown
  · intro oversized
    rw [Option.eq_none_iff_forall_ne_some]
    intro shown isShown
    rw [signed128?_eq_some_iff, carries_iff] at isShown
    have same : (word.toNat : Int) = shown.toInt := Option.some.inj isShown
    have bound : shown.toInt < 2 ^ 127 := BitVec.toInt_lt
    omega

theorem signed128?_eq_none_iff_isOversized (carries : value.Carries integer) :
    value.signed128? = none ↔ value.IsOversized := by
  cases carries with
  | signed width word =>
      simp [signed128?_signed, IsOversized]
  | unsigned width word =>
      rw [signed128?_unsigned_eq_none_iff]
      constructor
      · intro oversized
        exact ⟨width, word, rfl, oversized⟩
      · intro oversized
        rcases oversized with ⟨_, _, same, oversized⟩
        cases same
        exact oversized

theorem toInt_signed128_signed (width : IntWidth) (word : BitVec width.bits) :
    (Value.scalar (.signed width) word).signed128.toInt = word.toInt := by
  rw [signed128, signed128?_signed]
  exact BitVec.toInt_signExtend_of_le width.bits_le

theorem toNat_unsigned128_unsigned (width : IntWidth) (word : BitVec width.bits) :
    (Value.scalar (.unsigned width) word).unsigned128.toNat = word.toNat := by
  have fits : word.toNat < 2 ^ 128 :=
    calc
      word.toNat < 2 ^ width.bits := word.isLt
      _ ≤ 2 ^ 128 := Nat.pow_le_pow_right Nat.two_pos width.bits_le
  exact Nat.mod_eq_of_lt fits

end

/-- An object that stands where the family takes its values, by its declared name. -/
def PassesFor (family : Family) : Value → Prop
  | .scalar _ _ => False
  | .object o => family.Takes o.type.ty

instance (family : Family) : DecidablePred (PassesFor family)
  | .scalar _ _ => isFalse id
  | .object o => inferInstanceAs (Decidable (family.Takes o.type.ty))

end Value

namespace Family

/-- The families whose parameters have integer views. -/
def withIntegerViews : List Family := [.signedInt, .unsignedInt, .int, .number]

/-- What the views are to show of a value that the family takes. -/
def ViewsExact : Family → Value → Prop
  | .signedInt, value => value.Carries value.signed128.toInt
  | .unsignedInt, value => value.Carries value.unsigned128.toNat
  | .int, value => ∃ integer, value.Carries integer ∧
      (value.signed128? = none ↔ value.IsOversized) ∧
      ∀ word, value.signed128? = some word → word.toInt = integer
  | .number, value =>
      (value.signed128? = none ↔ value.IsFloat ∨ value.IsOversized) ∧
      ∀ word, value.signed128? = some word → value.Carries word.toInt
  | .float, _ | .object, _ => True

variable {family : Family} {value : Value}

/-- Both optional views are exact wherever an integer is carried. -/
theorem viewsExact_of_carries {integer : Int} (carries : value.Carries integer) :
    Family.int.ViewsExact value ∧ Family.number.ViewsExact value := by
  have absent := Value.signed128?_eq_none_iff_isOversized carries
  constructor
  · refine ⟨integer, carries, absent, ?_⟩
    intro word shown
    rw [Value.signed128?_eq_some_iff, Value.carries_iff] at shown
    rw [Value.carries_iff, shown] at carries
    exact Option.some.inj carries
  · constructor
    · rw [absent, iff_or_self]
      intro isFloat
      rcases isFloat with ⟨_, _, rfl⟩
      cases carries
    · intro word shown
      exact Value.signed128?_eq_some_iff.mp shown

theorem viewsExact_of_takes (viewed : family ∈ withIntegerViews) {s : Scalar} {data : s.Data}
    (takes : family.Takes (.scalar s)) : family.ViewsExact (.scalar s data) := by
  have encloses : family ∈ s.enclosing := by
    simpa [Ty.Accepts, Ty.enclosing] using takes_scalar_iff.mp takes
  cases s with
  | signed width =>
      have exact := viewsExact_of_carries (.signed width data)
      cases family with
      | signedInt =>
          rw [ViewsExact, Value.toInt_signed128_signed]
          exact .signed width data
      | int => exact exact.1
      | number => exact exact.2
      | unsignedInt => simp [Scalar.enclosing] at encloses
      | float | object => trivial
  | unsigned width =>
      have exact := viewsExact_of_carries (.unsigned width data)
      cases family with
      | unsignedInt =>
          rw [ViewsExact, Value.toNat_unsigned128_unsigned]
          exact .unsigned width data
      | int => exact exact.1
      | number => exact exact.2
      | signedInt => simp [Scalar.enclosing] at encloses
      | float | object => trivial
  | float width =>
      cases family with
      | number =>
          refine ⟨iff_of_true rfl (.inl ⟨width, data, rfl⟩), ?_⟩
          intro word shown
          cases shown
      | signedInt | unsignedInt | int => simp [Scalar.enclosing] at encloses
      | float | object => trivial
  | nil | bool | char | string | symbol =>
      rw [List.mem_singleton.mp encloses] at viewed
      simp [withIntegerViews] at viewed

/-- No view shows anything of an object. -/
theorem not_viewsExact_object (viewed : family ∈ withIntegerViews) (object : Object) :
    ¬family.ViewsExact (.object object) := by
  intro exact
  cases family with
  | signedInt | unsignedInt => exact Value.not_carries_object _ _ exact
  | int =>
      rcases exact with ⟨_, carries, _⟩
      exact Value.not_carries_object _ _ carries
  | number =>
      rcases exact.1.mp rfl with isFloat | isOversized
      · exact Value.not_isFloat_object _ isFloat
      · exact Value.not_isOversized_object _ isOversized
  | float | object => simp [withIntegerViews] at viewed

/-- The views of every value that a family takes are exact, but for the objects that it
takes by their names. -/
theorem views_exact_iff_not_passesFor (viewed : family ∈ withIntegerViews) (value : Value) :
    (∀ taken, (ParamType.family family).decode value = some taken → family.ViewsExact taken) ↔
      ¬value.PassesFor family := by
  simp only [ParamType.decode, Option.ite_none_right_eq_some, Option.some.injEq, and_imp]
  cases value with
  | scalar s data =>
      refine iff_of_true ?_ id
      intro taken takes same
      cases same
      exact viewsExact_of_takes viewed takes
  | object o =>
      constructor
      · intro exact passes
        exact not_viewsExact_object viewed o (exact _ passes rfl)
      · intro notPassing taken takes
        exact absurd takes notPassing

/-- The largest unsigned integer has no signed view, and an object has none either. -/
theorem views_exact_iff_not_passesFor_largest :
    let largest : Value := .scalar (.unsigned .w128) (BitVec.allOnes 128)
    let counter : Value := .object ⟨⟨0, "U Int8"⟩, 0⟩
    int ∈ withIntegerViews ∧
      (ParamType.family int).decode largest = some largest ∧ int.ViewsExact largest ∧
      (ParamType.family int).decode counter = some counter ∧ ¬int.ViewsExact counter := by
  intro largest counter
  have viewed : int ∈ withIntegerViews := by decide
  have decodes : (ParamType.family int).decode counter = some counter := rfl
  refine ⟨viewed, rfl, ?_, decodes, ?_⟩
  · exact (views_exact_iff_not_passesFor viewed largest).mpr id largest rfl
  · intro exact
    apply (views_exact_iff_not_passesFor viewed counter).mp
    · intro taken takes
      rw [decodes] at takes
      cases takes
      exact exact
    · decide

/-- The families of integers take an object that goes by the name of an integer type, which
carries no integer: its views are zero or absent. -/
theorem views_of_disguised_object :
    let disguised : Value := .object ⟨⟨0, "Int32"⟩, 0⟩
    (∀ family ∈ [signedInt, int, number],
      (ParamType.family family).decode disguised = some disguised) ∧
      (∀ integer, ¬disguised.Carries integer) ∧ ¬disguised.IsFloat ∧ ¬disguised.IsOversized ∧
      disguised.signed128 = 0 ∧ disguised.signed128? = none := by
  intro disguised
  refine ⟨?_, Value.not_carries_object _, Value.not_isFloat_object _,
    Value.not_isOversized_object _, rfl, rfl⟩
  intro family inside
  have takes : family.Takes disguised.ty := by
    revert family
    decide
  exact if_pos takes

end Family

end MultiDispatch
