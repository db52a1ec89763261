import Mathlib.Algebra.Group.Nat.Defs
import MultiDispatch.Proofs.Signature.Expansion

/-!
# Expansion by counting

An expansion goes through its combinations as a counter goes through its digits:
each position has a digit that numbers its alternatives, and the rightmost digit
is the fastest.  One step of the counter turns the digits of a number into those
of the next, whatever carries; so after as many steps as there are combinations
each has been shown once, in lexicographic order.
-/

namespace List

universe u v

/-- Where every item becomes a block of one size, the number of a place is the number
of the block and the place in the block. -/
theorem getElem?_flatMap_of_length_eq {α : Type u} {β : Type v} {block : α → List β} {size : Nat}
    (positive : 0 < size) (items : List α) (each : ∀ item ∈ items, (block item).length = size)
    (number : Nat) :
    (items.flatMap block)[number]? =
      items[number / size]?.bind fun item => (block item)[number % size]? := by
  induction items generalizing number with
  | nil => simp
  | cons first rest inductionHypothesis =>
      rw [forall_mem_cons] at each
      rw [flatMap_cons]
      by_cases inFirst : number < size
      · rw [getElem?_append_left (by rwa [each.1]), Nat.div_eq_of_lt inFirst,
          Nat.mod_eq_of_lt inFirst]
        simp
      · have beyond : size ≤ number := Nat.le_of_not_lt inFirst
        rw [getElem?_append_right (by rwa [each.1]), each.1, inductionHypothesis each.2,
          Nat.div_eq_sub_div positive beyond, Nat.mod_eq_sub_mod beyond, getElem?_cons_succ]

end List

namespace MultiDispatch

namespace Odometer

/-- The digits of a number, of which the last counts the units. -/
def digits : List Nat → Nat → List Nat
  | [], _ => []
  | radix :: radices, number => number / radices.prod % radix :: digits radices number

/-- One step: the last digit grows; a digit that reaches its radix starts again and
carries to the left.  The digits come with what is carried out of them. -/
def tick : List Nat → List Nat → List Nat × Bool
  | radix :: radices, digit :: digits =>
      match tick radices digits with
      | (digits, true) =>
          if digit + 1 < radix then ((digit + 1) :: digits, false) else (0 :: digits, true)
      | (digits, false) => (digit :: digits, false)
  | _, _ => ([], true)

theorem digits_zero (radices : List Nat) :
    digits radices 0 = List.replicate radices.length 0 := by
  induction radices with
  | nil => rfl
  | cons radix radices inductionHypothesis =>
      rw [digits, inductionHypothesis, Nat.zero_div, Nat.zero_mod, List.length_cons,
        List.replicate_succ]

/-- More than the digits can count does not show in them. -/
theorem digits_mod (radices : List Nat) (number factor : Nat) :
    digits radices (number % (factor * radices.prod)) = digits radices number := by
  induction radices generalizing factor with
  | nil => rfl
  | cons radix radices inductionHypothesis =>
      rw [digits, digits, List.prod_cons, ← Nat.mul_assoc, inductionHypothesis,
        Nat.mod_mul_left_div_self, Nat.mod_mul_left_mod]

theorem succ_mod_of_lt {number radix : Nat} (below : number % radix + 1 < radix) :
    (number + 1) % radix = number % radix + 1 := by
  rw [← Nat.mod_add_mod, Nat.mod_eq_of_lt below]

theorem succ_mod_of_not_lt {number radix : Nat} (positive : 0 < radix)
    (full : ¬number % radix + 1 < radix) : (number + 1) % radix = 0 := by
  have last : number % radix + 1 = radix := by
    have bounded := Nat.mod_lt number positive
    omega
  rw [← Nat.mod_add_mod, last, Nat.mod_self]

/-- A step turns the digits of a number into those of the next one, and carries out of
them after a whole round. -/
theorem tick_digits {radices : List Nat} (positive : ∀ radix ∈ radices, 0 < radix)
    (number : Nat) :
    tick radices (digits radices number) =
      (digits radices (number + 1), decide (radices.prod ∣ number + 1)) := by
  induction radices with
  | nil => simp [tick, digits]
  | cons radix radices inductionHypothesis =>
      rw [List.forall_mem_cons] at positive
      rw [digits, digits, tick, inductionHypothesis positive.2, List.prod_cons]
      by_cases carries : radices.prod ∣ number + 1
      · have quotient : (number + 1) / radices.prod = number / radices.prod + 1 :=
          Nat.succ_div_of_dvd carries
        have round_iff : radix * radices.prod ∣ number + 1 ↔
            (number / radices.prod + 1) % radix = 0 := by
          rw [← quotient, ← Nat.dvd_iff_mod_eq_zero, Nat.dvd_div_iff_mul_dvd carries, Nat.mul_comm]
        rw [decide_eq_true carries, quotient]
        by_cases below : number / radices.prod % radix + 1 < radix
        · have unfinished : ¬radix * radices.prod ∣ number + 1 := by
            rw [round_iff, succ_mod_of_lt below]
            exact Nat.succ_ne_zero _
          simp only [if_pos below, succ_mod_of_lt below, decide_eq_false unfinished]
        · have finished : radix * radices.prod ∣ number + 1 := by
            rw [round_iff, succ_mod_of_not_lt positive.1 below]
          simp only [if_neg below, succ_mod_of_not_lt positive.1 below, decide_eq_true finished]
      · have quotient : (number + 1) / radices.prod = number / radices.prod :=
          Nat.succ_div_of_not_dvd carries
        have unfinished : ¬radix * radices.prod ∣ number + 1 := by
          intro finished
          exact carries (Nat.dvd_trans (Nat.dvd_mul_left _ _) finished)
        rw [decide_eq_false carries, quotient]
        simp only [decide_eq_false unfinished]

end Odometer

namespace Signature

open Odometer (digits tick)

def radices (signature : Signature) : List Nat := signature.constraints.map Constraint.radix

/-- The alternatives with the numbers that the digits give, position by position. -/
def choose (signature : Signature) (digits : List Nat) : Combination where
  types := (signature.constraints.zip digits).filterMap fun (constraint, digit) =>
    constraint.member? digit

/-- Shows a combination and steps on, so many times. -/
def countFrom (signature : Signature) : Nat → List Nat → List Combination
  | 0, _ => []
  | steps + 1, digits =>
      signature.choose digits :: signature.countFrom steps (tick signature.radices digits).1

/-- However long the counter runs, what it shows are the choices of successive numbers. -/
theorem countFrom_digits {signature : Signature}
    (positive : ∀ radix ∈ signature.radices, 0 < radix) (steps number : Nat) :
    signature.countFrom steps (digits signature.radices number) =
      (List.range' number steps).map fun later =>
        signature.choose (digits signature.radices later) := by
  induction steps generalizing number with
  | zero => rfl
  | succ steps inductionHypothesis =>
      rw [countFrom, Odometer.tick_digits positive, inductionHypothesis, List.range'_succ,
        List.map_cons]

theorem min_min_mul (total factor limit : Nat) :
    min (min total limit * factor) limit = min (total * factor) limit := by
  by_cases within : total ≤ limit
  · rw [Nat.min_eq_left within]
  · have beyond : limit ≤ total := Nat.le_of_not_le within
    rw [Nat.min_eq_right beyond]
    cases factor with
    | zero => rw [Nat.mul_zero, Nat.mul_zero]
    | succ factor =>
        have notLess : limit ≤ limit * (factor + 1) :=
          Nat.le_mul_of_pos_right _ (Nat.succ_pos _)
        have notLessTotal : limit ≤ total * (factor + 1) :=
          Nat.le_trans notLess (Nat.mul_le_mul_right _ beyond)
        rw [Nat.min_eq_right notLess, Nat.min_eq_right notLessTotal]

/-- To cut a product off at every factor is to cut it off in the end. -/
theorem foldl_min_mul (constraints : List Constraint) {total limit : Nat} (within : total ≤ limit) :
    constraints.foldl (fun total constraint => min (total * constraint.radix) limit) total =
      min (total * (constraints.map Constraint.radix).prod) limit := by
  induction constraints generalizing total with
  | nil => simp [within]
  | cons constraint rest inductionHypothesis =>
      rw [List.foldl_cons, inductionHypothesis (Nat.min_le_right _ _), min_min_mul, List.map_cons,
        List.prod_cons, Nat.mul_assoc]

theorem count_eq_min (signature : Signature) :
    signature.count = min signature.radices.prod countLimit := by
  have one : 1 ≤ countLimit := by decide
  rw [count, foldl_min_mul signature.constraints one, Nat.one_mul, radices]

theorem count_pos_iff {signature : Signature} :
    0 < signature.count ↔ ∀ constraint ∈ signature.constraints, constraint.members ≠ [] := by
  have positive : 0 < countLimit := by decide
  rw [count_eq_min, Nat.lt_min, and_iff_left positive, List.prod_pos_iff_forall_pos_nat, radices,
    List.forall_mem_map]
  simp only [Constraint.radix, List.length_pos_iff]

theorem length_product (constraints : List Constraint) :
    (product constraints).length = (constraints.map Constraint.radix).prod := by
  induction constraints with
  | nil => rfl
  | cons constraint rest inductionHypothesis =>
      simp [List.length_flatMap, inductionHypothesis, Constraint.radix]

theorem length_expand (signature : Signature) :
    signature.expand.length = signature.radices.prod := by
  rw [expand, List.length_map, length_product, radices]

/-- The choice with a number is made by the digits of the number. -/
theorem getElem?_product {constraints : List Constraint} {number : Nat}
    (bounded : number < (constraints.map Constraint.radix).prod) :
    (product constraints)[number]? =
      some ((constraints.zip (digits (constraints.map Constraint.radix) number)).filterMap
        fun (constraint, digit) => constraint.member? digit) := by
  induction constraints generalizing number with
  | nil =>
      rw [List.map_nil, List.prod_nil, Nat.lt_one_iff] at bounded
      subst bounded
      rfl
  | cons constraint rest inductionHypothesis =>
      rw [List.map_cons, List.prod_cons] at bounded
      have positive : 0 < (rest.map Constraint.radix).prod := by
        apply Nat.pos_of_ne_zero
        intro none
        rw [none, Nat.mul_zero] at bounded
        exact Nat.not_lt_zero _ bounded
      have quotient : number / (rest.map Constraint.radix).prod < constraint.radix :=
        (Nat.div_lt_iff_lt_mul positive).mpr bounded
      have remainder := inductionHypothesis (Nat.mod_lt number positive)
      have sameDigits := Odometer.digits_mod (rest.map Constraint.radix) number 1
      rw [Nat.one_mul] at sameDigits
      have chosen : constraint.members[number / (rest.map Constraint.radix).prod]? =
          some constraint.members[number / (rest.map Constraint.radix).prod] :=
        List.getElem?_eq_getElem quotient
      rw [product_cons, List.getElem?_flatMap_of_length_eq positive _
        (fun _ _ => by rw [List.length_map, length_product]), List.map_cons, digits,
        Nat.mod_eq_of_lt quotient, List.zip_cons_cons, List.filterMap_cons]
      simp only [Constraint.member?, chosen, Option.bind_some, List.getElem?_map, remainder,
        sameDigits, Option.map_some]

theorem expand_eq_map_choose (signature : Signature) :
    signature.expand = (List.range signature.radices.prod).map fun number =>
      signature.choose (digits signature.radices number) := by
  apply List.ext_getElem?
  intro number
  rw [expand, List.getElem?_map, List.getElem?_map]
  by_cases bounded : number < signature.radices.prod
  · rw [getElem?_product bounded, List.getElem?_range bounded]
    rfl
  · have beyond : signature.radices.prod ≤ number := Nat.le_of_not_lt bounded
    rw [List.getElem?_eq_none (by rwa [length_product]),
      List.getElem?_eq_none (by rwa [List.length_range])]
    rfl

/-- The counter, started at zero, shows the expansion. -/
theorem expand_eq_countFrom (signature : Signature) :
    signature.expand =
      signature.countFrom signature.radices.prod
        (List.replicate signature.constraints.length 0) := by
  by_cases empty : signature.radices.prod = 0
  · rw [empty, countFrom, ← List.length_eq_zero_iff, length_expand, empty]
  · have positive := List.prod_pos_iff_forall_pos_nat.mp (Nat.pos_of_ne_zero empty)
    have start : List.replicate signature.constraints.length 0 = digits signature.radices 0 := by
      rw [Odometer.digits_zero, radices, List.length_map]
    rw [start, countFrom_digits positive, expand_eq_map_choose, List.range_eq_range']

/-- At every position stands the alternative with the digit of the position, which counts
the rounds of all positions to its right. -/
theorem getElem?_choose_digits {signature : Signature}
    (positive : ∀ radix ∈ signature.radices, 0 < radix) (number : Nat) {position : Nat}
    {constraint : Constraint} (isPosition : signature.constraints[position]? = some constraint) :
    ∃ ty, (signature.choose (digits signature.radices number)).types[position]? = some ty ∧
      constraint.member?
        (number / (signature.radices.drop (position + 1)).prod % constraint.radix) = some ty := by
  rcases signature with ⟨constraints⟩
  simp only [choose, radices] at positive ⊢
  induction constraints generalizing position with
  | nil => simp at isPosition
  | cons first rest inductionHypothesis =>
      rw [List.map_cons, List.forall_mem_cons] at positive
      have bounded : number / (rest.map Constraint.radix).prod % first.radix <
          first.members.length :=
        Nat.mod_lt _ positive.1
      have chosen := List.getElem?_eq_getElem bounded
      rw [List.map_cons, digits, List.zip_cons_cons, List.filterMap_cons]
      simp only [Constraint.member?, chosen, List.drop_succ_cons]
      cases position with
      | zero =>
          cases isPosition
          exact ⟨_, List.getElem?_cons_zero, chosen⟩
      | succ position =>
          rw [List.getElem?_cons_succ] at isPosition ⊢
          exact inductionHypothesis positive.2 isPosition

theorem pairwise_product (constraints : List Constraint) :
    (product constraints).Pairwise fun earlier later => compare earlier later = .lt := by
  induction constraints with
  | nil => simp
  | cons constraint rest inductionHypothesis =>
      rw [product_cons, List.pairwise_flatMap]
      constructor
      · intro ty _
        apply inductionHypothesis.map
        intro earlier later less
        rw [List.compare_cons_cons, Std.ReflOrd.compare_self]
        exact less
      · apply constraint.pairwise_members.imp
        intro left right less _ inLeft _ inRight
        rcases List.mem_map.mp inLeft with ⟨_, _, rfl⟩
        rcases List.mem_map.mp inRight with ⟨_, _, rfl⟩
        rw [List.compare_cons_cons, less]
        rfl

theorem pairwise_expand (signature : Signature) :
    signature.expand.Pairwise fun earlier later => compare earlier later = .lt := by
  apply (pairwise_product signature.constraints).map
  intro earlier later less
  exact less

/-- The list holds the combinations of the signature in lexicographic order, each at the
place whose digits number its alternatives. -/
structure ListsInOrder (signature : Signature) (combinations : List Combination) : Prop where
  length : combinations.length = signature.radices.prod
  increasing : combinations.Pairwise fun earlier later => compare earlier later = .lt
  distinct : combinations.Nodup
  width : ∀ combination ∈ combinations,
    combination.types.length = signature.constraints.length
  complete : ∀ combination, combination ∈ combinations ↔ combination.Instantiates signature
  /-- The digit of a position counts the rounds of the positions to its right. -/
  digits : ∀ number < signature.radices.prod, ∃ combination,
    combinations[number]? = some combination ∧
      ∀ position (constraint : Constraint), signature.constraints[position]? = some constraint →
        ∃ ty, combination.types[position]? = some ty ∧
          constraint.member? (number / (signature.radices.drop (position + 1)).prod %
            constraint.radix) = some ty

theorem listsInOrder_expand (signature : Signature) :
    signature.ListsInOrder signature.expand where
  length := signature.length_expand
  increasing := signature.pairwise_expand
  distinct := signature.nodup_expand
  width := by
    intro combination inside
    exact (mem_expand_iff.mp inside).1
  complete := fun _ => mem_expand_iff
  digits := by
    intro number bounded
    have positive := List.prod_pos_iff_forall_pos_nat.mp (Nat.zero_lt_of_lt bounded)
    refine ⟨signature.choose (digits signature.radices number), ?_, ?_⟩
    · rw [expand_eq_map_choose, List.getElem?_map, List.getElem?_range bounded, Option.map_some]
    · intro position constraint isPosition
      exact getElem?_choose_digits positive number isPosition

/-- The expansion of a signature is its ordered product, which a counter goes through in
as many steps as are counted.  Without positions there is one combination, and without
alternatives at some position there is none. -/
theorem expand_is_ordered_product {signature : Signature}
    (representable : signature.radices.prod < 2 ^ 64) :
    signature.count = signature.radices.prod ∧
      signature.ListsInOrder signature.expand ∧
      signature.expand =
        signature.countFrom signature.count (List.replicate signature.constraints.length 0) ∧
      (signature.constraints = [] → signature.expand = [⟨[]⟩]) ∧
      ((∃ constraint ∈ signature.constraints, constraint.members = []) →
        signature.expand = []) := by
  have exactCount : signature.count = signature.radices.prod := by
    rw [count_eq_min]
    apply Nat.min_eq_left
    rw [countLimit, UInt64.size]
    omega
  refine ⟨exactCount, signature.listsInOrder_expand, ?counted, ?nothing, ?impossible⟩
  case counted =>
    rw [exactCount]
    exact signature.expand_eq_countFrom
  case nothing =>
    intro none
    rw [expand, none]
    rfl
  case impossible =>
    intro empty
    rcases empty with ⟨constraint, inside, none⟩
    apply List.length_eq_zero_iff.mp
    rw [length_expand, List.prod_eq_zero_iff_exists_zero_nat]
    refine ⟨constraint.radix, List.mem_map_of_mem inside, ?_⟩
    rw [Constraint.radix, none, List.length_nil]

/-- Two alternatives, one, and three make six combinations, of which the one with number
four has the digits 1, 0 and 1; an empty union in the middle leaves none. -/
theorem expand_is_ordered_product_mixed :
    let left : Constraint := .ofTypes [.scalar .string, .scalar (.signed .w32)]
    let right : Constraint := .ofTypes [.scalar .nil, .family .object, .named "Point"]
    let mixed : Signature := ⟨[left, .single (.scalar .bool), right]⟩
    let empty : Signature := ⟨[left, .union ∅, right]⟩
    mixed.radices.prod = 6 ∧ mixed.ListsInOrder mixed.expand ∧
      mixed.expand = mixed.countFrom 6 [0, 0, 0] ∧
      mixed.expand[4]? = some ⟨[.scalar .string, .scalar .bool, .family .object]⟩ ∧
      empty.radices.prod < 2 ^ 64 ∧ empty.expand = [] := by
  intro left right mixed empty
  have size : mixed.radices.prod = 6 := by decide
  have representable : mixed.radices.prod < 2 ^ 64 := by
    rw [size]
    omega
  have emptyRepresentable : empty.radices.prod < 2 ^ 64 := by decide
  rcases expand_is_ordered_product representable with ⟨exactCount, inOrder, counted, _⟩
  rcases expand_is_ordered_product emptyRepresentable with ⟨_, _, _, _, none⟩
  rw [exactCount, size] at counted
  refine ⟨size, inOrder, counted, by decide, emptyRepresentable, none ⟨.union ∅, ?_, rfl⟩⟩
  exact List.mem_cons_of_mem _ List.mem_cons_self

end Signature

end MultiDispatch
