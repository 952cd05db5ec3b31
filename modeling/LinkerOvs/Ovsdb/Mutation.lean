/-
The mutations of integer columns (`ovsdb/mutation.c`): the five arithmetic mutators on 64-bit integers with their
overflow tests, the loop over the elements of a column and the checks after it. Sums, differences and quotients are
exact or refused; the test for products is right only for operands of different signs.
-/
import LinkerOvs.Lib.SignedWord

namespace LinkerOvs.Ovsdb

open List hiding set
open Except (ok_bind bind_eq_ok)

open SignedWord (Word Fits intMin intMax toInt_intMin toInt_intMax fits_toInt toInt_ofInt checked_ok checked_error
  toInt_eq_zero_iff fits_tdiv_iff div_ok toInt_xor_neg_iff toInt_not_neg_iff toInt_and_neg_iff toInt_xor_and_intMin
  sshiftRight_eq_zero_iff)

/-! ## The mutators -/

/-- The mutators of `enum ovsdb_mutator` for numbers. -/
inductive Mutator
  | add
  | sub
  | mul
  | div
  | mod
deriving DecidableEq

/-- `enum ovsdb_mutation_scalar_error`, without `ME_OK`. -/
inductive ScalarError
  | dom
  | range
deriving DecidableEq

/-- What a mutator does to one integer: a new value or an error, unless the machine stops it. -/
abbrev IntResult := Except SignedWord.Fault (Except ScalarError Word)

variable (x y : Word) (mutator : Mutator)

def addInt : IntResult := do
  let z := ~~~(x ^^^ y) &&& intMin
  let sum ← SignedWord.add (x ^^^ z) y
  if (~~~(x ^^^ y) &&& ~~~(sum ^^^ y)).sshiftRight 63 ≠ 0 then .ok (.error .range)
  else do
    let x ← SignedWord.add x y
    .ok (.ok x)

def subInt : IntResult := do
  let z := (x ^^^ y) &&& intMin
  let difference ← SignedWord.sub (x ^^^ z) y
  if ((x ^^^ y) &&& (difference ^^^ y)).sshiftRight 63 ≠ 0 then .ok (.error .range)
  else do
    let x ← SignedWord.sub x y
    .ok (.ok x)

/-- The test of `mul_int`. -/
def mulOverflows : Except SignedWord.Fault Bool :=
  if 0 < x.toInt then
    if 0 < y.toInt then do
      let q ← SignedWord.div intMax y
      .ok (q.toInt ≤ x.toInt)
    else do
      let q ← SignedWord.div intMin x
      .ok (y.toInt < q.toInt)
  else if 0 < y.toInt then do
    let q ← SignedWord.div intMin y
    .ok (x.toInt < q.toInt)
  else if x = 0 then .ok false
  else do
    let q ← SignedWord.div intMax y
    .ok (y.toInt < q.toInt)

def mulInt : IntResult := do
  let overflows ← mulOverflows x y
  if overflows then .ok (.error .range)
  else do
    let x ← SignedWord.mul x y
    .ok (.ok x)

def checkIntDiv : Option ScalarError :=
  if y = 0 then some .dom else if x.toInt = SignedWord.min ∧ y.toInt = -1 then some .range else none

def divInt : IntResult :=
  match checkIntDiv x y with
  | some e => .ok (.error e)
  | none => do
    let x ← SignedWord.div x y
    .ok (.ok x)

def modInt : IntResult :=
  match checkIntDiv x y with
  | some e => .ok (.error e)
  | none => do
    let x ← SignedWord.mod x y
    .ok (.ok x)

def Mutator.run : Mutator → Word → Word → IntResult
  | .add => addInt
  | .sub => subInt
  | .mul => mulInt
  | .div => divInt
  | .mod => modInt

/-! ## Mutations of a column -/

structure IntConstraints where
  enum : Option (List Word)
  min : Word
  max : Word

inductive MutationError
  | scalar (e : ScalarError) (mutator : Mutator)
  | constraintViolation (x : Word)
  | duplicates (mutator : Mutator)

/-- `ovsdb_atom_check_constraints` for an integer. -/
def ovsdbAtomCheckConstraints (base : IntConstraints) (x : Word) : Bool :=
  match base.enum with
  | some values => x ∈ values
  | none => base.min.toInt ≤ x.toInt ∧ x.toInt ≤ base.max.toInt

/-- The loop of `mutate_scalar`. -/
def mutateElements (mutator : Mutator) (y : Word) : List Word → Except SignedWord.Fault (Except ScalarError (List Word))
  | [] => .ok (.ok [])
  | x :: xs => do
    match ← mutator.run x y with
    | .error e => .ok (.error e)
    | .ok z =>
      match ← mutateElements mutator y xs with
      | .error e => .ok (.error e)
      | .ok zs => .ok (.ok (z :: zs))

/-- The checks of `mutate_scalar` after its loop, and the elements in order. -/
def finishScalar (base : IntConstraints) (mutator : Mutator) (xs : List Word) : Except MutationError (List Word) :=
  match xs.find? fun x => !ovsdbAtomCheckConstraints base x with
  | some x => .error (.constraintViolation x)
  | none =>
    if xs.Nodup then .ok (xs.insertionSort fun x y => x.toInt ≤ y.toInt) else .error (.duplicates mutator)

/-- `mutate_scalar` for an integer column. -/
def mutateScalar (base : IntConstraints) (mutator : Mutator) (y : Word) (xs : List Word) :
    Except SignedWord.Fault (Except MutationError (List Word)) := do
  match ← mutateElements mutator y xs with
  | .error e => .ok (.error (.scalar e mutator))
  | .ok zs => .ok (finishScalar base mutator zs)

/-- `struct ovsdb_mutation` for an integer column and one of the arithmetic mutators. -/
structure IntMutation where
  column : Nat
  base : IntConstraints
  mutator : Mutator
  arg : Word

/-- `ovsdb_mutation_set_execute` on the integer columns of a row. -/
def ovsdbMutationSetExecute : (Nat → List Word) → List IntMutation →
    Except SignedWord.Fault (Except MutationError (Nat → List Word))
  | fields, [] => .ok (.ok fields)
  | fields, m :: set => do
    match ← mutateScalar m.base m.mutator m.arg (fields m.column) with
    | .error e => .ok (.error e)
    | .ok xs => ovsdbMutationSetExecute (Function.update fields m.column xs) set

/-! ## Exact results -/

def Mutator.exact : Mutator → Int → Int → Int
  | .add, x, y => x + y
  | .sub, x, y => x - y
  | .mul, x, y => x * y
  | .div, x, y => x.tdiv y
  | .mod, x, y => x.tmod y

def Mutator.Divides : Prop := mutator = .div ∨ mutator = .mod

/-- There is a result, and it is a 64-bit integer. -/
def Mutator.HasResult (x y : Int) : Prop :=
  ¬ (mutator.Divides ∧ y = 0) ∧ Fits (mutator.exact x y)

/-- A value is found for operands that have a result, and an error for those that have none. -/
def Mutator.Right (x y : Int) : Prop :=
  match mutator with
  | .mul => ¬ (0 < x ∧ 0 < y ∧ x = SignedWord.max / y) ∧ ¬ (x < 0 ∧ y = 0) ∧
      (x < 0 → y < 0 → (SignedWord.max < y * y ↔ SignedWord.max < x * y))
  | .mod => ¬ (x = SignedWord.min ∧ y = -1)
  | _ => True

/-- An error although there is a result. -/
def Mutator.WronglyRefused (x y : Int) : Prop :=
  match mutator with
  | .mul => 0 < x ∧ 0 < y ∧ x = SignedWord.max / y ∨ x < 0 ∧ y < 0 ∧ SignedWord.max < y * y ∧ x * y ≤ SignedWord.max
  | .mod => x = SignedWord.min ∧ y = -1
  | _ => False

/-! ## One element -/

/-- A result is computed if a test on a number that is always in range tells that it is in range. -/
theorem guarded_eq (test : Word → Word) {v z : Int} (hv : Fits v)
    (htest : ∀ r : Word, r.toInt = v → ((test r).toInt < 0 ↔ ¬ Fits z)) :
    (do let r ← SignedWord.checked v
        if (test r).sshiftRight 63 ≠ 0 then .ok (.error .range) else do
          let x ← SignedWord.checked z
          .ok (.ok x) : IntResult) =
      .ok (if Fits z then .ok (BitVec.ofInt 64 z) else .error .range) := by
  have hiff := htest _ (toInt_ofInt hv)
  rw [checked_ok hv, ok_bind]
  by_cases hz : Fits z
  · rw [if_neg fun h => hiff.1 (not_le.1 (mt (sshiftRight_eq_zero_iff _).2 h)) hz, if_pos hz, checked_ok hz, ok_bind]
  · rw [if_pos fun h => (hiff.2 hz).not_ge ((sshiftRight_eq_zero_iff _).1 h), if_neg hz]

theorem addInt_eq : addInt x y =
    .ok (if Fits (x.toInt + y.toInt) then .ok (BitVec.ofInt 64 (x.toInt + y.toInt)) else .error .range) := by
  have hx := fits_toInt x
  have hy := fits_toInt y
  -- with the sign of `x` turned over where it is that of `y`, the sum is in range
  refine guarded_eq (fun sum => ~~~(x ^^^ y) &&& ~~~(sum ^^^ y)) ?_ fun sum hsum => ?_
  · simp only [toInt_xor_and_intMin, toInt_not_neg_iff, toInt_xor_neg_iff, Fits, SignedWord.min, SignedWord.max] at *
    split_ifs <;> omega
  · rw [toInt_and_neg_iff, toInt_not_neg_iff, toInt_not_neg_iff, toInt_xor_neg_iff, toInt_xor_neg_iff, hsum]
    simp only [toInt_xor_and_intMin, toInt_not_neg_iff, toInt_xor_neg_iff, Fits, SignedWord.min, SignedWord.max] at *
    split_ifs <;> omega

theorem subInt_eq : subInt x y =
    .ok (if Fits (x.toInt - y.toInt) then .ok (BitVec.ofInt 64 (x.toInt - y.toInt)) else .error .range) := by
  have hx := fits_toInt x
  have hy := fits_toInt y
  -- with the sign of `x` turned over where it is not that of `y`, the difference is in range
  refine guarded_eq (fun difference => (x ^^^ y) &&& (difference ^^^ y)) ?_ fun difference hdifference => ?_
  · simp only [toInt_xor_and_intMin, toInt_xor_neg_iff, Fits, SignedWord.min, SignedWord.max] at *
    split_ifs <;> omega
  · rw [toInt_and_neg_iff, toInt_xor_neg_iff, toInt_xor_neg_iff, hdifference]
    simp only [toInt_xor_and_intMin, toInt_xor_neg_iff, Fits, SignedWord.min, SignedWord.max] at *
    split_ifs <;> omega

variable {y : Int} {m : IntMutation} {fields : Nat → List Word}

theorem lt_min_tdiv_iff {a : Int} (ha : 0 < a) : y < SignedWord.min.tdiv a ↔ a * y < SignedWord.min := by
  rw [show SignedWord.min = -(2 ^ 63) from rfl, Int.neg_tdiv, Int.tdiv_eq_ediv_of_nonneg (by decide), lt_neg,
    Int.ediv_lt_iff_lt_mul ha, Int.neg_mul, lt_neg, mul_comm]

theorem lt_max_tdiv_iff (hy : y < 0) : y < SignedWord.max.tdiv y ↔ SignedWord.max < y * y := by
  have hneg : SignedWord.max.tdiv y = -(SignedWord.max / -y) := by
    rw [← Int.tdiv_eq_ediv_of_nonneg (show 0 ≤ SignedWord.max by decide), Int.tdiv_neg, neg_neg]
  rw [hneg, lt_neg, Int.ediv_lt_iff_lt_mul (by omega), Int.neg_mul_neg]

/-- The products that `mul_int` takes for too large. -/
def MulRefused (x y : Int) : Prop :=
  0 < x ∧ 0 < y ∧ SignedWord.max / y ≤ x ∨ ¬ (0 < x ∧ 0 < y) ∧ x * y < SignedWord.min ∨
    x < 0 ∧ y < 0 ∧ SignedWord.max < y * y

instance (x y : Int) : Decidable (MulRefused x y) := inferInstanceAs (Decidable (_ ∨ _))

theorem mulRefused_of_pos {x : Int} (hx : 0 < x) (hy : 0 < y) : MulRefused x y ↔ SignedWord.max / y ≤ x := by
  refine ⟨?_, fun h => .inl ⟨hx, hy, h⟩⟩
  rintro (⟨_, _, h⟩ | ⟨h, _⟩ | ⟨h, _⟩)
  · exact h
  · exact absurd ⟨hx, hy⟩ h
  · omega

theorem mulRefused_of_neg {x : Int} (hx : x < 0) (hy : y < 0) : MulRefused x y ↔ SignedWord.max < y * y := by
  have hprod := mul_pos_of_neg_of_neg hx hy
  have hmin : SignedWord.min < 0 := by decide
  refine ⟨?_, fun h => .inr (.inr ⟨hx, hy, h⟩)⟩
  rintro (⟨h, _⟩ | ⟨_, h⟩ | ⟨_, _, h⟩)
  · omega
  · omega
  · exact h

theorem mulRefused_of_mixed {x : Int} (hpos : ¬ (0 < x ∧ 0 < y)) (hneg : ¬ (x < 0 ∧ y < 0)) :
    MulRefused x y ↔ x * y < SignedWord.min := by
  refine ⟨?_, fun h => .inr (.inl ⟨hpos, h⟩)⟩
  rintro (⟨hx, hy, _⟩ | ⟨_, h⟩ | ⟨hx, hy, _⟩)
  · exact absurd ⟨hx, hy⟩ hpos
  · exact h
  · exact absurd ⟨hx, hy⟩ hneg

theorem mulOverflows_eq {x y : Word} (h : ¬ (x.toInt < 0 ∧ y.toInt = 0)) :
    mulOverflows x y = .ok (decide (MulRefused x.toInt y.toInt)) := by
  have hdiv : ∀ {a b : Word}, b.toInt ≠ 0 → ¬ (a.toInt = SignedWord.min ∧ b.toInt = -1) → ∃ q,
      SignedWord.div a b = .ok q ∧ q.toInt = a.toInt.tdiv b.toInt := by
    intro a b hb hmin
    have hfits := (fits_tdiv_iff a b).2 hmin
    exact ⟨_, div_ok (fun h => hb ((toInt_eq_zero_iff b).2 h)) hfits, toInt_ofInt hfits⟩
  have hmax : ¬ (intMax.toInt = SignedWord.min ∧ y.toInt = -1) := fun hc => absurd hc.1 (by decide)
  rw [mulOverflows]
  by_cases hx : 0 < x.toInt
  · rw [if_pos hx]
    by_cases hy : 0 < y.toInt
    · obtain ⟨q, hq, hval⟩ := hdiv (show y.toInt ≠ 0 by omega) hmax
      rw [toInt_intMax, Int.tdiv_eq_ediv_of_nonneg (by decide)] at hval
      rw [if_pos hy, hq, ok_bind, hval]
      simp only [mulRefused_of_pos hx hy]
    · obtain ⟨q, hq, hval⟩ := hdiv (a := intMin) (show x.toInt ≠ 0 by omega) (by omega)
      rw [toInt_intMin] at hval
      have hneg : ¬ (x.toInt < 0 ∧ y.toInt < 0) := by omega
      rw [if_neg hy, hq, ok_bind, hval]
      simp only [lt_min_tdiv_iff hx, mulRefused_of_mixed (fun hc => hy hc.2) hneg]
  · rw [if_neg hx]
    by_cases hy : 0 < y.toInt
    · obtain ⟨q, hq, hval⟩ := hdiv (a := intMin) (show y.toInt ≠ 0 by omega) (by omega)
      rw [toInt_intMin] at hval
      have hneg : ¬ (x.toInt < 0 ∧ y.toInt < 0) := by omega
      rw [if_pos hy, hq, ok_bind, hval]
      simp only [lt_min_tdiv_iff hy, mul_comm y.toInt, mulRefused_of_mixed (fun hc => hx hc.1) hneg]
    rw [if_neg hy]
    by_cases hzero : x = 0
    · rw [hzero]
      refine congrArg Except.ok (decide_eq_false ?_).symm
      rw [mulRefused_of_mixed (fun hc => absurd hc.1 (by decide)) (fun hc => absurd hc.1 (by decide))]
      simp [SignedWord.min]
    have hne : x.toInt ≠ 0 := fun hc => hzero ((toInt_eq_zero_iff x).1 hc)
    have hyneg : y.toInt < 0 := by omega
    obtain ⟨q, hq, hval⟩ := hdiv (show y.toInt ≠ 0 by omega) hmax
    rw [toInt_intMax] at hval
    rw [if_neg hzero, hq, ok_bind, hval]
    simp only [lt_max_tdiv_iff hyneg, mulRefused_of_neg (show x.toInt < 0 by omega) hyneg]

/-- A negative number times zero divides by zero. -/
theorem mulOverflows_zero {x y : Word} (hx : x.toInt < 0) (hy : y.toInt = 0) :
    mulOverflows x y = .error .divByZero := by
  have hzero : x ≠ 0 := by
    rintro rfl
    exact absurd hx (by decide)
  rw [mulOverflows, if_neg (by omega), if_neg (by omega), if_neg hzero, SignedWord.div,
    if_pos ((toInt_eq_zero_iff y).1 hy)]
  rfl

/-- How a mutator deals with an element: a result is found, refused for a reason, refused without one, or the machine
stops it. -/
inductive Mutator.Outcome (m : Mutator) (x y : Word) : Prop
  | found : m.Right x.toInt y.toInt → m.HasResult x.toInt y.toInt →
      m.run x y = .ok (.ok (BitVec.ofInt 64 (m.exact x.toInt y.toInt))) → Outcome m x y
  | refused (e : ScalarError) : m.Right x.toInt y.toInt → ¬ m.HasResult x.toInt y.toInt →
      m.run x y = .ok (.error e) → Outcome m x y
  | wronglyRefused (e : ScalarError) : m.WronglyRefused x.toInt y.toInt → ¬ m.Right x.toInt y.toInt →
      m.HasResult x.toInt y.toInt → m.run x y = .ok (.error e) → Outcome m x y
  | stopped (f : SignedWord.Fault) : ¬ m.Right x.toInt y.toInt → ¬ m.WronglyRefused x.toInt y.toInt →
      m.run x y = .error f → Outcome m x y

theorem Mutator.hasResult_iff {m : Mutator} {x : Int} (hdiv : m ≠ .div) (hmod : m ≠ .mod) :
    m.HasResult x y ↔ Fits (m.exact x y) := by
  refine ⟨fun h => h.2, fun h => ⟨?_, h⟩⟩
  rintro ⟨hd | hd, _⟩
  · exact hdiv hd
  · exact hmod hd

/-- A product is dealt with rightly when it is refused just if it does not fit. -/
theorem mul_right_iff {x : Int} (hzero : ¬ (x < 0 ∧ y = 0)) :
    (Mutator.mul.Right x y ↔ (MulRefused x y ↔ ¬ Fits (x * y))) ∧
      (Mutator.mul.WronglyRefused x y ↔ MulRefused x y ∧ Fits (x * y)) := by
  have hmin : SignedWord.min < 0 := by decide
  have hmax : 0 < SignedWord.max := by decide
  simp only [Mutator.Right, Mutator.WronglyRefused, Fits]
  by_cases hpos : 0 < x ∧ 0 < y
  · -- the largest factor that gives a result is refused as well
    have hprod := mul_pos hpos.1 hpos.2
    have hdiv := Int.le_ediv_iff_mul_le (a := x) (b := SignedWord.max) hpos.2
    rw [mulRefused_of_pos hpos.1 hpos.2]
    omega
  by_cases hneg : x < 0 ∧ y < 0
  · -- the second factor is compared with itself
    have hprod := mul_pos_of_neg_of_neg hneg.1 hneg.2
    rw [mulRefused_of_neg hneg.1 hneg.2]
    omega
  -- different signs, or a zero
  have hprod : x * y ≤ 0 := by
    rcases lt_trichotomy x 0 with hx | hx | hx
    · exact mul_nonpos_of_nonpos_of_nonneg hx.le (by omega)
    · rw [hx, zero_mul]
    · exact mul_nonpos_of_nonneg_of_nonpos hx.le (by omega)
  rw [mulRefused_of_mixed hpos hneg]
  omega

theorem mulInt_outcome (x y : Word) : Mutator.mul.Outcome x y := by
  have hhas : Mutator.mul.HasResult x.toInt y.toInt ↔ Fits (x.toInt * y.toInt) :=
    Mutator.hasResult_iff (by decide) (by decide)
  by_cases hzero : x.toInt < 0 ∧ y.toInt = 0
  · refine .stopped .divByZero (fun h => h.2.1 hzero) ?_ ?_
    · rintro (⟨hpos, _⟩ | ⟨_, hneg, _⟩)
      · omega
      · omega
    · show mulInt x y = _
      rw [mulInt, mulOverflows_zero hzero.1 hzero.2]
      rfl
  obtain ⟨hright, hwrong⟩ := mul_right_iff hzero
  have hrun : Mutator.mul.run x y = if MulRefused x.toInt y.toInt then .ok (.error .range) else
      (SignedWord.checked (x.toInt * y.toInt) >>= fun x => .ok (.ok x)) := by
    show mulInt x y = _
    rw [mulInt, mulOverflows_eq hzero, ok_bind]
    simp only [decide_eq_true_eq, SignedWord.mul]
  by_cases href : MulRefused x.toInt y.toInt
  · rw [if_pos href] at hrun
    by_cases hfits : Fits (x.toInt * y.toInt)
    · exact .wronglyRefused .range (hwrong.2 ⟨href, hfits⟩) (fun h => (hright.1 h).1 href hfits) (hhas.2 hfits) hrun
    · exact .refused .range (hright.2 (iff_of_true href hfits)) (fun h => hfits (hhas.1 h)) hrun
  rw [if_neg href] at hrun
  by_cases hfits : Fits (x.toInt * y.toInt)
  · refine .found (hright.2 (iff_of_false href (not_not.2 hfits))) (hhas.2 hfits) ?_
    rw [hrun, checked_ok hfits]
    rfl
  · refine .stopped .overflow (fun h => href ((hright.1 h).2 hfits)) (fun h => href (hwrong.1 h).1) ?_
    rw [hrun, checked_error hfits]
    rfl

theorem fits_tmod (x y : Word) : Fits (x.toInt.tmod y.toInt) := by
  obtain ⟨hlo, hhi⟩ := fits_toInt x
  have habs : (x.toInt.tmod y.toInt).natAbs ≤ x.toInt.natAbs := by
    rw [Int.natAbs_tmod]
    exact Nat.mod_le _ _
  have hmin : SignedWord.min < 0 := by decide
  have hmax : 0 < SignedWord.max := by decide
  rcases le_total 0 x.toInt with hx | hx
  · have hnonneg := Int.tmod_nonneg y.toInt hx
    exact ⟨by omega, by omega⟩
  have hnonpos : x.toInt.tmod y.toInt ≤ 0 := by
    have hneg := Int.tmod_nonneg y.toInt (show 0 ≤ -x.toInt by omega)
    simp_all
  exact ⟨by omega, by omega⟩

theorem checkIntDiv_cases (x y : Word) : y.toInt = 0 ∧ checkIntDiv x y = some .dom ∨
    y.toInt ≠ 0 ∧ (x.toInt = SignedWord.min ∧ y.toInt = -1) ∧ checkIntDiv x y = some .range ∨
    y.toInt ≠ 0 ∧ ¬ (x.toInt = SignedWord.min ∧ y.toInt = -1) ∧ checkIntDiv x y = none := by
  rw [checkIntDiv]
  by_cases hy : y = 0
  · exact .inl ⟨(toInt_eq_zero_iff y).2 hy, if_pos hy⟩
  have hy' : y.toInt ≠ 0 := fun h => hy ((toInt_eq_zero_iff y).1 h)
  rw [if_neg hy]
  by_cases hmin : x.toInt = SignedWord.min ∧ y.toInt = -1
  · exact .inr (.inl ⟨hy', hmin, if_pos hmin⟩)
  · exact .inr (.inr ⟨hy', hmin, if_neg hmin⟩)

theorem divInt_outcome (x y : Word) : Mutator.div.Outcome x y := by
  rcases checkIntDiv_cases x y with ⟨hy, hc⟩ | ⟨_, hmin, hc⟩ | ⟨hy, hmin, hc⟩
  · exact .refused .dom trivial (fun h => h.1 ⟨.inl rfl, hy⟩) (by show divInt x y = _; rw [divInt, hc])
  · exact .refused .range trivial (fun h => (fits_tdiv_iff x y).1 h.2 hmin)
      (by show divInt x y = _; rw [divInt, hc])
  have hfits := (fits_tdiv_iff x y).2 hmin
  refine .found trivial ⟨fun h => hy h.2, hfits⟩ ?_
  show divInt x y = _
  rw [divInt, hc]
  rw [div_ok (fun h => hy ((toInt_eq_zero_iff y).2 h)) hfits]
  rfl

theorem modInt_outcome (x y : Word) : Mutator.mod.Outcome x y := by
  rcases checkIntDiv_cases x y with ⟨hy, hc⟩ | ⟨hy, hmin, hc⟩ | ⟨hy, hmin, hc⟩
  · refine .refused .dom ?_ (fun h => h.1 ⟨.inr rfl, hy⟩) (by show modInt x y = _; rw [modInt, hc])
    rintro ⟨_, hone⟩
    omega
  · exact .wronglyRefused .range hmin (fun h => h hmin) ⟨fun h => hy h.2, fits_tmod x y⟩
      (by show modInt x y = _; rw [modInt, hc])
  · refine .found hmin ⟨fun h => hy h.2, fits_tmod x y⟩ ?_
    show modInt x y = _
    rw [modInt, hc]
    rw [SignedWord.mod, div_ok (fun h => hy ((toInt_eq_zero_iff y).2 h))
      ((fits_tdiv_iff x y).2 hmin), ok_bind, checked_ok (fits_tmod x y), ok_bind]
    rfl

theorem Mutator.outcome (m : Mutator) (x y : Word) : m.Outcome x y := by
  cases m with
  | add =>
    have hrun : Mutator.add.run x y = _ := addInt_eq x y
    by_cases h : Fits (x.toInt + y.toInt)
    · exact .found trivial ((Mutator.hasResult_iff (by decide) (by decide)).2 h) (by rw [hrun, if_pos h]; rfl)
    · exact .refused .range trivial (fun hc => h hc.2) (by rw [hrun, if_neg h])
  | sub =>
    have hrun : Mutator.sub.run x y = _ := subInt_eq x y
    by_cases h : Fits (x.toInt - y.toInt)
    · exact .found trivial ((Mutator.hasResult_iff (by decide) (by decide)).2 h) (by rw [hrun, if_pos h]; rfl)
    · exact .refused .range trivial (fun hc => h hc.2) (by rw [hrun, if_neg h])
  | mul => exact mulInt_outcome x y
  | div => exact divInt_outcome x y
  | mod => exact modInt_outcome x y

/-! ## A column -/

/-- The exact results of a column as 64-bit integers. -/
def exactElements (m : Mutator) (y : Word) (xs : List Word) : List Word :=
  xs.map fun x => BitVec.ofInt 64 (m.exact x.toInt y.toInt)

/-- The loop gives the exact results if there are any for all elements, and otherwise an error. -/
def LoopExact (m : Mutator) (y : Word) (xs : List Word) : Prop :=
  ((∀ x ∈ xs, m.HasResult x.toInt y.toInt) → mutateElements m y xs = .ok (.ok (exactElements m y xs))) ∧
    ((∃ x ∈ xs, ¬ m.HasResult x.toInt y.toInt) → ∃ e, mutateElements m y xs = .ok (.error e))

/-- Every element is dealt with rightly up to the first that has no result. One that is refused without a reason does
no harm when a later one has to be refused. -/
def Handled (m : Mutator) (y : Word) : List Word → Prop
  | [] => True
  | x :: xs => m.Right x.toInt y.toInt ∧ (m.HasResult x.toInt y.toInt → Handled m y xs) ∨
      m.WronglyRefused x.toInt y.toInt ∧ ∃ z ∈ xs, ¬ m.HasResult z.toInt y.toInt

theorem Mutator.WronglyRefused.not_right {m : Mutator} {x : Int} (h : m.WronglyRefused x y) : ¬ m.Right x y := by
  cases m with
  | mul =>
    rcases h with h | ⟨hx, hy, hsq, hxy⟩
    · exact fun hr => hr.1 h
    · exact fun hr => not_lt.2 hxy ((hr.2.2 hx hy).1 hsq)
  | mod => exact fun hr => hr h
  | add => exact h.elim
  | sub => exact h.elim
  | div => exact h.elim

theorem loopExact_iff (m : Mutator) (y : Word) : ∀ xs, LoopExact m y xs ↔ Handled m y xs
  | [] => by
    refine iff_of_true ⟨fun _ => rfl, ?_⟩ trivial
    simp
  | x :: xs => by
    have ih := loopExact_iff m y xs
    cases m.outcome x y with
    | found hright hhas hrun =>
      have hrest : LoopExact m y (x :: xs) ↔ LoopExact m y xs := by
        simp only [LoopExact, mutateElements, hrun, exactElements]
        rcases mutateElements m y xs with f | e | zs <;> simp [hhas]
      rw [hrest, ih]
      refine ⟨fun h => .inl ⟨hright, fun _ => h⟩, ?_⟩
      rintro (h | h)
      · exact h.2 hhas
      · exact absurd hright h.1.not_right
    | refused e hright hno hrun =>
      refine iff_of_true ⟨fun hall => absurd (hall x mem_cons_self) hno, fun _ => ⟨e, ?_⟩⟩
        (.inl ⟨hright, fun h => absurd h hno⟩)
      rw [mutateElements, hrun, ok_bind]
    | wronglyRefused e hwrong hnot hhas hrun =>
      have hloop : mutateElements m y (x :: xs) = .ok (.error e) := by rw [mutateElements, hrun, ok_bind]
      constructor
      · intro h
        refine .inr ⟨hwrong, ?_⟩
        by_contra hall
        have hcons := h.1 (forall_mem_cons.2 ⟨hhas, fun z hz => by_contra fun hno => hall ⟨z, hz, hno⟩⟩)
        simp_all
      · rintro (h | ⟨_, z, hz, hno⟩)
        · exact absurd h.1 hnot
        · exact ⟨fun hall => absurd (hall z (mem_cons_of_mem x hz)) hno, fun _ => ⟨e, hloop⟩⟩
    | stopped f hnot hwrong hrun =>
      have hloop : mutateElements m y (x :: xs) = .error f := by
        rw [mutateElements, hrun]
        rfl
      constructor
      · intro h
        by_cases hall : ∀ z ∈ x :: xs, m.HasResult z.toInt y.toInt
        · have hcons := h.1 hall
          simp_all
        · push Not at hall
          obtain ⟨e, hcons⟩ := h.2 hall
          simp_all
      · rintro (h | h)
        · exact absurd h.1 hnot
        · exact absurd h.1 hwrong

/-! ## A mutation -/

/-- The divisor is zero, or an exact result is not a 64-bit integer. -/
def IntMutation.NoResult (m : IntMutation) (xs : List Word) : Prop :=
  m.mutator.Divides ∧ m.arg.toInt = 0 ∨ ∃ x ∈ xs, ¬ m.mutator.HasResult x.toInt m.arg.toInt

/-- A mutation is refused with a range or domain error exactly if there is no result. Otherwise the elements are
replaced by the exact results, which then have to meet the constraints of the column. In neither case does the machine
stop it. -/
structure IntMutation.Exact (m : IntMutation) (fields : Nat → List Word) : Prop where
  refuses : m.NoResult (fields m.column) →
    ∃ e, ovsdbMutationSetExecute fields [m] = .ok (.error (.scalar e m.mutator))
  replaces : ¬ m.NoResult (fields m.column) → ovsdbMutationSetExecute fields [m] =
    .ok ((finishScalar m.base m.mutator (exactElements m.mutator m.arg (fields m.column))).map
      (Function.update fields m.column))

theorem finishScalar_ne_scalar (base : IntConstraints) (m m' : Mutator) (e : ScalarError) (zs : List Word)
    (f : List Word → Nat → List Word) : (finishScalar base m zs).map f ≠ .error (.scalar e m') := by
  unfold finishScalar
  split
  · simp [Except.map]
  · split <;> simp [Except.map]

theorem execute_eq : ovsdbMutationSetExecute fields [m] =
    (mutateElements m.mutator m.arg (fields m.column)).map fun
      | .error e => .error (.scalar e m.mutator)
      | .ok zs => (finishScalar m.base m.mutator zs).map (Function.update fields m.column) := by
  rw [ovsdbMutationSetExecute, mutateScalar]
  rcases mutateElements m.mutator m.arg (fields m.column) with f | e | zs
  · rfl
  · rfl
  · dsimp only [ok_bind, Except.map]
    cases finishScalar m.base m.mutator zs <;> rfl

theorem mutateElements_exact {m : Mutator} {y : Word} {xs zs : List Word}
    (h : mutateElements m y xs = .ok (.ok zs)) : zs = exactElements m y xs := by
  induction xs generalizing zs with
  | nil =>
    cases h
    rfl
  | cons x xs ih =>
    obtain ⟨r, hr, h⟩ := bind_eq_ok h
    cases r with
    | error e => cases h
    | ok z =>
      obtain ⟨r, hrest, h⟩ := bind_eq_ok h
      cases r with
      | error e => cases h
      | ok zs' =>
        cases h
        rw [ih hrest]
        cases m.outcome x y with
        | found _ _ hrun =>
          cases hr.symm.trans hrun
          rfl
        | refused e _ _ hrun => cases hr.symm.trans hrun
        | wronglyRefused e _ _ _ hrun => cases hr.symm.trans hrun
        | stopped f _ _ hrun => cases hr.symm.trans hrun

/-- With an element to divide, a division by zero is an element without a result. -/
theorem IntMutation.noResult_iff {xs : List Word}
    (h : m.mutator.Divides → m.arg.toInt = 0 → xs ≠ []) :
    m.NoResult xs ↔ ∃ x ∈ xs, ¬ m.mutator.HasResult x.toInt m.arg.toInt := by
  refine ⟨?_, .inr⟩
  rintro (⟨hdiv, hzero⟩ | hex)
  · obtain ⟨x, hx⟩ := exists_mem_of_ne_nil xs (h hdiv hzero)
    exact ⟨x, hx, fun hres => hres.1 ⟨hdiv, hzero⟩⟩
  · exact hex

theorem IntMutation.exact_iff_loopExact
    (h : m.mutator.Divides → m.arg.toInt = 0 → fields m.column ≠ []) :
    m.Exact fields ↔ LoopExact m.mutator m.arg (fields m.column) := by
  have hno := IntMutation.noResult_iff h
  have hall : ¬ m.NoResult (fields m.column) ↔
      ∀ x ∈ fields m.column, m.mutator.HasResult x.toInt m.arg.toInt := by
    simp [*]
  have hexact : m.Exact fields ↔ _ ∧ _ := ⟨fun h => ⟨h.refuses, h.replaces⟩, fun h => ⟨h.1, h.2⟩⟩
  rw [LoopExact, ← hno, ← hall, hexact, execute_eq]
  rcases hloop : mutateElements m.mutator m.arg (fields m.column) with f | e | zs
  · simp [Except.map]
  · by_cases hn : m.NoResult (fields m.column)
    · simp [hn, Except.map]
    · simpa [hn, Except.map] using (finishScalar_ne_scalar _ _ _ _ _ _).symm
  · rw [mutateElements_exact hloop]
    by_cases hn : m.NoResult (fields m.column)
    · simpa [hn, Except.map] using fun e => finishScalar_ne_scalar _ _ _ e _ _
    · simp [hn, Except.map]

/-- An integer mutation is exact or refused precisely if every element up to the first without a result is dealt with
rightly, and a division by zero finds an element to refuse. -/
theorem mutation_exact_iff (fields : Nat → List Word) (m : IntMutation) :
    m.Exact fields ↔ (m.mutator.Divides → m.arg.toInt = 0 → fields m.column ≠ []) ∧
      Handled m.mutator m.arg (fields m.column) := by
  rw [← loopExact_iff]
  constructor
  · intro h
    have hne : m.mutator.Divides → m.arg.toInt = 0 → fields m.column ≠ [] := by
      -- without an element nothing is refused
      intro hdiv hzero hnil
      obtain ⟨e, he⟩ := h.refuses (.inl ⟨hdiv, hzero⟩)
      rw [execute_eq, hnil] at he
      cases he
    exact ⟨hne, (IntMutation.exact_iff_loopExact hne).1 h⟩
  · rintro ⟨hne, h⟩
    exact (IntMutation.exact_iff_loopExact hne).2 h

/-- Columns with the largest integer, the smallest and −1. -/
def corners : Nat → List Word
  | 0 => [intMax]
  | 1 => [intMin]
  | _ => [BitVec.ofInt 64 (-1)]

/-- A mutation of one of them, without constraints. -/
def corner (column : Nat) (mutator : Mutator) (y : Int) : IntMutation :=
  ⟨column, ⟨none, intMin, intMax⟩, mutator, BitVec.ofInt 64 y⟩

theorem IntMutation.not_exact
    {r : Except SignedWord.Fault (Except ScalarError (List Word))} (hne : fields m.column ≠ [])
    (hall : ∀ x ∈ fields m.column, m.mutator.HasResult x.toInt m.arg.toInt)
    (hloop : mutateElements m.mutator m.arg (fields m.column) = r) (hr : ∀ zs, r ≠ .ok (.ok zs)) :
    ¬ m.Exact fields := by
  intro h
  have hexact := (IntMutation.exact_iff_loopExact fun _ _ => hne).1 h
  exact hr _ (hloop.symm.trans (hexact.1 hall))

/-- `INT64_MAX *= 1` and `-1 *= -4000000000` are refused, `-1 *= 0` divides by zero and `INT64_MIN %= -1` is refused,
though there is a result; `INT64_MIN *= -1` overflows. -/
theorem corners_not_exact : ¬ (corner 0 .mul 1).Exact corners ∧ ¬ (corner 2 .mul (-4000000000)).Exact corners ∧
    ¬ (corner 2 .mul 0).Exact corners ∧ ¬ (corner 1 .mod (-1)).Exact corners ∧ ¬ (corner 1 .mul (-1)).Exact corners := by
  have hmul {x y : Int} : Mutator.mul.HasResult x y ↔ Fits (x * y) := Mutator.hasResult_iff (by decide) (by decide)
  refine ⟨?_, ?_, ?_, ?_, ?_⟩
  · exact IntMutation.not_exact (r := .ok (.error .range)) (cons_ne_nil _ _)
      (forall_mem_singleton.2 (hmul.2 (by decide))) rfl (by simp)
  · exact IntMutation.not_exact (r := .ok (.error .range)) (cons_ne_nil _ _)
      (forall_mem_singleton.2 (hmul.2 (by decide))) rfl (by simp)
  · exact IntMutation.not_exact (r := .error .divByZero) (cons_ne_nil _ _)
      (forall_mem_singleton.2 (hmul.2 (by decide))) rfl (by simp)
  · exact IntMutation.not_exact (r := .ok (.error .range)) (cons_ne_nil _ _)
      (forall_mem_singleton.2 ⟨fun h => absurd h.2 (by decide), by decide⟩) rfl (by simp)
  · intro h
    have hno : (corner 1 .mul (-1)).NoResult (corners 1) :=
      .inr ⟨intMin, mem_singleton_self _, fun h => absurd (hmul.1 h) (by decide)⟩
    obtain ⟨e, he⟩ := h.refuses hno
    have hrun : ovsdbMutationSetExecute corners [corner 1 .mul (-1)] = .error .overflow := rfl
    cases hrun.symm.trans he

end LinkerOvs.Ovsdb
