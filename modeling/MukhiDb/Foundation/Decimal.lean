import Mathlib.Algebra.Order.Ring.Nat
import Mathlib.Tactic.Common

/-!
Contract: 64-bit integers as decimal texts.

Owns: the digits of an integer with its sign; reading an optional sign and at least
one digit back, refused outside of the range; and the fact that this reads every
integer's own text.

Does not own: where a text stands in an input.
-/

namespace MukhiDb.Foundation

/-! ### Writing -/

/-- The characters of an integer in decimal. -/
def decimal (n : Int64) : List Char := (toString n).toList

theorem decimal_of_nonneg {n : Int64} (nonneg : 0 ≤ n.toInt) :
    decimal n = Nat.toDigits 10 n.toInt.toNat := by
  change (toString n.toInt).toList = _
  rw [Int.toString_eq_repr, Int.repr_eq_if, if_pos nonneg, Nat.toList_repr]

theorem decimal_of_neg {n : Int64} (negative : n.toInt < 0) :
    decimal n = '-' :: Nat.toDigits 10 (-n.toInt).toNat := by
  change (toString n.toInt).toList = _
  rw [Int.toString_eq_repr, Int.repr_eq_if, if_neg (Int.not_le.mpr negative), String.toList_append,
    Nat.toList_repr]
  rfl

/-! ### Reading -/

/-- The number that a nonempty list of digits stands for. -/
def readDigits (digits : List Char) : Option Nat :=
  if digits ≠ [] ∧ digits.all Char.isDigit then some (Nat.ofDigitChars 10 digits 0) else none

/-- The integer that a text stands for. -/
def readDecimal (text : List Char) : Option Int :=
  match text with
  | '-' :: digits => (readDigits digits).map fun n : Nat => -(n : Int)
  | '+' :: digits => (readDigits digits).map fun n : Nat => (n : Int)
  | digits => (readDigits digits).map fun n : Nat => (n : Int)

/-- The 64-bit integer that a text stands for. -/
def readInt64 (text : List Char) : Option Int64 :=
  match readDecimal text with
  | some n => if -2 ^ 63 ≤ n ∧ n < 2 ^ 63 then some (Int64.ofInt n) else none
  | none => none

theorem readDigits_toDigits (n : Nat) : readDigits (Nat.toDigits 10 n) = some n := by
  have digits : (Nat.toDigits 10 n).all Char.isDigit = true := by
    rw [List.all_eq_true]
    exact fun c member => Nat.isDigit_of_mem_toDigits (by decide) (by decide) member
  unfold readDigits
  rw [if_pos ⟨Nat.toDigits_ne_nil, digits⟩, Nat.ofDigitChars_ten_toDigits]

/-- A text without a sign is read as digits. -/
theorem readDecimal_unsigned {text : List Char} (digits : ∀ c ∈ text, c.isDigit = true) :
    readDecimal text = (readDigits text).map fun n : Nat => (n : Int) := by
  unfold readDecimal
  split
  · exact absurd (digits '-' List.mem_cons_self) (by decide)
  · exact absurd (digits '+' List.mem_cons_self) (by decide)
  · rfl

theorem readDecimal_decimal (n : Int64) : readDecimal (decimal n) = some n.toInt := by
  by_cases nonneg : 0 ≤ n.toInt
  · rw [decimal_of_nonneg nonneg, readDecimal_unsigned fun c member =>
      Nat.isDigit_of_mem_toDigits (by decide) (by decide) member, readDigits_toDigits]
    exact congrArg some (Int.toNat_of_nonneg nonneg)
  · have negative : n.toInt < 0 := Int.not_le.mp nonneg
    rw [decimal_of_neg negative]
    change (readDigits _).map (fun n : Nat => -(n : Int)) = _
    rw [readDigits_toDigits, Option.map_some]
    refine congrArg some ?_
    rw [Int.toNat_of_nonneg (by omega), Int.neg_neg]

/-- Every integer is read from its own text. -/
theorem readInt64_decimal (n : Int64) : readInt64 (decimal n) = some n := by
  unfold readInt64
  rw [readDecimal_decimal]
  dsimp only
  rw [if_pos ⟨Int64.le_toInt n, Int64.toInt_lt n⟩, Int64.ofInt_toInt]

theorem decimal_injective : Function.Injective decimal := by
  intro left right same
  have read := readInt64_decimal left
  rw [same, readInt64_decimal] at read
  exact (Option.some.inj read).symm

theorem decimal_ne_nil (n : Int64) : decimal n ≠ [] := by
  intro empty
  have read := readInt64_decimal n
  rw [empty] at read
  cases read

/-- The characters of a decimal text. -/
theorem mem_decimal {n : Int64} {c : Char} (member : c ∈ decimal n) : c = '-' ∨ c.isDigit = true := by
  by_cases nonneg : 0 ≤ n.toInt
  · rw [decimal_of_nonneg nonneg] at member
    exact Or.inr (Nat.isDigit_of_mem_toDigits (by decide) (by decide) member)
  · rw [decimal_of_neg (Int.not_le.mp nonneg)] at member
    rcases List.mem_cons.mp member with sign | member
    · exact Or.inl sign
    · exact Or.inr (Nat.isDigit_of_mem_toDigits (by decide) (by decide) member)

/-! ### The shortest text -/

theorem ofDigitChars_lt (digits : List Char) (allDigits : digits.all Char.isDigit = true)
    (start : Nat) : Nat.ofDigitChars 10 digits start < (start + 1) * 10 ^ digits.length := by
  induction digits generalizing start with
  | nil => simp
  | cons c rest inductionHypothesis =>
      rw [List.all_cons, Bool.and_eq_true] at allDigits
      have below : c.toNat - '0'.toNat < 10 := by
        have digit := allDigits.1
        simp only [Char.isDigit, Bool.and_eq_true, decide_eq_true_eq, UInt32.le_iff_toNat_le] at digit
        have upper : c.toNat ≤ 57 := digit.2
        have zero : '0'.toNat = 48 := rfl
        omega
      have later := inductionHypothesis allDigits.2 (10 * start + (c.toNat - '0'.toNat))
      rw [Nat.ofDigitChars_cons, List.length_cons, Nat.pow_succ]
      refine Nat.lt_of_lt_of_le later ?_
      calc
        (10 * start + (c.toNat - '0'.toNat) + 1) * 10 ^ rest.length
            ≤ ((start + 1) * 10) * 10 ^ rest.length := Nat.mul_le_mul_right _ (by omega)
        _ = (start + 1) * (10 ^ rest.length * 10) := by
            rw [Nat.mul_assoc, Nat.mul_comm 10]

theorem readDigits_shortest {digits : List Char} {n : Nat} (read : readDigits digits = some n) :
    (Nat.toDigits 10 n).length ≤ digits.length := by
  unfold readDigits at read
  split at read
  · next valid =>
      obtain rfl := Option.some.inj read
      have bound := ofDigitChars_lt digits valid.2 0
      rw [Nat.zero_add, Nat.one_mul] at bound
      exact (Nat.length_toDigits_le_iff (by decide) (List.length_pos_iff.mpr valid.1)).mpr bound
  · cases read

/-- No text that is read as an integer is shorter than its own text. -/
theorem readInt64_shortest {text : List Char} {n : Int64} (read : readInt64 text = some n) :
    (decimal n).length ≤ text.length := by
  unfold readInt64 at read
  rcases readInt : readDecimal text with _ | m
  · rw [readInt] at read
    cases read
  rw [readInt] at read
  dsimp only at read
  split at read
  case isFalse => cases read
  next range =>
  obtain rfl := Option.some.inj read
  have value : (Int64.ofInt m).toInt = m := Int64.toInt_ofInt_of_le range.1 range.2
  -- The digits after a sign, or without one, are at least as many as those of their number.
  have unsigned : ∀ digits : List Char, (readDigits digits).map (fun n : Nat => (n : Int)) = some m →
      (decimal (Int64.ofInt m)).length ≤ digits.length := by
    intro digits readPart
    obtain ⟨k, number, rfl⟩ := Option.map_eq_some_iff.mp readPart
    rw [decimal_of_nonneg (by rw [value]; exact Int.natCast_nonneg k), value, Int.toNat_natCast]
    exact readDigits_shortest number
  unfold readDecimal at readInt
  split at readInt
  · next digits =>
      obtain ⟨k, readPart, negated⟩ := Option.map_eq_some_iff.mp readInt
      have short := readDigits_shortest readPart
      subst negated
      by_cases zero : k = 0
      · subst zero
        exact Nat.zero_lt_succ _
      · rw [decimal_of_neg (by rw [value]; omega), value, Int.neg_neg, Int.toNat_natCast,
          List.length_cons, List.length_cons]
        omega
  · next digits =>
      rw [List.length_cons]
      exact Nat.le_succ_of_le (unsigned digits readInt)
  · exact unsigned text readInt

end MukhiDb.Foundation
