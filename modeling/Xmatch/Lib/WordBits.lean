import Mathlib.Tactic.Common
import Mathlib.Data.Int.Interval

/-! Bits of 64-bit words: single bits, masks below and above a position, and the
position of the first set bit from either end. -/
namespace WordBits

theorem toNatOfNat {n : Nat} (narrow : n < 2 ^ 32) : (UInt32.ofNat n).toNat = n :=
  UInt32.toNat_ofNat_of_lt' narrow

theorem ofIntNatCast (n : Nat) : UInt32.ofInt (n : Int) = UInt32.ofNat n := by
  have wrap : ((n : Int) % 2 ^ 32).toNat = n % 2 ^ 32 := by omega
  rw [UInt32.ofInt, wrap]
  exact UInt32.ofNat_mod_size

def bit (w : UInt64) (j : Nat) : Bool := w.toNat.testBit j

/- Zero bits above the highest set bit; 64 for the zero word. -/
def countlZero (w : UInt64) : Nat := ((List.range 64).find? (fun k => bit w (63 - k))).getD 64

/- Zero bits below the lowest set bit; 64 for the zero word. -/
def countrZero (w : UInt64) : Nat := ((List.range 64).find? (fun k => bit w k)).getD 64

theorem bitHigh (w : UInt64) {j : Nat} (high : 64 ≤ j) : bit w j = false :=
  Nat.testBit_lt_two_pow (Nat.lt_of_lt_of_le w.toNat_lt (Nat.pow_le_pow_right (by decide) high))

theorem zeroIff (w : UInt64) : w = 0 ↔ ∀ j < 64, bit w j = false := by
  constructor
  · rintro rfl j _
    simp [bit]
  · intro clear
    apply UInt64.toNat_inj.mp
    apply Nat.eq_of_testBit_eq
    intro j
    by_cases low : j < 64
    · simpa [bit] using clear j low
    · simpa [bit] using bitHigh w (Nat.le_of_not_lt low)

theorem bitAnd (a b : UInt64) (j : Nat) : bit (a &&& b) j = (bit a j && bit b j) := by
  simp [bit, Nat.testBit_and]

theorem bitOr (a b : UInt64) (j : Nat) : bit (a ||| b) j = (bit a j || bit b j) := by
  simp [bit, Nat.testBit_or]

theorem bitNot (a : UInt64) {j : Nat} (low : j < 64) : bit (~~~a) j = !bit a j := by
  have h := Nat.testBit_two_pow_sub_succ a.toNat_lt j
  simp only [bit, UInt64.toNat_not, UInt64.size]
  rw [show 18446744073709551616 - 1 - a.toNat = 2 ^ 64 - (a.toNat + 1) by omega, h]
  simp [low]

theorem toNatOneShift {s : UInt64} (low : s.toNat < 64) :
    (1 <<< s : UInt64).toNat = 2 ^ s.toNat := by
  rw [UInt64.toNat_shiftLeft, Nat.mod_eq_of_lt low]
  simp only [UInt64.reduceToNat, Nat.shiftLeft_eq, Nat.one_mul]
  exact Nat.mod_eq_of_lt (Nat.pow_lt_pow_right (by decide) low)

theorem bitOneShift {s : UInt64} (low : s.toNat < 64) (j : Nat) :
    bit (1 <<< s) j = decide (s.toNat = j) := by
  simp only [bit, toNatOneShift low, Nat.testBit_two_pow]

theorem bitLowMask {s : UInt64} (low : s.toNat < 64) (j : Nat) :
    bit ((1 <<< s) - 1) j = decide (j < s.toNat) := by
  have one : (1 : UInt64) ≤ 1 <<< s := by
    rw [UInt64.le_iff_toNat_le, toNatOneShift low]
    exact Nat.one_le_two_pow
  rw [bit, UInt64.toNat_sub_of_le _ _ one, toNatOneShift low]
  simp

theorem bitAllOnes {j : Nat} (low : j < 64) : bit (~~~0) j = true := by
  rw [bitNot 0 low]
  simp [bit]

theorem bitHighMask {s : UInt64} (low : s.toNat < 64) {j : Nat} (jlow : j < 64) :
    bit (~~~0 <<< s) j = decide (s.toNat ≤ j) := by
  rw [bit, UInt64.toNat_shiftLeft, Nat.mod_eq_of_lt low, Nat.testBit_mod_two_pow,
    Nat.testBit_shiftLeft]
  by_cases h : s.toNat ≤ j
  · have := bitAllOnes (j := j - s.toNat) (by omega)
    simp_all [bit]
  · simp [h]

theorem lowestBit {w : UInt64} (nonzero : w ≠ 0) :
    countrZero w < 64 ∧ bit w (countrZero w) = true ∧ ∀ j < countrZero w, bit w j = false := by
  unfold countrZero
  cases found : (List.range 64).find? (fun k => bit w k) with
  | none =>
    exact absurd ((zeroIff w).mpr
      fun j low => by simpa using List.find?_range_eq_none.mp found j low) nonzero
  | some i =>
    obtain ⟨set, inside, first⟩ := List.find?_range_eq_some.mp found
    exact ⟨List.mem_range.mp inside, set, fun j below => by simpa using first j below⟩

theorem highestBit {w : UInt64} (nonzero : w ≠ 0) :
    countlZero w < 64 ∧ bit w (63 - countlZero w) = true ∧
      ∀ j, 63 - countlZero w < j → bit w j = false := by
  unfold countlZero
  cases found : (List.range 64).find? (fun k => bit w (63 - k)) with
  | none =>
    refine absurd ((zeroIff w).mpr fun j low => ?_) nonzero
    have := List.find?_range_eq_none.mp found (63 - j) (by omega)
    rwa [show 63 - (63 - j) = j by omega, Bool.not_eq_true'] at this
  | some i =>
    obtain ⟨set, inside, first⟩ := List.find?_range_eq_some.mp found
    refine ⟨List.mem_range.mp inside, set, fun j above => ?_⟩
    simp only [Option.getD_some] at above
    by_cases low : j < 64
    · have := first (63 - j) (by omega)
      rwa [show 63 - (63 - j) = j by omega, Bool.not_eq_true'] at this
    · exact bitHigh w (Nat.le_of_not_lt low)

end WordBits
