import Xmatch.Lib.Buffer
import Xmatch.Lib.WordBits

/-! The occupancy bitmap of a side: one bit for each level, searched a word at a time. -/
namespace Xmatch

structure LevelBitset where
  words : Buffer UInt64 := Buffer.replicate 0 0

namespace LevelBitset
open WordBits

def resize (nBits : Nat) : LevelBitset := ⟨Buffer.replicate ((nBits + 63) / 64) 0⟩

def wordOf (bit : UInt32) : Nat := (bit >>> 6).toNat

def maskOf (bit : UInt32) : UInt64 := 1 <<< (bit &&& 63).toUInt64

def set (bits : LevelBitset) (bit : UInt32) : LevelBitset :=
  ⟨bits.words.write (wordOf bit) (bits.words.read (wordOf bit) ||| maskOf bit)⟩

def clear (bits : LevelBitset) (bit : UInt32) : LevelBitset :=
  ⟨bits.words.write (wordOf bit) (bits.words.read (wordOf bit) &&& ~~~maskOf bit)⟩

-- From word `wordIdx`, whose bits of interest are `w`, towards word 0.
def scanDown (words : Buffer UInt64) : Nat → UInt64 → Int
  | 0, w => if w ≠ 0 then ((63 - countlZero w : Nat) : Int) else -1
  | wordIdx + 1, w =>
    if w ≠ 0 then ((wordIdx + 1) * 64 + (63 - countlZero w : Nat) : Int)
    else scanDown words wordIdx (words.read wordIdx)

def findHighestLe (bits : LevelBitset) (start : Int) : Int :=
  if start < 0 then -1
  else
    let wordIdx := start.toNat / 64
    let bitIdx := start.toNat % 64
    let mask : UInt64 := if bitIdx = 63 then ~~~0 else (1 <<< UInt64.ofNat (bitIdx + 1)) - 1
    scanDown bits.words wordIdx (bits.words.read wordIdx &&& mask)

-- `later` words follow word `wordIdx`, whose bits of interest are `w`.
def scanUp (words : Buffer UInt64) : Nat → Nat → UInt64 → Int
  | 0, wordIdx, w => if w ≠ 0 then (wordIdx * 64 + countrZero w : Int) else -1
  | later + 1, wordIdx, w =>
    if w ≠ 0 then (wordIdx * 64 + countrZero w : Int)
    else scanUp words later (wordIdx + 1) (words.read (wordIdx + 1))

def findLowestGe (bits : LevelBitset) (start : Int) : Int :=
  let start := max start 0
  let wordIdx := start.toNat / 64
  if bits.words.size ≤ wordIdx then -1
  else
    let bitIdx := start.toNat % 64
    let mask : UInt64 := if bitIdx = 0 then ~~~0 else ~~~0 <<< UInt64.ofNat bitIdx
    scanUp bits.words (bits.words.size - wordIdx - 1) wordIdx (bits.words.read wordIdx &&& mask)

def has (bits : LevelBitset) (level : Nat) : Bool := bit (bits.words.read (level / 64)) (level % 64)

theorem hasResize (nBits level : Nat) : has (resize nBits) level = false := by
  simp [has, resize, bit]

theorem wordOfEq (b : UInt32) : wordOf b = b.toNat / 64 := by
  simp [wordOf, UInt32.toNat_shiftRight, Nat.shiftRight_eq_div_pow]

theorem shiftOf (b : UInt32) : (b &&& 63).toUInt64.toNat = b.toNat % 64 := by
  have low : b.toNat &&& 63 = b.toNat % 64 := Nat.and_two_pow_sub_one_eq_mod b.toNat 6
  simpa using low

theorem bitMaskOf (b : UInt32) (j : Nat) : bit (maskOf b) j = decide (b.toNat % 64 = j) := by
  have low : (b &&& 63).toUInt64.toNat < 64 := by
    rw [shiftOf]
    exact Nat.mod_lt _ (by decide)
  rw [maskOf, bitOneShift low, shiftOf]

theorem samePlace (i j : Nat) : i = j ↔ i / 64 = j / 64 ∧ i % 64 = j % 64 := by
  constructor
  · intro same
    exact ⟨by rw [same], by rw [same]⟩
  · intro ⟨word, place⟩
    rw [← Nat.div_add_mod i 64, word, place, Nat.div_add_mod]

theorem hasSet (bits : LevelBitset) (b : UInt32) (level : Nat) :
    has (set bits b) level = (has bits level || decide (level = b.toNat)) := by
  simp only [has, set, Buffer.readWrite, wordOfEq, samePlace level b.toNat]
  split
  · rename_i word
    simp [bitOr, bitMaskOf, word, eq_comm]
  · rename_i word
    simp [word]

theorem hasClear (bits : LevelBitset) (b : UInt32) (level : Nat) :
    has (clear bits b) level = (has bits level && !decide (level = b.toNat)) := by
  simp only [has, clear, Buffer.readWrite, wordOfEq, samePlace level b.toNat]
  split
  · rename_i word
    simp [bitAnd, bitNot _ (Nat.mod_lt level (show 0 < 64 by decide)), bitMaskOf, word, eq_comm]
  · rename_i word
    simp [word]

theorem hasExt {bits bits' : LevelBitset} (size : bits.words.size = bits'.words.size)
    (same : ∀ level, has bits level = has bits' level) : bits = bits' := by
  obtain ⟨size', read⟩ := bits
  obtain ⟨_, read'⟩ := bits'
  cases size
  have words : read = read' := by
    funext w
    refine UInt64.toNat_inj.mp (Nat.eq_of_testBit_eq (fun j => ?_))
    rcases Nat.lt_or_ge j 64 with low | high
    · have level := same (w * 64 + j)
      simp only [has, show (w * 64 + j) / 64 = w by omega,
        show (w * 64 + j) % 64 = j by omega] at level
      exact level
    · exact (bitHigh (read w) high).trans (bitHigh (read' w) high).symm
  rw [words]

@[simp] theorem sizeResize (nBits : Nat) : (resize nBits).words.size = (nBits + 63) / 64 := rfl
@[simp] theorem sizeSet (bits : LevelBitset) (b : UInt32) :
    (set bits b).words.size = bits.words.size := rfl
@[simp] theorem sizeClear (bits : LevelBitset) (b : UInt32) :
    (clear bits b).words.size = bits.words.size := rfl

/- Where a search ends: at the nearest level in its direction, or nowhere. -/
structure Nearest (eligible : Nat → Prop) (ahead : Nat → Nat → Prop) (found : Int) : Prop where
  none : found < 0 → found = -1 ∧ ∀ level, ¬eligible level
  some : ∀ level : Nat, found = level → eligible level ∧ ∀ other, eligible other →
    ¬ahead other level

/- The levels still to be searched when `w` stands for word `n` and words on the far side
are as stored. -/
def Pending (far : Nat → Nat → Prop) (words : Buffer UInt64) (n : Nat) (w : UInt64) (level : Nat) :
    Prop :=
  (far (level / 64) n ∧ bit (words.read (level / 64)) (level % 64) = true) ∨
    (level / 64 = n ∧ bit w (level % 64) = true)

theorem zeroClear {w : UInt64} (zero : ¬w ≠ 0) (j : Nat) : bit w j = false := by
  simp [bit, not_not.mp zero]

-- a nonzero word decides the search, whatever lies beyond it
theorem highestPending (words : Buffer UInt64) (n : Nat) {w : UInt64} (nonzero : w ≠ 0) :
    Nearest (Pending (· < ·) words n w) (fun other level => level < other)
      ((n * 64 + (63 - countlZero w) : Nat) : Int) := by
  obtain ⟨_, here, above⟩ := highestBit nonzero
  refine ⟨fun negative => by omega, fun level same => ?_⟩
  have word : level / 64 = n := by omega
  have place : level % 64 = 63 - countlZero w := by omega
  refine ⟨.inr ⟨word, by rw [place]; exact here⟩, fun other pending ahead => ?_⟩
  rcases pending with ⟨lower, _⟩ | ⟨same, set⟩
  · omega
  · have clear := above (other % 64) (by omega)
    rw [clear] at set
    contradiction

theorem lowestPending (words : Buffer UInt64) (bound n : Nat) {w : UInt64} (nonzero : w ≠ 0) :
    Nearest (Pending (fun m n => n < m ∧ m < bound) words n w) (fun other level => other < level)
      ((n * 64 + countrZero w : Nat) : Int) := by
  obtain ⟨_, here, below⟩ := lowestBit nonzero
  refine ⟨fun negative => by omega, fun level same => ?_⟩
  have word : level / 64 = n := by omega
  have place : level % 64 = countrZero w := by omega
  refine ⟨.inr ⟨word, by rw [place]; exact here⟩, fun other pending ahead => ?_⟩
  rcases pending with ⟨later, _⟩ | ⟨same, set⟩
  · omega
  · have clear := below (other % 64) (by omega)
    rw [clear] at set
    contradiction

theorem pendingEmpty {far : Nat → Nat → Prop} {words : Buffer UInt64} {n : Nat} {w : UInt64}
    (last : ∀ m, ¬far m n) (zero : ¬w ≠ 0) (level : Nat) : ¬Pending far words n w level := by
  rintro (⟨beyond, _⟩ | ⟨_, set⟩)
  · exact last _ beyond
  · simp [zeroClear zero] at set

theorem pendingNext {far : Nat → Nat → Prop} {words : Buffer UInt64} {n : Nat} {w : UInt64}
    (next : Nat) (adjacent : ∀ m, far m n ↔ far m next ∨ m = next) (zero : ¬w ≠ 0) :
    Pending far words n w = Pending far words next (words.read next) := by
  funext level
  simp only [Pending, zeroClear zero, Bool.false_eq_true, and_false, or_false, adjacent,
    or_and_right]
  refine propext (or_congr_right (and_congr_right fun word => ?_))
  rw [word]

theorem scanDownNearest (words : Buffer UInt64) (n : Nat) (w : UInt64) :
    Nearest (Pending (· < ·) words n w) (fun other level => level < other)
      (scanDown words n w) := by
  induction n generalizing w with
  | zero =>
    simp only [scanDown]
    split
    · rename_i nonzero
      simpa using highestPending words 0 nonzero
    · rename_i zero
      exact ⟨fun _ => ⟨rfl, pendingEmpty (by omega) zero⟩, fun level same => by omega⟩
  | succ n ih =>
    simp only [scanDown]
    split
    · rename_i nonzero
      simpa using highestPending words (n + 1) nonzero
    · rename_i zero
      rw [pendingNext n (by omega) zero]
      exact ih (words.read n)

theorem scanUpNearest (words : Buffer UInt64) (bound later n : Nat) (w : UInt64)
    (rest : n + later + 1 = bound) :
    Nearest (Pending (fun m n => n < m ∧ m < bound) words n w) (fun other level => other < level)
      (scanUp words later n w) := by
  induction later generalizing n w with
  | zero =>
    simp only [scanUp]
    split
    · rename_i nonzero
      simpa using lowestPending words bound n nonzero
    · rename_i zero
      exact ⟨fun _ => ⟨rfl, pendingEmpty (by omega) zero⟩, fun level same => by omega⟩
  | succ later ih =>
    simp only [scanUp]
    split
    · rename_i nonzero
      simpa using lowestPending words bound n nonzero
    · rename_i zero
      rw [pendingNext (n + 1) (by omega) zero]
      exact ih (n + 1) (words.read (n + 1)) (by omega)

theorem nearestCongr {eligible eligible' : Nat → Prop} {ahead : Nat → Nat → Prop} {found : Int}
    (same : ∀ level, eligible level ↔ eligible' level) (nearest : Nearest eligible ahead found) :
    Nearest eligible' ahead found := by
  rwa [funext fun level => propext (same level)] at nearest

theorem nearestUnique {eligible : Nat → Prop} {ahead : Nat → Nat → Prop} {found found' : Int}
    (antisymm : ∀ a b, ¬ahead a b → ¬ahead b a → a = b) (one : Nearest eligible ahead found)
    (two : Nearest eligible ahead found') : found = found' := by
  by_cases none : found < 0 <;> by_cases none' : found' < 0
  · exact (one.none none).1.trans (two.none none').1.symm
  · exact absurd (two.some found'.toNat (by omega)).1 ((one.none none).2 _)
  · exact absurd (one.some found.toNat (by omega)).1 ((two.none none').2 _)
  · obtain ⟨occupied, first⟩ := one.some found.toNat (by omega)
    obtain ⟨occupied', first'⟩ := two.some found'.toNat (by omega)
    have level := antisymm _ _ (first' _ occupied) (first _ occupied')
    omega

theorem findHighestLeNearest (bits : LevelBitset) (start : Int) :
    Nearest (fun level => (level : Int) ≤ start ∧ has bits level = true)
      (fun other level => level < other) (findHighestLe bits start) := by
  unfold findHighestLe
  split
  · rename_i negative
    exact ⟨fun _ => ⟨rfl, fun level eligible => by omega⟩, fun level same => by omega⟩
  · rename_i nonneg
    refine nearestCongr (fun level => ?_) (scanDownNearest _ _ _)
    have inWord : start.toNat % 64 < 64 := Nat.mod_lt _ (by decide)
    have masked : ∀ j < 64, bit (if start.toNat % 64 = 63 then ~~~0
        else (1 <<< UInt64.ofNat (start.toNat % 64 + 1)) - 1) j =
    decide (j ≤ start.toNat % 64) := by
      intro j low
      split
      · rw [bitAllOnes low]
        exact (decide_eq_true (by omega)).symm
      · have exact : (UInt64.ofNat (start.toNat % 64 + 1)).toNat = start.toNat % 64 + 1 :=
          UInt64.toNat_ofNat_of_lt' (by simp only [UInt64.size]; omega)
        rw [bitLowMask (by omega), exact]
        simp only [Nat.lt_succ_iff]
    have place : level % 64 < 64 := Nat.mod_lt _ (by decide)
    simp only [Pending, has, bitAnd, masked _ place, Bool.and_eq_true, decide_eq_true_eq]
    constructor
    · rintro (⟨word, set⟩ | ⟨word, set, low⟩)
      · exact ⟨by omega, set⟩
      · exact ⟨by omega, by rw [word]; exact set⟩
    · rintro ⟨low, set⟩
      by_cases word : level / 64 = start.toNat / 64
      · exact .inr ⟨word, by rw [← word]; exact set, by omega⟩
      · exact .inl ⟨by omega, set⟩

theorem findLowestGeNearest (bits : LevelBitset) (start : Int) :
    Nearest (fun level => start ≤ (level : Int) ∧ level / 64 < bits.words.size ∧
      has bits level = true)
      (fun other level => other < level) (findLowestGe bits start) := by
  unfold findLowestGe
  simp only
  have floor : ∀ level : Nat, start ≤ (level : Int) ↔ (max start 0).toNat ≤ level := by omega
  generalize (max start 0).toNat = first at floor ⊢
  split
  · rename_i past
    refine ⟨fun _ => ⟨rfl, fun level eligible => ?_⟩, fun level same => by omega⟩
    have := (floor level).mp eligible.1
    omega
  · rename_i inside
    refine nearestCongr (fun level => ?_) (scanUpNearest _ bits.words.size _ _ _ (by omega))
    have inWord : first % 64 < 64 := Nat.mod_lt _ (by decide)
    have masked : ∀ j < 64, bit (if first % 64 = 0 then ~~~0
        else ~~~0 <<< UInt64.ofNat (first % 64)) j = decide (first % 64 ≤ j) := by
      intro j low
      split
      · rw [bitAllOnes low]
        exact (decide_eq_true (by omega)).symm
      · have exact : (UInt64.ofNat (first % 64)).toNat = first % 64 :=
          UInt64.toNat_ofNat_of_lt' (by simp only [UInt64.size]; omega)
        rw [bitHighMask (by omega) low, exact]
    have place : level % 64 < 64 := Nat.mod_lt _ (by decide)
    simp only [Pending, has, bitAnd, masked _ place, Bool.and_eq_true, decide_eq_true_eq, floor]
    constructor
    · rintro (⟨word, set⟩ | ⟨word, set, low⟩)
      · exact ⟨by omega, word.2, set⟩
      · exact ⟨by omega, by omega, by rw [word]; exact set⟩
    · rintro ⟨low, bounded, set⟩
      by_cases word : level / 64 = first / 64
      · exact .inr ⟨word, by rw [← word]; exact set, by omega⟩
      · exact .inl ⟨by omega, set⟩

end LevelBitset
end Xmatch
