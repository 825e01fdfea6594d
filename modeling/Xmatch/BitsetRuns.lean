import Mathlib.Data.List.Induction
import Mathlib.Order.Bounds.Basic
import Xmatch.LevelBitset

/-! The bitmap over every sequence of `set` and `clear`, and its two searches against a scan
level by level. The searches are run on an array that answers inside its bounds only. -/
namespace Xmatch.LevelBitset
open WordBits

def test (bits : LevelBitset) (b : UInt32) : Bool :=
  (bits.words.read (wordOf b) >>> (b &&& 63).toUInt64) &&& 1 ≠ 0

inductive Mark where
  | set (bit : UInt32)
  | clear (bit : UInt32)
  deriving DecidableEq

def Mark.level : Mark → Nat
  | set bit => bit.toNat
  | clear bit => bit.toNat

def Mark.sets : Mark → Bool
  | set _ => true
  | clear _ => false

def Mark.apply (bits : LevelBitset) : Mark → LevelBitset
  | set bit => bits.set bit
  | clear bit => bits.clear bit

def marked (n : Nat) (marks : List Mark) : LevelBitset := marks.foldl Mark.apply (resize n)

def LastSet (marks : List Mark) (level : Nat) : Prop :=
  ∃ mark, (marks.filter (·.level = level)).getLast? = some mark ∧ mark.sets = true

/- What a scan of the levels answers: the one it picks, -1 when there is none. -/
def ScanAnswers (pick : Set Nat → Nat → Prop) (levels : Set Nat) (found : Int) : Prop :=
  (levels = ∅ ∧ found = -1) ∨ ∃ level, pick levels level ∧ found = level

/- The loops of the source: `none` when a word outside the array is read or when `fuel` turns
are not enough. -/
def wordAt (bits : LevelBitset) (wordIdx : Int) : Option UInt64 :=
  if 0 ≤ wordIdx ∧ wordIdx < bits.words.size then some (bits.words.read wordIdx.toNat) else none

def loopDown (bits : LevelBitset) : Nat → Int → UInt64 → Option Int
  | 0, _, _ => none
  | fuel + 1, wordIdx, w =>
    if w ≠ 0 then some (wordIdx * 64 + (63 - countlZero w : Nat))
    else if wordIdx - 1 < 0 then some (-1)
    else (wordAt bits (wordIdx - 1)).bind (loopDown bits fuel (wordIdx - 1))

def loopHighestLe (bits : LevelBitset) (fuel : Nat) (start : Int) : Option Int :=
  if start < 0 then some (-1)
  else
    let wordIdx := start / 64
    let bitIdx := (start % 64).toNat
    let mask : UInt64 := if bitIdx = 63 then ~~~0 else (1 <<< UInt64.ofNat (bitIdx + 1)) - 1
    (wordAt bits wordIdx).bind fun word => loopDown bits fuel wordIdx (word &&& mask)

def loopUp (bits : LevelBitset) : Nat → Int → UInt64 → Option Int
  | 0, _, _ => none
  | fuel + 1, wordIdx, w =>
    if w ≠ 0 then some (wordIdx * 64 + countrZero w)
    else if (bits.words.size : Int) ≤ wordIdx + 1 then some (-1)
    else (wordAt bits (wordIdx + 1)).bind (loopUp bits fuel (wordIdx + 1))

def loopLowestGe (bits : LevelBitset) (fuel : Nat) (start : Int) : Option Int :=
  let start := if start < 0 then 0 else start
  let wordIdx := start / 64
  if (bits.words.size : Int) ≤ wordIdx then some (-1)
  else
    let bitIdx := (start % 64).toNat
    let mask : UInt64 := if bitIdx = 0 then ~~~0 else ~~~0 <<< UInt64.ofNat bitIdx
    (wordAt bits wordIdx).bind fun word => loopUp bits fuel wordIdx (word &&& mask)

theorem testHas (bits : LevelBitset) (b : UInt32) : test bits b = has bits b.toNat := by
  have shifted : (b &&& 63).toUInt64.toNat % 64 = b.toNat % 64 := by rw [shiftOf, Nat.mod_mod]
  have single : ∀ w : UInt64, w &&& 1 ≠ 0 ↔ w.toNat.testBit 0 = true := by
    intro w
    rw [ne_eq, ← UInt64.toNat_inj, UInt64.toNat_and]
    simp only [UInt64.reduceToNat, Nat.and_one_is_mod, Nat.testBit_zero, decide_eq_true_eq]
    omega
  rw [test, Bool.eq_iff_iff, decide_eq_true_eq, single, UInt64.toNat_shiftRight, shifted,
    Nat.testBit_shiftRight, Nat.add_zero, wordOfEq]
  rfl

theorem hasMark (bits : LevelBitset) (mark : Mark) (level : Nat) :
    has (mark.apply bits) level = if mark.level = level then mark.sets else has bits level := by
  cases mark with
  | set bit =>
    rw [Mark.apply, hasSet]
    by_cases here : bit.toNat = level
    · simp [Mark.level, Mark.sets, here]
    · simp [Mark.level, here, Ne.symm here]
  | clear bit =>
    rw [Mark.apply, hasClear]
    by_cases here : bit.toNat = level
    · simp [Mark.level, Mark.sets, here]
    · simp [Mark.level, here, Ne.symm here]

theorem sizeMarked (n : Nat) (marks : List Mark) : (marked n marks).words.size = (n + 63) / 64 := by
  induction marks using List.reverseRecOn with
  | nil => rfl
  | append_singleton marks mark ih =>
    rw [marked, List.foldl_append]
    cases mark <;> exact ih

theorem hasMarked (n : Nat) (marks : List Mark) (level : Nat) :
    has (marked n marks) level = true ↔ LastSet marks level := by
  induction marks using List.reverseRecOn with
  | nil => simp [marked, hasResize, LastSet]
  | append_singleton marks mark ih =>
    have step : marked n (marks ++ [mark]) = mark.apply (marked n marks) := by
      rw [marked, List.foldl_append]
      rfl
    rw [step, hasMark]
    by_cases here : mark.level = level
    · simp [LastSet, List.filter_append, here]
    · rw [if_neg here, ih]
      simp [LastSet, List.filter_append, here]

theorem lastSetInside {n : Nat} {marks : List Mark} (inside : ∀ mark ∈ marks, mark.level < n)
    {level : Nat} (last : LastSet marks level) : level < n := by
  obtain ⟨mark, found, _⟩ := last
  have member := List.mem_filter.mp (List.mem_of_getLast? found)
  have same : mark.level = level := by simpa using member.2
  have bounded := inside mark member.1
  omega

theorem wordAtInside (bits : LevelBitset) {wordIdx : Nat} (inside : wordIdx < bits.words.size) :
    wordAt bits wordIdx = some (bits.words.read wordIdx) := by
  have both : (0 : Int) ≤ wordIdx ∧ (wordIdx : Int) < bits.words.size := ⟨by omega, by omega⟩
  rw [wordAt, if_pos both, Int.toNat_natCast]

theorem loopDownEnds (bits : LevelBitset) {fuel wordIdx : Nat} (w : UInt64)
    (inside : wordIdx < bits.words.size) (turns : wordIdx < fuel) :
    loopDown bits fuel wordIdx w = some (scanDown bits.words wordIdx w) := by
  induction wordIdx generalizing fuel w with
  | zero =>
    obtain ⟨rest, rfl⟩ := Nat.exists_eq_add_of_lt turns
    rw [Nat.zero_add, loopDown, scanDown]
    split
    · simp
    · rfl
  | succ wordIdx ih =>
    obtain ⟨rest, rfl⟩ : ∃ rest, fuel = rest + 1 := ⟨fuel - 1, by omega⟩
    have previous : ((wordIdx + 1 : Nat) : Int) - 1 = wordIdx := by omega
    rw [loopDown, scanDown, previous]
    split
    · simp
    · rw [if_neg (by omega), wordAtInside bits (by omega)]
      exact ih _ (by omega) (by omega)

theorem loopUpEnds (bits : LevelBitset) {fuel later wordIdx : Nat} (w : UInt64)
    (last : wordIdx + later + 1 = bits.words.size) (turns : later < fuel) :
    loopUp bits fuel wordIdx w = some (scanUp bits.words later wordIdx w) := by
  induction later generalizing fuel wordIdx w with
  | zero =>
    obtain ⟨rest, rfl⟩ := Nat.exists_eq_add_of_lt turns
    rw [Nat.zero_add, loopUp, scanUp]
    split
    · rfl
    · rw [if_pos (by omega)]
  | succ later ih =>
    obtain ⟨rest, rfl⟩ : ∃ rest, fuel = rest + 1 := ⟨fuel - 1, by omega⟩
    have next : (wordIdx : Int) + 1 = (wordIdx + 1 : Nat) := by omega
    rw [loopUp, scanUp, next]
    split
    · rfl
    · rw [if_neg (by omega), wordAtInside bits (by omega)]
      exact ih _ (by omega) (by omega)

theorem loopHighestLeEnds {bits : LevelBitset} {fuel : Nat} {start : Int}
    (before : start < bits.words.size * 64) (turns : bits.words.size ≤ fuel) :
    loopHighestLe bits fuel start = some (findHighestLe bits start) := by
  rw [loopHighestLe, findHighestLe]
  split
  · rfl
  · rename_i nonneg
    obtain ⟨level, rfl⟩ : ∃ level : Nat, start = level := ⟨start.toNat, by omega⟩
    have inside : level / 64 < bits.words.size := by omega
    have word : (level : Int) / 64 = (level / 64 : Nat) := by omega
    have place : ((level : Int) % 64).toNat = level % 64 := by omega
    simp only [word, place, Int.toNat_natCast, wordAtInside bits inside, Option.bind_some]
    exact loopDownEnds bits _ inside (by omega)

theorem loopLowestGeEnds {bits : LevelBitset} {fuel : Nat} (start : Int)
    (turns : bits.words.size ≤ fuel) :
    loopLowestGe bits fuel start = some (findLowestGe bits start) := by
  obtain ⟨first, floor⟩ : ∃ first : Nat, (if start < 0 then 0 else start) = first :=
    ⟨start.toNat, by split <;> omega⟩
  have top : max start 0 = first := by split at floor <;> omega
  have word : (first : Int) / 64 = (first / 64 : Nat) := by omega
  have place : ((first : Int) % 64).toNat = first % 64 := by omega
  simp only [loopLowestGe, findLowestGe, floor, top, word, place, Int.toNat_natCast, Int.ofNat_le]
  split
  · rfl
  · rename_i inside
    rw [wordAtInside bits (by omega), Option.bind_some]
    exact loopUpEnds bits _ (by omega) (by omega)

theorem nearestGreatest {eligible : Nat → Prop} {found : Int}
    (nearest : Nearest eligible (fun other level => level < other) found) :
    ScanAnswers IsGreatest {level | eligible level} found := by
  by_cases absent : found < 0
  · obtain ⟨minus, empty⟩ := nearest.none absent
    exact .inl ⟨Set.eq_empty_of_forall_notMem empty, minus⟩
  · obtain ⟨here, best⟩ := nearest.some found.toNat (by omega)
    exact .inr ⟨found.toNat,
      ⟨here, fun other there => Nat.le_of_not_lt (best other there)⟩, by omega⟩

theorem nearestLeast {eligible : Nat → Prop} {found : Int}
    (nearest : Nearest eligible (fun other level => other < level) found) :
    ScanAnswers IsLeast {level | eligible level} found := by
  by_cases absent : found < 0
  · obtain ⟨minus, empty⟩ := nearest.none absent
    exact .inl ⟨Set.eq_empty_of_forall_notMem empty, minus⟩
  · obtain ⟨here, best⟩ := nearest.some found.toNat (by omega)
    exact .inr ⟨found.toNat,
      ⟨here, fun other there => Nat.le_of_not_lt (best other there)⟩, by omega⟩

theorem searchesEqualScan (n : Nat) (marks : List Mark) (inside : ∀ mark ∈ marks, mark.level < n) :
    (∀ level : UInt32, level.toNat < n →
      (test (marked n marks) level = true ↔ LastSet marks level.toNat)) ∧
      (∀ start : Int, start < n → ∃ found,
        (∀ fuel, (marked n marks).words.size ≤ fuel →
          loopHighestLe (marked n marks) fuel start = some found) ∧
          found = findHighestLe (marked n marks) start ∧
          ScanAnswers IsGreatest {level : Nat | (level : Int) ≤ start ∧
            LastSet marks level} found) ∧
      ∀ start : Int, ∃ found,
        (∀ fuel, (marked n marks).words.size ≤ fuel →
          loopLowestGe (marked n marks) fuel start = some found) ∧
          found = findLowestGe (marked n marks) start ∧
          ScanAnswers IsLeast {level : Nat | max start 0 ≤ (level : Int) ∧
            LastSet marks level} found := by
  refine ⟨fun level _ => ?_, fun start before => ⟨_, ?_, rfl, ?_⟩, fun start => ⟨_, ?_, rfl, ?_⟩⟩
  · rw [testHas]
    exact hasMarked n marks level.toNat
  · have below : start < (marked n marks).words.size * 64 := by
      rw [sizeMarked]
      omega
    exact fun fuel turns => loopHighestLeEnds below turns
  · refine nearestGreatest
      (nearestCongr (fun level => ?_) (findHighestLeNearest (marked n marks) start))
    rw [hasMarked]
  · exact fun fuel turns => loopLowestGeEnds start turns
  · refine nearestLeast (nearestCongr (fun level => ?_)
      (findLowestGeNearest (marked n marks) start))
    rw [hasMarked, sizeMarked]
    constructor
    · rintro ⟨low, _, last⟩
      exact ⟨by omega, last⟩
    · rintro ⟨low, last⟩
      have bounded := lastSetInside inside last
      exact ⟨by omega, by omega, last⟩

def fourMarks : List Mark := [.set 63, .set 64, .clear 63, .set 130]

theorem fourMarksSearched :
    (∀ mark ∈ fourMarks, mark.level < 131) ∧
      ∃ found, loopHighestLe (marked 131 fourMarks) 3 129 = some found ∧
        ScanAnswers IsGreatest {level : Nat | (level : Int) ≤ 129 ∧
          LastSet fourMarks level} found := by
  obtain ⟨found, ends, _, answers⟩ :=
    (searchesEqualScan 131 fourMarks (by decide)).2.1 129 (by decide)
  exact ⟨by decide, found, ends 3 (by decide), answers⟩

end Xmatch.LevelBitset
