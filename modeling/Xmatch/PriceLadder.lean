import Mathlib.Algebra.Ring.Divisibility.Basic
import Mathlib.Data.Finset.Card
import Mathlib.Data.List.Nodup
import Xmatch.Lib.WordBits
import Xmatch.TickTable

/-! The map between the prices of a band and the indices of the level arrays.
Counts, offsets and indices are 32-bit; the walk over the brackets is exact up to
the one sum that can leave the 64-bit range, where the C++ is undefined. -/
namespace Xmatch

structure Segment where
  startPrice : Int
  endPrice : Int
  tick : Int
  indexOffset : UInt32
  count : UInt32
  deriving DecidableEq, Repr

structure PriceLadder where
  segments : List Segment := []
  totalCount : UInt32 := 0
  bandLo : Int := 0
  bandHi : Int := 0
  deriving DecidableEq, Repr

namespace PriceLadder
open TickTable WordBits

def size (ladder : PriceLadder) : UInt32 := ladder.totalCount

def addPrice (a b : Int) : Option Int :=
  if -kPriceMax - 1 ≤ a + b ∧ a + b ≤ kPriceMax then some (a + b) else none

def nextBreakpoint (schedule : TickSchedule) (cur : Int) : Int :=
  match schedule.find? (fun bracket => decide (cur < bracket.upperExclusive)) with
  | some bracket => bracket.upperExclusive
  | none => kPriceMax

def regimeLast (schedule : TickSchedule) (bandHi cur : Int) : Int :=
  if nextBreakpoint schedule cur = kPriceMax then bandHi
  else min bandHi (nextBreakpoint schedule cur - tickSize schedule cur)

-- `none`: the price sum overflowed, or `fuel` rounds did not reach the end of the band.
def buildLoop (schedule : TickSchedule) (bandHi : Int) :
    Nat → Int → UInt32 → Option (List Segment × UInt32)
  | 0, cur, offset => if cur ≤ bandHi then none else some ([], offset)
  | fuel + 1, cur, offset =>
    if cur ≤ bandHi then
      let step := tickSize schedule cur
      let last := regimeLast schedule bandHi cur
      let count := UInt32.ofInt ((last - cur).tdiv step) + 1
      match addPrice last step with
      | none => none
      | some next =>
        (buildLoop schedule bandHi fuel next (offset + count)).map
          (fun built => (⟨cur, last, step, offset, count⟩ :: built.1, built.2))
    else some ([], offset)

def build (schedule : TickSchedule) (bandLo bandHi : Int) : Option PriceLadder :=
  (buildLoop schedule bandHi schedule.length bandLo 0).map
    (fun built => ⟨built.1, built.2, bandLo, bandHi⟩)

def locate : List Segment → Int → Int
  | [], _ => -1
  | seg :: rest, price =>
    if seg.startPrice ≤ price ∧ price ≤ seg.endPrice then
      let rem := price - seg.startPrice
      if rem.tmod seg.tick ≠ 0 then -1
      else (seg.indexOffset.toNat : Int) + rem.tdiv seg.tick
    else locate rest price

def priceToIndex (ladder : PriceLadder) (price : Int) : Int :=
  if price < ladder.bandLo ∨ ladder.bandHi < price then -1 else locate ladder.segments price

def priceAt : List Segment → UInt32 → Int
  | [], _ => 0
  | seg :: rest, index =>
    if seg.indexOffset ≤ index ∧ index < seg.indexOffset + seg.count then
      seg.startPrice + ((index - seg.indexOffset).toNat : Int) * seg.tick
    else priceAt rest index

def indexToPrice (ladder : PriceLadder) (index : UInt32) : Int := priceAt ladder.segments index

def prices : List Segment → List Int
  | [] => []
  | seg :: rest =>
    (List.range (((seg.endPrice - seg.startPrice) / seg.tick).toNat + 1)).map
      (fun k : Nat => seg.startPrice + (k : Int) * seg.tick) ++ prices rest

/- How many tick-aligned prices a band holds, whatever the width of the counters. -/
def ticksIn (schedule : TickSchedule) (lo hi : Int) : Nat :=
  ((@Finset.Icc Int _ Int.instLocallyFiniteOrder lo hi).filter (fun p =>
    isTickAligned schedule p = true)).card

/- Segments that tile a band: each is a run of equally spaced prices that are all the
aligned prices up to where the next one begins. -/
inductive Tiles (schedule : TickSchedule) (hi : Int) : Int → Nat → List Segment → Prop where
  | done {cur offset} (past : hi < cur) : Tiles schedule hi cur offset []
  | tile {cur offset rest} (n : Nat) (tick : Int) (positive : 0 < tick)
      (inside : cur + n * tick ≤ hi)
      (grid : ∀ p, cur ≤ p → p < cur + (n + 1) * tick →
        (isTickAligned schedule p = true ↔ tick ∣ p - cur))
      (more : Tiles schedule hi (cur + (n + 1) * tick) (offset + (n + 1)) rest) :
      Tiles schedule hi cur offset
        (⟨cur, cur + n * tick, tick, UInt32.ofNat offset, UInt32.ofNat (n + 1)⟩ :: rest)

section Tiled
variable {schedule : TickSchedule} {hi cur : Int} {offset : Nat} {segments : List Segment}

theorem runPrices (n : Nat) {tick : Int} (positive : 0 < tick) (offset count : UInt32)
    (rest : List Segment) :
    prices (⟨cur, cur + n * tick, tick, offset, count⟩ :: rest) =
      (List.range (n + 1)).map (fun k : Nat => cur + (k : Int) * tick) ++ prices rest := by
  have exact : (cur + n * tick - cur) / tick = n := by
    rw [show cur + n * tick - cur = n * tick by omega]
    exact Int.mul_ediv_cancel _ (Int.ne_of_gt positive)
  simp only [prices, exact, Int.toNat_natCast]

theorem runLength (n : Nat) {tick : Int} (positive : 0 < tick) (offset count : UInt32)
    (rest : List Segment) :
    (prices (⟨cur, cur + n * tick, tick, offset, count⟩ :: rest)).length =
      n + 1 + (prices rest).length := by
  rw [runPrices n positive]
  simp

theorem memPrices (tiles : Tiles schedule hi cur offset segments) (p : Int) :
    p ∈ prices segments ↔ isTickAligned schedule p = true ∧ cur ≤ p ∧ p ≤ hi := by
  induction tiles with
  | done past => simp only [prices, List.not_mem_nil, false_iff]; omega
  | @tile cur offset rest n tick positive inside grid more ih =>
    rw [runPrices n positive, List.mem_append, ih, List.mem_map]
    have stretch : cur + (n + 1 : Int) * tick = cur + n * tick + tick := by
      rw [Int.add_mul, Int.one_mul, Int.add_assoc]
    constructor
    · rintro (⟨k, inRange, rfl⟩ | ⟨aligned, low, high⟩)
      · have kn : (k : Int) ≤ n := by have := List.mem_range.mp inRange; omega
        have bound := Int.mul_le_mul_of_nonneg_right kn (Int.le_of_lt positive)
        have low : 0 ≤ (k : Int) * tick := Int.mul_nonneg (by omega) (Int.le_of_lt positive)
        refine ⟨(grid _ (by omega) (by omega)).mpr ⟨k, ?_⟩, by omega, by omega⟩
        rw [Int.mul_comm tick]
        omega
      · have : 0 ≤ (n : Int) * tick := Int.mul_nonneg (by omega) (Int.le_of_lt positive)
        exact ⟨aligned, by omega, high⟩
    · rintro ⟨aligned, low, high⟩
      by_cases here : p < cur + (n + 1) * tick
      · obtain ⟨k, hk⟩ := (grid p low here).mp aligned
        refine .inl ⟨k.toNat, ?_, ?_⟩
        · have small : k * tick < (n + 1) * tick := by rw [Int.mul_comm k, ← hk]; omega
          have := Int.lt_of_mul_lt_mul_right small (Int.le_of_lt positive)
          exact List.mem_range.mpr (by omega)
        · have nonneg : 0 ≤ k := by
            have : 0 ≤ tick * k := by omega
            exact Int.nonneg_of_mul_nonneg_right this positive
          rw [Int.toNat_of_nonneg nonneg, Int.mul_comm]
          omega
      · exact .inr ⟨aligned, by omega, high⟩

theorem pricesAscend (tiles : Tiles schedule hi cur offset segments) :
    (prices segments).Pairwise (· < ·) := by
  induction tiles with
  | done past => exact .nil
  | @tile cur offset rest n tick positive inside grid more ih =>
    rw [runPrices n positive, List.pairwise_append]
    refine ⟨?_, ih, ?_⟩
    · rw [List.pairwise_map]
      refine List.Pairwise.imp ?_ List.pairwise_lt_range
      intro a b less
      have := Int.mul_lt_mul_of_pos_right (show (a : Int) < b by omega) positive
      omega
    · intro a inRun b inRest
      obtain ⟨k, inRange, rfl⟩ := List.mem_map.mp inRun
      have low := ((memPrices more b).mp inRest).2.1
      have kn : (k : Int) < n + 1 := by have := List.mem_range.mp inRange; omega
      have := Int.mul_lt_mul_of_pos_right kn positive
      omega

theorem pricesLength (tiles : Tiles schedule hi cur offset segments) :
    (prices segments).length = ticksIn schedule cur hi := by
  have distinct : (prices segments).Nodup := (pricesAscend tiles).imp (fun h => Int.ne_of_lt h)
  rw [ticksIn, ← List.toFinset_card_of_nodup distinct]
  congr 1
  ext p
  simp only [List.mem_toFinset, memPrices tiles, Finset.mem_filter, Finset.mem_Icc]
  tauto

theorem locateMissing (tiles : Tiles schedule hi cur offset segments) {p : Int}
    (absent : p ∉ prices segments) : locate segments p = -1 := by
  induction tiles with
  | done past => rfl
  | @tile cur offset rest n tick positive inside grid more ih =>
    rw [runPrices n positive, List.mem_append, not_or] at absent
    simp only [locate]
    split
    · rename_i between
      have uneven : (p - cur).tmod tick ≠ 0 := by
        intro even
        obtain ⟨k, hk⟩ := Int.dvd_of_tmod_eq_zero even
        have nonneg : 0 ≤ k := Int.nonneg_of_mul_nonneg_right (show 0 ≤ tick * k by omega) positive
        have bound : k ≤ n := by
          refine Int.le_of_mul_le_mul_right ?_ positive
          rw [Int.mul_comm k, ← hk]
          omega
        refine absent.1 (List.mem_map.mpr ⟨k.toNat, List.mem_range.mpr (by omega), ?_⟩)
        rw [Int.toNat_of_nonneg nonneg, Int.mul_comm]
        omega
      simp [uneven]
    · exact ih absent.2

theorem locateFound (tiles : Tiles schedule hi cur offset segments) {p : Int}
    (member : p ∈ prices segments) : 0 ≤ locate segments p := by
  induction tiles with
  | done past => contradiction
  | @tile cur offset rest n tick positive inside grid more ih =>
    rw [runPrices n positive, List.mem_append] at member
    simp only [locate]
    split
    · rename_i between
      have even : (p - cur).tmod tick = 0 := by
        rcases member with own | later
        · obtain ⟨k, _, rfl⟩ := List.mem_map.mp own
          rw [show cur + (k : Int) * tick - cur = k * tick by omega]
          exact Int.mul_tmod_left _ _
        · have beyond := ((memPrices more p).mp later).2.1
          have stretch : cur + (n + 1 : Int) * tick = cur + n * tick + tick := by
            rw [Int.add_mul, Int.one_mul, Int.add_assoc]
          omega
      rw [if_neg (fun uneven => uneven even)]
      have steps := Int.tdiv_nonneg (show 0 ≤ p - cur by omega) (Int.le_of_lt positive)
      omega
    · rename_i elsewhere
      rcases member with own | later
      · obtain ⟨k, short, rfl⟩ := List.mem_map.mp own
        have few := List.mem_range.mp short
        have low : 0 ≤ (k : Int) * tick := Int.mul_nonneg (by omega) (Int.le_of_lt positive)
        have high : (k : Int) * tick ≤ n * tick :=
          Int.mul_le_mul_of_nonneg_right (by omega) (Int.le_of_lt positive)
        omega
      · exact ih later

theorem locatePrice (tiles : Tiles schedule hi cur offset segments)
    (narrow : offset + (prices segments).length < 2 ^ 32) {i : Nat} {p : Int}
    (place : (prices segments)[i]? = some p) : locate segments p = ((offset + i : Nat) : Int) := by
  induction tiles generalizing i with
  | done past => simp [prices] at place
  | @tile cur offset rest n tick positive within grid more ih =>
    rw [runPrices n positive] at place narrow
    simp only [List.length_append, List.length_map, List.length_range] at narrow
    rw [List.getElem?_append, List.length_map, List.length_range] at place
    by_cases here : i < n + 1
    · simp only [here, if_true, List.getElem?_map, List.getElem?_range, Option.map_some,
        Option.some.injEq] at place
      subst place
      have low : 0 ≤ (i : Int) * tick := Int.mul_nonneg (by omega) (Int.le_of_lt positive)
      have high : (i : Int) * tick ≤ n * tick :=
        Int.mul_le_mul_of_nonneg_right (by omega) (Int.le_of_lt positive)
      have offsetExact : (UInt32.ofNat offset).toNat = offset := toNatOfNat (by omega)
      have rem : cur + (i : Int) * tick - cur = i * tick := by omega
      have between : cur ≤ cur + (i : Int) * tick ∧
          cur + (i : Int) * tick ≤ cur + n * tick := by omega
      simp only [locate, between, and_self, if_true, rem, Int.mul_tmod_left, ne_eq,
        not_true_eq_false, if_false, Int.mul_tdiv_cancel _ (Int.ne_of_gt positive), offsetExact]
      omega
    · rw [if_neg here] at place
      have later := ((memPrices more p).mp (List.mem_of_getElem? place)).2.1
      have stretch : cur + (n + 1 : Int) * tick = cur + n * tick + tick := by
        rw [Int.add_mul, Int.one_mul, Int.add_assoc]
      simp only [locate]
      rw [if_neg (by omega), ih (by omega) place]
      omega

theorem priceAtIndex (tiles : Tiles schedule hi cur offset segments)
    (narrow : offset + (prices segments).length < 2 ^ 32) {i : Nat} {p : Int}
    (place : (prices segments)[i]? = some p) :
    priceAt segments (UInt32.ofNat (offset + i)) = p := by
  induction tiles generalizing i with
  | done past => simp [prices] at place
  | @tile cur offset rest n tick positive within grid more ih =>
    have short := (List.getElem?_eq_some_iff.mp place).1
    rw [runPrices n positive] at place narrow short
    simp only [List.length_append, List.length_map, List.length_range] at narrow short
    have indexExact : (UInt32.ofNat (offset + i)).toNat = offset + i := toNatOfNat (by omega)
    have offsetExact : (UInt32.ofNat offset).toNat = offset := toNatOfNat (by omega)
    have endExact : (UInt32.ofNat offset + UInt32.ofNat (n + 1)).toNat = offset + (n + 1) := by
      rw [← UInt32.ofNat_add]
      exact toNatOfNat (by omega)
    simp only [priceAt, UInt32.le_iff_toNat_le, UInt32.lt_iff_toNat_lt, indexExact, offsetExact,
      endExact]
    rw [List.getElem?_append, List.length_map, List.length_range] at place
    by_cases here : i < n + 1
    · simp only [here, if_true, List.getElem?_map, List.getElem?_range, Option.map_some,
        Option.some.injEq] at place
      rw [if_pos (by omega),
        UInt32.toNat_sub_of_le _ _ (by rw [UInt32.le_iff_toNat_le, indexExact, offsetExact]; omega),
        indexExact, offsetExact, ← place]
      simp
    · rw [if_neg here] at place
      rw [if_neg (by omega)]
      have rest := ih (by omega) place
      rwa [show offset + (n + 1) + (i - (n + 1)) = offset + i by omega] at rest

end Tiled

/- One round of the loop covers the rest of one bracket. A bracket that does not end on
a multiple of its own tick loses its last price: `nextBreakpoint - step` lies below it. -/
def Regular (schedule : TickSchedule) (lo hi : Int) : Prop :=
  ∀ bracket ∈ schedule.dropLast, lo ≤ lastMultiple bracket → lastMultiple bracket ≤ hi →
    bracket.tick ∣ bracket.upperExclusive

section Walk
variable {schedule pre post : TickSchedule} {lo hi cur : Int} {bracket : TickBracket}

theorem memDropLast (split : schedule = pre ++ bracket :: post) (more : post ≠ []) :
    bracket ∈ schedule.dropLast := by
  rw [split, List.dropLast_append_of_ne_nil (by simp), List.dropLast_cons_of_ne_nil more]
  simp

theorem upperBelowMax (ok : Checked schedule) (split : schedule = pre ++ bracket :: post)
    (more : post ≠ []) : bracket.upperExclusive < kPriceMax := by
  rcases List.eq_nil_or_concat post with none | ⟨post', last, rfl⟩
  · contradiction
  · rw [List.concat_eq_append] at split
    have top := ok.openEnded (pre ++ bracket :: post') last (by rw [split]; simp)
    have ascending := ok.ascending
    rw [split, List.pairwise_append] at ascending
    rw [← top]
    exact (List.pairwise_cons.mp ascending.2.1).1 last (by simp)

theorem nextBreakpointWithin (ok : Checked schedule)
    (inside : Within schedule cur pre bracket post) :
    nextBreakpoint schedule cur = bracket.upperExclusive := by
  unfold nextBreakpoint
  rcases findWithin inside with found | ⟨last, found⟩
  · rw [found]
  · rw [found]
    exact (ok.openEnded pre bracket (by rw [inside.split, last])).symm

theorem regimeLastWithin (hi : Int) (ok : Checked schedule)
    (inside : Within schedule cur pre bracket post) :
    regimeLast schedule hi cur =
      if post = [] then hi else min hi (bracket.upperExclusive - bracket.tick) := by
  unfold regimeLast
  rw [nextBreakpointWithin ok inside, tickSizeWithin inside]
  by_cases last : post = []
  · have top := ok.openEnded pre bracket (by rw [inside.split, last])
    simp [last, top]
  · have := upperBelowMax ok inside.split last
    rw [if_neg (by omega), if_neg last]

/- What a round does: from `cur` it takes `n + 1` prices, all the aligned ones of the
bracket, and ends either on the end of the band or right below the next bracket. -/
structure Round (schedule : TickSchedule) (hi cur : Int) (bracket : TickBracket)
    (post : TickSchedule) (n : Nat) : Prop where
  last : regimeLast schedule hi cur = cur + n * bracket.tick
  high : cur + n * bracket.tick ≤ hi
  grid : ∀ p, cur ≤ p → p < cur + (n + 1) * bracket.tick →
    (isTickAligned schedule p = true ↔ bracket.tick ∣ p - cur)
  ends : (cur + n * bracket.tick = hi ∧ tickSize schedule hi = bracket.tick) ∨
    (post ≠ [] ∧ cur + (n + 1) * bracket.tick = bracket.upperExclusive ∧
      bracket.upperExclusive ≤ hi)

theorem stretch (cur tick : Int) (n : Nat) : cur + (n + 1) * tick = cur + n * tick + tick := by
  rw [Int.add_mul, Int.one_mul, Int.add_assoc]

theorem stepsTo (last : Int) {tick : Int} (positive : 0 < tick) (low : cur ≤ last)
    (whole : tick ∣ last - cur) : ∃ n : Nat, last = cur + n * tick := by
  obtain ⟨k, hk⟩ := whole
  have nonneg : 0 ≤ k := Int.nonneg_of_mul_nonneg_right (show 0 ≤ tick * k by omega) positive
  obtain ⟨n, rfl⟩ := Int.eq_ofNat_of_zero_le nonneg
  exact ⟨n, by rw [Int.mul_comm (n : Int)]; omega⟩

theorem round (ok : Checked schedule) (inside : Within schedule cur pre bracket post)
    (start : isTickAligned schedule cur = true) (stop : isTickAligned schedule hi = true)
    (order : cur ≤ hi) (begun : lo ≤ cur) (regular : Regular schedule lo hi) :
    ∃ n, Round schedule hi cur bracket post n := by
  have tick := tickOf ok inside
  obtain ⟨positive, curMultiple⟩ := (alignedWithin inside).mp start
  have curRem := Int.emod_nonneg cur (Int.ne_of_gt tick)
  have upperHigh := Int.emod_lt_of_pos bracket.upperExclusive tick
  have grid : ∀ p, cur ≤ p → (post ≠ [] → p < bracket.upperExclusive) →
      (isTickAligned schedule p = true ↔ bracket.tick ∣ p - cur) := by
    intro p low high
    rw [alignedWithin (withinFrom ok inside (by omega) high), dvd_sub_left curMultiple]
    exact ⟨fun h => h.2, fun h => ⟨by omega, h⟩⟩
  have toEnd (stays : post ≠ [] → hi < bracket.upperExclusive) :
      tickSize schedule hi = bracket.tick ∧ bracket.tick ∣ hi ∧ ∃ n : Nat,
      hi = cur + n * bracket.tick := by
    have hiInside := withinFrom ok inside (q := hi) (by omega) stays
    have hiMultiple := ((alignedWithin hiInside).mp stop).2
    exact ⟨tickSizeWithin hiInside, hiMultiple,
      stepsTo hi tick order (dvd_sub hiMultiple curMultiple)⟩
  have atEnd := regimeLastWithin hi ok inside
  by_cases last : post = []
  · obtain ⟨same, _, n, reach⟩ := toEnd (fun more => absurd last more)
    rw [if_pos last, reach] at atEnd
    exact ⟨n, by rw [← reach] at atEnd ⊢; exact atEnd, by omega,
      fun p low _ => grid p low (fun more => absurd last more), .inl ⟨reach.symm, same⟩⟩
  · rw [if_neg last] at atEnd
    have below := inside.below last
    by_cases stays : hi < bracket.upperExclusive
    · obtain ⟨same, hiMultiple, n, reach⟩ := toEnd (fun _ => stays)
      have hiRem := Int.emod_eq_zero_of_dvd hiMultiple
      have room : hi ≤ bracket.upperExclusive - bracket.tick := by
        by_cases even : bracket.tick ∣ bracket.upperExclusive
        · have := nextMultiple (x := hi) even (by omega)
          omega
        · by_contra close
          have unique :=
            multipleUnique (x := bracket.upperExclusive) hiMultiple (by omega) (by omega)
          exact even (regular bracket (memDropLast inside.split last)
            (by unfold lastMultiple; omega) (by unfold lastMultiple; omega))
      rw [Int.min_eq_left room] at atEnd
      exact ⟨n, by rw [atEnd, reach], by omega,
        fun p low high => grid p low (fun _ => by rw [stretch] at high; omega),
        .inl ⟨reach.symm, same⟩⟩
    · have reached : cur ≤ lastMultiple bracket := by
        by_contra beyond
        have :=
          nextMultiple (x := bracket.upperExclusive) curMultiple
            (by unfold lastMultiple at beyond; omega)
        omega
      have upperLow := Int.emod_nonneg bracket.upperExclusive (Int.ne_of_gt tick)
      have even := regular bracket (memDropLast inside.split last) (by omega)
        (by unfold lastMultiple; omega)
      have next := nextMultiple (x := cur) even (by omega)
      rw [Int.emod_eq_zero_of_dvd curMultiple] at next
      obtain ⟨n, reach⟩ := stepsTo (bracket.upperExclusive - bracket.tick) tick (by omega)
        (dvd_sub (dvd_sub even (dvd_refl _)) curMultiple)
      rw [Int.min_eq_right (by omega)] at atEnd
      exact ⟨n, by rw [atEnd, reach], by omega,
        fun p low high => grid p low (fun _ => by rw [stretch] at high; omega),
        .inr ⟨last, by rw [stretch]; omega, by omega⟩⟩

theorem loopRound {n : Nat} (positive : 0 < bracket.tick)
    (step : tickSize schedule cur = bracket.tick) (order : cur ≤ hi) (above : 0 ≤ cur)
    (round : Round schedule hi cur bracket post n) (fuel offset : Nat) :
    buildLoop schedule hi (fuel + 1) cur (UInt32.ofNat offset) =
      if cur + (n + 1) * bracket.tick ≤ kPriceMax then
        (buildLoop schedule hi fuel (cur + (n + 1) * bracket.tick)
          (UInt32.ofNat (offset + (n + 1)))).map
          (fun built => (⟨cur, cur + n * bracket.tick, bracket.tick, UInt32.ofNat offset,
            UInt32.ofNat (n + 1)⟩ :: built.1, built.2))
      else none := by
  have count : UInt32.ofInt ((cur + n * bracket.tick - cur).tdiv bracket.tick) + 1 =
      UInt32.ofNat (n + 1) := by
    rw [show cur + n * bracket.tick - cur = n * bracket.tick by omega,
      Int.mul_tdiv_cancel _ (Int.ne_of_gt positive), ofIntNatCast, UInt32.ofNat_add]
    rfl
  have grown : 0 ≤ (n : Int) * bracket.tick := Int.mul_nonneg (by omega) (Int.le_of_lt positive)
  simp only [buildLoop, order, if_true, step, round.last, count, addPrice]
  rw [stretch, UInt32.ofNat_add offset (n + 1)]
  by_cases fits : cur + n * bracket.tick + bracket.tick ≤ kPriceMax
  · rw [if_pos ⟨by unfold kPriceMax; omega, fits⟩, if_pos fits]
  · rw [if_neg (fun h => fits h.2), if_neg fits]

theorem loopPast (past : hi < cur) (fuel : Nat) (offset : UInt32) :
    buildLoop schedule hi fuel cur offset = some ([], offset) := by
  have stop : ¬cur ≤ hi := by omega
  cases fuel <;> simp [buildLoop, stop]

theorem loopTiles (ok : Checked schedule) (stop : isTickAligned schedule hi = true)
    (fits : hi + tickSize schedule hi ≤ kPriceMax) (regular : Regular schedule lo hi)
    (inside : Within schedule cur pre bracket post) (start : isTickAligned schedule cur = true)
    (order : cur ≤ hi) (begun : lo ≤ cur) (offset : Nat) :
    ∃ segments, Tiles schedule hi cur offset segments ∧
      ∀ fuel, post.length < fuel → buildLoop schedule hi fuel cur (UInt32.ofNat offset) =
        some (segments, UInt32.ofNat (offset + (prices segments).length)) := by
  induction post generalizing cur pre bracket offset with
  | nil =>
    have tick := tickOf ok inside
    have positive := ((alignedWithin inside).mp start).1
    obtain ⟨n, here⟩ := round ok inside start stop order begun regular
    obtain ⟨atEnd, same⟩ := here.ends.resolve_right (fun h => h.1 rfl)
    have next : cur + (n + 1) * bracket.tick = hi + tickSize schedule hi := by
      rw [stretch, atEnd, same]
    refine ⟨_, .tile n bracket.tick tick here.high here.grid (.done (by omega)),
      fun fuel enough => ?_⟩
    obtain ⟨fuel, rfl⟩ := Nat.exists_eq_succ_of_ne_zero (show fuel ≠ 0 by omega)
    rw [Nat.succ_eq_add_one, loopRound tick (tickSizeWithin inside) order (by omega) here,
      if_pos (by omega), loopPast (by omega), runLength n tick]
    rfl
  | cons b rest ih =>
    have tick := tickOf ok inside
    have positive := ((alignedWithin inside).mp start).1
    obtain ⟨n, here⟩ := round ok inside start stop order begun regular
    rcases here.ends with ⟨atEnd, same⟩ | ⟨more, next, reach⟩
    · have next : cur + (n + 1) * bracket.tick = hi + tickSize schedule hi := by
        rw [stretch, atEnd, same]
      refine ⟨_, .tile n bracket.tick tick here.high here.grid (.done (by omega)),
        fun fuel enough => ?_⟩
      obtain ⟨fuel, rfl⟩ := Nat.exists_eq_succ_of_ne_zero (show fuel ≠ 0 by omega)
      rw [Nat.succ_eq_add_one, loopRound tick (tickSizeWithin inside) order (by omega) here,
        if_pos (by omega), loopPast (by omega), runLength n tick]
      rfl
    · obtain ⟨b', rest', same, later⟩ := nextWithin ok inside more
      obtain ⟨rfl, rfl⟩ := List.cons.inj same
      have below := inside.below more
      obtain ⟨segments, tiles, built⟩ :=
        ih later (endAligned ok inside more positive) reach (by omega) (offset + (n + 1))
      refine ⟨_, .tile n bracket.tick tick here.high here.grid (by rw [next]; exact tiles),
        fun fuel enough => ?_⟩
      obtain ⟨fuel, rfl⟩ := Nat.exists_eq_succ_of_ne_zero (show fuel ≠ 0 by omega)
      have room := upperBelowMax ok inside.split more
      rw [Nat.succ_eq_add_one, loopRound tick (tickSizeWithin inside) order (by omega) here,
        if_pos (by omega), next, built fuel (by simpa using enough), runLength n tick,
        Nat.add_assoc]
      rfl

theorem loopOverflows (ok : Checked schedule) (stop : isTickAligned schedule hi = true)
    (overflows : kPriceMax < hi + tickSize schedule hi) (regular : Regular schedule lo hi)
    (inside : Within schedule cur pre bracket post) (start : isTickAligned schedule cur = true)
    (order : cur ≤ hi) (begun : lo ≤ cur) (fuel offset : Nat) :
    buildLoop schedule hi fuel cur (UInt32.ofNat offset) = none := by
  induction fuel generalizing cur pre bracket post offset with
  | zero => simp [buildLoop, order]
  | succ fuel ih =>
    have tick := tickOf ok inside
    have positive := ((alignedWithin inside).mp start).1
    obtain ⟨n, here⟩ := round ok inside start stop order begun regular
    rw [loopRound tick (tickSizeWithin inside) order (by omega) here]
    rcases here.ends with ⟨atEnd, same⟩ | ⟨more, next, reach⟩
    · rw [if_neg]
      rw [stretch, atEnd, ← same]
      omega
    · obtain ⟨b, rest, rfl, later⟩ := nextWithin ok inside more
      have below := inside.below more
      rw [next, ih later (endAligned ok inside more positive) reach (by omega)]
      simp

/- Whatever the schedule, no segment reaches past `nextBreakpoint - step` of its bracket. -/
theorem segmentsShort (fuel : Nat) (offset : UInt32) {built : List Segment × UInt32}
    (ran : buildLoop schedule hi fuel cur offset = some built) (seg : Segment)
    (member : seg ∈ built.1) : seg.endPrice = regimeLast schedule hi seg.startPrice := by
  induction fuel generalizing cur offset built with
  | zero =>
    simp only [buildLoop] at ran
    split at ran <;> simp_all
    subst ran
    simp at member
  | succ fuel ih =>
    simp only [buildLoop] at ran
    split at ran
    · split at ran
      · contradiction
      · obtain ⟨rest, found, rfl⟩ := Option.map_eq_some_iff.mp ran
        rcases List.mem_cons.mp member with rfl | later
        · rfl
        · exact ih _ found later
    · cases Option.some.inj ran
      simp at member

theorem locateUncovered {segments : List Segment} {p : Int}
    (uncovered : ∀ seg ∈ segments, ¬(seg.startPrice ≤ p ∧ p ≤ seg.endPrice)) :
    locate segments p = -1 := by
  induction segments with
  | nil => rfl
  | cons seg rest ih =>
    simp only [locate]
    rw [if_neg (uncovered seg List.mem_cons_self)]
    exact ih (fun other member => uncovered other (List.mem_cons_of_mem _ member))

theorem splitDropLast (member : bracket ∈ schedule.dropLast) :
    ∃ pre post, schedule = pre ++ bracket :: post ∧ post ≠ [] := by
  have nonempty : schedule ≠ [] := by rintro rfl; simp at member
  obtain ⟨pre, rest, split⟩ := List.append_of_mem member
  refine ⟨pre, rest ++ [schedule.getLast nonempty], ?_, by simp⟩
  rw [← List.cons_append, ← List.append_assoc, ← split]
  exact (List.dropLast_append_getLast nonempty).symm

theorem withinLast (ok : Checked schedule) (split : schedule = pre ++ bracket :: post)
    (uneven : ¬bracket.tick ∣ bracket.upperExclusive) {q : Int} (low : lastMultiple bracket ≤ q)
    (high : q < bracket.upperExclusive) : Within schedule q pre bracket post := by
  have tick := ok.positive bracket (by rw [split]; simp)
  have ascending := ok.ascending
  rw [split, List.pairwise_append] at ascending
  have last : Within schedule (bracket.upperExclusive - 1) pre bracket post :=
    ⟨split, fun a member => by have := ascending.2.2 a member bracket (by simp); omega, fun _ => by omega⟩
  have remLow := Int.emod_nonneg bracket.upperExclusive (Int.ne_of_gt tick)
  have remHigh := Int.emod_lt_of_pos bracket.upperExclusive tick
  have remainder : bracket.upperExclusive % bracket.tick ≠ 0 :=
    fun h => uneven (Int.dvd_of_emod_eq_zero h)
  have base := multipleUnique (x := bracket.upperExclusive - 1)
    (multipleBelow bracket.tick bracket.upperExclusive) (by omega) (by omega)
  exact withinFrom ok last (by unfold lastMultiple at low; omega) (fun _ => high)

/- The last multiple of an uneven bracket is in no segment: the one that would hold it
ends a tick below the breakpoint. -/
theorem lastUncovered (hi : Int) (ok : Checked schedule) (split : schedule = pre ++ bracket :: post)
    (more : post ≠ []) (uneven : ¬bracket.tick ∣ bracket.upperExclusive) (start : Int)
    (order : start ≤ lastMultiple bracket) :
    regimeLast schedule hi start < lastMultiple bracket := by
  have tick := ok.positive bracket (by rw [split]; simp)
  have remLow := Int.emod_nonneg bracket.upperExclusive (Int.ne_of_gt tick)
  have remHigh := Int.emod_lt_of_pos bracket.upperExclusive tick
  have remainder : bracket.upperExclusive % bracket.tick ≠ 0 :=
    fun h => uneven (Int.dvd_of_emod_eq_zero h)
  have below : lastMultiple bracket < bracket.upperExclusive := by unfold lastMultiple; omega
  have own := withinLast ok split uneven (Int.le_refl _) below
  obtain ⟨pre', first, post', inside⟩ := within ok.nonempty start
  have ascending := ok.ascending
  have member : first ∈ schedule := by rw [inside.split]; simp
  have notLater : first ∈ pre ∨ first = bracket := by
    rw [split, List.mem_append, List.mem_cons] at member
    rcases member with early | same | late
    · exact .inl early
    · exact .inr same
    · exfalso
      rw [split, List.pairwise_append] at ascending
      have higher := (List.pairwise_cons.mp ascending.2.1).1 first late
      have passed : bracket ∈ pre' := by
        have here : bracket ∈ pre' ++ first :: post' := by rw [← inside.split, split]; simp
        rcases List.mem_append.mp here with early | rest
        · exact early
        · have order' := ok.ascending
          rw [inside.split, List.pairwise_append] at order'
          rcases List.mem_cons.mp rest with same | beyond
          · rw [same] at higher
            omega
          · have := (List.pairwise_cons.mp order'.2.1).1 bracket beyond
            omega
      have := inside.above bracket passed
      omega
  have firstTick := tickOf ok inside
  rcases notLater with early | rfl
  · have := own.above first early
    rw [regimeLast, nextBreakpointWithin ok inside, tickSizeWithin inside, if_neg]
    · omega
    · have := upperBelowMax ok split more
      omega
  · have := upperBelowMax ok split more
    rw [regimeLast, nextBreakpointWithin ok inside, tickSizeWithin inside, if_neg (by omega)]
    unfold lastMultiple
    omega

end Walk

structure Numbered (schedule : TickSchedule) (lo hi : Int) (ladder : PriceLadder) : Prop where
  index : ∀ p, isTickAligned schedule p = true → lo ≤ p → p ≤ hi →
    ∃ i < ladder.size.toNat, ladder.priceToIndex p = (i : Int) ∧
    ladder.indexToPrice (UInt32.ofNat i) = p
  none : ∀ p, ¬(isTickAligned schedule p = true ∧ lo ≤ p ∧ p ≤ hi) → ladder.priceToIndex p = -1
  price : ∀ i < ladder.size.toNat,
    isTickAligned schedule (ladder.indexToPrice (UInt32.ofNat i)) = true ∧
    lo ≤ ladder.indexToPrice (UInt32.ofNat i) ∧ ladder.indexToPrice (UInt32.ofNat i) ≤ hi ∧
    ladder.priceToIndex (ladder.indexToPrice (UInt32.ofNat i)) = (i : Int)
  ascends : ∀ i j, i < j → j < ladder.size.toNat →
    ladder.indexToPrice (UInt32.ofNat i) < ladder.indexToPrice (UInt32.ofNat j)

section Bands
variable {schedule : TickSchedule} {lo hi : Int}

/- A band is regular when every bracket in it ends on its own tick, as in a table where
each breakpoint is a multiple of the tick below it. -/
theorem tiledLadder (ok : Checked schedule) (start : isTickAligned schedule lo = true)
    (stop : isTickAligned schedule hi = true) (order : lo ≤ hi)
    (fits : hi + tickSize schedule hi ≤ kPriceMax) (regular : Regular schedule lo hi) :
    ∃ segments, Tiles schedule hi lo 0 segments ∧ ∀ fuel, schedule.length ≤ fuel →
      buildLoop schedule hi fuel lo 0 = some (segments, UInt32.ofNat (prices segments).length) := by
  obtain ⟨pre, bracket, post, inside⟩ := within ok.nonempty lo
  obtain ⟨segments, tiles, built⟩ :=
    loopTiles ok stop fits regular inside start order (Int.le_refl _) 0
  refine ⟨segments, tiles, fun fuel enough => ?_⟩
  have shorter : post.length < fuel := by
    have := congrArg List.length inside.split
    simp only [List.length_append, List.length_cons] at this
    omega
  simpa using built fuel shorter

theorem builtAdmits (ok : Checked schedule) (start : isTickAligned schedule lo = true)
    (stop : isTickAligned schedule hi = true) (order : lo ≤ hi)
    (fits : hi + tickSize schedule hi ≤ kPriceMax) (regular : Regular schedule lo hi)
    {ladder : PriceLadder} (built : build schedule lo hi = some ladder) (p : Int) :
    0 ≤ ladder.priceToIndex p ↔ isTickAligned schedule p = true ∧ lo ≤ p ∧ p ≤ hi := by
  obtain ⟨segments, tiles, loop⟩ := tiledLadder ok start stop order fits regular
  rw [build, loop schedule.length (Nat.le_refl _)] at built
  cases Option.some.inj built
  rw [← memPrices tiles p]
  by_cases member : p ∈ prices segments
  · obtain ⟨_, low, high⟩ := (memPrices tiles p).mp member
    refine iff_of_true ?_ member
    rw [priceToIndex, if_neg (by simp only; omega)]
    exact locateFound tiles member
  · refine iff_of_false (fun found => ?_) member
    rw [priceToIndex] at found
    split at found
    · omega
    · rw [locateMissing tiles member] at found
      omega

theorem buildNumbered (ok : Checked schedule) (start : isTickAligned schedule lo = true)
    (stop : isTickAligned schedule hi = true) (order : lo ≤ hi)
    (fits : hi + tickSize schedule hi ≤ kPriceMax) (regular : Regular schedule lo hi)
    (few : ticksIn schedule lo hi < 2 ^ 32) :
    ∃ ladder, build schedule lo hi = some ladder ∧ Numbered schedule lo hi ladder ∧
      ladder.size.toNat = ticksIn schedule lo hi ∧ ladder.bandLo = lo ∧ ladder.bandHi = hi := by
  obtain ⟨segments, tiles, built⟩ := tiledLadder ok start stop order fits regular
  have length := pricesLength tiles
  have narrow : 0 + (prices segments).length < 2 ^ 32 := by omega
  have sizeExact : (UInt32.ofNat (prices segments).length).toNat = (prices segments).length :=
    toNatOfNat (by omega)
  refine ⟨⟨segments, UInt32.ofNat (prices segments).length, lo, hi⟩,
    by simp [build, built schedule.length (Nat.le_refl _)], ⟨?_, ?_, ?_, ?_⟩, by simpa [size, sizeExact], rfl, rfl⟩
  · intro p aligned low high
    obtain ⟨i, place⟩ := List.mem_iff_getElem?.mp ((memPrices tiles p).mpr ⟨aligned, low, high⟩)
    have short := (List.getElem?_eq_some_iff.mp place).1
    refine ⟨i, by simpa [size, sizeExact], ?_, ?_⟩
    · simpa [priceToIndex, Int.not_lt.mpr low, Int.not_lt.mpr high] using locatePrice
        tiles narrow place
    · simpa [indexToPrice] using priceAtIndex tiles narrow place
  · intro p outside
    by_cases band : p < lo ∨ hi < p
    · simp [priceToIndex, band]
    · simp only [priceToIndex, band, if_false]
      exact locateMissing tiles (fun member => outside ((memPrices tiles p).mp member))
  · intro i small
    simp only [size, sizeExact] at small
    have place : (prices segments)[i]? = some (prices segments)[i] := List.getElem?_eq_getElem small
    have back := priceAtIndex tiles narrow place
    have member := (memPrices tiles _).mp (List.mem_of_getElem? place)
    simp only [indexToPrice, Nat.zero_add] at back ⊢
    rw [back]
    refine ⟨member.1, member.2.1, member.2.2, ?_⟩
    simpa [priceToIndex, Int.not_lt.mpr member.2.1, Int.not_lt.mpr member.2.2] using
      locatePrice tiles narrow place
  · intro i j less small
    simp only [size, sizeExact] at small
    have first :=
      priceAtIndex tiles narrow
        (List.getElem?_eq_getElem (show i < (prices segments).length by omega))
    have second := priceAtIndex tiles narrow (List.getElem?_eq_getElem small)
    simp only [indexToPrice, Nat.zero_add] at first second ⊢
    rw [first, second]
    exact List.pairwise_iff_getElem.mp (pricesAscend tiles) i j _ _ less

/- The ladder the documentation promises for a band: `build` finishes, the aligned prices
of the band and no others have an index, and they are numbered in order from zero. -/
def LadderRight (schedule : TickSchedule) (lo hi : Int) : Prop :=
  ∃ ladder, build schedule lo hi = some ladder ∧
    (∀ fuel, schedule.length ≤ fuel →
      buildLoop schedule hi fuel lo 0 = some (ladder.segments, ladder.totalCount)) ∧
    (∀ p, 0 ≤ ladder.priceToIndex p ↔ isTickAligned schedule p = true ∧ lo ≤ p ∧ p ≤ hi) ∧
    ∃ ascending : List Int, ascending.Pairwise (· < ·) ∧
      (∀ p, p ∈ ascending ↔ isTickAligned schedule p = true ∧ lo ≤ p ∧ p ≤ hi) ∧
      ascending.length = ladder.size.toNat ∧
      ∀ (i : Nat) p, ascending[i]? = some p → ladder.priceToIndex p = (i : Int)

theorem rightWhenRegular (ok : Checked schedule) (start : isTickAligned schedule lo = true)
    (stop : isTickAligned schedule hi = true) (order : lo ≤ hi)
    (fits : hi + tickSize schedule hi ≤ kPriceMax) (regular : Regular schedule lo hi)
    (few : ticksIn schedule lo hi < 2 ^ 32) : LadderRight schedule lo hi := by
  obtain ⟨segments, tiles, built⟩ := tiledLadder ok start stop order fits regular
  have length := pricesLength tiles
  have narrow : 0 + (prices segments).length < 2 ^ 32 := by omega
  have inBand : ∀ p, p ∈ prices segments → lo ≤ p ∧ p ≤ hi :=
    fun p member => ((memPrices tiles p).mp member).2
  have index : ∀ (i : Nat) p, (prices segments)[i]? = some p →
      priceToIndex ⟨segments, UInt32.ofNat (prices segments).length, lo, hi⟩ p = (i : Int) := by
    intro i p place
    obtain ⟨low, high⟩ := inBand p (List.mem_of_getElem? place)
    simpa [priceToIndex, Int.not_lt.mpr low, Int.not_lt.mpr high] using locatePrice
      tiles narrow place
  refine ⟨⟨segments, UInt32.ofNat (prices segments).length, lo, hi⟩,
    by simp [build, built schedule.length (Nat.le_refl _)], built, fun p => ?_,
    prices segments, pricesAscend tiles, memPrices tiles, ?_, index⟩
  · rw [← memPrices tiles p]
    constructor
    · intro found
      by_contra missing
      have gone : priceToIndex ⟨segments, UInt32.ofNat (prices segments).length, lo,
        hi⟩ p = -1 := by
        simp only [priceToIndex, locateMissing tiles missing, ite_self]
      omega
    · intro member
      obtain ⟨i, place⟩ := List.mem_iff_getElem?.mp member
      rw [index i p place]
      omega
  · exact (toNatOfNat (by omega)).symm

theorem rightOnlyWhenRegular (ok : Checked schedule) (start : isTickAligned schedule lo = true)
    (right : LadderRight schedule lo hi) : Regular schedule lo hi := by
  obtain ⟨ladder, built, _, indexed, _⟩ := right
  intro bracket member low high
  by_contra uneven
  obtain ⟨pre, post, split, more⟩ := splitDropLast member
  have positive := (alignedIff.mp start).1
  have tick := ok.positive bracket (by rw [split]; simp)
  have remainder : bracket.upperExclusive % bracket.tick ≠ 0 :=
    fun h => uneven (Int.dvd_of_emod_eq_zero h)
  have remLow := Int.emod_nonneg bracket.upperExclusive (Int.ne_of_gt tick)
  have own := withinLast ok split uneven (Int.le_refl (lastMultiple bracket))
      (by unfold lastMultiple; omega)
  have found := (indexed (lastMultiple bracket)).mpr
    ⟨(alignedWithin own).mpr ⟨by omega, multipleBelow _ _⟩, low, high⟩
  obtain ⟨parts, ran, rfl⟩ := Option.map_eq_some_iff.mp built
  have missing : locate parts.1 (lastMultiple bracket) = -1 := by
    refine locateUncovered (fun seg inLadder covers => ?_)
    have := segmentsShort schedule.length 0 ran seg inLadder
    have := lastUncovered hi ok split more uneven seg.startPrice covers.1
    omega
  simp only [priceToIndex, missing, ite_self] at found
  omega

theorem rightOnlyWhenFits (ok : Checked schedule) (start : isTickAligned schedule lo = true)
    (stop : isTickAligned schedule hi = true) (order : lo ≤ hi)
    (right : LadderRight schedule lo hi) : hi + tickSize schedule hi ≤ kPriceMax := by
  by_contra unfit
  obtain ⟨pre, bracket, post, inside⟩ := within ok.nonempty lo
  have fails : buildLoop schedule hi schedule.length lo 0 = none :=
    loopOverflows ok stop (by omega) (rightOnlyWhenRegular ok start right) inside start order
      (Int.le_refl _) schedule.length 0
  obtain ⟨ladder, built, _⟩ := right
  rw [build, fails] at built
  contradiction

theorem ceilRightIff (ok : Checked schedule) {p : Int} (positive : 0 < p) :
    (ceilToTick schedule p ≤ kPriceMax → IsCeil schedule p (ceilToTick schedule p)) ↔
      ∀ bracket ∈ schedule.dropLast, bracket.tick ∣ bracket.upperExclusive ∨
        p ≤ lastMultiple bracket ∨
        bracket.upperExclusive ≤ p ∨ kPriceMax < lastMultiple bracket + bracket.tick := by
  have stepsOver : ∀ {pre bracket post}, Within schedule p pre bracket post →
      ¬bracket.tick ∣ bracket.upperExclusive → lastMultiple bracket < p →
      p < bracket.upperExclusive →
      ceilToTick schedule p = lastMultiple bracket + bracket.tick := by
    intro pre bracket post inside uneven beyond short
    have tick := tickOf ok inside
    have remHigh := Int.emod_lt_of_pos bracket.upperExclusive tick
    have base := multipleUnique (x := p) (multipleBelow bracket.tick bracket.upperExclusive)
      (by unfold lastMultiple at beyond; omega) (by omega)
    rw [ceilEq inside positive, if_neg]
    · unfold lastMultiple
      omega
    · intro multiple
      rw [Int.emod_eq_zero_of_dvd multiple] at base
      unfold lastMultiple at beyond
      omega
  constructor
  · intro right bracket member
    obtain ⟨pre, post, split, more⟩ := splitDropLast member
    by_contra ragged
    simp only [not_or, Int.not_le, Int.not_lt] at ragged
    obtain ⟨uneven, beyond, short, fits⟩ := ragged
    have inside := withinLast ok split uneven (Int.le_of_lt beyond) short
    have ceil := right (by rw [stepsOver inside uneven beyond short]; exact fits)
    rcases (ceilExact ok inside positive).mp ceil more with even | before
    · exact uneven even
    · omega
  · intro even fits
    obtain ⟨pre, bracket, post, inside⟩ := within ok.nonempty p
    refine (ceilExact ok inside positive).mpr (fun more => ?_)
    have below := inside.below more
    by_contra ragged
    rw [not_or, Int.not_le] at ragged
    rcases even bracket (memDropLast inside.split more) with whole | before | above | beyond
    · exact ragged.1 whole
    · omega
    · omega
    · rw [stepsOver inside ragged.1 ragged.2 below] at fits
      omega

/- The two static checks let a bracket end off its own tick; where a price or a band meets
such an end, rounding up and the ladder are wrong, and nowhere else in the 64-bit range. -/
theorem correctUnlessRagged (wellFormed : scheduleIsWellFormed schedule = true)
    (edges : bracketEdgesAreTickAligned schedule = true) {p : Int} (positive : 0 < p)
    (start : isTickAligned schedule lo = true) (stop : isTickAligned schedule hi = true)
    (order : lo ≤ hi) (few : ticksIn schedule lo hi < 2 ^ 32) :
    ((ceilToTick schedule p ≤ kPriceMax → IsCeil schedule p (ceilToTick schedule p)) ∧
      IsFloor schedule p (floorToTick schedule p) ∧ LadderRight schedule lo hi) ↔
    (∀ bracket ∈ schedule.dropLast, bracket.tick ∣ bracket.upperExclusive ∨
      ((p ≤ lastMultiple bracket ∨ bracket.upperExclusive ≤ p ∨
          kPriceMax < lastMultiple bracket + bracket.tick) ∧
        (lastMultiple bracket < lo ∨ hi < lastMultiple bracket))) ∧
      hi + tickSize schedule hi ≤ kPriceMax := by
  have ok := checked wellFormed edges
  constructor
  · rintro ⟨ceil, -, right⟩
    refine ⟨fun bracket member => ?_, rightOnlyWhenFits ok start stop order right⟩
    by_cases whole : bracket.tick ∣ bracket.upperExclusive
    · exact .inl whole
    · refine .inr ⟨((ceilRightIff ok positive).mp ceil bracket member).resolve_left whole, ?_⟩
      by_contra met
      rw [not_or, Int.not_lt, Int.not_lt] at met
      exact whole (rightOnlyWhenRegular ok start right bracket member met.1 met.2)
  · rintro ⟨avoided, fits⟩
    refine ⟨(ceilRightIff ok positive).mpr (fun bracket member => ?_), floorExact ok positive, ?_⟩
    · rcases avoided bracket member with whole | ⟨off, -⟩
      · exact .inl whole
      · exact .inr off
    · refine rightWhenRegular ok start stop order fits (fun bracket member low high => ?_) few
      rcases avoided bracket member with whole | ⟨-, off⟩
      · exact whole
      · omega

theorem ticksBound : ticksIn schedule lo hi ≤ (hi + 1 - lo).toNat := by
  unfold ticksIn
  exact (Finset.card_filter_le _ _).trans (by rw [Int.card_Icc])

theorem shippedScheduleBand : ((ceilToTick kTickSchedule 199950 ≤ kPriceMax →
      IsCeil kTickSchedule 199950 (ceilToTick kTickSchedule 199950)) ∧
      IsFloor kTickSchedule 199950 (floorToTick kTickSchedule 199950) ∧
      LadderRight kTickSchedule 180000 220000) ↔
    (∀ bracket ∈ kTickSchedule.dropLast, bracket.tick ∣ bracket.upperExclusive ∨
      (((199950 : Int) ≤ lastMultiple bracket ∨ bracket.upperExclusive ≤ (199950 : Int) ∨
          kPriceMax < lastMultiple bracket + bracket.tick) ∧
        (lastMultiple bracket < (180000 : Int) ∨ (220000 : Int) < lastMultiple bracket))) ∧
      (220000 : Int) + tickSize kTickSchedule 220000 ≤ kPriceMax :=
  correctUnlessRagged (by decide) (by decide) (by decide) (by decide) (by decide) (by decide)
    (Nat.lt_of_le_of_lt ticksBound (by decide))

/- 200 is not a multiple of the tick at 200; 150 is, and 150 is above 120. -/
theorem raggedBracketSkipsItsEnd :
    ¬∀ schedule : TickSchedule, scheduleIsWellFormed schedule = true →
    bracketEdgesAreTickAligned schedule = true →
      (∀ p, 0 < p → ceilToTick schedule p ≤ kPriceMax → IsCeil schedule p (ceilToTick schedule p)) ∧
      (∀ p, 0 < p → IsFloor schedule p (floorToTick schedule p)) ∧
      (∀ lo hi, isTickAligned schedule lo = true → isTickAligned schedule hi = true → lo ≤ hi →
        ticksIn schedule lo hi < 2 ^ 32 → LadderRight schedule lo hi) := by
  intro promised
  have ceil := (promised [⟨150, 100⟩, ⟨kPriceMax, 150⟩] (by decide) (by decide)).1 120
      (by decide) (by decide)
  exact absurd ceil.1 (by decide)

end Bands
end PriceLadder
end Xmatch
