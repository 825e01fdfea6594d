import Xmatch.Api

/-! The tick schedule and the rounding functions on it. The schedule is a
parameter: the engine uses `kTickSchedule`, and whatever holds of every schedule
that passes the two compile-time checks holds of a venue's own table too. -/
namespace Xmatch

structure TickBracket where
  upperExclusive : Int
  tick : Int
  deriving DecidableEq, Repr

abbrev TickSchedule := List TickBracket

def kTickSchedule : TickSchedule :=
  [⟨200000, 100⟩, ⟨500000, 200⟩, ⟨1000000, 500⟩, ⟨kPriceMax, 1000⟩]

namespace TickTable

def coarsestTick (schedule : TickSchedule) : Int := ((schedule.getLast?).map (·.tick)).getD 0

def tickSize (schedule : TickSchedule) (price : Int) : Int :=
  match schedule.find? (fun bracket => decide (price < bracket.upperExclusive)) with
  | some bracket => bracket.tick
  | none => coarsestTick schedule

def isTickAligned (schedule : TickSchedule) (price : Int) : Bool :=
  if price ≤ 0 then false else decide (price.tmod (tickSize schedule price) = 0)

/- Exact; the C++ sum overflows when the result is above `kPriceMax`. -/
def ceilToTick (schedule : TickSchedule) (price : Int) : Int :=
  if price ≤ 0 then tickSize schedule 0
  else
    let step := tickSize schedule price
    let rem := price.tmod step
    if rem = 0 then price else price + (step - rem)

def floorToTick (schedule : TickSchedule) (price : Int) : Int :=
  if price ≤ 0 then 0
  else
    let step := tickSize schedule price
    let rem := price.tmod step
    price - rem

def scheduleIsWellFormed (schedule : TickSchedule) : Bool :=
  schedule.all (fun bracket => decide (0 < bracket.tick)) &&
  (schedule.zip schedule.tail).all (fun pair =>
    decide (pair.1.upperExclusive < pair.2.upperExclusive)) &&
  decide ((schedule.getLast?).map (·.upperExclusive) = some kPriceMax)

def bracketEdgesAreTickAligned (schedule : TickSchedule) : Bool :=
  (schedule.zip schedule.tail).all (fun pair => decide (pair.1.upperExclusive.tmod pair.2.tick = 0))

theorem adjacentSplit {R : TickBracket → TickBracket → Prop} {schedule : TickSchedule}
    (pairs : ∀ pair ∈ schedule.zip schedule.tail, R pair.1 pair.2) {pre post : TickSchedule}
    {a b : TickBracket} (split : schedule = pre ++ a :: b :: post) : R a b := by
  refine pairs (a, b) ?_
  subst split
  induction pre with
  | nil => simp
  | cons x xs ih =>
    have inside := ih (fun pair member => by
      refine pairs pair ?_
      cases xs <;> simp_all)
    cases xs <;> simp_all

theorem ascendingPairwise {schedule : TickSchedule}
    (pairs : ∀ pair ∈ schedule.zip schedule.tail, pair.1.upperExclusive < pair.2.upperExclusive) :
    schedule.Pairwise (fun a b => a.upperExclusive < b.upperExclusive) := by
  induction schedule with
  | nil => exact .nil
  | cons a rest ih =>
    cases rest with
    | nil => simp
    | cons b rest =>
      have tail := ih (fun pair member => pairs pair (List.mem_cons_of_mem _ member))
      have first : a.upperExclusive < b.upperExclusive := pairs (a, b) List.mem_cons_self
      refine List.pairwise_cons.mpr ⟨fun c member => ?_, tail⟩
      rcases List.mem_cons.mp member with rfl | later
      · exact first
      · exact Int.lt_trans first ((List.pairwise_cons.mp tail).1 c later)

structure Checked (schedule : TickSchedule) : Prop where
  positive : ∀ bracket ∈ schedule, 0 < bracket.tick
  ascending : schedule.Pairwise (fun a b => a.upperExclusive < b.upperExclusive)
  openEnded : ∀ pre bracket, schedule = pre ++ [bracket] → bracket.upperExclusive = kPriceMax
  nonempty : schedule ≠ []
  edges : ∀ pre a b post, schedule = pre ++ a :: b :: post → b.tick ∣ a.upperExclusive

theorem checked {schedule : TickSchedule} (wellFormed : scheduleIsWellFormed schedule = true)
    (aligned : bracketEdgesAreTickAligned schedule = true) : Checked schedule := by
  simp only [scheduleIsWellFormed, Bool.and_eq_true, List.all_eq_true,
    decide_eq_true_eq] at wellFormed
  simp only [bracketEdgesAreTickAligned, List.all_eq_true, decide_eq_true_eq] at aligned
  obtain ⟨⟨positive, ascending⟩, last⟩ := wellFormed
  refine ⟨positive, ascendingPairwise ascending, ?_, ?_, ?_⟩
  · rintro pre bracket rfl
    simpa using last
  · rintro rfl
    simp at last
  · intro pre a b post split
    exact Int.dvd_of_tmod_eq_zero
      (adjacentSplit (R := fun a b => a.upperExclusive.tmod b.tick = 0) aligned split)

/- `bracket` is the one whose tick applies at `price`; the last bracket has no end. -/
structure Within (schedule : TickSchedule) (price : Int) (pre : TickSchedule)
    (bracket : TickBracket) (post : TickSchedule) : Prop where
  split : schedule = pre ++ bracket :: post
  above : ∀ a ∈ pre, a.upperExclusive ≤ price
  below : post ≠ [] → price < bracket.upperExclusive

theorem within {schedule : TickSchedule} (nonempty : schedule ≠ []) (price : Int) :
    ∃ pre bracket post, Within schedule price pre bracket post := by
  induction schedule with
  | nil => contradiction
  | cons b rest ih =>
    by_cases here : price < b.upperExclusive ∨ rest = []
    · refine ⟨[], b, rest, rfl, by simp, fun more => ?_⟩
      rcases here with h | h
      · exact h
      · contradiction
    · rw [not_or] at here
      obtain ⟨pre, bracket, post, split, above, below⟩ := ih here.2
      refine ⟨b :: pre, bracket, post, by rw [split]; rfl, ?_, below⟩
      intro a member
      rcases List.mem_cons.mp member with rfl | member
      · exact Int.not_lt.mp here.1
      · exact above a member

section Lookup
variable {schedule pre post : TickSchedule} {price : Int} {bracket : TickBracket}

theorem findWithin (inside : Within schedule price pre bracket post) :
    schedule.find? (fun b => decide (price < b.upperExclusive)) = some bracket ∨
      (post = [] ∧ schedule.find? (fun b => decide (price < b.upperExclusive)) = none) := by
  obtain ⟨split, above, below⟩ := inside
  have skip : pre.find? (fun b => decide (price < b.upperExclusive)) = none := by
    rw [List.find?_eq_none]
    intro a member
    simpa using above a member
  subst split
  rw [List.find?_append, skip, Option.none_or]
  by_cases here : price < bracket.upperExclusive
  · simp [here]
  · have last : post = [] := by
      by_contra more
      exact here (below more)
    subst last
    simp [here]

theorem tickSizeWithin (inside : Within schedule price pre bracket post) :
    tickSize schedule price = bracket.tick := by
  unfold tickSize
  rcases findWithin inside with found | ⟨last, found⟩
  · rw [found]
  · rw [found, inside.split, last]
    simp [coarsestTick]

theorem tickPositive (ok : Checked schedule) (price : Int) : 0 < tickSize schedule price := by
  obtain ⟨pre, bracket, post, inside⟩ := within ok.nonempty price
  rw [tickSizeWithin inside]
  exact ok.positive bracket (by rw [inside.split]; simp)

theorem alignedIff :
    isTickAligned schedule price = true ↔ 0 < price ∧ tickSize schedule price ∣ price := by
  unfold isTickAligned
  by_cases h : price ≤ 0
  · simp [h, Int.not_lt.mpr h]
  · have positive : 0 < price := by omega
    simp [h, positive, Int.dvd_iff_tmod_eq_zero]

def lastMultiple (bracket : TickBracket) : Int :=
  bracket.upperExclusive - bracket.upperExclusive % bracket.tick

theorem lowerEdge (ok : Checked schedule) (inside : Within schedule price pre bracket post)
    {a : TickBracket} {pre' : TickSchedule} (prior : pre = pre' ++ [a]) :
    bracket.tick ∣ a.upperExclusive ∧ a.upperExclusive ≤ price :=
  ⟨ok.edges pre' a bracket post (by rw [inside.split, prior]; simp),
    inside.above a (by rw [prior]; simp)⟩

theorem preAtMostEdge (ok : Checked schedule) (split : schedule = pre ++ bracket :: post)
    {a : TickBracket} {pre' : TickSchedule} (prior : pre = pre' ++ [a]) {c : TickBracket}
    (member : c ∈ pre) : c.upperExclusive ≤ a.upperExclusive := by
  have ascending := ok.ascending
  rw [split, prior, List.append_assoc, List.pairwise_append] at ascending
  rw [prior] at member
  rcases List.mem_append.mp member with early | last
  · exact Int.le_of_lt (ascending.2.2 c early a (by simp))
  · exact Int.le_of_eq (by rw [List.mem_singleton.mp last])

theorem withinFrom (ok : Checked schedule) (inside : Within schedule price pre bracket post)
    {q : Int} (low : price - price % bracket.tick ≤ q)
    (high : post ≠ [] → q < bracket.upperExclusive) : Within schedule q pre bracket post := by
  refine ⟨inside.split, fun c member => ?_, high⟩
  rcases List.eq_nil_or_concat pre with none | ⟨pre', a, prior⟩
  · simp [none] at member
  · rw [List.concat_eq_append] at prior
    have edge := lowerEdge ok inside prior
    have atMost := preAtMostEdge ok inside.split prior member
    have positive := ok.positive bracket (by rw [inside.split]; simp)
    obtain ⟨k, hk⟩ := edge.1
    have multiple : a.upperExclusive ≤ price - price % bracket.tick := by
      have cut := Int.mul_ediv_add_emod price bracket.tick
      have : k ≤ price / bracket.tick :=
        Int.le_ediv_of_mul_le positive (by rw [Int.mul_comm, ← hk]; exact edge.2)
      have := Int.mul_le_mul_of_nonneg_left this (Int.le_of_lt positive)
      omega
    omega

/- Rounding. A positive price is cut by its own tick into a multiple below and a
remainder; the multiple stays in the bracket because the bracket begins on one. -/
theorem multipleUnique {t x y : Int} (multiple : t ∣ y) (low : y ≤ x)
    (high : x < y + t) : y = x - x % t := by
  obtain ⟨k, rfl⟩ := multiple
  have rem : (x - t * k) % t = x - t * k := Int.emod_eq_of_lt (by omega) (by omega)
  rw [Int.sub_mul_emod_self_left] at rem
  omega

theorem multipleBelow (t x : Int) : t ∣ x - x % t := Int.dvd_self_sub_emod

theorem nextMultiple {t x y : Int} (multiple : t ∣ y) (low : x - x % t < y) :
    x - x % t + t ≤ y := by
  by_contra short
  have same := multipleUnique multiple (x := x - x % t + (y - (x - x % t))) (by omega) (by omega)
  have base := multipleUnique (multipleBelow t x) (x := y) (by omega) (by omega)
  have own : y = y - y % t := multipleUnique multiple (Int.le_refl y) (by omega)
  omega

section Rounding
variable {schedule pre post : TickSchedule} {price : Int} {bracket : TickBracket}

theorem alignedWithin (inside : Within schedule price pre bracket post) :
    isTickAligned schedule price = true ↔ 0 < price ∧ bracket.tick ∣ price := by
  rw [alignedIff, tickSizeWithin inside]

theorem tickOf (ok : Checked schedule) (inside : Within schedule price pre bracket post) :
    0 < bracket.tick := ok.positive bracket (by rw [inside.split]; simp)

theorem alignedApart (ok : Checked schedule) (inside : Within schedule price pre bracket post)
    {q : Int} (aligned : isTickAligned schedule q = true) (low : price - price % bracket.tick < q)
    (high : post ≠ [] → q < bracket.upperExclusive) :
    price - price % bracket.tick + bracket.tick ≤ q := by
  have qInside := withinFrom ok inside (Int.le_of_lt low) high
  exact nextMultiple ((alignedWithin qInside).mp aligned).2 low

def IsFloor (schedule : TickSchedule) (price floor : Int) : Prop :=
  (isTickAligned schedule floor = true ∧ floor ≤ price ∧
    ∀ q, isTickAligned schedule q = true → q ≤ price → q ≤ floor) ∨
  (floor = 0 ∧ ∀ q, isTickAligned schedule q = true → price < q)

def IsCeil (schedule : TickSchedule) (price ceil : Int) : Prop :=
  isTickAligned schedule ceil = true ∧ price ≤ ceil ∧
    ∀ q, isTickAligned schedule q = true → price ≤ q → ceil ≤ q

theorem floorEq (inside : Within schedule price pre bracket post) (positive : 0 < price) :
    floorToTick schedule price = price - price % bracket.tick := by
  have above : ¬price ≤ 0 := by omega
  simp only [floorToTick, above, if_false, tickSizeWithin inside]
  rw [Int.tmod_eq_emod_of_nonneg (Int.le_of_lt positive)]

theorem floorExact (ok : Checked schedule) (positive : 0 < price) :
    IsFloor schedule price (floorToTick schedule price) := by
  obtain ⟨pre, bracket, post, inside⟩ := within ok.nonempty price
  have tick := tickOf ok inside
  have remLow := Int.emod_nonneg price (Int.ne_of_gt tick)
  have remHigh := Int.emod_lt_of_pos price tick
  have cut := Int.mul_ediv_add_emod price bracket.tick
  have whole : 0 ≤ bracket.tick * (price / bracket.tick) :=
    Int.mul_nonneg (Int.le_of_lt tick) (Int.ediv_nonneg (Int.le_of_lt positive) (Int.le_of_lt tick))
  have greatest : ∀ q, isTickAligned schedule q = true → q ≤ price →
      q ≤ price - price % bracket.tick := by
    intro q aligned below
    by_contra beyond
    have :=
      alignedApart ok inside aligned (by omega) (fun more => by have := inside.below more; omega)
    omega
  rw [floorEq inside positive]
  by_cases zero : price - price % bracket.tick = 0
  · refine .inr ⟨zero, fun q aligned => ?_⟩
    have := (alignedIff.mp aligned).1
    by_contra below
    have := greatest q aligned (by omega)
    omega
  · refine .inl ⟨?_, by omega, greatest⟩
    have still := withinFrom ok inside (q := price - price % bracket.tick) (Int.le_refl _)
      (fun more => by have := inside.below more; omega)
    exact (alignedWithin still).mpr ⟨by omega, multipleBelow _ _⟩

theorem ceilEq (inside : Within schedule price pre bracket post) (positive : 0 < price) :
    ceilToTick schedule price = if bracket.tick ∣ price then price
      else price - price % bracket.tick + bracket.tick := by
  have above : ¬price ≤ 0 := by omega
  simp only [ceilToTick, above, if_false, tickSizeWithin inside]
  rw [Int.tmod_eq_emod_of_nonneg (Int.le_of_lt positive)]
  simp only [Int.dvd_iff_emod_eq_zero]
  split
  · rfl
  · omega

theorem nextWithin (ok : Checked schedule) (inside : Within schedule price pre bracket post)
    (more : post ≠ []) : ∃ b rest, post = b :: rest ∧
      Within schedule bracket.upperExclusive (pre ++ [bracket]) b rest := by
  obtain ⟨b, rest, rfl⟩ := List.exists_cons_of_ne_nil more
  have upper := inside.below more
  have ascending := ok.ascending
  rw [inside.split, List.pairwise_append] at ascending
  refine ⟨b, rest, rfl, by rw [inside.split]; simp, fun a member => ?_, fun _ => ?_⟩
  · rcases List.mem_append.mp member with early | here
    · exact Int.le_of_lt (ascending.2.2 a early bracket (by simp))
    · exact Int.le_of_eq (by rw [List.mem_singleton.mp here])
  · exact (List.pairwise_cons.mp ascending.2.1).1 b (by simp)

theorem endAligned (ok : Checked schedule) (inside : Within schedule price pre bracket post)
    (more : post ≠ []) (positive : 0 < price) :
    isTickAligned schedule bracket.upperExclusive = true := by
  obtain ⟨b, rest, rfl, later⟩ := nextWithin ok inside more
  have := inside.below more
  exact (alignedWithin later).mpr ⟨by omega, ok.edges pre bracket b rest inside.split⟩

/- Rounding up is right unless it steps over the end of a bracket that does not end
on a multiple of its own tick. -/
theorem ceilExact (ok : Checked schedule) (inside : Within schedule price pre bracket post)
    (positive : 0 < price) : IsCeil schedule price (ceilToTick schedule price) ↔
      (post ≠ [] → bracket.tick ∣ bracket.upperExclusive ∨ price ≤ lastMultiple bracket) := by
  have tick := tickOf ok inside
  have remLow := Int.emod_nonneg price (Int.ne_of_gt tick)
  have remHigh := Int.emod_lt_of_pos price tick
  rw [ceilEq inside positive]
  split
  · rename_i multiple
    refine ⟨fun _ more => ?_,
      fun _ => ⟨(alignedWithin inside).mpr ⟨positive, multiple⟩, Int.le_refl _, fun _ _ h => h⟩⟩
    have upper := inside.below more
    by_cases even : bracket.tick ∣ bracket.upperExclusive
    · exact .inl even
    · refine .inr ?_
      by_contra beyond
      have remainder := Int.emod_lt_of_pos bracket.upperExclusive tick
      have :=
        nextMultiple (x := bracket.upperExclusive) multiple
          (by unfold lastMultiple at beyond; omega)
      omega
  · rename_i uneven
    have remainder : price % bracket.tick ≠ 0 := fun h => uneven (Int.dvd_of_emod_eq_zero h)
    constructor
    · intro ceil more
      have upper := inside.below more
      have atEnd := ceil.2.2 _ (endAligned ok inside more positive) (Int.le_of_lt upper)
      by_cases even : bracket.tick ∣ bracket.upperExclusive
      · exact .inl even
      · refine .inr ?_
        have step : bracket.tick ∣ price - price % bracket.tick + bracket.tick :=
          Int.dvd_add (multipleBelow _ _) (Int.dvd_refl _)
        by_contra beyond
        have endLow := Int.emod_nonneg bracket.upperExclusive (Int.ne_of_gt tick)
        have endHigh := Int.emod_lt_of_pos bracket.upperExclusive tick
        have := nextMultiple (x := bracket.upperExclusive) step
          (by unfold lastMultiple at beyond; omega)
        omega
    · intro regular
      have least : ∀ q, isTickAligned schedule q = true → price ≤ q →
          price - price % bracket.tick + bracket.tick ≤ q := by
        intro q aligned above
        by_cases leaves : post ≠ [] ∧ bracket.upperExclusive ≤ q
        · have upper := inside.below leaves.1
          rcases regular leaves.1 with even | before
          · have := nextMultiple (x := price) even (by omega)
            omega
          · have whole : bracket.tick ∣ lastMultiple bracket := multipleBelow _ _
            have := nextMultiple (x := price) whole (by omega)
            have := Int.emod_nonneg bracket.upperExclusive (Int.ne_of_gt tick)
            unfold lastMultiple at *
            omega
        · refine alignedApart ok inside aligned (by omega) (fun more => ?_)
          by_contra beyond
          exact leaves ⟨more, by omega⟩
      refine ⟨?_, by omega, least⟩
      by_cases leaves : post ≠ [] ∧
        bracket.upperExclusive ≤ price - price % bracket.tick + bracket.tick
      · have upper := inside.below leaves.1
        have ending := endAligned ok inside leaves.1 positive
        have := least _ ending (Int.le_of_lt upper)
        rwa [show price - price % bracket.tick + bracket.tick = bracket.upperExclusive by omega]
      · have still :=
          withinFrom ok inside (q := price - price % bracket.tick + bracket.tick) (by omega)
          (fun more => by by_contra beyond; exact leaves ⟨more, by omega⟩)
        exact (alignedWithin still).mpr ⟨by omega, Int.dvd_add (multipleBelow _ _) (Int.dvd_refl _)⟩

end Rounding
end Lookup
end TickTable
end Xmatch
