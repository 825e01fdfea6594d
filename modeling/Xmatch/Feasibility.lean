import Xmatch.MatchingLoop

/-! The walk over the level totals decides what the venue with wrapped sums decides. -/
namespace Xmatch
namespace Engine
open OrderBook LevelBitset

section Walk
variable {pool : OrderPool} {book : OrderBook} {queues : Queues} {side : Side} {limitPrice : Int}
  {isMarket : Bool} {needed : Quantity}

theorem nextIndexNearest (fitted : Fitted book) (shape : Shape pool book queues) (side : Side)
    (level : Nat) :
    Nearest (fun l => side.ahead level l ∧ queues side l ≠ []) side.ahead
      (book.nextIndex side (level : Int)) := by
  cases side
  · refine nearestCongr (fun l => ?_) (findHighestLeNearest book.bidBitmap ((level : Int) - 1))
    rw [← shape.bits .buy l]
    exact and_congr_left (fun _ => by simp only [Side.ahead]; omega)
  · refine nearestCongr (fun l => ?_) (findLowestGeNearest book.askBitmap ((level : Int) + 1))
    rw [← shape.bits .sell l]
    have words := fitted.words .sell
    constructor
    · rintro ⟨later, _, set⟩
      exact ⟨by simp only [Side.ahead]; omega, set⟩
    · rintro ⟨later, set⟩
      simp only [Side.ahead] at later
      refine ⟨by omega, ?_, set⟩
      obtain ⟨slot, member⟩ := List.exists_mem_of_ne_nil _ ((shape.bits .sell l).mp set)
      have inside := occupiedInside shape member
      change l / 64 < (book.bitmap .sell).words.size
      omega

theorem laterNearest (fitted : Fitted book) (shape : Shape pool book queues)
    {done front back : List Nat} {level : Nat}
    (split : levelOrder side book.levelCount = done ++ (front ++ level :: back)) :
    Nearest (fun l => l ∈ back ∧ queues side l ≠ []) side.ahead
      (book.nextIndex side (level : Int)) := by
  have ahead := levelOrderAhead side book.levelCount
  rw [split, List.pairwise_append, List.pairwise_append, List.pairwise_cons] at ahead
  refine nearestCongr (fun l => and_congr_left (fun taken => ?_))
    (nextIndexNearest fitted shape side level)
  constructor
  · intro behind
    obtain ⟨other, here⟩ := List.exists_mem_of_ne_nil _ taken
    have listed : l ∈ done ++ (front ++ level :: back) := by
      rw [← split]
      exact memLevelOrder.mpr (occupiedInside shape here)
    have notBefore : ∀ k, side.ahead k level → k ≠ l := by
      rintro k before rfl
      exact Side.aheadIrrefl _ _ (Side.aheadTrans before behind)
    simp only [List.mem_append, List.mem_cons] at listed
    rcases listed with inDone | inFront | rfl | inBack
    · exact absurd rfl (notBefore l (ahead.2.2 l inDone level (by simp)))
    · exact absurd rfl (notBefore l (ahead.2.1.2.2 l inFront level List.mem_cons_self))
    · exact absurd behind (Side.aheadIrrefl _ _)
    · exact inBack
  · exact ahead.2.1.2.1.1 l

theorem bestNearest (shape : Shape pool book queues) (side : Side) :
    Nearest (fun l => l ∈ levelOrder side book.levelCount ∧ queues side l ≠ []) side.ahead
      (book.bestIndex side) := by
  refine nearestCongr (fun l => (and_iff_right_of_imp (fun taken => ?_)).symm) (shape.best side)
  obtain ⟨slot, queued⟩ := List.exists_mem_of_ne_nil _ taken
  exact memLevelOrder.mpr (occupiedInside shape queued)

theorem levelOrderLength (side : Side) (n : Nat) : (levelOrder side n).length = n := by
  cases side <;> simp [levelOrder]

/- Some acceptable level up to which there is enough, by the wrapped sum. -/
def Reach (pool : OrderPool) (book : OrderBook) (queues : Queues) (side : Side) (limit : Option Int)
    (needed : Nat) :
    List Nat → Nat → Prop
  | [], _ => False
  | level :: later, sum =>
    (queues side.opposite level ≠ [] ∧
      side.accepts limit (book.indexToPrice (UInt32.ofNat level)) = true ∧
      needed ≤ (sum + pool.openIn (queues side.opposite level)) % 2 ^ 32) ∨
    Reach pool book queues side limit needed later (sum + pool.openIn (queues side.opposite level))

theorem reachSkip {limit : Option Int} {qty sum : Nat} {front rest : List Nat}
    (empty : ∀ level ∈ front, queues side.opposite level = []) :
    Reach pool book queues side limit qty (front ++ rest) sum ↔
    Reach pool book queues side limit qty rest sum := by
  induction front with
  | nil => rfl
  | cons level front ih =>
    have here := empty level List.mem_cons_self
    have nothing : pool.openIn [] = 0 := rfl
    rw [List.cons_append, Reach, here, nothing, Nat.add_zero,
      ih (fun l member => empty l (List.mem_cons_of_mem _ member))]
    simp

theorem reachAccepted {limit : Option Int} {qty sum : Nat} {levels : List Nat}
    (reach : Reach pool book queues side limit qty levels sum) :
    ∃ level ∈ levels, queues side.opposite level ≠ [] ∧
      side.accepts limit (book.indexToPrice (UInt32.ofNat level)) = true := by
  induction levels generalizing sum with
  | nil => exact reach.elim
  | cons level later ih =>
    rcases reach with ⟨occupied, accepted, _⟩ | further
    · exact ⟨level, List.mem_cons_self, occupied, accepted⟩
    · obtain ⟨other, member, found⟩ := ih further
      exact ⟨other, List.mem_cons_of_mem _ member, found⟩

theorem sumLevelsReach (fitted : Fitted book) (shape : Shape pool book queues) (fuel : Nat) :
    ∀ (done todo : List Nat) (idx : Int) (sum : Nat), levelOrder side.opposite book.levelCount =
      done ++ todo →
      Nearest (fun l => l ∈ todo ∧ queues side.opposite l ≠ []) side.opposite.ahead idx →
      ¬needed.toNat ≤ sum % 2 ^ 32 → todo.length < fuel →
      ∃ fits, sumLevels book side isMarket limitPrice needed fuel idx
        (UInt32.ofNat sum) = some fits ∧
        (fits = true ↔ Reach pool book queues side (limitOf limitPrice isMarket) needed.toNat
          todo sum) := by
  have short : ∀ sum, needed ≤ UInt32.ofNat sum ↔ needed.toNat ≤ sum % 2 ^ 32 := by
    intro sum
    rw [UInt32.le_iff_toNat_le, UInt32.toNat_ofNat']
  induction fuel with
  | zero => intro done todo idx sum _ _ _ few; omega
  | succ fuel ih =>
    intro done todo idx sum split nearest less few
    have stop : decide (needed ≤ UInt32.ofNat sum) = false := by
      rw [decide_eq_false_iff_not, short]
      exact less
    rcases Int.lt_or_le idx 0 with none | real
    · refine ⟨false, ?_, ?_⟩
      · rw [sumLevels, if_neg (by omega), stop]
      · constructor
        · intro impossible
          contradiction
        · intro reach
          obtain ⟨level, member, occupied, _⟩ := reachAccepted reach
          exact absurd ⟨member, occupied⟩ ((nearest.none none).2 level)
    · obtain ⟨level, rfl⟩ := Int.eq_ofNat_of_zero_le real
      obtain ⟨⟨member, occupied⟩, first⟩ := nearest.some level rfl
      obtain ⟨slot, queued⟩ := List.exists_mem_of_ne_nil _ occupied
      have inside := occupiedInside shape queued
      obtain ⟨front, back, rfl⟩ := List.append_of_mem member
      have ahead := levelOrderAhead side.opposite book.levelCount
      rw [split, List.pairwise_append, List.pairwise_append, List.pairwise_cons] at ahead
      have empty : ∀ l ∈ front, queues side.opposite l = [] := by
        intro l listed
        by_contra taken
        exact first l ⟨List.mem_append_left _ listed, taken⟩
          (ahead.2.1.2.2 l listed level List.mem_cons_self)
      have refusal : (!isMarket &&
        !crosses side limitPrice (book.indexToPrice (UInt32.ofNat level))) =
          !side.accepts (limitOf limitPrice isMarket) (book.indexToPrice (UInt32.ofNat level)) := by
        rw [acceptsOf, Bool.not_or]
      have total : UInt32.ofNat sum + (book.levelAt side.opposite (UInt32.ofNat level)).totalQty =
          UInt32.ofNat (sum + pool.openIn (queues side.opposite level)) := by
        rw [shape.total side.opposite level inside, UInt32.ofNat_add]
      rw [reachSkip empty, sumLevels, if_pos real, WordBits.ofIntNatCast]
      simp only [refusal, total, short]
      by_cases accepted : side.accepts (limitOf limitPrice isMarket)
        (book.indexToPrice (UInt32.ofNat level)) = true
      · rw [if_neg (by rw [accepted]; decide)]
        by_cases enough : needed.toNat ≤ (sum + pool.openIn (queues side.opposite level)) % 2 ^ 32
        · rw [if_pos enough]
          exact ⟨true, rfl, fun _ => .inl ⟨occupied, accepted, enough⟩, fun _ => rfl⟩
        · have later := laterNearest fitted shape split
          obtain ⟨fits, result, reach⟩ :=
            ih (done ++ (front ++ [level])) back _ _ (by rw [split]; simp) later enough
            (by simp only [List.length_append, List.length_cons] at few; omega)
          rw [if_neg enough]
          refine ⟨fits, result, reach.trans ⟨.inr, ?_⟩⟩
          rintro (⟨_, _, impossible⟩ | further)
          · exact absurd impossible enough
          · exact further
      · rw [Bool.eq_false_iff.mpr accepted, if_pos (by decide)]
        refine ⟨_, rfl, fun impossible => absurd (of_decide_eq_true impossible) less,
          fun reach => ?_⟩
        obtain ⟨other, listed, taken, fine⟩ := reachAccepted reach
        obtain ⟨slot', queued'⟩ := List.exists_mem_of_ne_nil _ taken
        rcases List.mem_cons.mp listed with rfl | inBack
        · exact absurd fine accepted
        · have worse :=
            aheadBetter fitted inside (occupiedInside shape queued') (ahead.2.1.2.1.1 other inBack)
          exact absurd (acceptsBetter fine (betterAsymm worse)) accepted

theorem openInAppend (pool : OrderPool) (xs ys : List Slot) :
    pool.openIn (xs ++ ys) = pool.openIn xs + pool.openIn ys := by
  simp only [OrderPool.openIn, List.map_append, List.sum_append]

theorem reachSplit {limit : Option Int} {qty sum : Nat} {levels : List Nat} :
    Reach pool book queues side limit qty levels sum ↔ ∃ front level back,
      levels = front ++ level :: back ∧
      queues side.opposite level ≠ [] ∧
        side.accepts limit (book.indexToPrice (UInt32.ofNat level)) = true ∧
      qty ≤ (sum + pool.openIn ((front ++ [level]).flatMap (queues side.opposite))) % 2 ^ 32 := by
  induction levels generalizing sum with
  | nil => simp [Reach]
  | cons first later ih =>
    rw [Reach, ih]
    constructor
    · rintro (⟨occupied, accepted, enough⟩ | ⟨front, level, back, rfl, occupied, accepted, enough⟩)
      · exact ⟨[], first, later, rfl, occupied, accepted, by simpa using enough⟩
      · refine ⟨first :: front, level, back, rfl, occupied, accepted, ?_⟩
        rw [List.cons_append, List.flatMap_cons, openInAppend, ← Nat.add_assoc]
        exact enough
    · rintro ⟨front, level, back, split, occupied, accepted, enough⟩
      cases front with
      | nil =>
        obtain ⟨rfl, rfl⟩ := List.cons.inj split
        exact .inl ⟨occupied, accepted, by simpa using enough⟩
      | cons other front =>
        obtain ⟨rfl, rfl⟩ := List.cons.inj split
        refine .inr ⟨front, level, back, rfl, occupied, accepted, ?_⟩
        rw [List.cons_append, List.flatMap_cons, openInAppend, ← Nat.add_assoc] at enough
        exact enough

theorem quantityView (pool : OrderPool) (slots : List Slot) :
    quantityOf (slots.map (viewOrder pool)) = pool.openIn slots := by
  rw [quantityOf, OrderPool.openIn, List.map_map]
  rfl

theorem goodUpTo (fitted : Fitted book) (shape : Shape pool book queues) {limit : Option Int}
    {level : Nat} {front back : List Nat}
    (split : levelOrder side.opposite book.levelCount = front ++ level :: back)
    (occupied : queues side.opposite level ≠ [])
    (accepted : side.accepts limit (book.indexToPrice (UInt32.ofNat level)) = true) :
    atLeastAsGood side.opposite (book.indexToPrice (UInt32.ofNat level))
        (eligible side limit (viewSide pool book queues side.opposite)) =
      ((front ++ [level]).flatMap (queues side.opposite)).map (viewOrder pool) := by
  have ahead := levelOrderAhead side.opposite book.levelCount
  obtain ⟨slot, here⟩ := List.exists_mem_of_ne_nil _ occupied
  have inside := occupiedInside shape here
  have regroup : front ++ level :: back = (front ++ [level]) ++ back := by simp
  rw [split, List.pairwise_append, List.pairwise_cons] at ahead
  rw [viewSide, slotsOf, split, regroup, List.flatMap_append, List.map_append, eligible,
    atLeastAsGood, List.filter_append, List.filter_append]
  have good : ∀ o ∈ ((front ++ [level]).flatMap (queues side.opposite)).map (viewOrder pool),
      ¬side.opposite.better (book.indexToPrice (UInt32.ofNat level)) o.price := by
    intro o listed
    obtain ⟨s, inSlots, rfl⟩ := List.mem_map.mp listed
    obtain ⟨l, inLevels, queued⟩ := List.mem_flatMap.mp inSlots
    rw [slotPrice shape queued]
    rcases List.mem_append.mp inLevels with early | same
    · exact betterAsymm (aheadBetter fitted (occupiedInside shape queued) inside
        (ahead.2.2 l early level List.mem_cons_self))
    · rw [List.mem_singleton.mp same]
      exact betterIrrefl _ _
  have left : (((front ++ [level]).flatMap (queues side.opposite)).map (viewOrder pool)).filter
      (fun o => side.accepts limit o.price) =
      ((front ++ [level]).flatMap (queues side.opposite)).map (viewOrder pool) :=
    List.filter_eq_self.mpr (fun o listed => acceptsBetter accepted (good o listed))
  have kept : (((front ++ [level]).flatMap (queues side.opposite)).map (viewOrder pool)).filter
      (fun o => !decide (side.opposite.better (book.indexToPrice (UInt32.ofNat level)) o.price)) =
        ((front ++ [level]).flatMap (queues side.opposite)).map (viewOrder pool) :=
    List.filter_eq_self.mpr (fun o listed => by simpa using good o listed)
  have dropped : (((back.flatMap (queues side.opposite)).map (viewOrder pool)).filter
      (fun o => side.accepts limit o.price)).filter
      (fun o => !decide (side.opposite.better (book.indexToPrice (UInt32.ofNat level)) o.price)) =
      [] := by
    refine List.filter_eq_nil_iff.mpr (fun o listed => ?_)
    obtain ⟨s, inSlots, rfl⟩ := List.mem_map.mp (List.mem_of_mem_filter listed)
    obtain ⟨l, inLevels, queued⟩ := List.mem_flatMap.mp inSlots
    have worse := aheadBetter fitted inside (occupiedInside shape queued) (ahead.2.1.1 l inLevels)
    rw [slotPrice shape queued]
    simpa using worse
  rw [left, kept, dropped, List.append_nil]

theorem wrappedReach (fitted : Fitted book) (shape : Shape pool book queues) (limit : Option Int)
    (qty : Nat) :
    wrappedFill side limit qty (viewSide pool book queues side.opposite) = true ↔
      Reach pool book queues side limit qty (levelOrder side.opposite book.levelCount) 0 := by
  rw [reachSplit, wrappedFill, List.any_eq_true]
  constructor
  · rintro ⟨o, listed, enough⟩
    obtain ⟨inView, accepted⟩ := List.mem_filter.mp listed
    obtain ⟨slot, inSlots, rfl⟩ := List.mem_map.mp inView
    obtain ⟨level, queued⟩ := (memSlotsOf shape).mp inSlots
    obtain ⟨front, back, split⟩ :=
      List.append_of_mem (memLevelOrder.mpr (occupiedInside shape queued))
    rw [slotPrice shape queued] at enough accepted
    have occupied := List.ne_nil_of_mem queued
    refine ⟨front, level, back, split, occupied, accepted, ?_⟩
    rw [goodUpTo fitted shape split occupied accepted, quantityView] at enough
    rw [Nat.zero_add]
    exact of_decide_eq_true enough
  · rintro ⟨front, level, back, split, occupied, accepted, enough⟩
    obtain ⟨slot, queued⟩ := List.exists_mem_of_ne_nil _ occupied
    refine ⟨viewOrder pool slot, List.mem_filter.mpr ⟨?_, ?_⟩, ?_⟩
    · exact List.mem_map_of_mem ((memSlotsOf shape).mpr ⟨level, queued⟩)
    · rw [slotPrice shape queued]
      exact accepted
    · rw [slotPrice shape queued, goodUpTo fitted shape split occupied accepted, quantityView]
      rw [Nat.zero_add] at enough
      exact decide_eq_true enough

theorem canFullyFillEqWrappedFill (fitted : Fitted book) (shape : Shape pool book queues)
    (positive : needed ≠ 0) :
    canFullyFill book side isMarket limitPrice needed =
      some (wrappedFill side (limitOf limitPrice isMarket) needed.toNat
        (viewSide pool book queues side.opposite)) := by
  have wanted : 0 < needed.toNat := by
    rw [Nat.pos_iff_ne_zero, Ne, ← UInt32.toNat_zero, UInt32.toNat_inj]
    exact positive
  have decided : ∀ fits : Bool,
      (fits = true ↔ Reach pool book queues side (limitOf limitPrice isMarket) needed.toNat
      (levelOrder side.opposite book.levelCount) 0) →
      fits = wrappedFill side (limitOf limitPrice isMarket) needed.toNat
      (viewSide pool book queues side.opposite) :=
    fun fits same => Bool.eq_iff_iff.mpr (same.trans (wrappedReach fitted shape _ _).symm)
  by_cases best : book.hasBest side.opposite = true
  · have rounds : (levelOrder side.opposite book.levelCount).length <
        book.ladder.size.toNat + 1 := by
      rw [levelOrderLength]
      exact Nat.lt_succ_self _
    obtain ⟨fits, result, reach⟩ :=
      sumLevelsReach fitted shape (book.ladder.size.toNat + 1) [] _ _ 0 rfl
      (bestNearest shape side.opposite) (by omega : ¬needed.toNat ≤ 0 % 2 ^ 32) rounds
    rw [canFullyFill, best, if_neg (by decide), ← decided fits reach]
    exact result
  · have none : book.bestIndex side.opposite < 0 := by simpa [hasBest] using best
    rw [canFullyFill, Bool.eq_false_iff.mpr best, if_pos (by decide), viewSide,
      noBestEmpty shape none]
    rfl

end Walk
end Engine
end Xmatch
