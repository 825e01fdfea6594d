import Xmatch.Refinement

/-! The two loops of the engine are one scan of the opposite side. -/
namespace Xmatch

namespace Venue

section Sweeping
variable {b : Nat} {instrumentId : InstrumentId} {side : Side} {limit : Option Int}
  {maker taker : Order} {rest orders : List Order} {venue : Venue}

theorem sweepIdle (spent : taker.openQty = 0) :
    sweep b instrumentId side limit orders venue taker = ([], ⟨venue, taker, orders⟩) := by
  cases orders with
  | nil => rfl
  | cons maker rest => simp [sweep, spent]

theorem sweepRefused (refused : side.accepts limit maker.price = false) :
    sweep b instrumentId side limit (maker :: rest) venue taker =
      ([], ⟨venue, taker, maker :: rest⟩) := by
  simp [sweep, refused]

theorem sweepTrade (active : 0 < taker.openQty) (accepted : side.accepts limit maker.price = true) :
    sweep b instrumentId side limit (maker :: rest) venue taker =
      (tradeMoment instrumentId side maker venue taker ::
        (sweep b instrumentId side limit (tradeStep b side maker rest venue taker).opposite
          (tradeStep b side maker rest venue taker).venue
            (tradeStep b side maker rest venue taker).taker).1,
        (sweep b instrumentId side limit (tradeStep b side maker rest venue taker).opposite
          (tradeStep b side maker rest venue taker).venue
            (tradeStep b side maker rest venue taker).taker).2) := by
  rw [sweep, if_pos ⟨active, accepted⟩]
  by_cases closes : maker.openQty ≤ taker.openQty
  · simp only [closes, if_true]
    have left : (tradeStep b side maker rest venue taker).opposite = rest := by
      simp [tradeStep, closes]
    rw [left]
  · simp only [closes, if_false]
    have spent : (tradeStep b side maker rest venue taker).taker.openQty = 0 := by
      simp only [tradeStep, Order.fill]
      omega
    rw [sweepIdle spent]

theorem tradeStepOrders {book : Book} (here : venue.books[b]? = some book) :
    (tradeStep b side maker rest venue taker).venue.orders b side.opposite =
      (tradeStep b side maker rest venue taker).opposite := by
  simp only [tradeStep]
  exact @ordersPut { venue with nextTradeId := venue.nextTradeId + 1 } b book side.opposite _ here

theorem tradeStepBooks : (tradeStep b side maker rest venue taker).venue.books.length =
    venue.books.length := by
  simp only [tradeStep, bump, putSide, List.length_modify]

/- A narrower limit first, then the limit: the same sweep. -/
theorem sweepSplit {narrow : Option Int} (within : ∀ price, side.accepts narrow price = true →
  side.accepts limit price = true) :
    ∀ (orders : List Order) (venue : Venue) (taker : Order),
      sweep b instrumentId side limit orders venue taker =
        ((sweep b instrumentId side narrow orders venue taker).1 ++
            (sweep b instrumentId side limit
              (sweep b instrumentId side narrow orders venue taker).2.opposite
              (sweep b instrumentId side narrow orders venue taker).2.venue
              (sweep b instrumentId side narrow orders venue taker).2.taker).1,
          (sweep b instrumentId side limit
            (sweep b instrumentId side narrow orders venue taker).2.opposite
            (sweep b instrumentId side narrow orders venue taker).2.venue
            (sweep b instrumentId side narrow orders venue taker).2.taker).2) := by
  intro orders
  induction orders with
  | nil => intro venue taker; rfl
  | cons maker rest ih =>
    intro venue taker
    by_cases goesOn : 0 < taker.openQty ∧ side.accepts narrow maker.price = true
    · have accepted := within _ goesOn.2
      have both : 0 < taker.openQty ∧ side.accepts limit maker.price = true := ⟨goesOn.1, accepted⟩
      by_cases closes : maker.openQty ≤ taker.openQty
      · have wide :=
          ih (tradeStep b side maker rest venue taker).venue
            (tradeStep b side maker rest venue taker).taker
        simp only [sweep, both, goesOn, and_self, if_true, closes]
        rw [wide]
        rfl
      · have spent : (tradeStep b side maker rest venue taker).taker.openQty = 0 := by
          simp only [tradeStep, Order.fill]
          omega
        simp only [sweep, both, goesOn, and_self, if_true, closes, if_false]
        rw [sweepIdle spent]
        rfl
    · have narrowIs : sweep b instrumentId side narrow (maker :: rest) venue taker =
          ([], ⟨venue, taker, maker :: rest⟩) := by
        simp only [sweep, goesOn, if_false]
      rw [narrowIs]
      rfl

theorem sweepOrders : ∀ (orders : List Order) (venue : Venue) (taker : Order),
    b < venue.books.length →
    venue.orders b side.opposite = orders →
    (sweep b instrumentId side limit orders venue taker).2.venue.orders b side.opposite =
      (sweep b instrumentId side limit orders venue taker).2.opposite := by
  intro orders
  induction orders with
  | nil => intro venue taker _ here; exact here
  | cons maker rest ih =>
    intro venue taker inside here
    have step := @tradeStepOrders b side maker taker rest venue _ (List.getElem?_eq_getElem inside)
    by_cases goesOn : 0 < taker.openQty ∧ side.accepts limit maker.price = true
    · by_cases closes : maker.openQty ≤ taker.openQty
      · have left : (tradeStep b side maker rest venue taker).opposite = rest := by
          simp [tradeStep, closes]
        simp only [sweep, goesOn, and_self, if_true, closes]
        exact ih _ _ (by rw [tradeStepBooks]; exact inside) (step.trans left)
      · simp only [sweep, goesOn, and_self, if_true, closes, if_false]
        exact step
    · simp only [sweep, goesOn, if_false]
      exact here

theorem sweepShrinks : ∀ (orders : List Order) (venue : Venue) (taker : Order),
    (sweep b instrumentId side limit orders venue taker).2.opposite.length ≤ orders.length := by
  intro orders
  induction orders with
  | nil => intro venue taker; exact Nat.le_refl _
  | cons maker rest ih =>
    intro venue taker
    by_cases goesOn : 0 < taker.openQty ∧ side.accepts limit maker.price = true
    · by_cases closes : maker.openQty ≤ taker.openQty
      · simp only [sweep, goesOn, and_self, if_true, closes]
        exact Nat.le_succ_of_le (ih _ _)
      · simp only [sweep, goesOn, and_self, if_true, closes, if_false, tradeStep, List.length_cons]
        exact Nat.le_refl _
    · simp only [sweep, goesOn, if_false]
      exact Nat.le_refl _

theorem sweepProgress (active : 0 < taker.openQty)
    (accepted : side.accepts limit maker.price = true) :
    (sweep b instrumentId side limit (maker :: rest) venue taker).2.taker.openQty = 0 ∨
      (sweep b instrumentId side limit (maker :: rest) venue taker).2.opposite.length ≤
        rest.length := by
  by_cases closes : maker.openQty ≤ taker.openQty
  · refine .inr ?_
    simp only [sweep, active, accepted, and_self, if_true, closes]
    exact sweepShrinks _ _ _
  · refine .inl ?_
    simp only [sweep, active, accepted, and_self, if_true, closes, if_false, tradeStep, Order.fill]
    omega

end Sweeping
end Venue

namespace Engine
open OrderBook Effect

section Loops
variable {env : Env} {b : Nat} {aggressor : Slot} {side : Side} {level : Nat}
  {queues : Nat → Queues} {venue : Venue} {taker : Order} {before : Session} {limit : Option Int}

theorem opposedHead (matching : Matching before.engine queues venue b aggressor taker)
    {resting : Slot} {rest : List Slot} (here : queues b side.opposite level = resting :: rest) :
    ((before.engine.books.read b).levelAt side.opposite (UInt32.ofNat level)).head = resting := by
  have shape := matching.rep.shape b matching.inside
  have member : resting ∈ queues b side.opposite level := by
    rw [here]
    exact List.mem_cons_self
  have head := (shape.queue side.opposite level (occupiedInside shape member)).head
  rw [here] at head
  exact head

theorem settleTradeFrame (engine : Engine) (idx : UInt32) (resting : Slot) (qty : Quantity) :
    SameFrame (engine.books.read b)
      ((engine.settleTrade b side idx aggressor resting qty).books.read b) ∧
      (engine.settleTrade b side idx aggressor resting qty).pool.size = engine.pool.size := by
  refine ⟨?_, rfl⟩
  rw [settleTrade, readPutBook, if_pos rfl]
  exact putLevelFrame ..

theorem finishTradeFrame (engine : Engine) (idx : UInt32) (resting : Slot) (qty : Quantity) :
    SameFrame (engine.books.read b)
      ((finishTrade engine b side idx aggressor resting qty).books.read b) ∧
      (finishTrade engine b side idx aggressor resting qty).pool.size = engine.pool.size := by
  obtain ⟨frame, size⟩ := @settleTradeFrame b aggressor side engine idx resting qty
  unfold finishTrade
  simp only
  split
  · rw [readPutBook, if_pos rfl]
    exact ⟨sameFrameTrans frame (removeRestingFrame ..), (removeRestingSize ..).trans size⟩
  · exact ⟨frame, size⟩

theorem tradeHeadRefines (matching : Matching before.engine queues venue b aggressor taker)
    (active : 0 < taker.openQty) (foremost : Foremost (queues b) side.opposite level)
    {resting : Slot} {rest : List Slot} (here : queues b side.opposite level = resting :: rest)
    (instrumentId : InstrumentId) :
    ∃ maker orders, venue.orders b side.opposite = maker :: orders ∧
      maker.price = (before.engine.books.read b).indexToPrice (UInt32.ofNat level) ∧
      Refines env none (tradeHead env b instrumentId aggressor side (UInt32.ofNat level)) before
        [Venue.tradeMoment instrumentId side maker venue taker]
        (fun _ engine => ∃ queues',
          Matching engine queues' (Venue.tradeStep b side maker orders venue taker).venue b
            aggressor (Venue.tradeStep b side maker orders venue taker).taker ∧
          Foremost (queues' b) side.opposite level ∧
            SameFrame (before.engine.books.read b) (engine.books.read b) ∧
          engine.pool.size = before.engine.pool.size ∧
          ((Venue.tradeStep b side maker orders venue taker).taker.openQty = 0 ∨
            queues' b side.opposite level = rest)) := by
  have shape := matching.rep.shape b matching.inside
  have member : resting ∈ queues b side.opposite level := by
    rw [here]
    exact List.mem_cons_self
  have head := opposedHead matching here
  obtain ⟨qty, qtyIs⟩ : ∃ qty : Quantity, qty =
      if (before.engine.pool.get resting).openQty < (before.engine.pool.get aggressor).openQty then
        (before.engine.pool.get resting).openQty else (before.engine.pool.get aggressor).openQty :=
          ⟨_, rfl⟩
  have exact : qty.toNat = min taker.openQty (before.engine.pool.get resting).openQty.toNat := by
    have own := matching.waiting.openQty
    rw [qtyIs]
    split
    · rename_i less
      have := UInt32.lt_iff_toNat_lt.mp less
      omega
    · rename_i enough
      have := mt UInt32.lt_iff_toNat_lt.mpr enough
      omega
  obtain ⟨queues', orders, ordersIs, matching', foremost', progress⟩ :=
    tradeMatching matching active foremost here exact
  refine ⟨viewOrder before.engine.pool resting, orders, ordersIs, slotPrice shape member, ?_⟩
  have view := matching.view
  rw [if_pos active] at view
  have waiting := matching.waiting
  have follows : Follows
      ⟨.trade before.engine.nextTradeId.toNat instrumentId (before.engine.pool.get resting).price
      qty.toNat (before.engine.pool.get resting).id (before.engine.pool.get aggressor).id side,
      { before.engine with nextTradeId := before.engine.nextTradeId + 1 }⟩
      (Venue.tradeMoment instrumentId side (viewOrder before.engine.pool resting) venue taker) := by
    refine ⟨?_, ⟨queues, repTradeId matching.rep _, matching.live, countTrade matching.rep view⟩,
      ?_⟩
    · rw [view.tradeId, exact, waiting.id]
      rfl
    · intro order working
      cases Option.some.inj working
      exact ⟨aggressor, _, ⟨waiting.inside, waiting.idle, waiting.owner, waiting.id,
        waiting.openQty,
        waiting.filledQty, waiting.indexed, waiting.fits⟩⟩
  have finished : ∀ engine : Engine, engine = finishTrade
      { before.engine with nextTradeId := before.engine.nextTradeId + 1 } b side
      (UInt32.ofNat level) aggressor resting qty →
      SameFrame (before.engine.books.read b) (engine.books.read b) ∧
      engine.pool.size = before.engine.pool.size := by
    rintro engine rfl
    have kept :=
      @finishTradeFrame b aggressor side
        { before.engine with nextTradeId := before.engine.nextTradeId + 1 }
      (UInt32.ofNat level) resting qty
    exact kept
  unfold tradeHead
  simp only [current, wpBind, wpGet, wpPure, update, wpModify, Refines, emit, wpIte, wpThrow, head,
    ← qtyIs]
  refine ⟨fun throws => ?_, fun _ => ⟨fun drained => ?_, fun left => ?_⟩⟩
  · exact .inl ⟨rfl, throws, 0, _, [_], rfl, rfl, .cons follows .nil, follows.sim⟩
  · have ends : finishTrade
        { before.engine with nextTradeId := before.engine.nextTradeId + 1 } b side
        (UInt32.ofNat level) aggressor resting qty = _ := if_pos drained
    rw [ends] at matching'
    exact ⟨[_], rfl, .cons follows .nil, queues', matching', foremost', (finished _ ends.symm).1,
      (finished _ ends.symm).2, progress⟩
  · have ends : finishTrade
        { before.engine with nextTradeId := before.engine.nextTradeId + 1 } b side
        (UInt32.ofNat level) aggressor resting qty = _ := if_neg left
    rw [ends] at matching'
    exact ⟨[_], rfl, .cons follows .nil, queues', matching', foremost', (finished _ ends.symm).1,
      (finished _ ends.symm).2, progress⟩

theorem takerOpen (matching : Matching before.engine queues venue b aggressor taker) :
    0 < (before.engine.pool.get aggressor).openQty ↔ 0 < taker.openQty := by
  rw [UInt32.lt_iff_toNat_lt, matching.waiting.openQty]
  rfl

theorem levelGoesOnIff (matching : Matching before.engine queues venue b aggressor taker)
    (inside : level < (before.engine.books.read b).levelCount) :
    before.engine.levelGoesOn b aggressor side (UInt32.ofNat level) = true ↔
      0 < taker.openQty ∧ queues b side.opposite level ≠ [] := by
  have queue := (matching.rep.shape b matching.inside).queue side.opposite level inside
  have head : ((before.engine.books.read b).levelAt side.opposite (UInt32.ofNat level)).head =
      kInvalidSlot ↔
      queues b side.opposite level = [] := LinkedQueue.headIsNil queue
  rw [levelGoesOn, Bool.and_eq_true, decide_eq_true_iff, decide_eq_true_iff, takerOpen matching, Ne,
    head]

theorem acceptsIff {price other : Int} : side.accepts (some price) other = true ↔
    ¬side.opposite.better price other := by
  cases side <;> simp [Side.accepts, Side.better, Side.opposite]

theorem acceptsBetter {price other : Int} (accepted : side.accepts limit price = true)
    (better : ¬side.opposite.better price other) : side.accepts limit other = true := by
  cases limit with
  | none => rfl
  | some limit =>
    rw [acceptsIff] at accepted ⊢
    exact notBetterTrans better accepted

theorem levelDone (matching : Matching before.engine queues venue b aggressor taker)
    (foremost : Foremost (queues b) side.opposite level)
    (inside : level < (before.engine.books.read b).levelCount)
    (empty : queues b side.opposite level = []) (instrumentId : InstrumentId) :
    Venue.sweep b instrumentId side
      (some ((before.engine.books.read b).indexToPrice (UInt32.ofNat level)))
        (venue.orders b side.opposite) venue taker =
          ([], ⟨venue, taker, venue.orders b side.opposite⟩) := by
  have shape := matching.rep.shape b matching.inside
  have fitted := matching.rep.fitted b matching.inside
  rw [ordersAt matching.view matching.inside, viewSide]
  cases slots : slotsOf (before.engine.books.read b).levelCount (queues b) side.opposite with
  | nil => rfl
  | cons slot later =>
    have listed : slot ∈ slotsOf (before.engine.books.read b).levelCount
        (queues b) side.opposite := by
      rw [slots]
      exact List.mem_cons_self
    obtain ⟨l, member⟩ := (memSlotsOf shape).mp listed
    have behind : side.opposite.ahead level l := by
      by_contra notAhead
      have same := Side.aheadAntisymm notAhead (foremost l (List.ne_nil_of_mem member))
      rw [← same, empty] at member
      contradiction
    have worse := aheadBetter fitted inside (occupiedInside shape member) behind
    refine Venue.sweepRefused (Bool.eq_false_iff.mpr (fun accepted => acceptsIff.mp accepted ?_))
    rw [slotPrice shape member]
    exact worse

theorem matchLevelIdle (matching : Matching before.engine queues venue b aggressor taker)
    (foremost : Foremost (queues b) side.opposite level)
    (inside : level < (before.engine.books.read b).levelCount)
    (limitIs : limit = some ((before.engine.books.read b).indexToPrice (UInt32.ofNat level)))
    (stops : before.engine.levelGoesOn b aggressor side (UInt32.ofNat level) = false)
    (instrumentId : InstrumentId) :
    Venue.sweep b instrumentId side limit (venue.orders b side.opposite) venue taker =
      ([], ⟨venue, taker, venue.orders b side.opposite⟩) := by
  have reason := mt (levelGoesOnIff matching inside).mpr (Bool.eq_false_iff.mp stops)
  by_cases active : 0 < taker.openQty
  · have empty : queues b side.opposite level = [] := by
      by_contra occupied
      exact reason ⟨active, occupied⟩
    rw [limitIs]
    exact levelDone matching foremost inside empty instrumentId
  · exact Venue.sweepIdle (by omega)

def Worked (before : Engine) (b : Nat) (aggressor : Slot) (swept : Venue.Sweep) (engine : Engine) :
    Prop :=
  ∃ queues, Matching engine queues swept.venue b aggressor swept.taker ∧
    SameFrame (before.books.read b) (engine.books.read b) ∧ engine.pool.size = before.pool.size

theorem workedTrans {first second engine : Engine} {swept : Venue.Sweep}
    (frame : SameFrame (first.books.read b) (second.books.read b))
    (size : second.pool.size = first.pool.size) (worked : Worked second b aggressor swept engine) :
    Worked first b aggressor swept engine := by
  obtain ⟨queues, matching, frame', size'⟩ := worked
  exact ⟨queues, matching, sameFrameTrans frame frame', size'.trans size⟩

/- The inner loop sweeps at the price of its level. -/
theorem matchLevelRefines (instrumentId : InstrumentId) (fuel : Nat) :
    ∀ (before : Session) (queues : Nat → Queues) (venue : Venue) (taker : Order),
      Matching before.engine queues venue b aggressor taker →
      Foremost (queues b) side.opposite level →
      level < (before.engine.books.read b).levelCount →
      limit = some ((before.engine.books.read b).indexToPrice (UInt32.ofNat level)) →
      taker.openQty = 0 ∨ (queues b side.opposite level).length ≤ fuel →
      Refines env none (matchLevel env b instrumentId aggressor side
        (UInt32.ofNat level) fuel) before
        (Venue.sweep b instrumentId side limit (venue.orders b side.opposite) venue taker).1
        (fun _ => Worked before.engine b aggressor
          (Venue.sweep b instrumentId side limit (venue.orders b side.opposite) venue
            taker).2) := by
  induction fuel with
  | zero =>
    intro before queues venue taker matching foremost inside limitIs enough
    have stops : before.engine.levelGoesOn b aggressor side (UInt32.ofNat level) = false := by
      rw [Bool.eq_false_iff, Ne, levelGoesOnIff matching inside]
      rintro ⟨active, occupied⟩
      rcases enough with spent | none
      · omega
      · exact occupied (List.eq_nil_of_length_eq_zero (Nat.le_zero.mp none))
    rw [matchLevelIdle matching foremost inside limitIs stops instrumentId]
    refine refinesRead ?_
    rw [stops]
    exact refinesPure _ ⟨queues, matching, sameFrameRefl _, rfl⟩
  | succ fuel ih =>
    intro before queues venue taker matching foremost inside limitIs enough
    refine refinesRead ?_
    by_cases goesOn : before.engine.levelGoesOn b aggressor side (UInt32.ofNat level) = true
    · obtain ⟨active, occupied⟩ := (levelGoesOnIff matching inside).mp goesOn
      obtain ⟨resting, rest, here⟩ := List.exists_cons_of_ne_nil occupied
      obtain ⟨maker, orders, ordersIs, priced, trade⟩ :=
        tradeHeadRefines matching active foremost here instrumentId
      have accepted : side.accepts limit maker.price = true := by
        rw [limitIs, priced, acceptsIff]
        exact betterIrrefl _ _
      have stepOrders :=
        @Venue.tradeStepOrders b side maker taker orders venue _
          (bookAt matching.view matching.inside)
      rw [ordersIs, Venue.sweepTrade active accepted, ← stepOrders, goesOn]
      refine refinesBind trade ?_
      rintro _ after ⟨queues', matching', foremost', frame, size, progress⟩
      have bookIs : (after.engine.books.read b).levelCount =
          (before.engine.books.read b).levelCount ∧
          (after.engine.books.read b).indexToPrice (UInt32.ofNat level) =
            (before.engine.books.read b).indexToPrice (UInt32.ofNat level) := by
        rw [levelCount, levelCount, indexToPrice, indexToPrice, frame.ladder]
        exact ⟨rfl, rfl⟩
      have left : (Venue.tradeStep b side maker orders venue taker).taker.openQty = 0 ∨
          (queues' b side.opposite level).length ≤ fuel := by
        rcases progress with spent | left
        · exact .inl spent
        · rcases enough with spent | short
          · omega
          · rw [here, List.length_cons] at short
            exact .inr (by rw [left]; omega)
      have later := ih after queues' _ _ matching' foremost' (by rw [bookIs.1]; exact inside)
        (by rw [bookIs.2]; exact limitIs) left
      exact refinesDone later (fun _ _ => workedTrans frame size)
    · have stops := Bool.eq_false_iff.mpr goesOn
      rw [matchLevelIdle matching foremost inside limitIs stops instrumentId, stops]
      exact refinesPure _ ⟨queues, matching, sameFrameRefl _, rfl⟩

/- A limit, as the source passes it on: a price and whether to ignore it. -/
def limitOf (limitPrice : Int) (isMarket : Bool) : Option Int :=
  if isMarket then none else some limitPrice

theorem acceptsOf (limitPrice price : Int) (isMarket : Bool) :
    side.accepts (limitOf limitPrice isMarket) price =
      (isMarket || crosses side limitPrice price) := by
  cases isMarket <;> cases side <;> rfl

theorem matchingGoesOnIff (matching : Matching before.engine queues venue b aggressor taker)
    (limitPrice : Int) (isMarket : Bool) :
    before.engine.matchingGoesOn b aggressor side limitPrice isMarket = true ↔
      0 < taker.openQty ∧ ∃ level : Nat,
        (before.engine.books.read b).bestIndex side.opposite = (level : Int) ∧
        side.accepts (limitOf limitPrice isMarket)
          ((before.engine.books.read b).indexToPrice (UInt32.ofNat level)) = true := by
  simp only [matchingGoesOn, Bool.and_eq_true, decide_eq_true_iff, takerOpen matching, hasBest,
    ← acceptsOf, and_assoc]
  refine and_congr_right (fun _ => ?_)
  constructor
  · rintro ⟨real, accepted⟩
    obtain ⟨level, same⟩ := Int.eq_ofNat_of_zero_le real
    rw [same, WordBits.ofIntNatCast] at accepted
    exact ⟨level, same, accepted⟩
  · rintro ⟨level, same, accepted⟩
    rw [same, WordBits.ofIntNatCast]
    exact ⟨Int.natCast_nonneg level, accepted⟩

theorem matchLevelsIdle (matching : Matching before.engine queues venue b aggressor taker)
    (limitPrice : Int) (isMarket : Bool)
    (stops : before.engine.matchingGoesOn b aggressor side limitPrice isMarket = false)
    (instrumentId : InstrumentId) :
    Venue.sweep b instrumentId side (limitOf limitPrice isMarket)
      (venue.orders b side.opposite) venue taker =
      ([], ⟨venue, taker, venue.orders b side.opposite⟩) := by
  have shape := matching.rep.shape b matching.inside
  have reason :=
    mt (matchingGoesOnIff matching limitPrice isMarket).mpr (Bool.eq_false_iff.mp stops)
  by_cases active : 0 < taker.openQty
  · rcases Int.lt_or_le ((before.engine.books.read b).bestIndex side.opposite) 0 with none | real
    · rw [ordersAt matching.view matching.inside, viewSide, noBestEmpty shape none]
      rfl
    · obtain ⟨level, best⟩ := Int.eq_ofNat_of_zero_le real
      obtain ⟨slot, rest, later, here, first, _, _⟩ := bestFirst shape best
      rw [ordersAt matching.view matching.inside, viewSide, first]
      refine Venue.sweepRefused
        (Bool.eq_false_iff.mpr (fun accepted => reason ⟨active, level, best, ?_⟩))
      have member : slot ∈ queues b side.opposite level := by
        rw [here]
        exact List.mem_cons_self
      rw [slotPrice shape member] at accepted
      exact accepted
  · exact Venue.sweepIdle (by omega)

theorem ordersLeft (matching : Matching before.engine queues venue b aggressor taker) {best : Nat}
    (here : (before.engine.books.read b).bestIndex side.opposite = (best : Int)) :
    ∃ maker rest, venue.orders b side.opposite = maker :: rest ∧
      maker.price = (before.engine.books.read b).indexToPrice (UInt32.ofNat best) := by
  have shape := matching.rep.shape b matching.inside
  obtain ⟨slot, rest, later, queue, first, _, _⟩ := bestFirst shape here
  refine ⟨viewOrder before.engine.pool slot, (rest ++ later).map (viewOrder before.engine.pool), ?_,
    ?_⟩
  · rw [ordersAt matching.view matching.inside, viewSide, first, List.map_cons]
  · have member : slot ∈ queues b side.opposite best := by
      rw [queue]
      exact List.mem_cons_self
    exact slotPrice shape member

/- The outer loop sweeps at the limit. -/
theorem matchLevelsRefines (instrumentId : InstrumentId) (limitPrice : Int) (isMarket : Bool)
    (inner fuel : Nat) :
    ∀ (before : Session) (queues : Nat → Queues) (venue : Venue) (taker : Order),
      Matching before.engine queues venue b aggressor taker → before.engine.pool.size ≤ inner →
      taker.openQty = 0 ∨ (venue.orders b side.opposite).length ≤ fuel →
      Refines env none (matchLevels env b instrumentId aggressor side limitPrice isMarket
        inner fuel) before
        (Venue.sweep b instrumentId side (limitOf limitPrice isMarket)
          (venue.orders b side.opposite) venue taker).1
        (fun _ => Worked before.engine b aggressor
          (Venue.sweep b instrumentId side (limitOf limitPrice isMarket)
            (venue.orders b side.opposite) venue taker).2) := by
  induction fuel with
  | zero =>
    intro before queues venue taker matching rounds enough
    have stops : before.engine.matchingGoesOn b aggressor side limitPrice isMarket = false := by
      rw [Bool.eq_false_iff, Ne, matchingGoesOnIff matching]
      rintro ⟨active, level, best, _⟩
      obtain ⟨maker, rest, orders, _⟩ := ordersLeft matching best
      rw [orders, List.length_cons] at enough
      omega
    rw [matchLevelsIdle matching limitPrice isMarket stops instrumentId]
    refine refinesRead ?_
    rw [stops]
    exact refinesPure _ ⟨queues, matching, sameFrameRefl _, rfl⟩
  | succ fuel ih =>
    intro before queues venue taker matching rounds enough
    refine refinesRead ?_
    by_cases goesOn : before.engine.matchingGoesOn b aggressor side limitPrice isMarket = true
    · obtain ⟨active, level, best, accepted⟩ :=
        (matchingGoesOnIff matching limitPrice isMarket).mp goesOn
      have shape := matching.rep.shape b matching.inside
      obtain ⟨taken, first⟩ := (shape.best side.opposite).some level best
      obtain ⟨_, _, _, _, _, _, bounded⟩ := bestFirst shape best
      obtain ⟨maker, rest, orders, priced⟩ := ordersLeft matching best
      have short : (queues b side.opposite level).length ≤ inner :=
        Nat.le_trans (queueShort (shape.queue side.opposite level bounded).nodup
          (fun slot member => (shape.home side.opposite level slot member).inside)) rounds
      have within : ∀ price,
          side.accepts (some ((before.engine.books.read b).indexToPrice (UInt32.ofNat level)))
          price = true →
          side.accepts (limitOf limitPrice isMarket) price = true :=
        fun price inner => acceptsBetter accepted (acceptsIff.mp inner)
      have sweepIs := @Venue.sweepSplit b instrumentId side (limitOf limitPrice isMarket) _ within
        (venue.orders b side.opposite) venue taker
      have outer := @matchLevelRefines env b aggressor side level _ instrumentId inner before queues
          venue taker matching
        first bounded rfl (.inr short)
      have narrow : side.accepts
          (some ((before.engine.books.read b).indexToPrice (UInt32.ofNat level))) maker.price =
          true := by
        rw [priced, acceptsIff]
        exact betterIrrefl _ _
      obtain ⟨swept, sweptIs⟩ : ∃ swept, swept = Venue.sweep b instrumentId side
          (some ((before.engine.books.read b).indexToPrice (UInt32.ofNat level)))
          (venue.orders b side.opposite) venue taker :=
        ⟨_, rfl⟩
      have inBooks : b < venue.books.length := by
        have book := bookAt matching.view matching.inside
        exact (List.getElem?_eq_some_iff.mp book).1
      have left : swept.2.venue.orders b side.opposite = swept.2.opposite := by
        rw [sweptIs]
        exact Venue.sweepOrders _ venue taker inBooks rfl
      have progress : swept.2.taker.openQty = 0 ∨ swept.2.opposite.length ≤ rest.length := by
        rw [sweptIs, orders]
        exact Venue.sweepProgress active narrow
      have fewer : swept.2.taker.openQty = 0 ∨
          (swept.2.venue.orders b side.opposite).length ≤ fuel := by
        rw [left]
        rw [orders, List.length_cons] at enough
        omega
      rw [← sweptIs] at outer sweepIs
      rw [← left] at sweepIs
      rw [sweepIs, goesOn, best, WordBits.ofIntNatCast]
      refine refinesBind outer ?_
      rintro _ after ⟨queues', matching', frame, size⟩
      have later := ih after queues' _ _ matching' (by rw [size]; exact rounds) fewer
      exact refinesDone later (fun _ _ => workedTrans frame size)
    · have stops := Bool.eq_false_iff.mpr goesOn
      rw [matchLevelsIdle matching limitPrice isMarket stops instrumentId, stops]
      exact refinesPure _ ⟨queues, matching, sameFrameRefl _, rfl⟩

theorem ordersFew (matching : Matching before.engine queues venue b aggressor taker) (side : Side) :
    (venue.orders b side).length ≤ before.engine.pool.size := by
  have shape := matching.rep.shape b matching.inside
  rw [ordersAt matching.view matching.inside, viewSide, List.length_map]
  refine queueShort (slotsNodup shape side) (fun slot listed => ?_)
  obtain ⟨level, member⟩ := (memSlotsOf shape).mp listed
  exact (shape.home side level slot member).inside

theorem runMatchingRefines (instrumentId : InstrumentId) (limitPrice : Int) (isMarket : Bool)
    (matching : Matching before.engine queues venue b aggressor taker) :
    Refines env none (runMatching env b instrumentId aggressor side limitPrice isMarket) before
      (Venue.sweep b instrumentId side (limitOf limitPrice isMarket) (venue.orders b side.opposite)
        venue taker).1
      (fun _ => Worked before.engine b aggressor
        (Venue.sweep b instrumentId side (limitOf limitPrice isMarket)
          (venue.orders b side.opposite) venue taker).2) := by
  have few := ordersFew matching side.opposite
  refine refinesRead ?_
  exact matchLevelsRefines instrumentId limitPrice isMarket _ _ before queues venue taker matching
    (Nat.le_succ _) (.inr (Nat.le_succ_of_le few))

end Loops
end Engine
end Xmatch
