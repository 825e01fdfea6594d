import Xmatch.Entry

/-! A submit of the engine follows the submit of the venue. -/
namespace Xmatch

namespace Venue

section Sweeping
variable {b : Nat} {instrumentId : InstrumentId} {side : Side} {limit : Option Int}

theorem sweepTaker : ∀ (orders : List Order) (venue : Venue) (taker : Order),
    (sweep b instrumentId side limit orders venue taker).2.taker.id = taker.id ∧
      (sweep b instrumentId side limit orders venue taker).2.taker.price = taker.price := by
  intro orders
  induction orders with
  | nil => intro venue taker; exact ⟨rfl, rfl⟩
  | cons maker rest ih =>
    intro venue taker
    by_cases goesOn : 0 < taker.openQty ∧ side.accepts limit maker.price = true
    · by_cases closes : maker.openQty ≤ taker.openQty
      · simp only [sweep, goesOn, and_self, if_true, closes]
        exact ih _ _
      · simp only [sweep, goesOn, and_self, if_true, closes, if_false]
        exact ⟨rfl, rfl⟩
    · rw [sweep, if_neg goesOn]
      exact ⟨rfl, rfl⟩

end Sweeping

def remainder (b : Nat) (order : NewOrder) (swept : Sweep) : List Moment × Venue :=
  if 0 < swept.taker.openQty then
    if order.tif = .day then
      ([], swept.venue.putSide b order.side
        (enqueue order.side swept.taker (swept.venue.orders b order.side)))
    else
      ([{ event := .canceled order.orderId swept.taker.openQty (remainderReason order),
          venue := swept.venue }],
        swept.venue)
  else ([], swept.venue)

theorem disposeSplit (b : Nat) (order : NewOrder) (swept : List Moment × Sweep) :
    dispose b order swept = (swept.1 ++ (remainder b order swept.2).1,
      (remainder b order swept.2).2) := by
  unfold dispose remainder
  simp only
  split
  · split
    · rw [List.append_nil]
    · rfl
  · rw [List.append_nil]

end Venue

namespace Engine
open OrderBook Effect

section Looking
variable {engine : Engine} {queues : Nat → Queues} {venue : Venue} {credit b : Nat}

theorem findBookIndex (rep : Rep engine queues) (view : View engine queues venue credit)
    (id : InstrumentId) :
    engine.findBook id = venue.books.findIdx? (fun book => book.instrumentId = id) := by
  symm
  cases found : engine.findBook id with
  | none =>
    rw [List.findIdx?_eq_none_iff, view.books]
    intro book listed
    obtain ⟨b, inside, rfl⟩ := List.mem_map.mp listed
    exact decide_eq_false (findBookNone rep found b (List.mem_range.mp inside))
  | some b =>
    obtain ⟨inside, named⟩ := findBookSome rep found
    rw [List.findIdx?_eq_some_iff_getElem]
    have size : venue.books.length = engine.books.size := by rw [view.books]; simp
    have at' : ∀ c (h : c < venue.books.length),
        (venue.books[c]).instrumentId = (engine.books.read c).instrumentId := by
      intro c h
      have book := bookAt view (size ▸ h)
      rw [List.getElem?_eq_getElem h] at book
      rw [Option.some.inj book]
      rfl
    refine ⟨size ▸ inside, decide_eq_true ((at' b _).trans named), fun c earlier => ?_⟩
    have insideC : c < engine.books.size := Nat.lt_trans earlier inside
    rw [at', Bool.not_eq_true, decide_eq_false_iff_not]
    intro same
    have := bookUnique rep insideC inside (same.trans named.symm)
    omega

theorem containsSpent (view : View engine queues venue credit) (id : OrderId) :
    engine.orderIndex.contains id = true ↔ id ∈ venue.spent := by
  rw [view.spent, FlatHashMap.contains, Option.isSome_iff_exists]

theorem pricedOr (fitted : Fitted (engine.books.read b)) {price : Int}
    (aligned : TickTable.isTickAligned kTickSchedule price = true) :
    (Venue.outsideBand (viewBook engine.pool (engine.books.read b) (queues b)) price = true ∧
      (engine.books.read b).priceToIndex price < 0) ∨
    (Venue.outsideBand (viewBook engine.pool (engine.books.read b) (queues b)) price = false ∧
      ∃ level, Priced (engine.books.read b) price level) := by
  have numbered := fitted.numbered
  by_cases inside : (engine.books.read b).bandLo ≤ price ∧ price ≤ (engine.books.read b).bandHi
  · obtain ⟨level, bounded, index, back⟩ := numbered.index price aligned inside.1 inside.2
    refine .inr ⟨decide_eq_false ?_, level, bounded, index, back⟩
    simp only [viewBook]
    omega
  · have index := numbered.none price (fun h => inside h.2)
    have outside : (engine.books.read b).priceToIndex price < 0 := by
      rw [OrderBook.priceToIndex, index]
      decide
    refine .inl ⟨decide_eq_true ?_, outside⟩
    simp only [viewBook]
    omega

theorem invalidEqVenueInvalid (fitted : Fitted (engine.books.read b)) (order : NewOrder) :
    invalid (engine.books.read b) order =
      Venue.invalid (viewBook engine.pool (engine.books.read b) (queues b)) order := by
  unfold invalid Venue.invalid
  by_cases aligned : TickTable.isTickAligned kTickSchedule order.price = true
  · rcases @pricedOr engine queues b fitted order.price aligned with ⟨outside, negative⟩ | ⟨within,
      level, priced⟩
    · simp only [outside, negative]
    · have nonneg : ¬(engine.books.read b).priceToIndex order.price < 0 := by
        rw [priced.index]
        omega
      simp only [within, nonneg, if_false]
      rfl
  · simp only [Bool.eq_false_iff.mpr aligned]
    rfl

theorem passed (fitted : Fitted (engine.books.read b)) {order : NewOrder}
    (valid : invalid (engine.books.read b) order = none) :
    order.quantity ≠ 0 ∧ (order.type = .market → order.tif ≠ .day) ∧
      (order.type ≠ .market → ∃ level, Priced (engine.books.read b) order.price level) := by
  unfold invalid at valid
  split at valid
  · contradiction
  · rename_i quantity
    split at valid
    · contradiction
    · rename_i tif
      refine ⟨quantity, fun market day => tif ⟨market, day⟩, fun limit => ?_⟩
      rw [if_pos limit] at valid
      split at valid
      · contradiction
      · rename_i aligned
        split at valid
        · contradiction
        · rename_i nonneg
          have aligned : TickTable.isTickAligned kTickSchedule order.price = true := by
            simpa using aligned
          rcases @pricedOr engine (fun _ _ _ => []) b fitted order.price aligned with ⟨_,
            negative⟩ | ⟨_, priced⟩
          · exact absurd negative nonneg
          · exact priced

end Looking

section Executing
variable {env : Env} {before : Session} {queues : Nat → Queues} {venue : Venue} {b : Nat}
  {slot : Slot} {taker : Order} {order : NewOrder} {price : Int}

theorem matchingSim {engine : Engine} (matching : Matching engine queues venue b slot taker) :
    Sim engine venue :=
  ⟨queues, matching.rep, matching.live, viewCredit matching.view (Nat.zero_le _)⟩

theorem emptied {engine : Engine} (matching : Matching engine queues venue b slot taker) :
    Retouch engine slot (fun rec => { rec with openQty := 0 }) :=
  ⟨matching.waiting.idle, matching.waiting.idle, rfl, rfl⟩

theorem emptiedSim {engine : Engine} (matching : Matching engine queues venue b slot taker) :
    Sim (engine.putRecord slot (fun rec => { rec with openQty := 0 })) venue :=
  ⟨queues, retouchRep matching.rep (emptied matching),
    retouchLive matching.rep matching.live (emptied matching),
    viewCredit (retouchView matching.rep matching.view (emptied matching)) (Nat.zero_le _)⟩

theorem restSim {engine : Engine} (matching : Matching engine queues venue b slot taker)
    (left : 0 < taker.openQty) {level : Nat}
    (priced : Priced (engine.books.read b) taker.price level) (side : Side) :
    Sim (engine.putBook b (addResting engine.pool (engine.books.read b) slot side taker.price))
      (venue.putSide b side (enqueue side taker (venue.orders b side))) := by
  have view : View engine queues venue (0 + 1) := by
    have view := matching.view
    rwa [if_pos left] at view
  exact addStep matching.rep matching.live view matching.inside matching.waiting left priced side

theorem pricedFrame {book book' : OrderBook} {level : Nat} (frame : SameFrame book book')
    (priced : Priced book price level) : Priced book' price level := by
  refine ⟨?_, ?_, ?_⟩
  · rw [levelCount, frame.ladder]
    exact priced.bounded
  · rw [OrderBook.priceToIndex, frame.ladder]
    exact priced.index
  · rw [OrderBook.indexToPrice, frame.ladder]
    exact priced.price

theorem disposeRemainderRefines {swept : Venue.Sweep}
    (matching : Matching before.engine queues swept.venue b slot swept.taker)
    (priceIs : swept.taker.price = price)
    (rests : order.tif = .day → ∃ level, Priced (before.engine.books.read b) price level) :
    Refines env none (disposeRemainder env b slot order price) before
      (Venue.remainder b order swept).1
      (fun _ engine => Sim engine (Venue.remainder b order swept).2) := by
  have remaining := matching.waiting.openQty
  unfold Venue.remainder
  refine refinesRead (refinesIte (fun left => ?_) (fun none => ?_))
  · have left := (takerOpen matching).mp left
    rw [if_pos left]
    refine refinesIte (fun day => ?_) (fun immediate => ?_)
    · obtain ⟨level, priced⟩ := rests day
      rw [← priceIs] at priced ⊢
      rw [if_pos day]
      exact refinesUpdate _ (restSim matching left priced order.side)
    · rw [if_neg immediate]
      refine refinesAfter (refinesEmit ⟨?_, emptiedSim matching, fun _ impossible => ?_⟩
        (emptiedSim matching))
      · rw [remaining]
        rfl
      · contradiction
  · rw [if_neg (fun left => none ((takerOpen matching).mpr left))]
    exact refinesPure _ (matchingSim matching)

theorem matchAndDisposeRefines (matching : Matching before.engine queues venue b slot taker)
    (priceIs : taker.price = price)
    (rests : order.tif = .day → ∃ level, Priced (before.engine.books.read b) price level) :
    Refines env none (matchAndDispose env b slot order price) before
      (Venue.dispose b order
        (Venue.sweep b order.instrumentId order.side (limitOf price (order.type = .market))
        (venue.orders b order.side.opposite) venue taker)).1
      (fun _ engine => Sim engine
        (Venue.dispose b order (Venue.sweep b order.instrumentId order.side
        (limitOf price (order.type = .market)) (venue.orders b order.side.opposite) venue
          taker)).2) := by
  have same :=
    @Venue.sweepTaker b order.instrumentId order.side (limitOf price (order.type = .market))
    (venue.orders b order.side.opposite) venue taker
  rw [Venue.disposeSplit]
  refine refinesBind (runMatchingRefines order.instrumentId price
    (order.type = .market) matching) ?_
  rintro _ after ⟨queues', matching', frame, _⟩
  refine disposeRemainderRefines matching' (same.2.trans priceIs) (fun day => ?_)
  obtain ⟨level, priced⟩ := rests day
  exact ⟨level, pricedFrame frame priced⟩

theorem executeRefines (matching : Matching before.engine queues venue b slot taker)
    (takerIs : taker = Venue.takerOf order)
    (priceIs : price = if order.type = .market then 0 else order.price)
    (positive : order.quantity ≠ 0)
    (rests : order.tif = .day → ∃ level, Priced (before.engine.books.read b) price level) :
    Refines env none (execute env b slot order price) before
      (Venue.execute wrappedFill b order venue).1
      (fun _ engine => Sim engine (Venue.execute wrappedFill b order venue).2) := by
  have limitIs : limitOf price (order.type = .market) = Venue.limitOf order := by
    rw [limitOf, Venue.limitOf, priceIs]
    by_cases market : order.type = .market <;> simp [market]
  have priced : taker.price = price := by
    rw [takerIs, priceIs, Venue.takerOf, Venue.limitOf]
    by_cases market : order.type = .market <;> simp [market]
  have dispose := @matchAndDisposeRefines env before queues venue b slot taker order price matching
    priced rests
  rw [limitIs, takerIs] at dispose
  unfold Venue.execute
  refine refinesRead (refinesIte (fun fok => ?_) (fun other => ?_))
  · have fills := @canFullyFillEqWrappedFill before.engine.pool (before.engine.books.read b)
        (queues b) order.side price
      (order.type = .market) order.quantity (matching.rep.fitted b matching.inside)
      (matching.rep.shape b matching.inside) positive
    rw [limitIs, ← ordersAt matching.view matching.inside] at fills
    rw [fills]
    cases feasible : wrappedFill order.side (Venue.limitOf order) order.quantity.toNat
        (venue.orders b order.side.opposite) with
    | true =>
      simp only [fok, feasible, Bool.not_true, Bool.false_eq_true, and_false, if_false]
      exact dispose
    | false =>
      simp only [fok, feasible, Bool.not_false, and_self, if_true]
      exact refinesAfter (refinesEmit ⟨rfl, emptiedSim matching,
        fun _ impossible => by contradiction⟩ (emptiedSim matching))
  · simp only [other, false_and, if_false]
    exact dispose

theorem rejectRefines {fallback : Option Venue} (sim : Sim before.engine venue) (id : OrderId)
    (reason : RejectReason) :
    Refines env fallback (emit env (.rejected id reason)) before (Venue.reject id reason venue).1
      (fun _ engine => Sim engine (Venue.reject id reason venue).2) :=
  refinesEmit ⟨rfl, sim, fun _ impossible => by contradiction⟩ sim

structure Admitted (before : Engine) (queues : Nat → Queues) (venue : Venue) (order : NewOrder)
    (slot : Slot) (engine : Engine) : Prop where
  rep : Rep engine queues
  live : Live engine queues
  view : View engine queues (venue.spend order.orderId 0) 2
  inside : slot.toNat < engine.pool.size
  holds : engine.pool.get slot =
    { id := order.orderId, instrumentId := order.instrumentId, side := order.side }
  indexed : engine.orderIndex.find order.orderId = some slot
  books : engine.books = before.books
  named : slot.toNat = before.pool.size
  kept : ∀ other : Slot, other.toNat < before.pool.size →
    engine.pool.get other = before.pool.get other

theorem enterOrderRefines (rep : Rep before.engine queues) (live : Live before.engine queues)
    (view : View before.engine queues venue 0) (room : before.engine.pool.size < kInvalidSlot.toNat)
    (absent : before.engine.orderIndex.find order.orderId = none) :
    Refines env (some venue) (enterOrder env order) before []
      (fun slot engine => Admitted before.engine queues venue order slot engine) := by
  refine refinesThen (allocateRefines rep live view room)
    (fun slot after spare _ => refinesAfter ?_)
  have spare := spareRecord spare (fun rec =>
    { rec with id := order.orderId, instrumentId := order.instrumentId, side := order.side })
  obtain ⟨spared, sparedIs⟩ : ∃ spared : Session, spared = { after with
    engine := after.engine.putRecord slot (fun rec =>
      { rec with id := order.orderId, instrumentId := order.instrumentId, side := order.side }) } :=
        ⟨_, rfl⟩
  rw [← sparedIs]
  have spare : Spare before.engine slot
      { id := order.orderId, instrumentId := order.instrumentId, side := order.side }
      spared.engine := by
    rw [sparedIs]
    exact spare
  have rep' := spareRep spare rfl rep room
  have live' := spareLive spare rep live
  have view' := spareView spare rep view
  have inside : slot.toNat < spared.engine.pool.size := by
    rw [spare.named, spare.size]
    exact Nat.lt_succ_self _
  have absent' : spared.engine.orderIndex.find order.orderId = none := by
    rw [spare.rest]
    exact absent
  have books : spared.engine.books = before.engine.books := by rw [spare.rest]
  have fresh : ∀ b < spared.engine.books.size, ∀ s l, ∀ other ∈ queues b s l,
      (spared.engine.pool.get other).id ≠ order.orderId := by
    intro b inside s l other member same
    have known := rep'.indexed b inside s l other member
    rw [same, absent'] at known
    contradiction
  refine refinesThen (insertOrderRefines rep' live' view' absent' inside (by rw [spare.holds])) ?_
  rintro _ indexed ⟨named, indexedIs, renamed⟩ _
  have filled : (spared.engine.pool.get slot).filledQty.toNat = 0 := by
    rw [spare.holds]
    rfl
  refine refinesPure _ ?_
  rw [indexedIs]
  exact ⟨renamedRep rep' renamed fresh, live', renamedView view' renamed filled, inside,
    spare.holds, (renamed.reads _).trans (if_pos rfl), books, spare.named, spare.kept⟩

theorem acceptRefines {start : Engine}
    (admitted : Admitted start queues venue order slot before.engine)
    (inside : b < start.books.size)
    (instrument : (start.books.read b).instrumentId = order.instrumentId) :
    Refines env none (accept env slot order) before
      [{ event := .accepted order.orderId, venue := venue.spend order.orderId 0 }]
      (fun _ engine => Matching engine queues (venue.spend order.orderId 0) b slot
        (Venue.takerOf order) ∧
        engine.books = start.books ∧
        ∀ other : Slot, other.toNat < start.pool.size →
        engine.pool.get other = start.pool.get other) := by
  have holds := admitted.holds
  have retouch : Retouch before.engine slot
      (fun rec => { rec with openQty := order.quantity, filledQty := 0 }) := by
    constructor <;> rw [holds]
  have record : (before.engine.putRecord slot (fun rec =>
      { rec with openQty := order.quantity, filledQty := 0 })).pool.get slot =
      { id := order.orderId, instrumentId := order.instrumentId,
        side := order.side, openQty := order.quantity } := by
    rw [putRecord, OrderPool.getModifySame, holds]
  refine refinesAfter ?_
  obtain ⟨ready, readyIs⟩ : ∃ ready : Session, ready = { before with
    engine :=
      before.engine.putRecord slot
        (fun rec => { rec with openQty := order.quantity, filledQty := 0 }) } := ⟨_, rfl⟩
  rw [← readyIs]
  have engineIs : ready.engine =
      before.engine.putRecord slot
      (fun rec => { rec with openQty := order.quantity, filledQty := 0 }) := by rw [readyIs]
  rw [← engineIs] at record
  have books : ready.engine.books = start.books := by
    rw [engineIs]
    exact admitted.books
  have waiting : Waiting ready.engine slot (ready.engine.books.read b).instrumentId
      (Venue.takerOf order) := by
    refine ⟨?_, by rw [record], ?_, by rw [record]; rfl, by rw [record]; rfl, by rw [record]; rfl, ?_, ?_⟩
    · rw [engineIs]
      exact admitted.inside
    · rw [record, books]
      exact instrument.symm
    · rw [engineIs]
      exact admitted.indexed
    · exact UInt32.toNat_lt order.quantity
  have matching : Matching ready.engine queues (venue.spend order.orderId 0) b slot
      (Venue.takerOf order) := by
    refine ⟨?_, ?_, by rw [books]; exact inside, ?_, waiting⟩
    · rw [engineIs]
      exact retouchRep admitted.rep retouch
    · rw [engineIs]
      exact retouchLive admitted.rep admitted.live retouch
    · rw [engineIs]
      exact viewCredit (retouchView admitted.rep admitted.view retouch) (by split <;> omega)
  refine refinesEmit ⟨rfl, matchingSim matching, fun _ impossible => by contradiction⟩
    ⟨matching, books, ?_⟩
  intro other below
  have apart : other ≠ slot := by
    rintro rfl
    have := admitted.named
    omega
  rw [engineIs]
  exact (OrderPool.getModifyOther _ _ apart).trans (admitted.kept other below)

theorem restsSomewhere {start : Engine} (fitted : Fitted (start.books.read b))
    (valid : invalid (start.books.read b) order = none) (day : order.tif = .day) :
    ∃ level, Priced (start.books.read b) (limitPrice order) level := by
  obtain ⟨_, immediate, limited⟩ := passed fitted valid
  have limit : order.type ≠ .market := fun market => immediate market day
  rw [limitPrice, if_neg limit]
  exact limited limit

theorem submitRefines (sim : Sim before.engine venue)
    (room : before.engine.pool.size < kInvalidSlot.toNat) (order : NewOrder) :
    Refines env (some venue) (submit env order) before (Venue.submit wrappedFill order venue).1
      (fun _ engine => Sim engine (Venue.submit wrappedFill order venue).2) := by
  have start := sim
  obtain ⟨queues, rep, live, view⟩ := sim
  unfold Venue.submit
  rw [view.configured, ← findBookIndex rep view]
  refine refinesRead (refinesIte (fun unconfigured => ?_) (fun configured => ?_))
  · rw [if_pos unconfigured]
    exact rejectRefines start ..
  rw [if_neg configured]
  cases found : before.engine.findBook order.instrumentId with
  | none => exact rejectRefines start ..
  | some b =>
    obtain ⟨inside, instrument⟩ := findBookSome rep found
    refine refinesIte (fun used => ?_) (fun unused => ?_)
    · simp only [(containsSpent view _).mp used, if_true]
      exact rejectRefines start ..
    simp only [mt (containsSpent view _).mpr unused, if_false]
    have absent : before.engine.orderIndex.find order.orderId = none := by
      rwa [FlatHashMap.contains, Bool.not_eq_true, Option.isSome_eq_false_iff,
        Option.isNone_iff_eq_none] at unused
    have book : (venue.spend order.orderId 0).books[b]? =
        some (viewBook before.engine.pool (before.engine.books.read b) (queues b)) := by
      have book := bookAt view inside
      exact book
    rw [book, Option.bind_some, ← invalidEqVenueInvalid (rep.fitted b inside)]
    refine refinesThen (enterOrderRefines rep live view room absent)
      (fun slot entered admitted _ => refinesAny ?_)
    cases valid : invalid (before.engine.books.read b) order with
    | some reason =>
      have sim : Sim entered.engine (venue.spend order.orderId 0) :=
        ⟨queues, admitted.rep, admitted.live, viewCredit admitted.view (Nat.zero_le _)⟩
      exact rejectRefines sim ..
    | none =>
      refine refinesBind (acceptRefines admitted inside instrument) ?_
      rintro _ ready ⟨matching, books, _⟩
      have positive := (passed (rep.fitted b inside) valid).1
      refine executeRefines matching rfl rfl positive (fun day => ?_)
      rw [books]
      exact restsSomewhere (rep.fitted b inside) valid day

end Executing
end Engine
end Xmatch
