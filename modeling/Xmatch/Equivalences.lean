import Xmatch.Conservation
import Xmatch.FirmQuotes
import Xmatch.Forgetting
import Xmatch.Replay

/-! Requests that come to the same: an immediate order and a day order that is canceled at once;
two orders that only rest, in one order or the other. -/
namespace Xmatch

def NewOrder.asDay (order : NewOrder) : NewOrder := { order with tif := .day }

namespace Venue

section Immediate
variable {venue : Venue} {b : Nat} {order : NewOrder} {book : Book}

theorem dayValid (valid : invalid book order = none) (limit : order.type = .limit) :
    invalid book order.asDay = none := by
  unfold invalid at valid ⊢
  split at valid
  · contradiction
  rename_i some
  split at valid
  · contradiction
  refine (if_neg some).trans ((if_neg (fun market => ?_)).trans valid)
  exact OrderType.noConfusion (limit.symm.trans market.1)

structure SameUntilClosed (order : NewOrder) (venue : Venue) (swept : List Moment × Sweep) :
    Prop where
  ioc : (perform wrappedFill (.submit order) venue).1 =
    acceptedMoment order (venue.spend order.orderId 0) ::
    (swept.1 ++ if 0 < swept.2.taker.openQty then
      [{ event := .canceled order.orderId swept.2.taker.openQty .iocRemainder,
         venue := swept.2.venue }] else [])
  day : (perform wrappedFill (.submit order.asDay) venue).1 =
    acceptedMoment order (venue.spend order.orderId 0) :: swept.1
  owner : (cancel ⟨order.orderId⟩ (perform wrappedFill (.submit order.asDay) venue).2).1.map
    (·.event) =
    if 0 < swept.2.taker.openQty then [.canceled order.orderId swept.2.taker.openQty .userRequested]
    else [.rejected order.orderId .unknownOrder]
  twin : Twin id (fun _ => True) (fun _ => True) (perform wrappedFill (.submit order) venue).2
    (cancel ⟨order.orderId⟩ (perform wrappedFill (.submit order.asDay) venue).2).2

theorem cancelUnknown {request : CancelOrder} (configured : venue.configured = true)
    (absent : ∀ b side, ∀ o ∈ venue.orders b side, o.id ≠ request.orderId) :
    (cancel request venue).1.map (·.event) = [.rejected request.orderId .unknownOrder] := by
  unfold cancel
  simp only [configured, Bool.not_true, Bool.false_eq_true, if_false]
  cases found : venue.findOpen request.orderId with
  | none => rfl
  | some place =>
    obtain ⟨b, side, order⟩ := place
    obtain ⟨_, member, same⟩ := findOpenRests found
    exact absurd same (absent b side order member)

theorem settledCancel {swept : Sweep} {side : Side} (named : swept.taker.id = order.orderId)
    (inside : b < swept.venue.books.length) (configured : swept.venue.configured = true)
    (absent : ∀ c s, ∀ o ∈ swept.venue.orders c s, o.id ≠ order.orderId) :
    (cancel ⟨order.orderId⟩ (settle b side swept)).1.map (·.event) =
        (if 0 < swept.taker.openQty then [.canceled order.orderId swept.taker.openQty
          .userRequested]
          else [.rejected order.orderId .unknownOrder]) ∧
      Twin id (fun _ => True) (fun _ => True) swept.venue
        (cancel ⟨order.orderId⟩ (settle b side swept)).2 := by
  rw [settle]
  rw [← named] at absent ⊢
  split
  · have twin := @restedTwin swept.venue b side swept.taker swept.venue (fun _ => True)
        (twinRefl _) inside configured absent
    refine ⟨?_, ⟨twin.configured.symm, twin.frames.symm, fun c p s => (twin.orders c p s).symm,
      fun id own => (twin.spent id own).symm,
      fun k => (twin.trades k).symm⟩⟩
    rw [restedCancels inside configured absent]
    rfl
  · refine ⟨cancelUnknown configured absent, ?_⟩
    rw [cancelAbsent absent]
    exact twinRefl _

theorem immediateIsDay (proper : venue.Proper) (fresh : Fresh venue order b book)
    (valid : invalid book order = none) (limit : order.type = .limit) (ioc : order.tif = .ioc) :
    SameUntilClosed order venue (work b order (venue.spend order.orderId 0)) := by
  have fresh' : Fresh venue order.asDay b book :=
    ⟨fresh.configured, fresh.index, fresh.here, fresh.unused⟩
  have notFok : ∀ {o : NewOrder}, o.tif ≠ .fok → execute wrappedFill b o (venue.spend o.orderId 0) =
      dispose b o (work b o (venue.spend o.orderId 0)) :=
        fun other => if_neg (fun kills => other kills.1)
  have dayIs : perform wrappedFill (.submit order.asDay) venue =
      (acceptedMoment order (venue.spend order.orderId 0) ::
        (work b order (venue.spend order.orderId 0)).1,
        settle b order.side (work b order (venue.spend order.orderId 0)).2) := by
    rw [submitValid fresh' (dayValid valid limit), notFok (TimeInForce.noConfusion),
      disposeSettles _ rfl]
    rfl
  have iocIs := @submitValid venue order b book wrappedFill fresh valid
  rw [notFok (by rw [ioc]; exact TimeInForce.noConfusion),
    disposeDrops _ (by rw [ioc]; exact TimeInForce.noConfusion)] at iocIs
  have reason : remainderReason order = .iocRemainder := by
    rw [remainderReason, if_neg (by rw [limit]; exact OrderType.noConfusion), if_pos ioc]
  rw [reason] at iocIs
  -- the swept venue has the books and the ids of the old one, and not the order
  obtain ⟨sweeping, _⟩ := @sweepSweeping b order.instrumentId order.side (limitOf order)
    (venue.spend order.orderId 0) (takerOf order)
  have named : (work b order (venue.spend order.orderId 0)).2.taker.id = order.orderId :=
    (sweepTaker _ _ _).1
  have inside : b < (work b order (venue.spend order.orderId 0)).2.venue.books.length := by
    rw [work, sweeping.length]
    exact (List.findIdx?_eq_some_iff_getElem.mp fresh.index).1
  have configured : (work b order (venue.spend order.orderId 0)).2.venue.configured = true :=
    sweeping.configured.trans fresh.configured
  have absent : ∀ c s, ∀ o ∈ (work b order (venue.spend order.orderId 0)).2.venue.orders c s,
      o.id ≠ order.orderId := by
    intro c s o member same
    obtain ⟨old, rests, known⟩ := drewMember (@workTakes b order venue proper).taken member
    exact fresh.unused (same ▸ known ▸ proper.known c s old rests)
  generalize work b order (venue.spend order.orderId 0) = swept at *
  obtain ⟨owner, twin⟩ := @settledCancel b order swept.2 order.side named inside configured absent
  refine ⟨by rw [iocIs], by rw [dayIs], ?_, ?_⟩
  · rw [dayIs]
    exact owner
  · rw [iocIs, dayIs]
    exact twin

def rest (order : NewOrder) (b : Nat) (venue : Venue) : Venue :=
  (venue.spend order.orderId 0).putSide b order.side
    (enqueue order.side (takerOf order) (venue.orders b order.side))

def Passive (order : NewOrder) (b : Nat) (venue : Venue) : Prop :=
  ∀ o ∈ venue.orders b order.side.opposite, order.side.accepts (limitOf order) o.price = false

theorem passiveRests (fresh : Fresh venue order b book) (valid : invalid book order = none)
    (day : order.tif = .day) (passive : Passive order b venue) :
    perform wrappedFill (.submit order) venue =
      ([acceptedMoment order (venue.spend order.orderId 0)], rest order b venue) := by
  have positive := validPositive valid
  have swept : work b order (venue.spend order.orderId 0) =
      ([], ⟨venue.spend order.orderId 0, takerOf order, venue.orders b order.side.opposite⟩) := by
    rw [work]
    change sweep b _ _ _ (venue.orders b order.side.opposite) _ _ = _
    cases front : venue.orders b order.side.opposite with
    | nil => rfl
    | cons maker more => exact sweepRefused (passive maker (front ▸ List.mem_cons_self))
  have settled : settle b order.side ⟨venue.spend order.orderId 0, takerOf order,
    venue.orders b order.side.opposite⟩ = rest order b venue :=
    if_pos positive
  rw [submitValid fresh valid, daySettles day, swept, settled]

theorem untradedPassive (proper : venue.Proper) (fresh : Fresh venue order b book)
    (valid : invalid book order = none) (day : order.tif = .day)
    (untraded : ∀ moment ∈ (perform wrappedFill (.submit order) venue).1, moment.event.isTrade =
      false) : Passive order b venue := by
  rw [submitValid fresh valid, daySettles day] at untraded
  have swept :=
    sweepUntraded _ _ _ (fun moment member => untraded moment (List.mem_cons_of_mem _ member))
  have stops :=
    @sweepStops b order.instrumentId order.side (limitOf order) (venue.orders b order.side.opposite)
    (venue.spend order.orderId 0) (takerOf order)
  have same : sweep b order.instrumentId order.side (limitOf order)
      (venue.orders b order.side.opposite) (venue.spend order.orderId 0)
      (takerOf order) = ([],
        ⟨venue.spend order.orderId 0, takerOf order, venue.orders b order.side.opposite⟩) := swept
  rw [same] at stops
  rcases stops with none | refused
  · exact absurd none (Nat.ne_of_gt (validPositive valid))
  · exact sortedRefused (proper.sorted b order.side.opposite) refused

theorem restOrders (order : NewOrder) (b : Nat) (venue : Venue) (d : Nat) (s : Side) :
    (rest order b venue).orders d s = if d = b ∧ s = order.side ∧ b < venue.books.length then
      enqueue order.side (takerOf order) (venue.orders b order.side) else venue.orders d s :=
        ordersPutSide ..

theorem restLength (order : NewOrder) (b : Nat) (venue : Venue) :
    (rest order b venue).books.length = venue.books.length :=
  List.length_modify ..

theorem restFrames (order : NewOrder) (b : Nat) (venue : Venue) :
    (rest order b venue).books.map Book.frame = venue.books.map Book.frame :=
  framesPut ..

section Two
variable {one two : NewOrder} {c : Nat}

theorem takerPrice (limit : limitOf order = some order.price) :
    (takerOf order).price = order.price := by
  rw [takerOf, limit]
  rfl

theorem restsSwap (apart : ¬(b = c ∧ one.side = two.side ∧ one.price = two.price))
    (limitOne : limitOf one = some one.price) (limitTwo : limitOf two = some two.price)
    (venue : Venue) :
    Twin id (fun _ => True) (fun _ => True) (rest two c (rest one b venue))
      (rest one b (rest two c venue)) := by
  refine ⟨rfl, by rw [restFrames, restFrames, restFrames, restFrames], fun d _ s => ?_, fun used _ => ?_, fun _ => rfl⟩
  · simp only [restOrders, restLength]
    by_cases hereOne : d = b ∧ s = one.side ∧ b < venue.books.length
    · by_cases hereTwo : d = c ∧ s = two.side ∧ c < venue.books.length
      · obtain ⟨rfl, rfl, inside⟩ := hereOne
        obtain ⟨rfl, side, _⟩ := hereTwo
        have prices : one.price ≠ two.price := fun same => apart ⟨rfl, side, same⟩
        simp only [inside, side, and_self, if_true]
        rw [enqueuePlaces, enqueuePlaces, enqueuePlaces, enqueuePlaces]
        refine StableSort.placeSwap (aheadRanking _) ?_
        rw [ahead, ahead, takerPrice limitOne, takerPrice limitTwo]
        cases two.side <;> simp only [Side.better] <;> omega
      · obtain ⟨rfl, rfl, inside⟩ := hereOne
        simp only [hereTwo, inside, and_self, if_true, if_false]
    · by_cases hereTwo : d = c ∧ s = two.side ∧ c < venue.books.length
      · obtain ⟨rfl, rfl, inside⟩ := hereTwo
        simp only [hereOne, inside, and_self, if_true, if_false]
      · simp only [hereOne, hereTwo, if_false]
  · change used ∈ two.orderId :: one.orderId :: venue.spent ↔
      used ∈ one.orderId :: two.orderId :: venue.spent
    simp only [List.mem_cons]
    exact or_left_comm

theorem passiveSwap (insideOne : b < venue.books.length) (limitOne : limitOf one = some one.price)
    (limitTwo : limitOf two = some two.price) (first : Passive one b venue)
    (second : Passive two c (rest one b venue)) :
    Passive two c venue ∧ Passive one b (rest two c venue) := by
  have kept : ∀ o ∈ venue.orders c two.side.opposite,
      o ∈ (rest one b venue).orders c two.side.opposite := by
    intro o member
    rw [restOrders]
    split
    · rename_i here
      rw [here.1, here.2.1] at member
      exact memEnqueue.mpr (.inr member)
    · exact member
  refine ⟨fun o member => second o (kept o member), fun o member => ?_⟩
  rw [restOrders] at member
  split at member
  · rename_i here
    rcases memEnqueue.mp member with rfl | old
    · -- the two are on different sides of one book: neither takes the other
      have met : takerOf one ∈ (rest one b venue).orders c two.side.opposite := by
        rw [restOrders, if_pos ⟨here.1.symm, by rw [← here.2.1, Side.oppositeOpposite], insideOne⟩]
        exact memEnqueue.mpr (.inl rfl)
      have refused := second _ met
      rw [limitTwo, takerPrice limitOne, Side.acceptsLimit] at refused
      rw [limitOne, takerPrice limitTwo, Side.acceptsLimit]
      have ahead : two.side.better one.price two.price := by simpa using refused
      have ahead' : one.side.better two.price one.price := by
        rw [← here.2.1] at ahead
        cases side : one.side <;> rw [side] at ahead <;> exact ahead
      rw [decide_eq_true ahead']
      rfl
    · rw [← here.1, ← here.2.1] at old
      exact first o old
  · exact first o member

structure RestBoth (one two : NewOrder) (b c : Nat) (venue : Venue) : Prop where
  ones : perform wrappedFill (.submit one) venue =
    ([acceptedMoment one (venue.spend one.orderId 0)], rest one b venue)
  twos : perform wrappedFill (.submit two) venue =
    ([acceptedMoment two (venue.spend two.orderId 0)], rest two c venue)
  oneTwo : perform wrappedFill (.submit two) (rest one b venue) =
    ([acceptedMoment two ((rest one b venue).spend two.orderId 0)], rest two c (rest one b venue))
  twoOne : perform wrappedFill (.submit one) (rest two c venue) =
    ([acceptedMoment one ((rest two c venue).spend one.orderId 0)], rest one b (rest two c venue))
  twin : Twin id (fun _ => True) (fun _ => True) (rest two c (rest one b venue))
    (rest one b (rest two c venue))

variable {bookOne bookTwo : Book}

theorem bothRest (proper : venue.Proper) (freshOne : Fresh venue one b bookOne)
    (freshTwo : Fresh venue two c bookTwo)
    (validOne : invalid bookOne one = none) (validTwo : invalid bookTwo two = none)
    (dayOne : one.tif = .day) (dayTwo : two.tif = .day)
    (ids : one.orderId ≠ two.orderId)
    (queues : ¬(b = c ∧ one.side = two.side ∧ one.price = two.price))
    (still : (perform wrappedFill (.submit one) venue).2.Proper)
    (untradedOne : ∀ moment ∈ (perform wrappedFill (.submit one) venue).1,
      moment.event.isTrade = false)
    (untradedTwo : ∀ moment ∈ (perform wrappedFill (.submit two) (perform wrappedFill (.submit one) venue).2).1,
      moment.event.isTrade = false) : RestBoth one two b c venue := by
  have limitOne := dayLimit validOne dayOne
  have limitTwo := dayLimit validTwo dayTwo
  have first := untradedPassive proper freshOne validOne dayOne untradedOne
  have one' := passiveRests freshOne validOne dayOne first
  rw [one'] at still untradedTwo
  obtain ⟨bookTwo', freshTwo', sameTwo⟩ :=
    @freshFrames c two venue (rest one b venue) bookTwo rfl (restFrames one b venue) freshTwo
    (fun used => (List.mem_cons.mp used).elim (fun same => ids same.symm) freshTwo.unused)
  obtain ⟨bookOne', freshOne', sameOne⟩ :=
    @freshFrames b one venue (rest two c venue) bookOne rfl (restFrames two c venue) freshOne
    (fun used => (List.mem_cons.mp used).elim ids freshOne.unused)
  have second := untradedPassive still freshTwo' (sameTwo.trans validTwo) dayTwo untradedTwo
  obtain ⟨passiveTwo, passiveOne⟩ :=
    passiveSwap (List.findIdx?_eq_some_iff_getElem.mp freshOne.index).1 limitOne
      limitTwo first second
  exact ⟨one', passiveRests freshTwo validTwo dayTwo passiveTwo,
    passiveRests freshTwo' (sameTwo.trans validTwo) dayTwo second,
    passiveRests freshOne' (sameOne.trans validOne) dayOne passiveOne,
    restsSwap queues limitOne limitTwo venue⟩

end Two

end Immediate
end Venue

namespace Engine
open OrderBook

structure DayThenCancel (engine : Engine) (order : NewOrder) (later : List Action) : Prop where
  trades : (call .calm (.submit order) engine).events.filter Event.isTrade =
    (call .calm (.submit order.asDay) engine).events.filter Event.isTrade
  closed : ∀ qty, .canceled order.orderId qty .iocRemainder ∈
    (call .calm (.submit order) engine).events ↔
    .canceled order.orderId qty .userRequested ∈
      (call .calm (.cancel ⟨order.orderId⟩) (call .calm (.submit order.asDay) engine).engine).events
  later : answers later (call .calm (.submit order) engine).engine =
    answers later (call .calm (.cancel ⟨order.orderId⟩)
      (call .calm (.submit order.asDay) engine).engine).engine

theorem iocIsDayThenCancel (earlier later : List Action) (order : NewOrder) (b : Nat)
    (valid : ValidSubmit (after earlier) order b)
    (limit : order.type = .limit) (ioc : order.tif = .ioc) (calm : ∀ action ∈ later, action.Calm)
    (roomy : Roomy (after (earlier ++ .call .calm (.submit order) :: later)))
    (roomy' : Roomy (after (earlier ++ .call .calm (.submit order.asDay) ::
      .call .calm (.cancel ⟨order.orderId⟩) :: later))) :
    DayThenCancel (after earlier) order later := by
  obtain ⟨venue, sim, room⟩ := calmStart roomy
  obtain ⟨book, fresh, sound⟩ := validFresh sim valid
  have same := Venue.immediateIsDay (simProper sim) fresh sound limit ioc
  have trades := @Venue.workTrades b order (venue.spend order.orderId 0)
  have grownDay := callGrown .calm (.submit order.asDay) (after earlier)
  have grownBoth := grownTrans grownDay (callGrown .calm (.cancel ⟨order.orderId⟩) _)
  rw [after, List.foldl_append, List.foldl_cons] at roomy
  rw [after, List.foldl_append, List.foldl_cons, List.foldl_cons] at roomy'
  have roomBoth :=
    roomyBefore (actsGrown _ (grownBoth.configured.trans valid.configured) later) roomy'
  have roomDay := (roomyBefore (callGrown .calm (.cancel ⟨order.orderId⟩) _) roomBoth).slots
  obtain ⟨_, simIoc⟩ := calmCall sim room (.submit order)
  obtain ⟨_, simDay⟩ := calmCall sim room (.submit order.asDay)
  obtain ⟨_, simBoth⟩ := calmCall simDay roomDay (.cancel ⟨order.orderId⟩)
  refine ⟨?_, fun qty => ?_, ?_⟩
  · rw [calmEvents sim room, calmEvents sim room, same.ioc, same.day, ← List.cons_append,
      List.map_append, List.filter_append]
    have nothing : ∀ left last,
        ((if 0 < left then
          [({ event := .canceled order.orderId left .iocRemainder, venue := last } : Moment)]
        else []).map (·.event)).filter Event.isTrade = [] := by
      intro left last
      split <;> rfl
    rw [nothing, List.append_nil]
  · rw [calmEvents sim room, calmEvents simDay roomDay, same.ioc]
    have owner := same.owner
    change (Venue.perform wrappedFill (.cancel ⟨order.orderId⟩) _).1.map (·.event) = _ at owner
    rw [owner, List.map_cons, List.map_append, List.mem_cons, List.mem_append]
    have notAccepted : Event.canceled order.orderId qty .iocRemainder ≠
        (Venue.acceptedMoment order (venue.spend order.orderId 0)).event :=
      Event.noConfusion
    have notTrade : Event.canceled order.orderId qty .iocRemainder ∉
        (Venue.work b order (venue.spend order.orderId 0)).1.map (·.event) :=
      fun member => Bool.false_ne_true (trades _ member)
    split <;> simp [notAccepted, notTrade]
  · exact mirrorAnswers later _ _ ⟨_, _, simIoc, simBoth, same.twin⟩
      ((callGrown .calm (.submit order) (after earlier)).configured.trans valid.configured) calm
      (fun _ _ _ foreign => absurd trivial foreign) roomy roomy'

theorem sevenIocIsDay :
    DayThenCancel (after (calmRun [⟨7, 100000, 1000⟩]
      [.submit ⟨1, 7, .sell, .limit, .day, 100000, 3⟩]))
    ⟨2, 7, .buy, .limit, .ioc, 100000, 7⟩
      [.call .calm (.submit ⟨3, 7, .sell, .limit, .day, 100000, 4⟩)] :=
  iocIsDayThenCancel _ _ _ 0
    ⟨by decide +kernel, by decide +kernel, by decide +kernel, by decide +kernel⟩ rfl rfl
    (by simp [Action.Calm, Env.calm, Env.Quiet]) (roomyOf (by decide +kernel) (by decide +kernel))
    (roomyOf (by decide +kernel) (by decide +kernel))

structure Swaps (engine : Engine) (one two : NewOrder) (later : List Action) : Prop where
  events : eventsOf [.submit one, .submit two] engine =
    [.accepted one.orderId, .accepted two.orderId]
  swapped : eventsOf [.submit two, .submit one] engine =
    [.accepted two.orderId, .accepted one.orderId]
  later : answers later (session [.submit one, .submit two] engine) =
    answers later (session [.submit two, .submit one] engine)

theorem passiveOrdersSwap (earlier later : List Action) (one two : NewOrder) (b c : Nat)
    (validOne : ValidSubmit (after earlier) one b)
    (validTwo : ValidSubmit (after earlier) two c) (dayOne : one.tif = .day)
    (dayTwo : two.tif = .day) (ids : one.orderId ≠ two.orderId)
    (queues : ¬(one.instrumentId = two.instrumentId ∧ one.side = two.side ∧ one.price = two.price))
    (untraded : ∀ event ∈ eventsOf [.submit one, .submit two] (after earlier),
      event.isTrade = false) (calm : ∀ action ∈ later, action.Calm)
    (roomy : Roomy (after (earlier ++ .call .calm (.submit one) ::
      .call .calm (.submit two) :: later)))
    (roomy' : Roomy (after (earlier ++ .call .calm (.submit two) ::
      .call .calm (.submit one) :: later))) :
    Swaps (after earlier) one two later := by
  obtain ⟨venue, sim, room⟩ := calmStart roomy
  have proper := simProper sim
  obtain ⟨bookOne, freshOne, soundOne⟩ := validFresh sim validOne
  obtain ⟨bookTwo, freshTwo, soundTwo⟩ := validFresh sim validTwo
  have grownOne := callGrown .calm (.submit one) (after earlier)
  have grownTwo := callGrown .calm (.submit two) (after earlier)
  have configuredOne :=
    (grownTrans grownOne (callGrown .calm (.submit two) _)).configured.trans validOne.configured
  have configuredTwo :=
    (grownTrans grownTwo (callGrown .calm (.submit one) _)).configured.trans validOne.configured
  rw [after, List.foldl_append, List.foldl_cons, List.foldl_cons] at roomy roomy'
  have roomOne :=
    (roomyBefore (grownTrans (callGrown .calm (.submit two) _)
      (actsGrown _ configuredOne later)) roomy).slots
  have roomTwo :=
    (roomyBefore (grownTrans (callGrown .calm (.submit one) _)
      (actsGrown _ configuredTwo later)) roomy').slots
  obtain ⟨_, simOne⟩ := calmCall sim room (.submit one)
  obtain ⟨_, simTwo⟩ := calmCall sim room (.submit two)
  have eventsOne := calmEvents sim room (.submit one)
  have eventsTwo := calmEvents simOne roomOne (.submit two)
  have apart : ¬(b = c ∧ one.side = two.side ∧ one.price = two.price) := by
    rintro ⟨rfl, same⟩
    have books : bookOne = bookTwo := Option.some.inj (freshOne.here.symm.trans freshTwo.here)
    exact queues ⟨(Venue.freshInstrument freshOne).trans
      (books ▸ (Venue.freshInstrument freshTwo).symm), same⟩
  have both := Venue.bothRest proper freshOne freshTwo soundOne soundTwo dayOne dayTwo ids apart
      (simProper simOne)
    (fun moment member => untraded moment.event (List.mem_append_left _ (by
      rw [eventsOne]
      exact List.mem_map_of_mem member)))
    (fun moment member => untraded moment.event (List.mem_append_right _ (List.mem_append_left _ (by
      rw [eventsTwo]
      exact List.mem_map_of_mem member))))
  have simOneTwo := (calmCall simOne roomOne (.submit two)).2
  have simTwoOne := (calmCall simTwo roomTwo (.submit one)).2
  rw [both.ones, both.oneTwo] at simOneTwo
  rw [both.twos, both.twoOne] at simTwoOne
  refine ⟨?_, ?_, ?_⟩
  · rw [eventsOf, eventsOf, eventsOf, eventsOne, eventsTwo, both.ones, both.oneTwo]
    rfl
  · rw [eventsOf, eventsOf, eventsOf, calmEvents sim room (.submit two),
      calmEvents simTwo roomTwo (.submit one), both.twos, both.twoOne]
    rfl
  · exact mirrorAnswers later _ _ ⟨_, _, simOneTwo, simTwoOne, both.twin⟩ configuredOne calm
      (fun _ _ _ foreign => absurd trivial foreign)
      roomy roomy'

theorem twoBuysSwap : Swaps
    (after (calmRun [⟨7, 100000, 1000⟩] [.submit ⟨1, 7, .sell, .limit, .day, 100100, 3⟩]))
    ⟨2, 7, .buy, .limit, .day, 100000, 7⟩ ⟨3, 7, .buy, .limit, .day, 99900, 5⟩
    [.call .calm (.submit ⟨4, 7, .sell, .market, .ioc, 0, 8⟩)] :=
  passiveOrdersSwap _ _ _ _ 0 0
    ⟨by decide +kernel, by decide +kernel, by decide +kernel, by decide +kernel⟩
    ⟨by decide +kernel, by decide +kernel, by decide +kernel, by decide +kernel⟩ rfl rfl (by decide)
    (by decide) (by decide +kernel)
    (by simp [Action.Calm, Env.calm, Env.Quiet]) (roomyOf (by decide +kernel) (by decide +kernel))
    (roomyOf (by decide +kernel) (by decide +kernel))

end Engine
end Xmatch
