import Xmatch.Taking

/-! What the top of a book shows can be had: an order for no more than that, which takes that
price, trades in full at that price, and what it leaves is still shown. No other way of taking as
much from the book is cheaper. -/
namespace Xmatch

def TopOfBook.offered (top : TopOfBook) : Side → Int × Quantity
  | .buy => (top.askPrice, top.askQuantity)
  | .sell => (top.bidPrice, top.bidQuantity)

def Event.price : Event → Option Int
  | .trade _ _ price _ _ _ _ => some price
  | _ => none

namespace Venue

section Levels
variable {b : Nat} {side : Side} {limit : Option Int} {orders rest : List Order} {first o : Order}

theorem frontBest (sorted : Sorted side.opposite (first :: rest)) (member : o ∈ first :: rest) :
    ¬side.opposite.better o.price first.price := by
  rcases List.mem_cons.mp member with rfl | later
  · exact betterIrrefl _ _
  · exact List.rel_of_pairwise_cons sorted later

theorem firstLevel (sorted : Sorted side.opposite (first :: rest)) :
    eligible side (some first.price) (first :: rest) =
      (first :: rest).filter (fun o => o.price = first.price) := by
  refine List.filter_congr (fun o member => ?_)
  have behind := frontBest sorted member
  cases side with
  | buy =>
    simp only [Side.opposite, Side.better, Int.not_lt] at behind
    simp only [Side.accepts, decide_eq_decide]
    omega
  | sell =>
    simp only [Side.opposite, Side.better, Int.not_lt] at behind
    simp only [Side.accepts, decide_eq_decide]
    omega

theorem levelInFront (sorted : Sorted side.opposite (first :: rest))
    (accepts : side.accepts limit first.price = true) :
    eligible side limit (first :: rest) =
      eligible side (some first.price) (first :: rest) ++
        eligible side limit (refused side (some first.price) (first :: rest)) := by
  have split : eligible side (some first.price) (first :: rest) ++ refused side (some first.price)
      (first :: rest) = first :: rest :=
    sortedSplit sorted
  have all : eligible side limit (eligible side (some first.price) (first :: rest)) =
      eligible side (some first.price) (first :: rest) := by
    refine List.filter_eq_self.mpr (fun o member => ?_)
    rw [firstLevel sorted] at member
    rw [of_decide_eq_true (List.mem_filter.mp member).2]
    exact accepts
  have parts : eligible side limit (eligible side (some first.price) (first :: rest) ++
    refused side (some first.price) (first :: rest)) =
      eligible side limit (eligible side (some first.price) (first :: rest)) ++
        eligible side limit (refused side (some first.price) (first :: rest)) :=
          List.filter_append ..
  rw [split, all] at parts
  exact parts

theorem behindLevel (accepts : side.accepts limit first.price = true)
    (member : o ∈ eligible side limit (refused side (some first.price) orders) ++
      refused side limit orders) : o.price ≠ first.price := by
  intro same
  rcases List.mem_append.mp member with near | far
  · have behind := (List.mem_filter.mp (List.mem_filter.mp near).1).2
    rw [same, Side.acceptsLimit, decide_eq_false (betterIrrefl _ _)] at behind
    contradiction
  · have behind := (List.mem_filter.mp far).2
    rw [same, accepts] at behind
    contradiction

theorem levelTotal (sorted : Sorted side.opposite (first :: rest))
    (accepts : side.accepts limit first.price = true) :
    atLeastAsGood side.opposite first.price (eligible side limit (first :: rest)) =
      eligible side (some first.price) (first :: rest) := by
  rw [firstLevel sorted, atLeastAsGood, eligible, List.filter_filter]
  refine List.filter_congr (fun o member => ?_)
  have behind := frontBest sorted member
  by_cases same : o.price = first.price
  · rw [same, accepts, decide_eq_false (betterIrrefl _ _), decide_eq_true rfl]
    rfl
  · have worse : side.opposite.better first.price o.price := by
      cases side with
      | buy =>
        simp only [Side.opposite, Side.better, Int.not_lt] at behind ⊢
        omega
      | sell =>
        simp only [Side.opposite, Side.better, Int.not_lt] at behind ⊢
        omega
    rw [decide_eq_true worse, decide_eq_false same]
    rfl

/- As much as the level shows is feasible, even when its total does not fit. -/
theorem shownFeasible {qty : Nat} (sorted : Sorted side.opposite (first :: rest))
    (accepts : side.accepts limit first.price = true)
    (few : qty ≤ quantityOf (eligible side (some first.price) (first :: rest)) % 2 ^ 32) :
    wrappedFill side limit qty (first :: rest) = true := by
  refine List.any_eq_true.mpr ⟨first, List.mem_filter.mpr ⟨List.mem_cons_self, accepts⟩, ?_⟩
  rw [levelTotal sorted accepts]
  exact decide_eq_true few

theorem drawnAtFront {qty : Nat} (sorted : Sorted side.opposite (first :: rest))
    (accepts : side.accepts limit first.price = true)
    (few : qty ≤ quantityOf (eligible side (some first.price) (first :: rest))) :
    drawnOrders qty (eligible side limit (first :: rest)) =
      drawnOrders qty (eligible side (some first.price) (first :: rest)) := by
  rw [levelInFront sorted accepts]
  exact Drawing.drawnFront _ _ _ few

theorem drewMember {before after : Venue} {n : Nat} (drew : Drew b side limit n before after)
    {c : Nat} {s : Side} (member : o ∈ after.orders c s) :
    ∃ old ∈ before.orders c s, old.id = o.id := by
  by_cases here : c = b ∧ s = side.opposite
  · rw [here.1, here.2, drew.here] at member
    rw [here.1, here.2]
    rcases List.mem_append.mp member with left | far
    · obtain ⟨old, among, same⟩ := drawKey left
      exact ⟨old, (List.mem_filter.mp among).1, congrArg Prod.fst same⟩
    · exact ⟨o, (List.mem_filter.mp far).1, rfl⟩
  · rw [drew.others c s here] at member
    exact ⟨o, member, rfl⟩

theorem drawnMember {qty : Nat} {gift : Order × Nat} (member : gift ∈ drawnOrders qty orders) :
    gift.1 ∈ orders := by
  induction orders generalizing qty with
  | nil => contradiction
  | cons first rest ih =>
    unfold drawnOrders Drawing.drawn at member
    split at member
    · contradiction
    split at member
    · rcases List.mem_cons.mp member with rfl | later
      · exact List.mem_cons_self
      · exact List.mem_cons_of_mem _ (ih later)
    · obtain rfl := List.mem_singleton.mp member
      exact List.mem_cons_self

theorem topAfter {qty : Nat} (sorted : Sorted side.opposite (first :: rest))
    (accepts : side.accepts limit first.price = true)
    (few : qty < quantityOf (eligible side (some first.price) (first :: rest))) :
    Book.top (drawOrders qty (eligible side limit (first :: rest)) ++
      refused side limit (first :: rest)) =
      (first.price, quantityOf (eligible side (some first.price) (first :: rest)) - qty) := by
  have level := firstLevel sorted
  have priced : ∀ o ∈ drawOrders qty (eligible side (some first.price) (first :: rest)),
      o.price = first.price := by
    intro o member
    obtain ⟨o', inLevel, same⟩ := drawPrice member
    rw [level] at inLevel
    rw [← same]
    exact of_decide_eq_true (List.mem_filter.mp inLevel).2
  have total : quantityOf (drawOrders qty (eligible side (some first.price) (first :: rest))) =
      quantityOf (eligible side (some first.price) (first :: rest)) - qty :=
        Drawing.drawTotal fillLessening _ _
  have front : drawOrders qty (eligible side limit (first :: rest)) =
      drawOrders qty (eligible side (some first.price) (first :: rest)) ++
        eligible side limit (refused side (some first.price) (first :: rest)) := by
    rw [levelInFront sorted accepts]
    exact Drawing.drawFront _ _ _ few
  rw [front, List.append_assoc]
  generalize drawOrders qty (eligible side (some first.price) (first :: rest)) =
    left at priced total ⊢
  cases left with
  | nil =>
    have none : quantityOf [] = 0 := rfl
    omega
  | cons o left =>
    have here := priced o List.mem_cons_self
    have behind : (eligible side limit (refused side (some first.price) (first :: rest)) ++
      refused side limit (first :: rest)).filter
        (fun other => decide (other.price = first.price)) = [] :=
      List.filter_eq_nil_iff.mpr (fun other member => by simpa using behindLevel accepts member)
    have own : (o :: left).filter (fun other => decide (other.price = first.price)) = o :: left :=
      List.filter_eq_self.mpr (fun other member => decide_eq_true (priced other member))
    rw [← total, List.cons_append, Book.top, here, ← List.cons_append, List.filter_append, own,
      behind, List.append_nil]
    rfl

end Levels

section Orders
variable {venue : Venue} {order : NewOrder} {b : Nat} {book : Book} {first : Order}
  {rest : List Order}

theorem servedInFront (proper : venue.Proper) (fresh : Fresh venue order b book)
    (valid : invalid book order = none)
    (front : venue.orders b order.side.opposite = first :: rest)
    (accepts : order.side.accepts (limitOf order) first.price = true)
    (few : order.quantity.toNat ≤
      quantityOf (eligible order.side (some first.price) (first :: rest)) % 2 ^ 32) :
    perform wrappedFill (.submit order) venue =
      (acceptedMoment order (venue.spend order.orderId 0) ::
        (work b order (venue.spend order.orderId 0)).1,
        (work b order (venue.spend order.orderId 0)).2.venue) ∧
      (work b order (venue.spend order.orderId 0)).2.taker.openQty = 0 := by
  have sorted : Sorted order.side.opposite (first :: rest) := front ▸ proper.sorted b _
  have enough : wrappedFill order.side (limitOf order) order.quantity.toNat
      ((venue.spend order.orderId 0).orders b order.side.opposite) = true := by
    change wrappedFill order.side (limitOf order) order.quantity.toNat
      (venue.orders b order.side.opposite) = true
    rw [front]
    exact shownFeasible sorted accepts few
  have done : (work b order (venue.spend order.orderId 0)).2.taker.openQty = 0 :=
    sweepFills (proper.sorted b order.side.opposite) (wrappedExact enough) _
  rw [submitValid fresh valid]
  simp only [execute, enough, Bool.not_true, Bool.false_eq_true, and_false, if_false]
  change (_ :: (dispose b order (work b order (venue.spend order.orderId 0))).1,
    (dispose b order (work b order (venue.spend order.orderId 0))).2) = _ ∧ _
  rw [dispose, if_neg (by omega)]
  exact ⟨rfl, done⟩

theorem servedPrices (proper : venue.Proper)
    (front : venue.orders b order.side.opposite = first :: rest)
    (accepts : order.side.accepts (limitOf order) first.price = true)
    (few : order.quantity.toNat ≤
      quantityOf (eligible order.side (some first.price) (first :: rest))) :
    ∀ event ∈ (work b order (venue.spend order.orderId 0)).1.map (·.event),
      event.price = some first.price := by
  have sorted : Sorted order.side.opposite (first :: rest) := front ▸ proper.sorted b _
  have taken := (@workTakes b order venue proper).events
  rw [front, drawnAtFront sorted accepts few] at taken
  intro event member
  obtain ⟨moment, worked, rfl⟩ := List.mem_map.mp member
  obtain ⟨maker, _, at', left, _, _, _, _, rfl⟩ :=
    (@sweepSweeping b order.instrumentId order.side (limitOf order)
    (venue.spend order.orderId 0) (takerOf order)).2 moment worked
  have among : (maker.id, maker.price, min left.openQty maker.openQty) ∈
      takenIn ((work b order (venue.spend order.orderId 0)).1.map (·.event)) :=
    List.mem_filterMap.mpr ⟨_, member, rfl⟩
  rw [taken] at among
  obtain ⟨gift, given, same⟩ := List.mem_map.mp among
  have level := drawnMember given
  rw [firstLevel sorted] at level
  have priced := of_decide_eq_true (List.mem_filter.mp level).2
  rw [Prod.mk.injEq, Prod.mk.injEq] at same
  exact congrArg some (same.2.1.symm.trans priced)

theorem submitTaken (proper : venue.Proper) (fresh : Fresh venue order b book)
    (valid : invalid book order = none) :
    order.tif = .fok ∧ takenIn ((perform wrappedFill (.submit order) venue).1.map (·.event)) = [] ∨
      takenIn ((perform wrappedFill (.submit order) venue).1.map (·.event)) =
        (drawnOrders order.quantity.toNat (eligible order.side (limitOf order)
          (venue.orders b order.side.opposite))).map
          (fun gift => (gift.1.id, gift.1.price, gift.2)) := by
  have taken := (@workTakes b order venue proper).events
  rw [submitValid fresh valid, execute]
  split
  next kills => exact .inl ⟨kills.1, rfl⟩
  · refine .inr (Eq.trans ?_ taken)
    change takenIn ((dispose b order (work b order (venue.spend order.orderId 0))).1.map
      (·.event)) = _
    by_cases day : order.tif = .day
    · rw [disposeSettles _ day]
    · rw [disposeDrops _ day, List.map_append, takenAppend]
      split <;> exact List.append_nil _

end Orders
end Venue

def Side.noWorse : Side → Int → Int → Prop
  | .buy, paid, other => paid ≤ other
  | .sell, got, other => other ≤ got

def Side.sign : Side → Int
  | .buy => 1
  | .sell => -1

/- A way of taking something from the orders. -/
structure Basket (orders : List Order) (gifts : List (Order × Nat)) : Prop where
  among : (gifts.map Prod.fst).Subperm orders
  each : ∀ gift ∈ gifts, gift.2 ≤ gift.1.openQty

def basketSize (gifts : List (Order × Nat)) : Nat := (gifts.map Prod.snd).sum

section Baskets
variable {side : Side} {limit : Option Int} {orders : List Order} {gifts : List (Order × Nat)}

theorem signedWorth (side : Side) (gifts : List (Order × Nat)) :
    Drawing.worth (fun o => side.sign * o.price) gifts =
      side.sign * Drawing.worth Order.price gifts := by
  induction gifts with
  | nil => exact (Int.mul_zero _).symm
  | cons gift gifts ih =>
    rw [Drawing.worthCons, Drawing.worthCons, ih]
    ring

theorem noWorseIff (side : Side) (one two : Int) :
    side.noWorse one two ↔ side.sign * one ≤ side.sign * two := by
  cases side <;> simp only [Side.noWorse, Side.sign] <;> omega

theorem sortedSigned (sorted : Sorted side.opposite orders) :
    orders.Pairwise (fun o o' => side.sign * o.price ≤ side.sign * o'.price) := by
  refine sorted.imp (fun behind => ?_)
  cases side <;> simp only [Side.opposite, Side.better] at behind <;>
    simp only [Side.sign] <;> omega

theorem basketFits (basket : Basket orders gifts) : basketSize gifts ≤ quantityOf orders := by
  obtain ⟨some, perm, sub⟩ := basket.among
  have each : basketSize gifts ≤ quantityOf (gifts.map Prod.fst) := by
    rw [quantityOf, List.map_map]
    exact List.sum_le_sum basket.each
  have fewer : quantityOf some ≤ quantityOf orders :=
    (sub.map _).sum_le_sum (fun _ _ => Nat.zero_le _)
  rw [← quantityOfPerm perm] at each
  exact Nat.le_trans each fewer

theorem basketEligible (basket : Basket orders gifts)
    (accepted : ∀ gift ∈ gifts, side.accepts limit gift.1.price = true) :
    Basket (eligible side limit orders) gifts := by
  refine ⟨?_, basket.each⟩
  have kept := basket.among.filter (fun o => side.accepts limit o.price)
  rw [List.filter_eq_self.mpr (fun o member => ?_)] at kept
  · exact kept
  · obtain ⟨gift, given, rfl⟩ := List.mem_map.mp member
    exact accepted gift given

theorem drawnBest {n : Nat} (sorted : Sorted side.opposite orders) (basket : Basket orders gifts)
    (same : basketSize gifts = min n (quantityOf (eligible side limit orders))) :
    side.noWorse (Drawing.worth Order.price (drawnOrders n (eligible side limit orders)))
      (Drawing.worth Order.price gifts) := by
  have few : basketSize gifts ≤ Drawing.total Order.openQty (eligible side limit orders) :=
    same ▸ Nat.min_le_right _ _
  have split : eligible side limit orders ++ refused side limit orders = orders :=
    Venue.sortedSplit sorted
  have front : drawnOrders (basketSize gifts) orders =
      drawnOrders (basketSize gifts) (eligible side limit orders) := by
    have front := Drawing.drawnFront (eligible side limit orders) (refused side limit orders) _ few
    rw [split] at front
    exact front
  have most := @Drawing.worthMost _ Order.openQty (fun o => side.sign * o.price)
      (eligible side limit orders) n
  rw [noWorseIff, ← signedWorth, ← signedWorth, drawnOrders, most]
  change Drawing.worth _ (drawnOrders (min n (quantityOf (eligible side limit orders))) _) ≤ _
  rw [← same, ← front]
  exact Drawing.drawnCheapest (sortedSigned sorted) gifts basket.among basket.each
    (basketFits basket)

end Baskets

namespace Engine
open OrderBook Venue

structure ServedAtTop (engine : Engine) (order : NewOrder) (session : Session) : Prop where
  events : ∃ trades, session.events = .accepted order.orderId :: trades ∧
    ∀ event ∈ trades, event.price =
    some ((engine.topOfBook order.instrumentId).offered order.side).1
  whole : tradedIn session.events = order.quantity.toNat
  gone : session.engine.findOpen order.orderId = none
  left : order.quantity < ((engine.topOfBook order.instrumentId).offered order.side).2 →
    (session.engine.topOfBook order.instrumentId).offered order.side =
      (((engine.topOfBook order.instrumentId).offered order.side).1,
        ((engine.topOfBook order.instrumentId).offered order.side).2 - order.quantity)

section Offers
variable {engine : Engine} {venue : Venue} {id : InstrumentId} {b : Nat}

theorem offeredEqTop (sim : Sim engine venue) (found : engine.findBook id = some b) (side : Side) :
    (engine.topOfBook id).offered side =
      ((Book.top (venue.orders b side.opposite)).1,
        UInt32.ofNat (Book.top (venue.orders b side.opposite)).2) := by
  obtain ⟨price, quantity⟩ := simTop sim found side.opposite
  rw [← price, ← quantity, topOfBookFound found, topOfBookSides]
  cases side <;> rfl

theorem notOpen (sim : Sim engine venue) {order : OrderId}
    (nowhere : ∀ c s, ∀ o ∈ venue.orders c s, o.id ≠ order) : engine.findOpen order = none := by
  cases found : engine.findOpen order with
  | none => rfl
  | some slot =>
    obtain ⟨_, _, place⟩ := located sim found
    obtain ⟨_, member, named⟩ := Venue.findOpenRests place.found
    exact absurd named (nowhere _ _ _ member)

end Offers

theorem topIsFirm (actions : List Action) (order : NewOrder) (b : Nat)
    (valid : ValidSubmit (after actions) order b)
    (accepts : order.side.accepts (Venue.limitOf order)
      (((after actions).topOfBook order.instrumentId).offered order.side).1 = true)
    (few : order.quantity ≤ (((after actions).topOfBook order.instrumentId).offered order.side).2)
    (roomy : Roomy (call .calm (.submit order) (after actions)).engine) :
    ServedAtTop (after actions) order (call .calm (.submit order) (after actions)) := by
  have room := (roomyBefore (callGrown .calm (.submit order) (after actions)) roomy)
  obtain ⟨venue, sim, _⟩ := reached keptTrivial actions room
  have proper := simProper sim
  obtain ⟨book, fresh, sound⟩ := validFresh sim valid
  obtain ⟨_, sim'⟩ := calmCall sim room.slots (.submit order)
  have events := calmEvents sim room.slots (.submit order)
  have much := Venue.validPositive sound
  have offered := offeredEqTop sim valid.found order.side
  rw [offered] at accepts few
  cases front : venue.orders b order.side.opposite with
  | nil =>
    rw [front] at few
    have none : order.quantity.toNat ≤ 0 := few
    omega
  | cons first rest =>
    have sorted : Sorted order.side.opposite (first :: rest) := front ▸ proper.sorted b _
    have total : (Book.top (first :: rest)).2 =
        quantityOf (eligible order.side (some first.price) (first :: rest)) := by
      rw [firstLevel sorted]
      rfl
    rw [front] at accepts few offered
    have shown : order.quantity.toNat ≤
        quantityOf (eligible order.side (some first.price) (first :: rest)) % 2 ^ 32 := by
      rw [← total]
      exact few
    have within : order.quantity.toNat ≤
        quantityOf (eligible order.side (some first.price) (first :: rest)) :=
      Nat.le_trans shown (Nat.mod_le _ _)
    obtain ⟨served, done⟩ := servedInFront proper fresh sound front accepts shown
    have takes := @workTakes b order venue proper
    rw [served] at events sim'
    refine ⟨⟨_, events, fun event member => ?_⟩, ?_, ?_, fun fewer => ?_⟩
    · rw [offered]
      exact servedPrices proper front accepts within event member
    · have sum := workTraded b order (venue.spend order.orderId 0)
      rw [done] at sum
      rw [events]
      change 0 + tradedIn ((work b order (venue.spend order.orderId 0)).1.map (·.event)) = _
      omega
    · refine notOpen sim' (fun c s o member same => ?_)
      obtain ⟨old, rests, named⟩ := drewMember takes.taken member
      exact fresh.unused (same ▸ named ▸ proper.known c s old rests)
    · have found : (call .calm (.submit order) (after actions)).engine.findBook order.instrumentId =
          some b := by
        rw [← simBook sim', Venue.frameIndex, takes.frames, ← Venue.frameIndex, simBook sim,
          valid.found]
      have fewer' : order.quantity.toNat <
          quantityOf (eligible order.side (some first.price) (first :: rest)) % 2 ^ 32 := by
        rw [offered] at fewer
        rw [← total]
        exact fewer
      rw [offeredEqTop sim' found, offered, takes.taken.here, front,
        topAfter sorted accepts (Nat.lt_of_lt_of_le fewer' (Nat.mod_le _ _)), total]
      refine Prod.ext rfl (UInt32.toNat_inj.mp ?_)
      change _ = (UInt32.ofNat
        (quantityOf (eligible order.side (some first.price)
          (first :: rest))) - order.quantity).toNat
      rw [UInt32.toNat_sub_of_le _ _ (total ▸ few)]
      simp only [UInt32.toNat_ofNat']
      omega

theorem threeOfFive : ServedAtTop
    (after (calmRun [⟨7, 100000, 1000⟩] [.submit ⟨1, 7, .sell, .limit, .day, 100000, 5⟩,
      .submit ⟨2, 7, .sell, .limit, .day, 100100, 7⟩])) ⟨3, 7, .buy, .limit, .fok, 100100, 3⟩
    (call .calm (.submit ⟨3, 7, .buy, .limit, .fok, 100100, 3⟩) (after (calmRun [⟨7, 100000, 1000⟩]
      [.submit ⟨1, 7, .sell, .limit, .day, 100000, 5⟩,
        .submit ⟨2, 7, .sell, .limit, .day, 100100, 7⟩]))) :=
  topIsFirm _ _ 0 ⟨by decide +kernel, by decide +kernel, by decide +kernel, by decide +kernel⟩
    (by decide +kernel) (by decide +kernel)
    (roomyOf (by decide +kernel) (by decide +kernel))

structure BestExecution (engine : Engine) (order : NewOrder) (b : Nat) (events : List Event) :
    Prop where
  cost : ∀ gifts, Basket (queuedOrders engine b order.side.opposite) gifts →
    basketSize gifts = tradedIn events →
    order.side.noWorse (costIn events) (Drawing.worth Order.price gifts)
  most : order.tif ≠ .fok → ∀ gifts, Basket (queuedOrders engine b order.side.opposite) gifts →
    (∀ gift ∈ gifts, order.side.accepts (Venue.limitOf order) gift.1.price = true) →
    basketSize gifts ≤ order.quantity.toNat →
    basketSize gifts ≤ tradedIn events

theorem executionIsBest (actions : List Action) (order : NewOrder) (b : Nat)
    (valid : ValidSubmit (after actions) order b)
    (roomy : Roomy (call .calm (.submit order) (after actions)).engine) :
    BestExecution (after actions) order b (call .calm (.submit order) (after actions)).events := by
  have room := (roomyBefore (callGrown .calm (.submit order) (after actions)) roomy)
  obtain ⟨venue, sim, _⟩ := reached keptTrivial actions room
  have proper := simProper sim
  obtain ⟨book, fresh, sound⟩ := validFresh sim valid
  have events := calmEvents sim room.slots (.submit order)
  have inside : b < (after actions).books.size := by
    obtain ⟨_, rep, _, _⟩ := sim
    exact (findBookSome rep valid.found).1
  rw [events]
  rcases Venue.submitTaken proper fresh sound with ⟨fok, nothing⟩ | taken
  · refine ⟨fun gifts basket same => ?_, fun notFok => absurd fok notFok⟩
    have none : costIn ((Venue.perform wrappedFill (.submit order) venue).1.map (·.event)) = 0 := by
      rw [costIn, nothing]
      rfl
    rw [tradedTaken, nothing] at same
    have free :=
      @drawnBest order.side (some 0) _ gifts 0
        (queuedOrdersEqVenue sim inside _ ▸ proper.sorted b order.side.opposite) basket
      (same.trans (Nat.zero_min _).symm)
    rw [drawnOrders, Drawing.drawnNothing] at free
    rw [none]
    exact free
  · have cost : costIn ((Venue.perform wrappedFill (.submit order) venue).1.map (·.event)) =
        Drawing.worth Order.price
        (drawnOrders order.quantity.toNat
          (eligible order.side (Venue.limitOf order) (venue.orders b order.side.opposite))) := by
      rw [costIn, taken, List.map_map]
      rfl
    have traded : tradedIn ((Venue.perform wrappedFill (.submit order) venue).1.map (·.event)) =
        min order.quantity.toNat
        (quantityOf (eligible order.side (Venue.limitOf order)
          (venue.orders b order.side.opposite))) := by
      rw [tradedTaken, taken, List.map_map]
      exact Drawing.drawnTotal _ _
    refine ⟨fun gifts basket same => ?_, fun _ gifts basket accepted few => ?_⟩
    · rw [queuedOrdersEqVenue sim inside] at basket
      rw [cost]
      exact drawnBest (proper.sorted b _) basket (same.trans traded)
    · rw [queuedOrdersEqVenue sim inside] at basket
      rw [traded]
      exact Nat.le_min.mpr ⟨few, basketFits (basketEligible basket accepted)⟩

theorem bestThree : BestExecution
    (after (calmRun [⟨7, 100000, 1000⟩] [.submit ⟨1, 7, .sell, .limit, .day, 100100, 5⟩,
      .submit ⟨2, 7, .sell, .limit, .day, 100000, 2⟩])) ⟨3, 7, .buy, .market, .ioc, 0, 3⟩ 0
    (call .calm (.submit ⟨3, 7, .buy, .market, .ioc, 0, 3⟩) (after (calmRun [⟨7, 100000, 1000⟩]
      [.submit ⟨1, 7, .sell, .limit, .day, 100100, 5⟩,
        .submit ⟨2, 7, .sell, .limit, .day, 100000, 2⟩]))).events :=
  executionIsBest _ _ 0 ⟨by decide +kernel, by decide +kernel, by decide +kernel, by decide +kernel⟩
    (roomyOf (by decide +kernel) (by decide +kernel))

def begun (qty : Nat) (fills : List (OrderId × Int × Nat)) : List (OrderId × Int × Nat) :=
  (Drawing.drawn (fun fill => fill.2.2) qty fills).map (fun gift => (gift.1.1, gift.1.2.1, gift.2))

structure TakesMore (fewer more : List Event) : Prop where
  begins : takenIn fewer = begun (tradedIn fewer) (takenIn more)
  atLeast : tradedIn fewer ≤ tradedIn more

section Generous
variable {side : Side} {limit limit' : Option Int} {orders : List Order} {fewer more : List Event}

theorem eligibleInFront (sorted : Sorted side.opposite orders)
    (accepts : ∀ price, side.accepts limit price = true → side.accepts limit' price = true) :
    ∃ rest, eligible side limit orders ++ rest = eligible side limit' orders := by
  have narrow : eligible side limit (eligible side limit' orders) = eligible side limit orders := by
    rw [eligible, eligible, eligible, List.filter_filter]
    refine List.filter_congr (fun o _ => ?_)
    cases accepted : side.accepts limit o.price with
    | true => rw [accepts _ accepted]; rfl
    | false => rfl
  exact ⟨_, narrow ▸ sortedSplit (sorted.sublist List.filter_sublist)⟩

theorem drawsMore {qty qty' : Nat} (sorted : Sorted side.opposite orders)
    (left : ∀ o ∈ orders, 0 < o.openQty)
    (accepts : ∀ price, side.accepts limit price = true → side.accepts limit' price = true)
    (within : qty ≤ qty')
    (few : takenIn fewer = (drawnOrders qty (eligible side limit orders)).map (fun gift =>
      (gift.1.id, gift.1.price, gift.2)))
    (many : takenIn more = (drawnOrders qty' (eligible side limit' orders)).map (fun gift =>
      (gift.1.id, gift.1.price, gift.2))) :
    TakesMore fewer more := by
  have traded : ∀ n (xs : List Order),
      ((drawnOrders n xs).map (fun gift => (gift.1.id, gift.1.price, gift.2))).map (·.2.2) =
      (drawnOrders n xs).map Prod.snd := by
    intro n xs
    rw [List.map_map]
    rfl
  have total : tradedIn fewer = min qty (quantityOf (eligible side limit orders)) := by
    rw [tradedTaken, few, traded, Drawing.drawnTotal]
    rfl
  have total' : tradedIn more = min qty' (quantityOf (eligible side limit' orders)) := by
    rw [tradedTaken, many, traded, Drawing.drawnTotal]
    rfl
  obtain ⟨rest, whole⟩ := eligibleInFront sorted accepts
  have longer : quantityOf (eligible side limit orders) ≤
      quantityOf (eligible side limit' orders) := by
    rw [← whole, quantityOf, quantityOf, List.map_append, List.sum_append]
    exact Nat.le_add_right _ _
  refine ⟨?_, by omega⟩
  have again := @Drawing.drawnAgain _ Order.openQty _ (fun fill : OrderId × Int × Nat => fill.2.2)
      (fun fill n => (fill.1, fill.2.1, n))
    (fun o n => (o.id, o.price, n)) (fun _ _ => rfl) (fun _ _ _ => rfl)
    (eligible side limit' orders) (tradedIn fewer) qty'
  rw [begun, many, again, few, show min (tradedIn fewer) qty' = tradedIn fewer by omega, ← whole,
    Drawing.drawnFront _ _ _ (total ▸ Nat.min_le_right _ _), total]
  exact congrArg _ (Drawing.drawnCapped (fun o member => left o (List.mem_filter.mp member).1) qty)

end Generous

theorem generousTakesMore (actions : List Action) (one two : NewOrder) (b : Nat)
    (validOne : ValidSubmit (after actions) one b)
    (validTwo : ValidSubmit (after actions) two b) (sides : one.side = two.side)
    (within : one.quantity ≤ two.quantity)
    (accepts : ∀ price, one.side.accepts (Venue.limitOf one) price = true →
      two.side.accepts (Venue.limitOf two) price = true)
    (notFok : two.tif ≠ .fok) (roomy : Roomy (after actions)) :
    TakesMore (call .calm (.submit one) (after actions)).events
      (call .calm (.submit two) (after actions)).events := by
  obtain ⟨venue, sim, _⟩ := reached keptTrivial actions roomy
  have proper := simProper sim
  obtain ⟨_, freshOne, soundOne⟩ := validFresh sim validOne
  obtain ⟨_, freshTwo, soundTwo⟩ := validFresh sim validTwo
  rw [calmEvents sim roomy.slots, calmEvents sim roomy.slots]
  rcases Venue.submitTaken proper freshTwo soundTwo with ⟨fok, _⟩ | many
  · exact absurd fok notFok
  rcases Venue.submitTaken proper freshOne soundOne with ⟨_, nothing⟩ | few
  · have none : tradedIn ((Venue.perform wrappedFill (.submit one) venue).1.map (·.event)) = 0 := by
      rw [tradedTaken, nothing]
      rfl
    refine ⟨?_, none ▸ Nat.zero_le _⟩
    rw [nothing, none, begun, Drawing.drawnNothing]
    rfl
  · rw [← sides] at many accepts
    exact drawsMore (proper.sorted b one.side.opposite) (proper.left b one.side.opposite) accepts
      within few many

theorem eightBeginsAsSix : TakesMore
    (call .calm (.submit ⟨3, 7, .buy, .limit, .day, 100100, 6⟩) (after (calmRun [⟨7, 100000, 1000⟩]
      [.submit ⟨1, 7, .sell, .limit, .day, 100000, 5⟩,
        .submit ⟨2, 7, .sell, .limit, .day, 100100, 7⟩]))).events
    (call .calm (.submit ⟨4, 7, .buy, .market, .ioc, 0, 8⟩) (after (calmRun [⟨7, 100000, 1000⟩]
      [.submit ⟨1, 7, .sell, .limit, .day, 100000, 5⟩,
        .submit ⟨2, 7, .sell, .limit, .day, 100100, 7⟩]))).events :=
  generousTakesMore _ _ _ 0
    ⟨by decide +kernel, by decide +kernel, by decide +kernel, by decide +kernel⟩
    ⟨by decide +kernel, by decide +kernel, by decide +kernel, by decide +kernel⟩ rfl (by decide)
    (fun _ _ => rfl) (by decide)
    (roomyOf (by decide +kernel) (by decide +kernel))

end Engine
end Xmatch
