import Xmatch.FirmQuotes

/-! A submit whose listener throws. The trades reported before that callback stand, and so the
call has done what an immediate order for just their quantity does. -/
namespace Xmatch

theorem tradedTake (n : Nat) (events : List Event) :
    tradedIn (events.take n) ≤ tradedIn events := by
  have parts := tradedInAppend (events.take n) (events.drop n)
  rw [List.take_append_drop] at parts
  omega

namespace Venue

/- Of the order that came to `before`, just `n` have been worked. -/
structure Worked (order : NewOrder) (b n : Nat) (before after : Venue) : Prop where
  drew : Drew b order.side (limitOf order) n before after
  frames : after.books.map Book.frame = before.books.map Book.frame
  spent : after.spent = order.orderId :: before.spent
  configured : after.configured = before.configured

section Cuts
variable {venue : Venue} {order : NewOrder} {b n : Nat} {book : Book} {side : Side}
  {limit : Option Int} {maker taker : Order} {rest : List Order} {moment : Moment}

theorem workedTwin {one two : Venue} (first : Worked order b n venue one)
    (second : Worked order b n venue two) :
    Twin (fun _ => 0) (fun _ => True) (fun _ => True) one two :=
  ⟨first.configured.trans second.configured.symm, first.frames.trans second.frames.symm,
    fun c _ s => takenSame first.drew second.drew c s, fun id _ => by
      rw [first.spent, second.spent], fun _ => rfl⟩

theorem tradeDraws (sorted : Sorted side.opposite (maker :: rest))
    (accepted : side.accepts limit maker.price = true) (left : 0 < maker.openQty)
    (active : 0 < taker.openQty) :
    (tradeStep b side maker rest venue taker).opposite =
      drawOrders (min taker.openQty maker.openQty) (eligible side limit (maker :: rest)) ++
        refused side limit (maker :: rest) := by
  have later : refused side limit (maker :: rest) = refused side limit rest :=
    List.filter_cons_of_neg (by simp [accepted])
  have split : eligible side limit rest ++ refused side limit rest = rest := sortedSplit sorted.tail
  rw [eligibleMore accepted, later]
  by_cases closes : maker.openQty ≤ taker.openQty
  · have qty : min taker.openQty maker.openQty = maker.openQty := Nat.min_eq_right closes
    have some : ¬maker.openQty = 0 := by omega
    simp only [tradeStep, closes, if_true, qty, drawOrders, Drawing.draw, some, if_false,
      Nat.le_refl, Nat.sub_self]
    rw [Drawing.drawNothing, split]
  · have qty : min taker.openQty maker.openQty = taker.openQty := Nat.min_eq_left (by omega)
    have some : ¬taker.openQty = 0 := by omega
    simp only [tradeStep, closes, if_false, qty, drawOrders, Drawing.draw, some]
    rw [List.cons_append, split]

structure Midway (order : NewOrder) (b : Nat) (before : Venue) (seen : List Moment) (venue : Venue)
    (opposite : List Order) : Prop where
  worked : Worked order b (tradedIn (seen.map (·.event))) before venue
  here : venue.orders b order.side.opposite = opposite
  sorted : Sorted order.side.opposite opposite
  left : ∀ o ∈ opposite, 0 < o.openQty

theorem midwayStart (proper : venue.Proper) :
    Midway order b venue [] (venue.spend order.orderId 0) (venue.orders b order.side.opposite) where
  worked := ⟨⟨(takenRefl (proper.sorted b _)).here, fun _ _ _ => rfl⟩, rfl, rfl, rfl⟩
  here := rfl
  sorted := proper.sorted b _
  left := proper.left b _

theorem midwayStep {before : Venue} {seen : List Moment}
    (midway : Midway order b before seen venue (maker :: rest)) (active : 0 < taker.openQty)
    (accepted : order.side.accepts (limitOf order) maker.price = true) :
    Midway order b before (seen ++ [tradeMoment order.instrumentId order.side maker venue taker])
      (tradeStep b order.side maker rest venue taker).venue
        (tradeStep b order.side maker rest venue taker).opposite := by
  obtain ⟨⟨drew, frames, spent, configured⟩, here, sorted, left⟩ := midway
  have mine := left maker List.mem_cons_self
  have inside : b < venue.books.length := ordersInside (here ▸ List.mem_cons_self)
  have traded : tradedIn
      ((seen ++ [tradeMoment order.instrumentId order.side maker venue taker]).map (·.event)) =
      tradedIn (seen.map (·.event)) + min taker.openQty maker.openQty := by
    rw [List.map_append, tradedInAppend, List.map_singleton, tradeQuantity]
    rfl
  have now : (tradeStep b order.side maker rest venue taker).venue.orders b order.side.opposite =
      (tradeStep b order.side maker rest venue taker).opposite := by
    change (venue.putSide b order.side.opposite _).orders b order.side.opposite = _
    rw [ordersPutSide, if_pos ⟨rfl, rfl, inside⟩]
    rfl
  refine ⟨⟨?_, ?_, spent, configured⟩, now, sortedKeys sorted tradeStepKeys, ?_⟩
  · rw [traded]
    refine takenAdd drew ⟨?_, fun c s elsewhere => ?_⟩
    · rw [now, here]
      exact tradeDraws sorted accepted mine active
    · change (venue.putSide b order.side.opposite _).orders c s = _
      rw [ordersPutSide, if_neg (fun here => elsewhere ⟨here.1, here.2.1⟩)]
  · rw [← frames]
    exact framesPut venue b order.side.opposite _
  · intro o member
    rw [tradeStep] at member
    simp only at member
    split at member
    · exact left o (List.mem_cons_of_mem _ member)
    · rcases List.mem_cons.mp member with rfl | later
      · simp only [Order.fill]
        omega
      · exact left o (List.mem_cons_of_mem _ later)

theorem workMidway (proper : venue.Proper) (b : Nat) (order : NewOrder) :
    Worked order b (tradedIn ((work b order (venue.spend order.orderId 0)).1.map (·.event))) venue
        (work b order (venue.spend order.orderId 0)).2.venue ∧
      ∀ pre moment post, (work b order (venue.spend order.orderId 0)).1 = pre ++ moment :: post →
        Worked order b (tradedIn (pre.map (·.event))) venue moment.venue := by
  obtain ⟨ends, each⟩ := @sweepInduct b order.instrumentId order.side (limitOf order)
    (fun seen now _ opposite => Midway order b venue seen now opposite)
    (fun _ _ _ _ _ midway active accepted => midwayStep midway active accepted) _ [] _
    (takerOf order) (@midwayStart venue order b proper)
  refine ⟨ends.worked, fun pre moment post split => ?_⟩
  obtain ⟨maker, rest, now, taker, midway, _, _, rfl⟩ := each pre moment post split
  exact ⟨⟨midway.worked.drew.here, midway.worked.drew.others⟩, midway.worked.frames,
    midway.worked.spent, midway.worked.configured⟩

theorem submitMidway (proper : venue.Proper) (fresh : Fresh venue order b book)
    (valid : invalid book order = none) :
    ∀ pre moment post, (perform wrappedFill (.submit order) venue).1 = pre ++ moment :: post →
      Worked order b (tradedIn (pre.map (·.event))) venue moment.venue := by
  have started : Worked order b 0 venue (venue.spend order.orderId 0) :=
    (@midwayStart venue order b proper).worked
  obtain ⟨ends, each⟩ := workMidway proper b order
  intro pre moment post split
  rw [submitValid fresh valid] at split
  cases pre with
  | nil =>
    obtain ⟨rfl, _⟩ := List.cons.inj split
    exact started
  | cons first pre =>
    obtain ⟨rfl, executed⟩ := List.cons.inj split
    have same : tradedIn ((acceptedMoment order (venue.spend order.orderId 0) :: pre).map
      (·.event)) = tradedIn (pre.map (·.event)) :=
      Nat.zero_add _
    rw [same]
    rw [execute] at executed
    split at executed
    · -- killed
      cases pre with
      | nil =>
        obtain ⟨rfl, _⟩ := List.cons.inj executed
        exact started
      | cons _ pre => exact absurd (List.cons.inj executed).2 (by simp)
    · change (dispose b order (work b order (venue.spend order.orderId 0))).1 =
        pre ++ moment :: post at executed
      by_cases day : order.tif = .day
      · rw [disposeSettles _ day] at executed
        exact each pre moment post executed
      · rw [disposeDrops _ day] at executed
        rcases List.append_eq_append_iff.mp executed with ⟨more, rfl, last⟩ | ⟨more, inside, last⟩
        · split at last
          · cases more with
            | nil =>
              obtain ⟨rfl, _⟩ := List.cons.inj last
              rw [List.append_nil]
              exact ends
            | cons _ more => exact absurd (List.cons.inj last).2 (by simp)
          · exact absurd last (by simp)
        · cases more with
          | nil =>
            split at last
            · obtain ⟨rfl, _⟩ := List.cons.inj last
              rw [List.append_nil] at inside
              rw [← inside]
              exact ends
            · exact absurd last (by simp)
          | cons _ more =>
            obtain ⟨rfl, _⟩ := List.cons.inj last
            exact each pre _ more inside

theorem submitTraded (proper : venue.Proper) (fresh : Fresh venue order b book)
    (valid : invalid book order = none) :
    tradedIn ((perform wrappedFill (.submit order) venue).1.map (·.event)) ≤
      order.quantity.toNat := by
  rw [tradedTaken]
  rcases submitTaken proper fresh valid with ⟨_, nothing⟩ | taken
  · rw [nothing]
    exact Nat.zero_le _
  · rw [taken, List.map_map]
    have total :=
      @Drawing.drawnTotal _ Order.openQty
        (eligible order.side (limitOf order) (venue.orders b order.side.opposite))
      order.quantity.toNat
    exact Nat.le_trans (Nat.le_of_eq total) (Nat.min_le_left _ _)

def shortened (order : NewOrder) (qty : Nat) : NewOrder :=
  { order with tif := .ioc, quantity := UInt32.ofNat qty }

theorem shortenedInvalid (valid : invalid book order = none) (qty : Nat) :
    invalid book (shortened order qty) = if UInt32.ofNat qty = 0 then some .invalidQuantity
      else none := by
  unfold invalid at valid ⊢
  split at valid
  · contradiction
  split at valid
  · contradiction
  by_cases none : UInt32.ofNat qty = 0
  · rw [if_pos none]
    exact if_pos none
  · rw [if_neg none]
    exact (if_neg none).trans ((if_neg (fun day => TimeInForce.noConfusion day.2)).trans valid)

theorem shortenedWorks (proper : venue.Proper) (fresh : Fresh venue order b book)
    (valid : invalid book order = none) (few : n ≤ order.quantity.toNat) :
    Worked order b n venue (perform wrappedFill (.submit (shortened order n)) venue).2 := by
  have fits : (UInt32.ofNat n).toNat = n := by
    rw [UInt32.toNat_ofNat', Nat.mod_eq_of_lt (Nat.lt_of_le_of_lt few order.quantity.toNat_lt)]
  have fresh' : Fresh venue (shortened order n) b book :=
    ⟨fresh.configured, fresh.index, fresh.here, fresh.unused⟩
  have shape := @shortenedInvalid order book valid n
  by_cases none : UInt32.ofNat n = 0
  · rw [if_pos none] at shape
    have zero : n = 0 := by
      rw [← fits, none]
      rfl
    have spoiled : (perform wrappedFill (.submit (shortened order n)) venue).2 =
        venue.spend order.orderId 0 := by
      have used := fresh'.unused
      have here : (venue.spend (shortened order n).orderId 0).books[b]? = some book := fresh.here
      simp only [perform, submit, fresh'.configured, Bool.not_true, Bool.false_eq_true, if_false,
        fresh'.index, used, here, Option.bind_some, shape]
      rfl
    rw [spoiled, zero]
    exact (@midwayStart venue order b proper).worked
  · rw [if_neg none] at shape
    obtain ⟨taken, _, frames, spent, configured⟩ := immediateTakes proper fresh' shape rfl
    have quantity : (shortened order n).quantity.toNat = n := fits
    rw [quantity] at taken
    exact ⟨⟨taken.here, taken.others⟩, frames, spent, configured⟩

end Cuts
end Venue

namespace Engine
open OrderBook Venue

section Sessions
variable {one two : Engine} {left right : Venue}

theorem twinSessions {mine : OrderId → Prop} (requests : List Request) :
    ∀ (one two : Engine) (left right : Venue), Sim one left →
    Sim two right → Twin (fun _ => 0) (fun _ => True) mine left right →
    (∀ request ∈ requests, ∀ id, ¬mine id → ¬(Action.call .calm request).Introduces id) →
    Roomy (session requests one) → Roomy (session requests two) →
    (eventsOf requests one).map (·.renumber (fun _ => 0)) =
      (eventsOf requests two).map (·.renumber (fun _ => 0)) := by
  induction requests with
  | nil => exact fun _ _ _ _ _ _ _ _ _ _ => rfl
  | cons request rest ih =>
    intro one two left right simOne simTwo twin own roomyOne roomyTwo
    have roomOne := (roomyBefore (callsGrown (request :: rest) one) roomyOne).slots
    have roomTwo := (roomyBefore (callsGrown (request :: rest) two) roomyTwo).slots
    have first := own request List.mem_cons_self
    obtain ⟨events, twin'⟩ :=
      @Venue.twinPerform (fun _ => 0) mine left right wrappedFill twin request
      (fun order submits => Classical.not_not.mp
        (fun foreign => first _ foreign (by rw [submits]; rfl)))
      (fun r replaces other =>
        Classical.not_not.mp (fun foreign =>
          first _ foreign (by rw [replaces]; exact ⟨rfl, other⟩)))
    have later :=
      ih _ _ _ _ (calmCall simOne roomOne request).2 (calmCall simTwo roomTwo request).2 twin'
      (fun r member => own r (List.mem_cons_of_mem _ member)) roomyOne roomyTwo
    rw [eventsOf, eventsOf, List.map_append, List.map_append, later, calmEvents simOne roomOne,
      calmEvents simTwo roomTwo, List.map_map, List.map_map]
    exact congrArg (· ++ _) events

end Sessions

/- A submit that is cut short at callback `n` has reported what it would have, up to there. What it
leaves is what an immediate order leaves for the quantity of the trades before that callback. -/
structure CutShort (engine : Engine) (order : NewOrder) (n : Nat) (qty : Nat) : Prop where
  events : (call (throwsAt n) (.submit order) engine).events =
    (call .calm (.submit order) engine).events.take (n + 1)
  queues : ∀ c < engine.books.size, ∀ side,
    queuedOrders (call (throwsAt n) (.submit order) engine).engine c side =
    queuedOrders (call .calm (.submit (shortened order qty)) engine).engine c side
  later : ∀ requests, Roomy (session requests (call (throwsAt n) (.submit order) engine).engine) →
    Roomy (session requests (call .calm (.submit (shortened order qty)) engine).engine) →
    (eventsOf requests (call (throwsAt n) (.submit order) engine).engine).map
    (·.renumber (fun _ => 0)) =
      (eventsOf requests (call .calm (.submit (shortened order qty)) engine).engine).map
      (·.renumber (fun _ => 0))

theorem cutShortIsShorter (actions : List Action) (order : NewOrder) (b : Nat)
    (valid : ValidSubmit (after actions) order b) (n : Nat)
    (inside : n < (call .calm (.submit order) (after actions)).events.length)
    (roomy : Roomy (after actions)) :
    CutShort (after actions) order n
      (tradedIn ((call .calm (.submit order) (after actions)).events.take n)) := by
  obtain ⟨venue, sim, _⟩ := reached keptTrivial actions roomy
  have proper := simProper sim
  obtain ⟨book, fresh, sound⟩ := validFresh sim valid
  have calm := calmEvents sim roomy.slots (.submit order)
  rw [calm] at inside ⊢
  rw [List.length_map] at inside
  obtain ⟨events, simCut⟩ :=
    @callReacts _ venue (throwsAt n) sim roomy.slots ⟨rfl, rfl⟩ (.submit order)
  have here : (Venue.perform wrappedFill (.submit order) venue).1[n]? =
      some (Venue.perform wrappedFill (.submit order) venue).1[n] :=
    List.getElem?_eq_getElem inside
  have reacts := Venue.reactAt n (Venue.perform wrappedFill (.submit order) venue)
  rw [here] at reacts
  rw [show (throwsAt n).throws = fun events => decide (events.length = n + 1) from rfl,
    reacts] at events simCut
  have split : (Venue.perform wrappedFill (.submit order) venue).1 =
      (Venue.perform wrappedFill (.submit order) venue).1.take n ++
      (Venue.perform wrappedFill (.submit order) venue).1[n] ::
        (Venue.perform wrappedFill (.submit order) venue).1.drop (n + 1) := by
    rw [List.cons_getElem_drop_succ, List.take_append_drop]
  have cut := submitMidway proper fresh sound _ _ _ split
  rw [List.map_take] at cut
  have few := Nat.le_trans (tradedTake n _) (submitTraded proper fresh sound)
  generalize tradedIn (((Venue.perform wrappedFill (.submit order) venue).1.map (·.event)).take n) =
    qty at cut few ⊢
  have simShort := (calmCall sim roomy.slots (.submit (shortened order qty))).2
  have twin := workedTwin cut (shortenedWorks proper fresh sound few)
  refine ⟨events.trans (by rw [calm]), fun c within side => ?_,
    fun requests roomyCut roomyShort => ?_⟩
  · have grownCut := (callGrown (throwsAt n) (.submit order) (after actions)).books
    have grownShort := (callGrown .calm (.submit (shortened order qty)) (after actions)).books
    rw [queuedOrdersEqVenue simCut (by rw [grownCut]; exact within),
      queuedOrdersEqVenue simShort (by rw [grownShort]; exact within)]
    exact twin.orders c trivial side
  · exact twinSessions requests _ _ _ _ simCut simShort twin (fun _ _ _ foreign =>
      absurd trivial foreign) roomyCut roomyShort

theorem sevenCutAtSecondTrade :
    CutShort (after (calmRun [⟨7, 100000, 1000⟩] [.submit ⟨1, 7, .sell, .limit, .day, 100000, 5⟩,
      .submit ⟨2, 7, .sell, .limit, .day, 100100, 4⟩])) ⟨3, 7, .buy, .limit, .day, 100100, 7⟩ 2
    (tradedIn ((call .calm (.submit ⟨3, 7, .buy, .limit, .day, 100100, 7⟩)
      (after (calmRun [⟨7, 100000, 1000⟩]
      [.submit ⟨1, 7, .sell, .limit, .day, 100000, 5⟩,
        .submit ⟨2, 7, .sell, .limit, .day, 100100, 4⟩]))).events.take 2)) :=
  cutShortIsShorter _ _ 0
    ⟨by decide +kernel, by decide +kernel, by decide +kernel, by decide +kernel⟩ 2
    (by decide +kernel)
    (roomyOf (by decide +kernel) (by decide +kernel))

end Engine
end Xmatch
