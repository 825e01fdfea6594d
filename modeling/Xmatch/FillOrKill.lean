import Xmatch.Resting
import Xmatch.VenueSteps

/-! Fill-or-kill orders: when they are killed, and what they do when they are not. -/
namespace Xmatch

def Event.tradedQty : Event → Nat
  | .trade _ _ _ qty _ _ _ => qty
  | _ => 0

def tradedIn (events : List Event) : Nat := (events.map Event.tradedQty).sum

theorem tradedInAppend (xs ys : List Event) : tradedIn (xs ++ ys) = tradedIn xs + tradedIn ys := by
  simp [tradedIn]

namespace Venue

section Quantities
variable {b : Nat} {instrumentId : InstrumentId} {side : Side} {limit : Option Int}
  {orders orders' : List Order} {venue : Venue} {taker maker : Order} {rest : List Order}

theorem sweepTraded (orders : List Order) (venue : Venue) (taker : Order) :
    tradedIn ((sweep b instrumentId side limit orders venue taker).1.map (·.event)) +
      (sweep b instrumentId side limit orders venue taker).2.taker.openQty = taker.openQty := by
  have swept := @sweepInduct b instrumentId side limit
    (fun seen _ left _ => tradedIn (seen.map (·.event)) + left.openQty = taker.openQty)
    (fun seen venue left maker rest sum active _ => by
      have trade : tradedIn [(tradeMoment instrumentId side maker venue left).event] =
          min left.openQty maker.openQty := by
        simp [tradedIn, tradeMoment, Event.tradedQty]
      simp only [List.map_append, tradedInAppend, List.map_cons, List.map_nil, trade, tradeStep,
        Order.fill]
      omega)
    orders [] venue taker (by simp [tradedIn])
  simpa using swept.1

theorem eligibleCons (accepted : side.accepts limit maker.price = true) :
    quantityOf (eligible side limit (maker :: rest)) =
      maker.openQty + quantityOf (eligible side limit rest) := by
  rw [eligible, List.filter_cons, if_pos accepted]
  rfl

theorem eligibleNone (refused : ∀ o ∈ orders, side.accepts limit o.price = false) :
    eligible side limit orders = [] :=
  List.filter_eq_nil_iff.mpr (fun o member => by rw [refused o member]; decide)

theorem sweepFills (sorted : Sorted side.opposite orders)
    (enough : taker.openQty ≤ quantityOf (eligible side limit orders)) (venue : Venue) :
    (sweep b instrumentId side limit orders venue taker).2.taker.openQty = 0 := by
  have swept := @sweepInduct b instrumentId side limit
    (fun _ _ left opposite => left.openQty ≤ quantityOf (eligible side limit opposite) ∧
      Sorted side.opposite opposite)
    (fun _ venue left maker rest ⟨enough, sorted⟩ _ accepted => by
      rw [eligibleCons accepted] at enough
      have keys := @tradeStepKeys b side venue left maker rest
      refine ⟨?_, sortedKeys sorted keys⟩
      simp only [tradeStep, Order.fill]
      split
      · omega
      · omega)
    orders [] venue taker ⟨enough, sorted⟩
  obtain ⟨⟨left, sorted'⟩, _⟩ := swept
  rcases @sweepStops b instrumentId side limit orders venue taker with done | first
  · exact done
  · have none := eligibleNone (sortedRefused sorted' first)
    rw [none] at left
    exact Nat.le_zero.mp left

theorem quantitySublist (sub : List.Sublist orders' orders) :
    quantityOf orders' ≤ quantityOf orders := by
  induction sub with
  | slnil => exact Nat.le_refl _
  | cons a _ ih => exact Nat.le_trans ih (Nat.le_add_left _ _)
  | cons_cons a _ ih => exact Nat.add_le_add_left ih _

theorem wrappedExact {qty : Nat} (enough : wrappedFill side limit qty orders = true) :
    qty ≤ quantityOf (eligible side limit orders) := by
  obtain ⟨o, _, fits⟩ := List.any_eq_true.mp enough
  have fits := of_decide_eq_true fits
  exact Nat.le_trans fits (Nat.le_trans (Nat.mod_le _ _) (quantitySublist List.filter_sublist))

theorem wrappedPerm (perm : orders.Perm orders') (qty : Nat) :
    wrappedFill side limit qty orders = wrappedFill side limit qty orders' := by
  have eligiblePerm : (eligible side limit orders).Perm (eligible side limit orders') :=
    perm.filter _
  have sums : ∀ price, quantityOf (atLeastAsGood side.opposite price (eligible side limit orders)) =
      quantityOf (atLeastAsGood side.opposite price (eligible side limit orders')) :=
    fun price => quantityOfPerm (eligiblePerm.filter _)
  simp only [wrappedFill, sums]
  exact eligiblePerm.any_eq

end Quantities

section Orders
variable {venue : Venue} {order : NewOrder} {b : Nat} {book : Book} {feasible : Feasible}

theorem submitValid (fresh : Fresh venue order b book) (valid : invalid book order = none) :
    perform feasible (.submit order) venue =
      (acceptedMoment order (venue.spend order.orderId 0) ::
        (execute feasible b order (venue.spend order.orderId 0)).1,
        (execute feasible b order (venue.spend order.orderId 0)).2) := by
  have spent : (venue.spend order.orderId 0).books[b]? = some book := fresh.here
  have used := fresh.unused
  simp only [perform, submit, fresh.configured, Bool.not_true, Bool.false_eq_true, if_false,
    fresh.index, used, spent, Option.bind_some, valid]
  rfl

theorem fokFilled (fresh : Fresh venue order b book) (valid : invalid book order = none)
    (fok : order.tif = .fok)
    (proper : venue.Proper)
    (enough : wrappedFill order.side (limitOf order) order.quantity.toNat
      (venue.orders b order.side.opposite) = true) :
    perform wrappedFill (.submit order) venue =
      (acceptedMoment order (venue.spend order.orderId 0) ::
        (work b order (venue.spend order.orderId 0)).1,
        (work b order (venue.spend order.orderId 0)).2.venue) ∧
      (work b order (venue.spend order.orderId 0)).2.taker.openQty = 0 := by
  have done : (work b order (venue.spend order.orderId 0)).2.taker.openQty = 0 :=
    sweepFills (proper.sorted b order.side.opposite) (wrappedExact enough) _
  have feasible : wrappedFill order.side (limitOf order) order.quantity.toNat
      ((venue.spend order.orderId 0).orders b order.side.opposite) = true := enough
  rw [submitValid fresh valid]
  simp only [execute, fok, feasible, Bool.not_true, Bool.false_eq_true, and_false, if_false]
  change (_ :: (dispose b order (work b order (venue.spend order.orderId 0))).1,
    (dispose b order (work b order (venue.spend order.orderId 0))).2) = _ ∧ _
  rw [dispose, if_neg (by omega)]
  exact ⟨rfl, done⟩

theorem fokKilled (fresh : Fresh venue order b book) (valid : invalid book order = none)
    (fok : order.tif = .fok)
    (short : wrappedFill order.side (limitOf order) order.quantity.toNat
      (venue.orders b order.side.opposite) = false) :
    perform wrappedFill (.submit order) venue =
      ([acceptedMoment order (venue.spend order.orderId 0),
        { event := .canceled order.orderId order.quantity.toNat .fokUnfillable,
          venue := venue.spend order.orderId 0 }],
        venue.spend order.orderId 0) := by
  have infeasible : wrappedFill order.side (limitOf order) order.quantity.toNat
      ((venue.spend order.orderId 0).orders b order.side.opposite) = false := short
  rw [submitValid fresh valid]
  simp only [execute, fok, infeasible, Bool.not_false, and_self, if_true]

theorem workTraded (b : Nat) (order : NewOrder) (venue : Venue) :
    tradedIn ((work b order venue).1.map (·.event)) + (work b order venue).2.taker.openQty =
      order.quantity.toNat :=
  sweepTraded ..

end Orders

end Venue

namespace Engine
open OrderBook Effect

structure ValidSubmit (engine : Engine) (order : NewOrder) (b : Nat) : Prop where
  configured : engine.configured = true
  found : engine.findBook order.instrumentId = some b
  unused : engine.orderIndex.find order.orderId = none
  valid : invalid (engine.books.read b) order = none

def eligibleResting (engine : Engine) (order : NewOrder) : List Order :=
  eligible order.side (Venue.limitOf order)
    (restingOrders engine order.instrumentId order.side.opposite)

def FillsWhenItCan (engine : Engine) (order : NewOrder) (b : Nat) : Prop :=
  order.quantity.toNat ≤ quantityOf (eligibleResting engine order) →
    canFullyFill (engine.books.read b) order.side (order.type = .market)
    (limitPrice order) order.quantity = some true ∧
      tradedIn (call .calm (.submit order) engine).events = order.quantity.toNat ∧
      ∀ qty, .canceled order.orderId qty .fokUnfillable ∉ (call .calm (.submit order) engine).events

/- The sums of the check, taken in 32 bits after each eligible order, reach the quantity. -/
def SumsReach (engine : Engine) (order : NewOrder) : Prop :=
  ∃ o ∈ eligibleResting engine order, order.quantity.toNat ≤
    quantityOf (atLeastAsGood order.side.opposite o.price (eligibleResting engine order)) % 2 ^ 32

section Submits
variable {engine : Engine} {venue : Venue} {order : NewOrder} {b : Nat} {env : Env}

theorem validFresh (sim : Sim engine venue) (valid : ValidSubmit engine order b) :
    ∃ book, Venue.Fresh venue order b book ∧ Venue.invalid book order = none := by
  obtain ⟨queues, rep, _, view⟩ := sim
  obtain ⟨inside, _⟩ := findBookSome rep valid.found
  refine ⟨_, ⟨view.configured.trans valid.configured,
    (findBookIndex rep view _).symm.trans valid.found,
    bookAt view inside, fun used => ?_⟩, ?_⟩
  · obtain ⟨slot, indexed⟩ := (view.spent _).mp used
    rw [valid.unused] at indexed
    contradiction
  · rw [← invalidEqVenueInvalid (rep.fitted b inside)]
    exact valid.valid

theorem sumsReachIff (sim : Sim engine venue) (valid : ValidSubmit engine order b) :
    SumsReach engine order ↔ wrappedFill order.side (Venue.limitOf order) order.quantity.toNat
      (venue.orders b order.side.opposite) = true := by
  rw [← Venue.wrappedPerm (simPerm sim valid.found order.side.opposite), wrappedFill,
    List.any_eq_true]
  simp only [decide_eq_true_eq]
  rfl

theorem canFullyFillReach (sim : Sim engine venue) (valid : ValidSubmit engine order b) :
    canFullyFill (engine.books.read b) order.side (order.type = .market)
      (limitPrice order) order.quantity =
      some (wrappedFill order.side (Venue.limitOf order) order.quantity.toNat
        (venue.orders b order.side.opposite)) := by
  obtain ⟨queues, rep, _, view⟩ := sim
  obtain ⟨inside, _⟩ := findBookSome rep valid.found
  have positive := (passed (rep.fitted b inside) valid.valid).1
  have fills := @canFullyFillEqWrappedFill engine.pool (engine.books.read b) (queues b) order.side
      (limitPrice order)
    (order.type = .market) order.quantity (rep.fitted b inside) (rep.shape b inside) positive
  have limitIs : limitOf (limitPrice order) (order.type = .market) = Venue.limitOf order := by
    rw [limitOf, Venue.limitOf, limitPrice]
    by_cases market : order.type = .market <;> simp [market]
  rw [fills, limitIs, ← ordersAt view inside]

theorem eligiblePerm (sim : Sim engine venue) (valid : ValidSubmit engine order b) :
    quantityOf (eligibleResting engine order) =
      quantityOf (eligible order.side (Venue.limitOf order) (venue.orders b order.side.opposite)) :=
  quantityOfPerm ((simPerm sim valid.found order.side.opposite).filter _)

theorem fillsIff (sim : Sim engine venue) (room : engine.pool.size < kInvalidSlot.toNat)
    (valid : ValidSubmit engine order b) (fok : order.tif = .fok) : FillsWhenItCan engine order b ↔
      quantityOf (eligibleResting engine order) < order.quantity.toNat ∨
        SumsReach engine order := by
  obtain ⟨book, fresh, sound⟩ := validFresh sim valid
  have events := calmEvents sim room (.submit order)
  rw [FillsWhenItCan, canFullyFillReach sim valid, sumsReachIff sim valid, events]
  cases enough : wrappedFill order.side (Venue.limitOf order) order.quantity.toNat
    (venue.orders b order.side.opposite) with
  | true =>
    obtain ⟨result, done⟩ := Venue.fokFilled fresh sound fok (simProper sim) enough
    refine iff_of_true (fun _ => ⟨rfl, ?_, fun qty member => ?_⟩) (.inr rfl)
    · have sum := Venue.workTraded b order (venue.spend order.orderId 0)
      rw [done] at sum
      rw [result, List.map_cons]
      simpa [tradedIn, Venue.acceptedMoment, Event.tradedQty] using sum
    · rw [result, List.map_cons] at member
      rcases List.mem_cons.mp member with first | later
      · contradiction
      · obtain ⟨moment, listed, same⟩ := List.mem_map.mp later
        obtain ⟨_, trades⟩ :=
          @Venue.sweepSweeping b order.instrumentId order.side (Venue.limitOf order)
          (venue.spend order.orderId 0) (Venue.takerOf order)
        obtain ⟨maker, rest, v, taker, _, _, _, _, rfl⟩ := trades moment listed
        contradiction
  | false =>
    have result := Venue.fokKilled fresh sound fok enough
    have none : tradedIn ((Venue.perform wrappedFill (.submit order) venue).1.map (·.event)) =
        0 := by
      rw [result]
      rfl
    constructor
    · intro fills
      refine .inl (Nat.lt_of_not_le (fun reach => ?_))
      have impossible := (fills reach).1
      simp at impossible
    · rintro (short | reach)
      · exact fun reach => absurd reach (Nat.not_le.mpr short)
      · contradiction

end Submits

theorem fokFillsIff (actions : List Action) (roomy : Roomy (after actions)) (order : NewOrder)
    (b : Nat) (valid : ValidSubmit (after actions) order b) (fok : order.tif = .fok) :
    FillsWhenItCan (after actions) order b ↔
      quantityOf (eligibleResting (after actions) order) < order.quantity.toNat ∨
        SumsReach (after actions) order := by
  obtain ⟨venue, sim, -⟩ := reached keptTrivial actions roomy
  exact fillsIff sim roomy.slots valid fok

theorem fokOfThreeAgainstFive :
    FillsWhenItCan (after (calmRun [⟨7, 100000, 1000⟩]
      [.submit ⟨1, 7, .sell, .limit, .day, 100000, 5⟩]))
      ⟨2, 7, .buy, .limit, .fok, 100000, 3⟩ 0 ↔
    quantityOf (eligibleResting
      (after (calmRun [⟨7, 100000, 1000⟩] [.submit ⟨1, 7, .sell, .limit, .day, 100000, 5⟩]))
      ⟨2, 7, .buy, .limit, .fok, 100000, 3⟩) < (3 : Quantity).toNat ∨
    SumsReach (after (calmRun [⟨7, 100000, 1000⟩] [.submit ⟨1, 7, .sell, .limit, .day, 100000, 5⟩]))
      ⟨2, 7, .buy, .limit, .fok, 100000, 3⟩ :=
  fokFillsIff _ (roomyOf (by decide +kernel) (by decide +kernel)) _ 0
    ⟨by decide +kernel, by decide +kernel, by decide +kernel, by decide +kernel⟩ rfl

/- Two sells of 3e9 at two prices, and a buy of 4e9 that takes both prices: the sum wraps to
1705032704. -/
theorem fokKilledByWrappedSum : ¬∀ actions, Roomy (after actions) → ∀ order b,
    ValidSubmit (after actions) order b →
    order.tif = .fok → FillsWhenItCan (after actions) order b := by
  intro promised
  have fills :=
    promised (calmRun [⟨7, 100000, 1000⟩]
      [.submit ⟨1, 7, .sell, .limit, .day, 100000, 3000000000⟩,
        .submit ⟨2, 7, .sell, .limit, .day, 100100, 3000000000⟩])
      (roomyOf (by decide +kernel) (by decide +kernel))
      ⟨3, 7, .buy, .limit, .fok, 100100, 4000000000⟩ 0
      ⟨by decide +kernel, by decide +kernel, by decide +kernel, by decide +kernel⟩ rfl
      (by decide +kernel)
  exact absurd fills.1 (by decide +kernel)

def asIoc (order : NewOrder) : NewOrder := { order with tif := .ioc }

section Runs
variable {before : Session} {queues : Nat → Queues} {venue : Venue} {order : NewOrder} {b : Nat}
  {env : Env} {slot : Slot} {price : Int}

theorem runCurrent {α : Type} (f : Engine → Op α) (s : Session) :
    (current >>= f).run.run s = (f s.engine).run.run s := rfl

theorem submitEntered (valid : ValidSubmit before.engine order b) :
    (submit env order).run.run before = (enterOrder env order >>= fun slot =>
      accept env slot order >>= fun _ =>
      execute env b slot order (limitPrice order)).run.run before := by
  have absent : before.engine.orderIndex.contains order.orderId = false := by
    rw [FlatHashMap.contains, valid.unused]
    rfl
  unfold submit
  rw [runCurrent]
  simp only [valid.configured, Bool.not_true, Bool.false_eq_true, if_false, valid.found, absent,
    valid.valid]

theorem validAsIoc {engine : Engine} (valid : ValidSubmit engine order b) (fok : order.tif = .fok) :
    ValidSubmit engine (asIoc order) b := by
  refine ⟨valid.configured, valid.found, valid.unused, ?_⟩
  have same : invalid (engine.books.read b) (asIoc order) =
      invalid (engine.books.read b) order := by
    have immediate : ¬(order.type = .market ∧ order.tif = .day) := fun day => by simp [fok] at day
    have ioc : ¬((asIoc order).type = .market ∧ (asIoc order).tif = .day) := fun day => by
      simp [asIoc] at day
    rw [invalid, invalid, if_neg immediate, if_neg ioc]
    rfl
  rw [same]
  exact valid.valid

theorem workSpends (matching : Matching before.engine queues venue b slot (Venue.takerOf order))
    (done : (Venue.work b order venue).2.taker.openQty = 0) :
    wp (runMatching env b order.instrumentId slot order.side (limitPrice order)
      (order.type = .market))
      (fun _ after => (after.engine.pool.get slot).openQty = 0) (fun _ _ => True) before := by
  have limitIs : limitOf (limitPrice order) (order.type = .market) = Venue.limitOf order := by
    rw [limitOf, Venue.limitOf, limitPrice]
    by_cases market : order.type = .market <;> simp [market]
  have runs := @runMatchingRefines env b slot order.side queues venue (Venue.takerOf order) before
      order.instrumentId
    (limitPrice order) (order.type = .market) matching
  rw [limitIs] at runs
  refine wpMono runs (fun _ after ends => ?_) (fun _ _ _ => trivial)
  obtain ⟨_, _, _, queues', matching', _, _⟩ := ends
  have none : ¬0 < (after.engine.pool.get slot).openQty := fun left => by
    have more := (takerOpen matching').mp left
    have spent : (Venue.sweep b order.instrumentId order.side (Venue.limitOf order)
      (venue.orders b order.side.opposite) venue
      (Venue.takerOf order)).2.taker.openQty = 0 := done
    omega
  exact UInt32.le_zero_iff.mp (UInt32.not_lt.mp none)

theorem spentDisposes (spent : (before.engine.pool.get slot).openQty = 0) (order : NewOrder)
    (price : Int) :
    (disposeRemainder env b slot order price).run.run before =
      (pure () : Op Unit).run.run before := by
  unfold disposeRemainder
  rw [runCurrent, if_neg (by rw [spent]; decide)]

theorem matchAsIoc (matching : Matching before.engine queues venue b slot (Venue.takerOf order))
    (done : (Venue.work b order venue).2.taker.openQty = 0) :
    (matchAndDispose env b slot order (limitPrice order)).run.run before =
      (matchAndDispose env b slot (asIoc order) (limitPrice order)).run.run before :=
  runBindCongr (workSpends matching done)
    (fun _ after spent => by rw [spentDisposes spent, spentDisposes spent])

theorem executeAsIoc (matching : Matching before.engine queues venue b slot (Venue.takerOf order))
    (fok : order.tif = .fok)
    (feasible : canFullyFill (before.engine.books.read b) order.side (order.type = .market)
      (limitPrice order)
      order.quantity = some true)
    (done : (Venue.work b order venue).2.taker.openQty = 0) :
    (execute env b slot order (limitPrice order)).run.run before =
      (execute env b slot (asIoc order) (limitPrice order)).run.run before := by
  have fills : (execute env b slot order (limitPrice order)).run.run before =
      (matchAndDispose env b slot order (limitPrice order)).run.run before := by
    unfold execute
    rw [runCurrent, if_pos fok, feasible]
  have ioc : (execute env b slot (asIoc order) (limitPrice order)).run.run before =
      (matchAndDispose env b slot (asIoc order) (limitPrice order)).run.run before := by
    unfold execute
    rw [runCurrent, if_neg (by simp [asIoc])]
  rw [fills, ioc]
  exact matchAsIoc matching done

theorem submitAsIoc (sim : Sim before.engine venue)
    (room : before.engine.pool.size < kInvalidSlot.toNat)
    (valid : ValidSubmit before.engine order b) (fok : order.tif = .fok)
    (enough : wrappedFill order.side (Venue.limitOf order) order.quantity.toNat
      (venue.orders b order.side.opposite) = true) :
    (submit env order).run.run before = (submit env (asIoc order)).run.run before := by
  have feasible := canFullyFillReach sim valid
  rw [enough] at feasible
  obtain ⟨book, fresh, sound⟩ := validFresh sim valid
  obtain ⟨_, done⟩ := Venue.fokFilled fresh sound fok (simProper sim) enough
  obtain ⟨queues, rep, live, view⟩ := sim
  obtain ⟨inside, instrument⟩ := findBookSome rep valid.found
  rw [submitEntered valid, submitEntered (validAsIoc valid fok)]
  have enter := @enterOrderRefines env before queues venue order rep live view room valid.unused
  refine runBindCongr enter (fun slot entered ⟨_, _, _, admitted⟩ => ?_)
  refine runBindCongr (acceptRefines admitted inside instrument)
    (fun _ ready ⟨_, _, _, matching, books, _⟩ => ?_)
  rw [← books] at feasible
  exact executeAsIoc matching fok feasible done

def matched (env : Env) (b : Nat) (order : NewOrder) : Op Slot := do
  let slot ← enterOrder env order
  accept env slot order
  runMatching env b order.instrumentId slot order.side (limitPrice order) (order.type = .market)
  return slot

theorem submitMatched (sim : Sim before.engine venue)
    (room : before.engine.pool.size < kInvalidSlot.toNat)
    (valid : ValidSubmit before.engine order b) (fok : order.tif = .fok)
    (enough : wrappedFill order.side (Venue.limitOf order) order.quantity.toNat
      (venue.orders b order.side.opposite) = true) :
    wp (matched env b order) (fun slot after => (after.engine.pool.get slot).openQty = 0)
      (fun _ _ => True) before ∧
      (submit env order).run.run before =
        (matched env b order >>= fun _ => pure ()).run.run before := by
  have feasible := canFullyFillReach sim valid
  rw [enough] at feasible
  obtain ⟨book, fresh, sound⟩ := validFresh sim valid
  obtain ⟨_, done⟩ := Venue.fokFilled fresh sound fok (simProper sim) enough
  obtain ⟨queues, rep, live, view⟩ := sim
  obtain ⟨inside, instrument⟩ := findBookSome rep valid.found
  have enter := @enterOrderRefines env before queues venue order rep live view room valid.unused
  rw [submitEntered valid]
  unfold matched
  simp only [wpBind, bind_assoc, pure_bind]
  constructor
  · refine wpMono enter (fun slot entered entry => ?_) (fun _ _ _ => trivial)
    obtain ⟨_, _, _, admitted⟩ := entry
    refine wpMono (acceptRefines admitted inside instrument) (fun _ ready accepted => ?_)
      (fun _ _ _ => trivial)
    obtain ⟨_, _, _, matching, _⟩ := accepted
    exact wpMono (workSpends matching done) (fun _ _ spent => spent) (fun _ _ _ => trivial)
  · refine runBindCongr enter (fun slot entered entry => ?_)
    obtain ⟨_, _, _, admitted⟩ := entry
    refine runBindCongr (acceptRefines admitted inside instrument) (fun _ ready accepted => ?_)
    obtain ⟨_, _, _, matching, books, _⟩ := accepted
    rw [← books] at feasible
    unfold execute
    rw [runCurrent, if_pos fok, feasible]
    exact runBindCongr (workSpends matching done) (fun _ after spent => spentDisposes spent ..)

theorem killedRefines (sim : Sim before.engine venue)
    (room : before.engine.pool.size < kInvalidSlot.toNat)
    (valid : ValidSubmit before.engine order b) (fok : order.tif = .fok)
    (short : wrappedFill order.side (Venue.limitOf order) order.quantity.toNat
      (venue.orders b order.side.opposite) = false) :
    Effect.wp (submit env order) (fun _ after => after.engine.books = before.engine.books ∧
        ∀ other : Slot, other.toNat < before.engine.pool.size →
        after.engine.pool.get other = before.engine.pool.get other)
      (fun _ _ => True) before := by
  have infeasible := canFullyFillReach sim valid
  rw [short] at infeasible
  obtain ⟨queues, rep, live, view⟩ := sim
  obtain ⟨inside, instrument⟩ := findBookSome rep valid.found
  unfold wp
  rw [submitEntered valid]
  change wp (enterOrder env order >>= fun slot => accept env slot order >>= fun _ =>
    execute env b slot order (limitPrice order)) _ _ before
  rw [wpBind]
  have enter := @enterOrderRefines env before queues venue order rep live view room valid.unused
  refine wpMono enter (fun slot entered ⟨_, _, _, admitted⟩ => ?_) (fun _ _ _ => trivial)
  rw [wpBind]
  refine wpMono (acceptRefines admitted inside instrument)
    (fun _ ready ⟨_, _, _, matching, books, kept⟩ => ?_) (fun _ _ _ => trivial)
  rw [← books] at infeasible
  have apart : ∀ other : Slot, other.toNat < before.engine.pool.size → other ≠ slot := by
    rintro other below rfl
    have := admitted.named
    omega
  unfold execute
  simp only [current, wpBind, wpGet, wpPure, fok, if_true, infeasible, update, wpModify, emit,
    wpIte, wpThrow]
  refine ⟨fun _ => trivial, fun _ => ⟨books, fun other below => ?_⟩⟩
  exact (OrderPool.getModifyOther _ _ (apart other below)).trans (kept other below)

end Runs

def feasibility (engine : Engine) (b : Nat) (order : NewOrder) : Option Bool :=
  canFullyFill (engine.books.read b) order.side (order.type = .market)
    (limitPrice order) order.quantity

/- The call ends where its matching ends, with nothing left of the order. -/
def EndsSpent (env : Env) (engine : Engine) (b : Nat) (order : NewOrder) : Prop :=
  ∃ slot after, (matched env b order).run.run { engine := engine } = (.ok slot, after) ∧
    (after.engine.pool.get slot).openQty = 0 ∧ call env (.submit order) engine = after

/- Killed before any matching, and nothing has changed; or traded in full, as an immediate-or-cancel
order is, with no remainder after the matching; or there was no memory for the order. -/
inductive AllOrNothing (env : Env) (engine : Engine) (b : Nat) (order : NewOrder) : Prop where
  | killed (infeasible : feasibility engine b order = some false)
      (events : (call env (.submit order) engine).events =
        [.accepted order.orderId, .canceled order.orderId order.quantity.toNat .fokUnfillable])
      (books : (call env (.submit order) engine).engine.books = engine.books)
      (records : ∀ slot : Slot, slot.toNat < engine.pool.size →
        (call env (.submit order) engine).engine.pool.get slot = engine.pool.get slot)
  | filled (trades : List Event) (feasible : feasibility engine b order = some true)
      (events : (call env (.submit order) engine).events = .accepted order.orderId :: trades)
      (sum : tradedIn trades = order.quantity.toNat)
      (onlyTrades : ∀ event ∈ trades, ∃ tradeId price qty resting,
        event = .trade tradeId order.instrumentId price qty resting order.orderId order.side)
      (spent : EndsSpent env engine b order)
      (same : call env (.submit order) engine = call env (.submit (asIoc order)) engine)
  | unmade (short : env.chunk = false ∨ env.slots = false)
      (silent : (call env (.submit order) engine).log = [])

theorem quietSpent {engine : Engine} {venue : Venue} {order : NewOrder} {b : Nat} {env : Env}
    (sim : Sim engine venue)
    (room : engine.pool.size < kInvalidSlot.toNat) (quiet : env.Quiet)
    (valid : ValidSubmit engine order b) (fok : order.tif = .fok)
    (enough : wrappedFill order.side (Venue.limitOf order) order.quantity.toNat
      (venue.orders b order.side.opposite) = true)
    (spoken : (call env (.submit order) engine).log ≠ []) : EndsSpent env engine b order := by
  obtain ⟨spent, runs⟩ :=
    @submitMatched { engine := engine } venue order b env sim room valid fok enough
  have returns : (submit env order).run.run { engine := engine } = _ :=
    quietReturns sim room quiet (.submit order) spoken
  rw [runs] at returns
  have done : wp (matched env b order >>= fun _ => pure ())
      (fun _ t => t = call env (.submit order) engine) (fun _ _ => False)
      { engine := engine } := by
    unfold wp
    rw [returns]
  rw [wpBind] at done
  have both := wpAnd spent done
  unfold wp at both
  unfold EndsSpent
  revert both
  rcases (matched env b order).run.run { engine := engine } with ⟨outcome, after⟩
  cases outcome with
  | ok slot =>
    rintro ⟨zero, last⟩
    exact ⟨slot, after, rfl, zero, last.symm⟩
  | error why => exact fun both => both.2.elim

theorem fokAllOrNothing (actions : List Action) (roomy : Roomy (after actions)) (env : Env)
    (quiet : env.Quiet) (order : NewOrder) (b : Nat) (valid : ValidSubmit (after actions) order b)
    (fok : order.tif = .fok) : AllOrNothing env (after actions) b order := by
  obtain ⟨venue, sim, -⟩ := reached keptTrivial actions roomy
  obtain ⟨venue', outcome⟩ := callOutcome sim roomy.slots env (.submit order)
  rcases quietOutcome quiet outcome with ⟨follows, _⟩ | ⟨short, silent, _⟩
  · have events := followsEvents follows
    obtain ⟨book, fresh, sound⟩ := validFresh sim valid
    have feasible : feasibility (after actions) b order = _ := canFullyFillReach sim valid
    cases enough : wrappedFill order.side (Venue.limitOf order) order.quantity.toNat
      (venue.orders b order.side.opposite) with
    | true =>
      obtain ⟨result, done⟩ := Venue.fokFilled fresh sound fok (simProper sim) enough
      have sum := Venue.workTraded b order (venue.spend order.orderId 0)
      rw [done] at sum
      rw [result] at events
      rw [enough] at feasible
      have spoken : (call env (.submit order) (after actions)).log ≠ [] := fun silent => by
        rw [silent] at events
        contradiction
      refine .filled _ feasible events sum (fun event member => ?_)
        (quietSpent sim roomy.slots quiet valid fok enough spoken) ?_
      · obtain ⟨moment, listed, same⟩ := List.mem_map.mp member
        obtain ⟨_, trades⟩ :=
          @Venue.sweepSweeping b order.instrumentId order.side (Venue.limitOf order)
          (venue.spend order.orderId 0) (Venue.takerOf order)
        obtain ⟨maker, rest, v, taker, _, own, _, _, rfl⟩ := trades moment listed
        refine ⟨v.nextTradeId, maker.price, min taker.openQty maker.openQty, maker.id,
          same.symm.trans ?_⟩
        rw [Venue.tradeMoment, own]
        rfl
      · have same :=
          @submitAsIoc { engine := after actions } venue order b env sim roomy.slots
            valid fok enough
        exact congrArg Prod.snd same
    | false =>
      have result := Venue.fokKilled fresh sound fok enough
      rw [result] at events
      rw [enough] at feasible
      have unchanged :=
        @killedRefines { engine := after actions } venue order b env sim roomy.slots
          valid fok enough
      have returns : (submit env order).run.run { engine := after actions } = _ :=
        quietReturns sim roomy.slots quiet (.submit order) (fun silent => by
          rw [silent] at events
          contradiction)
      unfold wp at unchanged
      rw [returns] at unchanged
      exact .killed feasible events unchanged.1 unchanged.2
  · exact .unmade short silent

theorem fokOfSevenAgainstFive :
    AllOrNothing .calm (after
      (calmRun [⟨7, 100000, 1000⟩] [.submit ⟨1, 7, .sell, .limit, .day, 100000, 5⟩])) 0
      ⟨2, 7, .buy, .limit, .fok, 100000, 7⟩ :=
  fokAllOrNothing _ (roomyOf (by decide +kernel) (by decide +kernel)) _ calmQuiet _ 0
    ⟨by decide +kernel, by decide +kernel, by decide +kernel, by decide +kernel⟩ rfl

end Engine
end Xmatch
