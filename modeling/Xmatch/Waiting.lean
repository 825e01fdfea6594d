import Mathlib.Data.List.Forall2
import Xmatch.Priority
import Xmatch.Rejections
import Xmatch.Throwing

/-! An order that waits only moves forward: what stands before it at its price never grows,
whatever is requested, reported or thrown, as long as it is not replaced itself. -/
namespace Xmatch

def aheadAt (id : OrderId) (price : Int) (orders : List Order) : List Order :=
  (orders.takeWhile (fun o => o.id ≠ id)).filter (fun o => o.price = price)

/- One order for another that is no larger, at the same price; of the two both have the id, or
none. -/
structure NoLarger (id : OrderId) (order old : Order) : Prop where
  price : order.price = old.price
  quantity : order.openQty ≤ old.openQty
  named : order.id = id ↔ old.id = id

/- The order of the id was there before, at the same price, with as much or more of it, and behind
as much or more. -/
structure Forward (id : OrderId) (before after : List Order) (order : Order) : Prop where
  stood : ∃ old ∈ before, NoLarger id order old ∧ order.id = id
  quantity : quantityOf (aheadAt id order.price after) ≤ quantityOf (aheadAt id order.price before)
  number : (aheadAt id order.price after).length ≤ (aheadAt id order.price before).length

def Advances (id : OrderId) (before after : List Order) : Prop := ∀ order ∈ after, order.id = id →
    Forward id before after order

section Lists
variable {id : OrderId} {side : Side} {orders before after final : List Order} {order taker : Order}
  {price : Int}

theorem noLargerRefl (order : Order) : NoLarger id order order := ⟨rfl, Nat.le_refl _, Iff.rfl⟩

theorem noLargerTrans {one two three : Order} (first : NoLarger id one two)
    (second : NoLarger id two three) : NoLarger id one three :=
  ⟨first.price.trans second.price, Nat.le_trans first.quantity second.quantity,
    first.named.trans second.named⟩

instance : Std.Refl (NoLarger id) := ⟨noLargerRefl⟩

instance : IsTrans Order (NoLarger id) := ⟨fun _ _ _ => noLargerTrans⟩

theorem advancesRefl (orders : List Order) : Advances id orders orders :=
  fun order member named => ⟨⟨order, member, noLargerRefl order, named⟩, Nat.le_refl _,
    Nat.le_refl _⟩

theorem advancesTrans (first : Advances id before after) (second : Advances id after final) :
    Advances id before final := by
  intro order member named
  obtain ⟨⟨old, rests, smaller, _⟩, quantity, number⟩ := second order member named
  obtain ⟨⟨older, stood, larger, _⟩, quantity', number'⟩ := first old rests (smaller.named.mp named)
  rw [← smaller.price] at quantity' number'
  exact ⟨⟨older, stood, noLargerTrans smaller larger, named⟩, Nat.le_trans quantity quantity',
    Nat.le_trans number number'⟩

theorem aheadHere (named : order.id = id) : aheadAt id price (order :: orders) = [] := by
  rw [aheadAt, List.takeWhile_cons_of_neg (by simpa using named)]
  rfl

theorem aheadMore (other : order.id ≠ id) : aheadAt id price (order :: orders) =
    if order.price = price then order :: aheadAt id price orders else aheadAt id price orders := by
  rw [aheadAt, List.takeWhile_cons_of_pos (by simpa using other), List.filter_cons]
  simp only [decide_eq_true_eq]
  rfl

theorem shrunkAdvances (shrunk : after.SublistForall₂ (NoLarger id) before) :
    (before.map (·.id)).Nodup → Advances id before after := by
  induction shrunk with
  | nil => exact fun _ order member => absurd member (List.not_mem_nil)
  | @cons first first' after before smaller shrunk ih =>
    intro nodup order member named
    obtain ⟨apart, nodup⟩ := List.nodup_cons.mp nodup
    by_cases here : first.id = id
    · have here' := smaller.named.mp here
      rcases List.mem_cons.mp member with rfl | later
      · rw [← here]
        refine ⟨⟨first', List.mem_cons_self, here ▸ smaller, rfl⟩, ?_, ?_⟩
        · rw [aheadHere rfl]
          exact Nat.zero_le _
        · rw [aheadHere rfl]
          exact Nat.zero_le _
      · obtain ⟨old, rests, same, _⟩ := (ih nodup order later named).stood
        have twice : old.id = first'.id := (same.named.mp named).trans here'.symm
        exact absurd (List.mem_map.mpr ⟨old, rests, twice⟩) apart
    · have other : first'.id ≠ id := fun named' => here (smaller.named.mpr named')
      have later : order ∈ after :=
        (List.mem_cons.mp member).resolve_left (fun same => here (same ▸ named))
      obtain ⟨⟨old, rests, same, _⟩, quantity, number⟩ := ih nodup order later named
      refine ⟨⟨old, List.mem_cons_of_mem _ rests, same, named⟩, ?_, ?_⟩ <;>
        rw [aheadMore here, aheadMore other, smaller.price]
      · split
        · exact Nat.add_le_add smaller.quantity quantity
        · exact quantity
      · split
        · exact Nat.succ_le_succ number
        · exact number
  | @cons_right first after before shrunk ih =>
    intro nodup order member named
    obtain ⟨apart, nodup⟩ := List.nodup_cons.mp nodup
    obtain ⟨⟨old, rests, same, _⟩, quantity, number⟩ := ih nodup order member named
    have other : first.id ≠ id := fun named' =>
      apart (List.mem_map.mpr ⟨old, rests, (same.named.mp named).trans named'.symm⟩)
    refine ⟨⟨old, List.mem_cons_of_mem _ rests, same, named⟩, ?_, ?_⟩ <;> rw [aheadMore other]
    · split
      · exact Nat.le_trans quantity (Nat.le_add_left _ _)
      · exact quantity
    · split
      · exact Nat.le_succ_of_le number
      · exact number

theorem enqueueAhead (sorted : Sorted side orders) (other : taker.id ≠ id) (member : order ∈ orders)
    (named : order.id = id) :
    aheadAt id order.price (enqueue side taker orders) = aheadAt id order.price orders := by
  induction orders with
  | nil => contradiction
  | cons first rest ih =>
    rw [enqueue]
    split
    · rename_i better
      have worse : taker.price ≠ order.price := by
        intro same
        rw [same] at better
        rcases List.mem_cons.mp member with rfl | later
        · exact betterIrrefl _ _ better
        · exact List.rel_of_pairwise_cons sorted later better
      rw [aheadMore other, if_neg worse]
    · by_cases here : first.id = id
      · rw [aheadHere here, aheadHere here]
      · have later : order ∈ rest :=
          (List.mem_cons.mp member).resolve_left (fun same => here (same ▸ named))
        rw [aheadMore here, aheadMore here, ih sorted.tail later]

theorem enqueueAdvances (sorted : Sorted side orders) (other : taker.id ≠ id) :
    Advances id orders (enqueue side taker orders) := by
  intro order member named
  have rests : order ∈ orders :=
    (Venue.memEnqueue.mp member).resolve_left (fun same => other (same ▸ named))
  rw [← named] at other ⊢
  have same := enqueueAhead sorted other rests rfl
  exact ⟨⟨order, rests, noLargerRefl order, rfl⟩, by rw [same], by rw [same]⟩

theorem insteadAdvances {old fresh : Order} (nodup : (orders.map (·.id)).Nodup)
    (only : ∀ o ∈ orders, o.id = old.id → o = old) (price : fresh.price = old.price)
    (fewer : fresh.openQty ≤ old.openQty) (apart : old.id ≠ id) (apart' : fresh.id ≠ id) :
    Advances id orders (instead old.id fresh orders) := by
  refine shrunkAdvances (List.sublistForall₂_iff.mpr ⟨orders, ?_, List.Sublist.refl _⟩) nodup
  rw [instead, List.forall₂_map_left_iff, List.forall₂_same]
  intro o member
  split
  · rename_i same
    rw [only o member same]
    exact ⟨price, fewer, iff_of_false apart' apart⟩
  · exact noLargerRefl o

end Lists

namespace Venue

structure Onward (id : OrderId) (before after : Venue) : Prop where
  queues : ∀ b side, Advances id (before.orders b side) (after.orders b side)
  spent : ∀ used ∈ before.spent, used ∈ after.spent

structure Shrunk (id : OrderId) (before after : Venue) : Prop where
  queues : ∀ b side, (after.orders b side).SublistForall₂ (NoLarger id) (before.orders b side)
  spent : ∀ used ∈ before.spent, used ∈ after.spent

section Requests
variable {id : OrderId} {venue base after one two three : Venue} {b : Nat} {side : Side}
  {old taker : Order}

theorem onwardRefl (venue : Venue) : Onward id venue venue :=
  ⟨fun _ _ => advancesRefl _, fun _ member => member⟩

theorem onwardTrans (first : Onward id one two) (second : Onward id two three) :
    Onward id one three :=
  ⟨fun b side => advancesTrans (first.queues b side) (second.queues b side), fun used member =>
    second.spent used (first.spent used member)⟩

theorem shrunkRefl (venue : Venue) : Shrunk id venue venue :=
  ⟨fun b side => refl_of _ (venue.orders b side), fun _ member => member⟩

theorem shrunkTrans (first : Shrunk id one two) (second : Shrunk id two three) :
    Shrunk id one three :=
  ⟨fun b side => trans_of _ (second.queues b side) (first.queues b side), fun used member =>
    second.spent used (first.spent used member)⟩

theorem shrunkOnward (nodup : ∀ b side, ((venue.orders b side).map (·.id)).Nodup)
    (shrunk : Shrunk id venue after) : Onward id venue after :=
  ⟨fun b side => shrunkAdvances (shrunk.queues b side) (nodup b side), shrunk.spent⟩

theorem spendShrinks (venue : Venue) (used : OrderId) (filled : Nat) :
    Shrunk id venue (venue.spend used filled) :=
  ⟨fun b side => refl_of _ (venue.orders b side), fun _ member => List.mem_cons_of_mem _ member⟩

theorem tradeShrinks {maker : Order} {rest : List Order}
    (here : venue.orders b side.opposite = maker :: rest) :
    Shrunk id venue (tradeStep b side maker rest venue taker).venue := by
  refine ⟨fun c s => ?_, fun _ member => member⟩
  have put : (tradeStep b side maker rest venue taker).venue.orders c s =
      (venue.putSide b side.opposite (tradeStep b side maker rest venue taker).opposite).orders c
      s := rfl
  rw [put, ordersPutSide]
  split
  · rename_i place
    rw [place.1, place.2.1, here, tradeStep]
    simp only
    split
    · exact .cons_right (refl_of _ rest)
    · exact .cons ⟨rfl, Nat.sub_le _ _, Iff.rfl⟩ (refl_of _ rest)
  · exact refl_of _ (venue.orders c s)

theorem sweepForward {limit : Option Int} {instrumentId : InstrumentId} (base : Venue)
    (taker : Order) :
    Shrunk id base (sweep b instrumentId side limit (base.orders b side.opposite) base
      taker).2.venue ∧
      ∀ moment ∈ (sweep b instrumentId side limit (base.orders b side.opposite) base taker).1,
        Shrunk id base moment.venue := by
  have induct := @sweepInduct b instrumentId side limit
    (fun _ venue _ opposite => Shrunk id base venue ∧ venue.orders b side.opposite = opposite)
    (fun seen venue taker maker rest ⟨shrunk, here⟩ _ _ =>
      ⟨shrunkTrans shrunk (tradeShrinks here), by
      have inside : b < venue.books.length := ordersInside (here ▸ List.mem_cons_self)
      have put : (tradeStep b side maker rest venue taker).venue.orders b side.opposite =
        (venue.putSide b side.opposite (tradeStep b side maker rest venue taker).opposite).orders b
        side.opposite := rfl
      rw [put, ordersPutSide, if_pos ⟨rfl, rfl, inside⟩]⟩)
    (base.orders b side.opposite) [] base taker ⟨shrunkRefl base, rfl⟩
  refine ⟨induct.1.1, fun moment member => ?_⟩
  obtain ⟨pre, post, split⟩ := List.append_of_mem member
  obtain ⟨maker, rest, venue, left, ⟨shrunk, _⟩, _, _, rfl⟩ := induct.2 pre moment post split
  exact ⟨shrunk.queues, shrunk.spent⟩

theorem requeueForward (request : ReplaceOrder) (b : Nat) (side : Side) (old : Order)
    (base : Venue) :
    Shrunk id base (requeueSweep request b side old base).2.venue ∧
      ∀ moment ∈ (requeueSweep request b side old base).1, Shrunk id base moment.venue := by
  rw [requeueSweep]
  split
  · exact sweepForward base _
  · exact ⟨shrunkRefl base, fun moment member => absurd member List.not_mem_nil⟩

theorem withdrawShrinks (venue : Venue) (b : Nat) (side : Side) (used : OrderId) :
    Shrunk id venue (venue.withdraw b side used) := by
  refine ⟨fun c s => ?_, fun _ member => member⟩
  rw [withdraw, ordersPutSide]
  split
  · rename_i place
    rw [place.1, place.2.1, without]
    exact List.filter_sublist.sublistForall₂
  · exact refl_of _ (venue.orders c s)

theorem putOnward {orders : List Order} (advances : Advances id (venue.orders b side) orders) :
    Onward id venue (venue.putSide b side orders) := by
  refine ⟨fun c s => ?_, fun _ member => member⟩
  rw [ordersPutSide]
  split
  · rename_i place
    rw [place.1, place.2.1]
    exact advances
  · exact advancesRefl _

theorem settleOnward {swept : Sweep} {opposite : List Order} (onward : Onward id venue swept.venue)
    (proper : venue.Proper) (sweeping : Sweeping b side base swept.venue opposite)
    (within : (base.orders b side).Sublist (venue.orders b side)) (other : swept.taker.id ≠ id) :
    Onward id venue (settle b side swept) := by
  have sorted : Sorted side (swept.venue.orders b side) := by
    rw [sweeping.others b side (fun here => Side.oppositeNe side here.2.symm)]
    exact (proper.sorted b side).sublist within
  refine onwardTrans onward ?_
  rw [settle]
  split
  · exact putOnward (enqueueAdvances sorted other)
  · exact onwardRefl _

theorem workedOnward {order : NewOrder} (proper : venue.Proper) (other : order.orderId ≠ id) :
    Onward id venue (dispose b order (work b order (venue.spend order.orderId 0))).2 ∧
      ∀ moment ∈ (dispose b order (work b order (venue.spend order.orderId 0))).1,
        Onward id venue moment.venue := by
  have spent := @spendShrinks id venue order.orderId 0
  obtain ⟨ends, each⟩ := @sweepForward id b order.side (limitOf order) order.instrumentId
    (venue.spend order.orderId 0) (takerOf order)
  have first : ∀ moment ∈ (work b order (venue.spend order.orderId 0)).1,
      Onward id venue moment.venue :=
    fun moment member => shrunkOnward proper.nodup (shrunkTrans spent (each moment member))
  have swept : Onward id venue (work b order (venue.spend order.orderId 0)).2.venue :=
    shrunkOnward proper.nodup (shrunkTrans spent ends)
  by_cases day : order.tif = .day
  · rw [disposeSettles _ day]
    refine ⟨settleOnward swept proper (sweepSweeping _ _).1 (List.Sublist.refl _) ?_, first⟩
    rw [work, (sweepTaker _ _ _).1]
    exact other
  · rw [disposeDrops _ day]
    refine ⟨swept, fun moment member => ?_⟩
    rcases List.mem_append.mp member with trades | rest
    · exact first moment trades
    · split at rest
      · rw [List.mem_singleton.mp rest]
        exact swept
      · contradiction

theorem requeuedOnward {request : ReplaceOrder} (proper : venue.Proper)
    (other : request.newOrderId ≠ id) :
    Onward id venue (requeue request b side old (venue.spend request.newOrderId old.filledQty)).2 ∧
      ∀ moment ∈ (requeue request b side old (venue.spend request.newOrderId old.filledQty)).1,
        Onward id venue moment.venue := by
  have left : Shrunk id venue
      ((venue.spend request.newOrderId old.filledQty).withdraw b side old.id) :=
    shrunkTrans (spendShrinks venue _ _) (withdrawShrinks _ b side old.id)
  obtain ⟨ends, each⟩ :=
    @requeueForward id request b side old
      ((venue.spend request.newOrderId old.filledQty).withdraw b side old.id)
  obtain ⟨sweeping, named, _⟩ :=
    requeueSweeping request b side old
      ((venue.spend request.newOrderId old.filledQty).withdraw b side old.id)
  rw [requeueEqSettle]
  refine ⟨settleOnward (shrunkOnward proper.nodup (shrunkTrans left ends)) proper sweeping
    (withdrawSubset _ b side old.id b side) ?_,
    fun moment member => ?_⟩
  · rw [named]
    exact other
  · rcases List.mem_cons.mp member with rfl | later
    · exact shrunkOnward proper.nodup left
    · exact shrunkOnward proper.nodup (shrunkTrans left (each moment later))

theorem replacesOther {request : ReplaceOrder} {book : Book}
    (replacing : Replacing venue request b side old book) (used : id ∈ venue.spent)
    (kept : request.orderId ≠ id) : request.newOrderId ≠ id := by
  intro same
  by_cases renamed : request.newOrderId = request.orderId
  · exact kept (renamed.symm.trans same)
  · exact replacing.unused renamed (same ▸ used)

theorem onwardPerform (request : Request) (proper : venue.Proper) (used : id ∈ venue.spent)
    (kept : ∀ r, request = .replace r → r.orderId ≠ id) :
    Onward id venue (perform wrappedFill request venue).2 ∧
      ∀ moment ∈ (perform wrappedFill request venue).1, Onward id venue moment.venue := by
  have shape := performed wrappedFill request venue
  generalize perform wrappedFill request venue = result at shape ⊢
  cases shape with
  | refused request id' reason =>
    refine ⟨onwardRefl venue, fun moment member => ?_⟩
    rw [List.mem_singleton.mp member]
    exact onwardRefl venue
  | spoiled order b book reason fresh flaw =>
    have spent := shrunkOnward proper.nodup (@spendShrinks id venue order.orderId 0)
    refine ⟨spent, fun moment member => ?_⟩
    rw [List.mem_singleton.mp member]
    exact spent
  | killed order b book fresh valid fok short =>
    have spent := shrunkOnward proper.nodup (@spendShrinks id venue order.orderId 0)
    refine ⟨spent, fun moment member => ?_⟩
    simp only [List.mem_cons, List.not_mem_nil, or_false] at member
    rcases member with rfl | rfl <;> exact spent
  | worked order b book fresh valid enough =>
    obtain ⟨ends, each⟩ :=
      @workedOnward id venue b order proper (fun same => fresh.unused (same ▸ used))
    refine ⟨ends, fun moment member => ?_⟩
    rcases List.mem_cons.mp member with rfl | later
    · exact shrunkOnward proper.nodup (spendShrinks venue order.orderId 0)
    · exact each moment later
  | withdrawn request id' b side old found leaves =>
    have shrunk := shrunkOnward proper.nodup (@withdrawShrinks id venue b side old.id)
    refine ⟨shrunk, fun moment member => ?_⟩
    rw [List.mem_singleton.mp member]
    exact shrunk
  | requeued request b side old book replacing loses =>
    exact requeuedOnward proper (replacesOther replacing used (kept request rfl))
  | amended request b side old book replacing samePrice fewer =>
    obtain ⟨_, rests, named⟩ := findOpenRests replacing.found
    have own : ∀ o ∈ venue.orders b side, o.id = old.id → o = old :=
      fun o member same => List.inj_on_of_nodup_map (proper.nodup b side) member rests same
    have amended : Onward id venue ((venue.spend request.newOrderId old.filledQty).putSide b side
        (instead old.id (replacement request old) (venue.orders b side))) :=
      onwardTrans (shrunkOnward proper.nodup (spendShrinks venue _ _))
        (putOnward (insteadAdvances (proper.nodup b side) own samePrice fewer
        (named ▸ kept request rfl) (replacesOther replacing used (kept request rfl))))
    refine ⟨amended, fun moment member => ?_⟩
    rw [List.mem_singleton.mp member]
    exact amended

end Requests
end Venue

namespace Engine
open OrderBook

def Action.Replaces (id : OrderId) : Action → Prop
  | .call _ (.replace request) => request.orderId = id
  | _ => False

section Waiting
variable {engine : Engine} {venue : Venue} {id : OrderId}

theorem simUsed (sim : Sim engine venue) (used : engine.orderIndex.contains id = true) :
    id ∈ venue.spent := by
  obtain ⟨_, _, _, view⟩ := sim
  exact (containsSpent view id).mp used

theorem onwardOutcome {venue' : Venue} {env : Env} {request : Request} {session : Session}
    (proper : venue.Proper) (used : id ∈ venue.spent)
    (kept : ∀ r, request = .replace r → r.orderId ≠ id)
    (outcome : Outcome env request venue session venue') : venue.Onward id venue' := by
  obtain ⟨ends, each⟩ := Venue.onwardPerform request proper used kept
  cases outcome with
  | completed _ _ => exact ends
  | interrupted n moment _ here _ _ => exact each moment (List.mem_of_getElem? here)
  | starved _ _ _ => exact Venue.onwardRefl venue

theorem onwardActions (later : List Action) :
    ∀ (engine : Engine) (venue : Venue), Sim engine venue → engine.configured = true →
    id ∈ venue.spent → (∀ action ∈ later, ¬action.Replaces id) → Roomy (later.foldl act engine) →
    ∃ venue', Sim (later.foldl act engine) venue' ∧ venue.Onward id venue' := by
  induction later with
  | nil => exact fun engine venue sim _ _ _ _ => ⟨venue, sim, Venue.onwardRefl venue⟩
  | cons action later ih =>
    intro engine venue sim configured used kept roomy
    have kept' := fun action member => kept action (List.mem_cons_of_mem _ member)
    cases action with
    | configure trouble instruments =>
      have same : act engine (.configure trouble instruments) = engine := by
        rw [act, configureAgain configured]
      rw [List.foldl_cons, same] at roomy ⊢
      exact ih engine venue sim configured used kept' roomy
    | call env request =>
      have grown := callGrown env request engine
      have room :=
        (roomyBefore (actsGrown engine configured (.call env request :: later)) roomy).slots
      obtain ⟨next, outcome⟩ := callOutcome sim room env request
      have onward := onwardOutcome (simProper sim) used
        (fun r is => by subst is; exact kept (.call env (.replace r)) List.mem_cons_self) outcome
      obtain ⟨venue', sim', later'⟩ :=
        ih _ next (outcomeSim outcome) (grown.configured.trans configured)
          (onward.spent id used) kept' roomy
      exact ⟨venue', sim', Venue.onwardTrans onward later'⟩

end Waiting

theorem waitingOnlyHelps (earlier later : List Action) (id : OrderId)
    (used : (after earlier).orderIndex.contains id = true)
    (kept : ∀ action ∈ later, ¬action.Replaces id) (roomy : Roomy (after (earlier ++ later)))
    (b : Nat) (inside : b < (after earlier).books.size) (side : Side) :
    Advances id (queuedOrders (after earlier) b side)
      (queuedOrders (after (earlier ++ later)) b side) := by
  have configured : (after earlier).configured = true := by
    by_contra unconfigured
    rw [blankUntilConfigured earlier (by simpa using unconfigured)] at used
    exact Bool.false_ne_true used
  have reach : after (earlier ++ later) = later.foldl act (after earlier) := List.foldl_append
  rw [reach] at roomy ⊢
  have grown := actsGrown (after earlier) configured later
  obtain ⟨venue, sim, _⟩ := reached keptTrivial earlier (roomyBefore grown roomy)
  obtain ⟨venue', sim', onward⟩ :=
    onwardActions later _ venue sim configured (simUsed sim used) kept roomy
  rw [queuedOrdersEqVenue sim inside, queuedOrdersEqVenue sim' (by rw [grown.books]; exact inside)]
  exact onward.queues b side

theorem secondGetsForward :
    Advances 2 (queuedOrders
      (after (calmRun [⟨7, 100000, 1000⟩] [.submit ⟨1, 7, .sell, .limit, .day, 100000, 5⟩,
        .submit ⟨2, 7, .sell, .limit, .day, 100000, 4⟩])) 0 .sell)
      (queuedOrders (after (calmRun [⟨7, 100000, 1000⟩]
        [.submit ⟨1, 7, .sell, .limit, .day, 100000, 5⟩,
          .submit ⟨2, 7, .sell, .limit, .day, 100000, 4⟩] ++
        [.call .calm (.replace ⟨1, 3, 100000, 3⟩),
          .call .calm (.submit ⟨4, 7, .sell, .limit, .day, 100000, 9⟩),
          .call (throwsAt 2) (.submit ⟨5, 7, .buy, .market, .ioc, 0, 6⟩)])) 0 .sell) :=
  waitingOnlyHelps _ _ 2 (by decide +kernel) (by simp [Action.Replaces])
    (roomyOf (by decide +kernel) (by decide +kernel)) 0 (by decide +kernel) .sell

end Engine
end Xmatch
