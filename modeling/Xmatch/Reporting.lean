import Xmatch.FirmQuotes
import Xmatch.Forgetting
import Xmatch.History

/-! What a listener can rely on: the callbacks of a call follow a script, of which it hears a
beginning, and the trades of a run are numbered from one without a gap. -/
namespace Xmatch

def tradeEvents (next : Nat) (instrumentId : InstrumentId) (taker : OrderId) (side : Side) :
    List (OrderId × Int × Nat) → List Event
  | [] => []
  | (maker, price, quantity) :: fills =>
    .trade next instrumentId price quantity maker taker side ::
      tradeEvents (next + 1) instrumentId taker side fills

def filled (fills : List (OrderId × Int × Nat)) : Nat := (fills.map (fun fill => fill.2.2)).sum

/- Every trade has a quantity, no order trades twice, and prices only get worse for the
aggressor. -/
structure Orderly (side : Side) (fills : List (OrderId × Int × Nat)) : Prop where
  positive : ∀ fill ∈ fills, 0 < fill.2.2
  once : (fills.map Prod.fst).Nodup
  worse : fills.Pairwise (fun fill later => ¬side.opposite.better later.2.1 fill.2.1)

def closing (order : NewOrder) (left : Nat) : List Event :=
  if 0 < left ∧ order.tif ≠ .day then
    [.canceled order.orderId left (if order.tif = .fok then .fokUnfillable
      else if order.type = .market then .noLiquidity else .iocRemainder)]
  else []

/- All that a request can have reported, trades being numbered from `next`. -/
inductive Script (next : Nat) : Request → List Event → Prop where
  | rejected (request : Request) (reason : RejectReason) : Script next request
    [.rejected request.entering reason]
  | canceled (request : CancelOrder) (quantity : Nat) (some : 0 < quantity) :
      Script next (.cancel request) [.canceled request.orderId quantity .userRequested]
  | reduced (request : ReplaceOrder) (quantity : Nat) (some : 0 < quantity) :
      Script next (.replace request) [.canceled request.orderId quantity .userRequested]
  | worked (order : NewOrder) (fills : List (OrderId × Int × Nat))
    (orderly : Orderly order.side fills)
      (within : filled fills ≤ order.quantity.toNat) (whole : order.tif = .fok →
        filled fills = 0 ∨ filled fills = order.quantity.toNat) :
      Script next (.submit order) (.accepted order.orderId ::
        (tradeEvents next order.instrumentId order.orderId order.side fills ++
          closing order (order.quantity.toNat - filled fills)))
  | replaced (request : ReplaceOrder) (instrumentId : InstrumentId) (side : Side) (left : Nat)
    (fills : List (OrderId × Int × Nat))
      (orderly : Orderly side fills) (within : filled fills ≤ left) (some : 0 < left) :
      Script next (.replace request)
      (.replaced request.orderId request.newOrderId request.newPrice left ::
        tradeEvents next instrumentId request.newOrderId side fills)

def Event.tradeId : Event → Option Nat
  | .trade tradeId _ _ _ _ _ _ => some tradeId
  | _ => none

def tradeIds (events : List Event) : List Nat := events.filterMap Event.tradeId

theorem tradeIdsAppend (earlier later : List Event) :
    tradeIds (earlier ++ later) = tradeIds earlier ++ tradeIds later :=
  List.filterMap_append

section Numbering
variable {next : Nat} {request : Request} {events : List Event}

theorem tradeEventsIds (instrumentId : InstrumentId) (taker : OrderId) (side : Side)
    (fills : List (OrderId × Int × Nat)) :
    ∀ next, tradeIds (tradeEvents next instrumentId taker side fills) =
      List.range' next fills.length := by
  induction fills with
  | nil => exact fun _ => rfl
  | cons fill fills ih =>
    intro next
    rw [List.length_cons, List.range'_succ, ← ih (next + 1)]
    rfl

theorem scriptIds (script : Script next request events) :
    ∃ count, tradeIds events = List.range' next count := by
  cases script with
  | rejected request reason => exact ⟨0, rfl⟩
  | canceled request quantity some => exact ⟨0, rfl⟩
  | reduced request quantity some => exact ⟨0, rfl⟩
  | worked order fills orderly within whole =>
    have none : tradeIds (closing order (order.quantity.toNat - filled fills)) = [] := by
      rw [closing]
      split <;> rfl
    refine ⟨fills.length, ?_⟩
    change tradeIds (tradeEvents next order.instrumentId order.orderId order.side fills ++ _) = _
    rw [tradeIdsAppend, none, List.append_nil, tradeEventsIds]
  | replaced request instrumentId side left fills orderly within some =>
    exact ⟨fills.length, tradeEventsIds ..⟩

theorem prefixIds {whole : List Event} (script : Script next request whole)
    (starts : events <+: whole) : tradeIds events = List.range' next (tradeIds events).length := by
  obtain ⟨count, ids⟩ := scriptIds script
  have begins : tradeIds events <+: List.range' next count := ids ▸ starts.filterMap _
  have taken := List.prefix_iff_eq_take.mp begins
  have few : (tradeIds events).length ≤ count := by simpa using begins.length_le
  rw [List.take_range'_of_length_ge few] at taken
  exact taken

end Numbering

namespace Venue

section Scripts
variable {b : Nat} {instrumentId : InstrumentId} {side : Side} {limit : Option Int}
  {venue base : Venue} {request : Request}

theorem firstRejected {feasible : Feasible} {id : OrderId} {reason : RejectReason}
    (first : ((perform feasible request venue).1.head?).map (·.event) =
      some (.rejected id reason)) : id = request.entering := by
  have own : ∀ {used id' : OrderId} {reason' : RejectReason} {venue : Venue},
      ((reject id' reason' venue).1.head?).map (·.event) = some (.rejected used reason) →
      used = id' :=
    fun same => (Event.rejected.inj (Option.some.inj same)).1.symm
  cases request with
  | submit order =>
    simp only [perform, submit] at first
    repeat' split at first
    all_goals first | exact own first | exact absurd (Option.some.inj first) Event.noConfusion
  | cancel request =>
    simp only [perform, cancel] at first
    repeat' split at first
    all_goals first | exact own first | exact absurd (Option.some.inj first) Event.noConfusion
  | replace request =>
    simp only [perform, replace, replaceOrder, requeue] at first
    repeat' split at first
    all_goals first | exact own first | exact absurd (Option.some.inj first) Event.noConfusion

theorem sweepNumbered (orders : List Order) : ∀ (venue : Venue) (taker : Order),
    (sweep b instrumentId side limit orders venue taker).1.map (·.event) =
      tradeEvents venue.nextTradeId instrumentId taker.id side
      (takenIn ((sweep b instrumentId side limit orders venue taker).1.map (·.event))) := by
  induction orders with
  | nil => exact fun _ _ => rfl
  | cons maker rest ih =>
    intro venue taker
    rw [sweep]
    split
    · simp only
      split
      · have later :=
          ih (tradeStep b side maker rest venue taker).venue
            (tradeStep b side maker rest venue taker).taker
        rw [List.map_cons, takenTrade, tradeEvents]
        exact congrArg _ later
      · rfl
    · rfl

theorem sweepOrderly {orders : List Order} (sorted : Sorted side.opposite orders)
    (nodup : (orders.map (·.id)).Nodup) (left : ∀ o ∈ orders, 0 < o.openQty) (base : Venue)
    (taker : Order) :
    ∃ fills, (sweep b instrumentId side limit orders base taker).1.map (·.event) =
        tradeEvents base.nextTradeId instrumentId taker.id side fills ∧ Orderly side fills ∧
      filled fills + (sweep b instrumentId side limit orders base taker).2.taker.openQty =
        taker.openQty := by
  obtain ⟨_, taken, _⟩ := @sweepDraws b instrumentId side limit _ base taker sorted
  have events := @sweepNumbered b instrumentId side limit orders base taker
  rw [taken] at events
  have sub : ((drawnOrders taker.openQty (eligible side limit orders)).map Prod.fst).Sublist
      orders := (Drawing.drawnSublist _ _).trans List.filter_sublist
  refine ⟨_, events, ⟨?_, ?_, ?_⟩, ?_⟩
  · intro fill member
    obtain ⟨gift, given, rfl⟩ := List.mem_map.mp member
    exact Drawing.drawnPositive (fun o among => left o (List.mem_filter.mp among).1) _ gift given
  · have ids := (sub.map (·.id)).nodup nodup
    rw [List.map_map] at ids ⊢
    exact ids
  · exact List.pairwise_map.mpr (List.pairwise_map.mp (List.Pairwise.sublist sub sorted))
  · have sum := @sweepTraded b instrumentId side limit orders base taker
    rw [tradedTaken, taken] at sum
    exact sum

theorem workedScript {order : NewOrder} (proper : venue.Proper)
    (enough : order.tif = .fok →
      wrappedFill order.side (limitOf order) order.quantity.toNat
      (venue.orders b order.side.opposite) = true) :
    Script venue.nextTradeId (.submit order) ((acceptedMoment order (venue.spend order.orderId 0) ::
      (dispose b order (work b order (venue.spend order.orderId 0))).1).map (·.event)) := by
  obtain ⟨fills, events, orderly, sum⟩ :=
    @sweepOrderly b order.instrumentId order.side (limitOf order) _ (proper.sorted b _)
      (proper.nodup b _)
    (proper.left b _) (venue.spend order.orderId 0) (takerOf order)
  have left : (work b order (venue.spend order.orderId 0)).2.taker.openQty =
      order.quantity.toNat - filled fills :=
    Nat.eq_sub_of_add_eq' sum
  have whole : order.tif = .fok → filled fills = order.quantity.toNat := by
    intro fok
    have done : (work b order (venue.spend order.orderId 0)).2.taker.openQty = 0 :=
      sweepFills (proper.sorted b order.side.opposite) (wrappedExact (enough fok)) _
    have within : filled fills ≤ order.quantity.toNat := Nat.le.intro sum
    omega
  have script := @Script.worked venue.nextTradeId order fills orderly (Nat.le.intro sum)
      (fun fok => .inr (whole fok))
  have worked : (dispose b order (work b order (venue.spend order.orderId 0))).1.map (·.event) =
      tradeEvents venue.nextTradeId order.instrumentId order.orderId order.side fills ++
      closing order (order.quantity.toNat - filled fills) := by
    rw [← left]
    by_cases day : order.tif = .day
    · rw [disposeSettles _ day, closing, if_neg (fun more => more.2 day), List.append_nil]
      exact events
    · rw [disposeDrops _ day, List.map_append, closing]
      refine congrArg₂ _ events ?_
      by_cases more : 0 < (work b order (venue.spend order.orderId 0)).2.taker.openQty
      · have notFok : order.tif ≠ .fok := fun fok => by
          have done := whole fok
          omega
        have ioc : order.tif = .ioc := by
          cases tif : order.tif with
          | day => exact absurd tif day
          | ioc => rfl
          | fok => exact absurd tif notFok
        rw [if_pos more, if_pos ⟨more, day⟩, if_neg notFok, List.map_singleton, remainderReason,
          if_pos ioc]
      · rw [if_neg more, if_neg (fun both => more both.1)]
        rfl
  rw [List.map_cons, worked]
  exact script

theorem requeuedScript {old : Order} {book : Book} {request : ReplaceOrder} (proper : venue.Proper)
    (replacing : Replacing venue request b side old book) :
    Script venue.nextTradeId (.replace request)
      ((requeue request b side old (venue.spend request.newOrderId old.filledQty)).1.map
        (·.event)) := by
  have sub :=
    withdrawSubset (venue.spend request.newOrderId old.filledQty) b side old.id b side.opposite
  have same : ((venue.spend request.newOrderId old.filledQty).withdraw b side old.id).nextTradeId =
      venue.nextTradeId := rfl
  rw [requeueEqSettle, requeueSweep]
  split
  · obtain ⟨fills, events, orderly, sum⟩ := @sweepOrderly b
      (((((venue.spend request.newOrderId old.filledQty).withdraw b side old.id).books[b]?).map
        (·.instrumentId)).getD 0)
      side (some request.newPrice) _ ((proper.sorted b side.opposite).sublist sub)
      ((sub.map (·.id)).nodup (proper.nodup b side.opposite))
      (fun o member => proper.left b side.opposite o (sub.subset member))
      ((venue.spend request.newOrderId old.filledQty).withdraw b side old.id)
      (replacement request old)
    rw [List.map_cons, events]
    exact .replaced request _ side _ fills orderly (Nat.le.intro sum) replacing.positive
  · exact .replaced request 0 side _ [] ⟨by simp, by simp, by simp⟩
      (Nat.zero_le _) replacing.positive

theorem performScript (proper : venue.Proper) (request : Request) :
    Script venue.nextTradeId request ((perform wrappedFill request venue).1.map (·.event)) := by
  have rejections := @firstRejected venue request wrappedFill
  have shape := performed wrappedFill request venue
  generalize perform wrappedFill request venue = result at shape rejections ⊢
  cases shape with
  | refused request id reason =>
    rw [rejections rfl]
    exact .rejected request reason
  | spoiled order b book reason fresh flaw => exact .rejected (.submit order) reason
  | killed order b book fresh valid fok short =>
    have script := @Script.worked venue.nextTradeId order [] ⟨by simp, by simp, by simp⟩
        (Nat.zero_le _) (fun _ => .inl rfl)
    have closes : closing order (order.quantity.toNat - filled []) =
        [.canceled order.orderId order.quantity.toNat .fokUnfillable] := by
      rw [closing, if_pos ⟨validPositive valid, by rw [fok]; exact TimeInForce.noConfusion⟩,
        if_pos fok]
      rfl
    rw [closes] at script
    exact script
  | worked order b book fresh valid enough => exact workedScript proper enough
  | withdrawn request id b side old found leaves =>
    obtain ⟨_, member, same⟩ := findOpenRests found
    have some := proper.left b side old member
    cases leaves with
    | canceled request =>
      rw [cancelOrder, same]
      exact .canceled request _ some
    | reduced request nothing =>
      rw [cancelOrder, same]
      exact .reduced request _ some
  | requeued request b side old book replacing loses => exact requeuedScript proper replacing
  | amended request b side old book replacing samePrice fewer =>
    exact .replaced request book.instrumentId side _ [] ⟨by simp, by simp, by simp⟩
      (Nat.zero_le _) replacing.positive

def countTrades (moments : List Moment) : Nat := (tradeIds (moments.map (·.event))).length

theorem countAppend (earlier later : List Moment) :
    countTrades (earlier ++ later) = countTrades earlier + countTrades later := by
  rw [countTrades, List.map_append, tradeIdsAppend, List.length_append]
  rfl

structure Numbered (next : Nat) (result : List Moment × Venue) : Prop where
  ends : result.2.nextTradeId = next + countTrades result.1
  each : ∀ pre moment post, result.1 = pre ++ moment :: post →
    moment.venue.nextTradeId = next + countTrades (pre ++ [moment])

section Counting
variable {next : Nat} {moment : Moment} {moments : List Moment} {after : Venue}

theorem numberedNone (same : after.nextTradeId = next) : Numbered next ([], after) :=
  ⟨same, fun pre moment post impossible => by simp at impossible⟩

theorem numberedFirst (untraded : moment.event.tradeId = none)
    (same : moment.venue.nextTradeId = next) (rest : Numbered next (moments, after)) :
    Numbered next (moment :: moments, after) := by
  have first : countTrades [moment] = 0 := by
    rw [countTrades, List.map_singleton, tradeIds, List.filterMap_cons_none untraded]
    rfl
  have more : ∀ later, countTrades (moment :: later) = countTrades later := by
    intro later
    have split := countAppend [moment] later
    rw [first, Nat.zero_add] at split
    exact split
  refine ⟨by rw [more]; exact rest.ends, fun pre other post split => ?_⟩
  cases pre with
  | nil =>
    obtain ⟨rfl, _⟩ := List.cons.inj split
    rw [List.nil_append, first]
    exact same
  | cons _ pre =>
    obtain ⟨rfl, later⟩ := List.cons.inj split
    rw [List.cons_append, more]
    exact rest.each pre other post later

theorem numberedLast (untraded : moment.event.tradeId = none)
    (same : moment.venue.nextTradeId = after.nextTradeId) (rest : Numbered next (moments, after)) :
    Numbered next (moments ++ [moment], after) := by
  have last : countTrades [moment] = 0 := by
    rw [countTrades, List.map_singleton, tradeIds, List.filterMap_cons_none untraded]
    rfl
  refine ⟨by rw [countAppend, last]; exact rest.ends, fun pre other post split => ?_⟩
  rcases List.append_eq_append_iff.mp split with ⟨more, rfl, ends⟩ | ⟨more, inside, ends⟩
  · cases more with
    | nil =>
      obtain ⟨rfl, _⟩ := List.cons.inj ends
      rw [List.append_nil, countAppend, last, same]
      exact rest.ends
    | cons _ more => exact absurd (List.cons.inj ends).2 (by simp)
  · cases more with
    | nil =>
      obtain ⟨rfl, _⟩ := List.cons.inj ends
      rw [List.append_nil] at inside
      rw [countAppend, last, same, ← inside]
      exact rest.ends
    | cons _ more =>
      obtain ⟨rfl, _⟩ := List.cons.inj ends
      exact rest.each pre _ more inside

theorem sweepCounts (base : Venue) (taker : Order) (orders : List Order) :
    Numbered base.nextTradeId ((sweep b instrumentId side limit orders base taker).1,
      (sweep b instrumentId side limit orders base taker).2.venue) := by
  have induct := @sweepInduct b instrumentId side limit
    (fun seen venue _ _ => venue.nextTradeId = base.nextTradeId + countTrades seen)
    (fun seen venue taker maker rest counted _ _ => by
      rw [countAppend]
      change venue.nextTradeId + 1 = base.nextTradeId + (countTrades seen + 1)
      omega) orders [] base taker rfl
  refine ⟨induct.1, fun pre moment post split => ?_⟩
  obtain ⟨maker, rest, venue, left, counted, _, _, rfl⟩ := induct.2 pre moment post split
  rw [List.nil_append] at counted
  rw [countAppend]
  change venue.nextTradeId + 1 = base.nextTradeId + (countTrades pre + 1)
  omega

theorem settleNumbered {swept : Sweep} (numbered : Numbered next (moments, swept.venue)) :
    Numbered next (moments, settle b side swept) := by
  have same : (settle b side swept).nextTradeId = swept.venue.nextTradeId := by
    rw [settle]
    split <;> rfl
  exact ⟨same.trans numbered.ends, numbered.each⟩

theorem performNumbered (request : Request) :
    Numbered venue.nextTradeId (perform wrappedFill request venue) := by
  have shape := performed wrappedFill request venue
  generalize perform wrappedFill request venue = result at shape ⊢
  cases shape with
  | refused request id reason => exact numberedFirst rfl rfl (numberedNone rfl)
  | spoiled order b book reason fresh flaw => exact numberedFirst rfl rfl (numberedNone rfl)
  | killed order b book fresh valid fok short =>
    exact numberedFirst rfl rfl (numberedFirst rfl rfl (numberedNone rfl))
  | worked order b book fresh valid enough =>
    have swept := @sweepCounts b order.instrumentId order.side (limitOf order)
        (venue.spend order.orderId 0) (takerOf order)
      ((venue.spend order.orderId 0).orders b order.side.opposite)
    refine numberedFirst rfl rfl ?_
    by_cases day : order.tif = .day
    · rw [disposeSettles _ day]
      exact settleNumbered swept
    · rw [disposeDrops _ day]
      split
      · exact numberedLast rfl rfl swept
      · rw [List.append_nil]
        exact swept
  | withdrawn request id b side old found leaves => exact numberedFirst rfl rfl (numberedNone rfl)
  | requeued request b side old book replacing loses =>
    rw [requeueEqSettle]
    refine numberedFirst rfl rfl (settleNumbered ?_)
    rw [requeueSweep]
    split
    · exact sweepCounts ((venue.spend request.newOrderId old.filledQty).withdraw b side old.id) _ _
    · exact numberedNone rfl
  | amended request b side old book replacing samePrice fewer =>
    exact numberedFirst rfl rfl (numberedNone rfl)

end Counting
end Scripts
end Venue

namespace Engine
open OrderBook

/- The listener hears a beginning of a script, all of it if it returns and there is memory, and the
trades heard are counted. -/
structure HearsScript (engine : Engine) (env : Env) (request : Request) (session : Session) :
    Prop where
  script : ∃ whole, Script engine.nextTradeId.toNat request whole ∧ session.events <+: whole ∧
    (env.Quiet → env.chunk = true ∧ env.slots = true → session.events = whole)
  counted : session.engine.nextTradeId.toNat =
    engine.nextTradeId.toNat + (tradeIds session.events).length

section Hearing
variable {engine : Engine} {venue : Venue}

theorem simCounter (sim : Sim engine venue) : venue.nextTradeId = engine.nextTradeId.toNat := by
  obtain ⟨_, _, _, view⟩ := sim
  exact view.tradeId.symm

theorem callHears (sim : Sim engine venue) (room : engine.pool.size < kInvalidSlot.toNat)
    (env : Env) (request : Request) : HearsScript engine env request (call env request engine) := by
  obtain ⟨venue', outcome⟩ := callOutcome sim room env request
  have script := Venue.performScript (simProper sim) request
  have numbered := @Venue.performNumbered venue request
  rw [simCounter sim] at script numbered
  have counter := simCounter (outcomeSim outcome)
  refine ⟨⟨_, script, ?_⟩, ?_⟩
  · cases outcome with
    | completed follows _ =>
      have all : (call env request engine).events = _ := followsEvents follows
      rw [all]
      exact ⟨List.prefix_refl _, fun _ _ => rfl⟩
    | interrupted n moment throws here follows _ =>
      have heard : (call env request engine).events = _ := followsEvents follows
      refine ⟨?_, fun quiet => ?_⟩
      · rw [heard, List.map_take]
        exact List.take_prefix _ _
      · rw [quiet] at throws
        contradiction
    | starved short silent _ =>
      have none : (call env request engine).events = [] := by
        rw [Session.events, silent]
        rfl
      refine ⟨none ▸ List.nil_prefix, fun _ memory => ?_⟩
      rcases short with short | short
      · exact absurd memory.1 (by simp [short])
      · exact absurd memory.2 (by simp [short])
  · rw [← counter]
    cases outcome with
    | completed follows _ =>
      have all : (call env request engine).events = _ := followsEvents follows
      rw [all]
      exact numbered.ends
    | interrupted n moment throws here follows _ =>
      have heard : (call env request engine).events = _ := followsEvents follows
      have inside : n < (Venue.perform wrappedFill request venue).1.length :=
        (List.getElem?_eq_some_iff.mp here).1
      have last := (List.getElem?_eq_some_iff.mp here).2
      have split : (Venue.perform wrappedFill request venue).1 =
          (Venue.perform wrappedFill request venue).1.take n ++ moment ::
          (Venue.perform wrappedFill request venue).1.drop (n + 1) := by
        rw [← last, List.cons_getElem_drop_succ, List.take_append_drop]
      have upTo : (Venue.perform wrappedFill request venue).1.take n ++ [moment] =
          (Venue.perform wrappedFill request venue).1.take (n + 1) := by
        rw [List.take_add_one, here]
        rfl
      rw [heard, numbered.each _ _ _ split, upTo]
      rfl
    | starved short silent sim' =>
      have none : (call env request engine).events = [] := by
        rw [Session.events, silent]
        rfl
      rw [none]
      exact simCounter sim

end Hearing

theorem callsFollowScript (actions : List Action) (roomy : Roomy (after actions)) (env : Env)
    (request : Request) :
    HearsScript (after actions) env request (call env request (after actions)) := by
  obtain ⟨_, sim, _⟩ := reached keptTrivial actions roomy
  exact callHears sim roomy.slots env request

theorem twoTradesHeard :
    HearsScript (after (calmRun [⟨7, 100000, 1000⟩] [.submit ⟨1, 7, .sell, .limit, .day, 100000, 5⟩,
      .submit ⟨2, 7, .sell, .limit, .day, 100100, 4⟩])) (throwsAt 2)
    (.submit ⟨3, 7, .buy, .limit, .ioc, 100100, 9⟩)
    (call (throwsAt 2) (.submit ⟨3, 7, .buy, .limit, .ioc, 100100, 9⟩)
      (after (calmRun [⟨7, 100000, 1000⟩]
      [.submit ⟨1, 7, .sell, .limit, .day, 100000, 5⟩,
        .submit ⟨2, 7, .sell, .limit, .day, 100100, 4⟩]))) :=
  callsFollowScript _ (roomyOf (by decide +kernel) (by decide +kernel)) _ _

/- The trades reported over a run, with whatever exceptions and failed allocations, and the counter
after it. -/
structure GapFree (actions : List Action) : Prop where
  counter : (after actions).nextTradeId.toNat =
    1 + (tradeIds ((history actions).map Prod.snd)).length
  ids : tradeIds ((history actions).map Prod.snd) =
    List.range' 1 (tradeIds ((history actions).map Prod.snd)).length

theorem tradeIdsHaveNoGap (actions : List Action) (roomy : Roomy (after actions)) :
    GapFree actions := by
  revert roomy
  induction actions using List.reverseRecOn with
  | nil => exact fun _ => ⟨rfl, rfl⟩
  | append_singleton actions action ih =>
    intro roomy
    rw [afterNext] at roomy
    suffices gapFree : _ ∧ _ from ⟨gapFree.1, gapFree.2⟩
    rw [afterNext, historyNext, List.map_append]
    cases action with
    | configure trouble instruments =>
      rw [entriesOf, List.map_nil, List.append_nil]
      rcases actConfigure actions trouble instruments with same | ⟨list, blank, installed⟩
      · rw [same] at roomy ⊢
        exact ⟨(ih roomy).counter, (ih roomy).ids⟩
      · rw [blank] at installed
        have before : Roomy (after actions) :=
          blank ▸ roomyOf (by decide +kernel) (by decide +kernel)
        have counter : (act (after actions) (.configure trouble instruments)).nextTradeId =
            (after actions).nextTradeId := by
          rw [blank]
          exact blank ▸ installed.nextTradeId
        rw [counter]
        exact ⟨(ih before).counter, (ih before).ids⟩
    | call env request =>
      have before := roomyBefore (callGrown env request (after actions)) roomy
      obtain ⟨counter, ids⟩ := ih before
      obtain ⟨_, sim, _⟩ := reached keptTrivial actions before
      obtain ⟨⟨whole, script, starts, _⟩, counted⟩ := callHears sim before.slots env request
      have own := prefixIds script starts
      have events : ((after actions).entriesOf (.call env request)).map Prod.snd =
          (call env request (after actions)).events := by
        rw [entriesOf, List.map_map]
        exact List.map_id _
      rw [events, tradeIdsAppend, List.length_append]
      refine ⟨by rw [act, counted, counter, Nat.add_assoc], ?_⟩
      rw [← List.range'_append_1, ← ids, ← counter, ← own]

theorem thrownTradeKeepsItsNumber :
    GapFree (calmRun [⟨7, 100000, 1000⟩] [.submit ⟨1, 7, .sell, .limit, .day, 100000, 5⟩] ++
    [.call (throwsAt 1) (.submit ⟨2, 7, .buy, .limit, .day, 100000, 3⟩),
      .call .calm (.submit ⟨3, 7, .buy, .limit, .day, 100000, 3⟩)]) :=
  tradeIdsHaveNoGap _ (roomyOf (by decide +kernel) (by decide +kernel))

end Engine
end Xmatch
