import Xmatch.ClosedRecords
import Xmatch.Priority
import Xmatch.Throwing

/-! Matching makes progress: every trade but the last of a call uses up its resting order,
so there are no more trades than orders to meet, and both loops and the walk of the
fill-or-kill check end. -/
namespace Xmatch

namespace Venue

structure Done (venue : Venue) (id : OrderId) (filled : Nat) : Prop where
  gone : ∀ c s, ∀ o ∈ venue.orders c s, o.id ≠ id
  traded : venue.traded id = filled
  spent : id ∈ venue.spent

def UsesUp (id : OrderId) (moment : Moment) (later : List Moment) (final : Venue) : Prop :=
  ∃ c s, ∃ maker ∈ moment.venue.orders c s, maker.id ≠ id ∧
    (∃ tradeId instrumentId price side,
      moment.event = .trade tradeId instrumentId price maker.openQty maker.id id side) ∧
    Done final maker.id (maker.filledQty + maker.openQty) ∧
    ∀ after ∈ later, Done after.venue maker.id (maker.filledQty + maker.openQty)

def Progressing (id : OrderId) (moments : List Moment) (final : Venue) : Prop :=
  ∀ pre moment later, moments = pre ++ moment :: later → moment.event.isTrade = true →
    (∃ after ∈ later, after.event.isTrade = true) → UsesUp id moment later final

/- Before a trade of a sweep for the order `id`: the orders still to be met have traded nothing
yet. -/
structure Meeting (b : Nat) (side : Side) (base : Venue) (id : OrderId) (venue : Venue)
    (orders : List Order) : Prop
    extends Sweeping b side base venue orders where
  distinct : (orders.map (·.id)).Nodup
  apart : ∀ o ∈ orders, o.id ≠ id
  traded : ∀ o ∈ orders, venue.traded o.id = o.filledQty

section Sweeps
variable {b : Nat} {instrumentId : InstrumentId} {side : Side} {limit : Option Int}
  {base venue : Venue} {id : OrderId} {taker maker : Order} {rest : List Order}

theorem meetingStart (proper : base.Proper) (outside : ∀ c s, ∀ o ∈ base.orders c s, o.id ≠ id) :
    Meeting b side base id base (base.orders b side.opposite) where
  toSweeping := sweepingStart base b side
  distinct := proper.nodup b side.opposite
  apart := outside b side.opposite
  traded := proper.traded b side.opposite

theorem usedUpRest (closes : maker.openQty ≤ taker.openQty) :
    (tradeStep b side maker rest venue taker).opposite = rest := by
  simp only [tradeStep, closes, if_true]

theorem tradeStepTraded (other : OrderId) :
    (tradeStep b side maker rest venue taker).venue.traded other =
    venue.traded other + (if other = maker.id then min taker.openQty maker.openQty else 0) +
      if other = taker.id then min taker.openQty maker.openQty else 0 := by
  simp only [tradeStep, bump, putSide]
  split <;> split <;> simp

theorem meetingOther (meeting : Meeting b side base id venue (maker :: rest)) :
    ∀ o ∈ rest, o.id ≠ maker.id := by
  have first := (List.nodup_cons.mp meeting.distinct).1
  rintro o member same
  exact first (List.mem_map.mpr ⟨o, member, same⟩)

theorem meetingStep (meeting : Meeting b side base id venue (maker :: rest)) (named : taker.id = id)
    (closes : maker.openQty ≤ taker.openQty) :
    Meeting b side base id (tradeStep b side maker rest venue taker).venue rest where
  toSweeping := by
    have sweeping : Sweeping b side base (tradeStep b side maker rest venue taker).venue
        (tradeStep b side maker rest venue taker).opposite := sweepingStep meeting.toSweeping
    rwa [usedUpRest closes] at sweeping
  distinct := (List.nodup_cons.mp meeting.distinct).2
  apart o member := meeting.apart o (List.mem_cons_of_mem _ member)
  traded o member := by
    have other := meetingOther meeting o member
    have apart : o.id ≠ taker.id := named ▸ meeting.apart o (List.mem_cons_of_mem _ member)
    rw [tradeStepTraded, if_neg other, if_neg apart]
    exact meeting.traded o (List.mem_cons_of_mem _ member)

theorem meetingGone (proper : base.Proper) (meeting : Meeting b side base id venue (maker :: rest))
    {next : Venue} (sweeping : Sweeping b side base next rest) :
    ∀ c s, ∀ o ∈ next.orders c s, o.id ≠ maker.id := by
  obtain ⟨met, rests, sameId, _⟩ := keyMember meeting.suffix List.mem_cons_self
  intro c s o member same
  by_cases there : c = b ∧ s = side.opposite
  · obtain ⟨rfl, rfl⟩ := there
    rw [sweeping.here] at member
    exact meetingOther meeting o member same
  · rw [sweeping.others c s there] at member
    exact there (proper.once c b s side.opposite o member met rests (same.trans sameId.symm))

theorem meetingDone (proper : base.Proper) (meeting : Meeting b side base id venue (maker :: rest))
    (named : taker.id = id) (closes : maker.openQty ≤ taker.openQty) :
    Done (tradeStep b side maker rest venue taker).venue maker.id
      (maker.filledQty + maker.openQty) where
  gone := meetingGone proper meeting (meetingStep meeting named closes).toSweeping
  traded := by
    have apart : maker.id ≠ taker.id := named ▸ meeting.apart maker List.mem_cons_self
    rw [tradeStepTraded, if_pos rfl, if_neg apart, Nat.min_eq_right closes,
      meeting.traded maker List.mem_cons_self, Nat.add_zero]
  spent := by
    obtain ⟨met, rests, sameId, _⟩ := keyMember meeting.suffix List.mem_cons_self
    rw [(meetingStep meeting named closes).spent, ← sameId]
    exact proper.known b side.opposite met rests

theorem doneSweep {done : OrderId} {filled : Nat} (is : Done base done filled)
    (apart : taker.id ≠ done) :
    Done (sweep b instrumentId side limit (base.orders b side.opposite) base
      taker).2.venue done filled ∧
      ∀ after ∈ (sweep b instrumentId side limit (base.orders b side.opposite) base taker).1,
        Done after.venue done filled := by
  have swept := @sweepInduct b instrumentId side limit
    (fun _ venue left orders => Sweeping b side base venue orders ∧ left.id = taker.id ∧
      Done venue done filled)
    (fun _ venue left maker rest ⟨sweeping, named, before⟩ _ _ => by
      have next : Sweeping b side base (tradeStep b side maker rest venue left).venue
          (tradeStep b side maker rest venue left).opposite :=
        sweepingStep sweeping
      have met : done ≠ maker.id := fun same => before.gone b side.opposite maker
        (by rw [sweeping.here]; exact List.mem_cons_self) same.symm
      refine ⟨next, named, fun c s o member => ?_, ?_, ?_⟩
      · obtain ⟨o', rests, same, _⟩ := sweepingWithin next c s o member
        rw [← same]
        exact is.gone c s o' rests
      · rw [tradeStepTraded, if_neg met, if_neg (fun same => apart (named.symm.trans same.symm))]
        exact before.traded
      · rw [next.spent]
        exact is.spent)
    (base.orders b side.opposite) [] base taker ⟨sweepingStart base b side, rfl, is⟩
  refine ⟨swept.1.2.2, fun after member => ?_⟩
  obtain ⟨pre, post, split⟩ := List.append_of_mem member
  obtain ⟨maker, rest, venue, left, ⟨_, _, before⟩, _, _, trade⟩ := swept.2 pre after post split
  rw [trade]
  exact ⟨before.gone, before.traded, before.spent⟩

/- By induction on the orders to be met: a trade that is not the last one is the whole of its
resting order. -/
theorem sweepUsesUp (proper : base.Proper) :
    ∀ (orders : List Order) (venue : Venue) (taker : Order) (pre : List Moment)
    (moment : Moment) (later : List Moment), Meeting b side base taker.id venue orders →
    (sweep b instrumentId side limit orders venue taker).1 = pre ++ moment :: later → later ≠ [] →
    UsesUp taker.id moment later (sweep b instrumentId side limit orders venue taker).2.venue := by
  intro orders
  induction orders with
  | nil => intro venue taker pre moment later _ split; simp [sweep] at split
  | cons maker rest ih =>
    intro venue taker pre moment later meeting split more
    by_cases goesOn : 0 < taker.openQty ∧ side.accepts limit maker.price = true
    · by_cases closes : maker.openQty ≤ taker.openQty
      · simp only [sweep, goesOn, and_self, if_true, closes] at split ⊢
        have next := meetingStep meeting rfl closes
        cases pre with
        | nil =>
          obtain ⟨rfl, rfl⟩ := List.cons.inj split
          have done := meetingDone proper meeting rfl closes
          have after :=
            @doneSweep b instrumentId side limit (tradeStep b side maker rest venue taker).venue
            (tradeStep b side maker rest venue taker).taker maker.id _ done
            (meeting.apart maker List.mem_cons_self).symm
          rw [next.here] at after
          refine ⟨b, side.opposite, maker, ?_, meeting.apart maker List.mem_cons_self,
            ⟨venue.nextTradeId, instrumentId, maker.price, side, ?_⟩, after⟩
          · change maker ∈ venue.orders b side.opposite
            rw [meeting.here]
            exact List.mem_cons_self
          · rw [tradeMoment, Nat.min_eq_right closes]
        | cons head pre =>
          exact ih _ (tradeStep b side maker rest venue taker).taker pre moment later next
            (List.cons.inj split).2 more
      · simp only [sweep, goesOn, and_self, if_true, closes, if_false] at split
        cases pre with
        | nil => exact absurd (List.cons.inj split).2.symm more
        | cons head pre => simp at split
    · simp [sweep, goesOn] at split

theorem sweepProgressing (proper : base.Proper)
    (outside : ∀ c s, ∀ o ∈ base.orders c s, o.id ≠ taker.id) :
    Progressing taker.id (sweep b instrumentId side limit
      (base.orders b side.opposite) base taker).1
      (sweep b instrumentId side limit (base.orders b side.opposite) base taker).2.venue := by
  rintro pre moment later split _ ⟨after, member, _⟩
  exact sweepUsesUp proper _ base taker pre moment later (meetingStart proper outside)
    split (List.ne_nil_of_mem member)

end Sweeps

section Requests
variable {venue final last : Venue} {moments : List Moment} {first : Moment} {request : Request}
  {b : Nat} {side : Side} {id : OrderId} {order : Order}

theorem silentProgressing (silent : ∀ moment ∈ moments, moment.event.isTrade = false)
    (final : Venue) : Progressing id moments final := by
  rintro pre moment later rfl trade _
  rw [silent moment (by simp)] at trade
  contradiction

theorem progressingAfter (silent : first.event.isTrade = false)
    (progressing : Progressing id moments final) : Progressing id (first :: moments) final := by
  intro pre moment later split trade more
  cases pre with
  | nil =>
    obtain ⟨rfl, _⟩ := List.cons.inj split
    exact absurd trade (by rw [silent]; decide)
  | cons head pre => exact progressing pre moment later (List.cons.inj split).2 trade more

theorem progressingThen (silent : first.event.isTrade = false) (seen : first.venue = final)
    (progressing : Progressing id moments final) : Progressing id (moments ++ [first]) final := by
  rintro pre moment later split trade ⟨after, member, trades⟩
  rcases List.eq_nil_or_concat' later with rfl | ⟨between, last, rfl⟩
  · contradiction
  · rw [← List.cons_append, ← List.append_assoc] at split
    obtain ⟨same, one⟩ := List.append_inj' split rfl
    obtain rfl := List.singleton_inj.mp one
    have inside : after ∈ between := by
      rcases List.mem_append.mp member with before | is
      · exact before
      · rw [List.mem_singleton.mp is, silent] at trades
        contradiction
    obtain ⟨c, s, maker, rests, apart, event, done, afterwards⟩ :=
      progressing pre moment between same trade ⟨after, inside, trades⟩
    refine ⟨c, s, maker, rests, apart, event, done, fun next listed => ?_⟩
    rcases List.mem_append.mp listed with before | is
    · exact afterwards next before
    · rw [List.mem_singleton.mp is, seen]
      exact done

theorem progressingRest (progressing : Progressing order.id moments final) :
    Progressing order.id moments
      (final.putSide b side (enqueue side order (final.orders b side))) := by
  intro pre moment later split trade more
  obtain ⟨c, s, maker, rests, apart, event, done, afterwards⟩ :=
    progressing pre moment later split trade more
  refine ⟨c, s, maker, rests, apart, event, ⟨fun d t o member => ?_, done.traded, done.spent⟩,
    afterwards⟩
  rw [ordersPutSide] at member
  split at member
  · rcases memEnqueue.mp member with rfl | before
    · exact apart.symm
    · exact done.gone _ _ o before
  · exact done.gone d t o member

theorem disposeProgressing {swept : List Moment × Sweep} (order : NewOrder)
    (named : swept.2.taker.id = id) (progressing : Progressing id swept.1 swept.2.venue) :
    Progressing id (dispose b order swept).1 (dispose b order swept).2 := by
  subst named
  simp only [dispose]
  by_cases left : 0 < swept.2.taker.openQty
  · by_cases day : order.tif = .day
    · simp only [left, day, if_true]
      exact progressingRest progressing
    · simp only [left, day, if_true, if_false]
      exact progressingThen rfl rfl progressing
  · simp only [left, if_false]
    exact progressing

theorem settleProgressing {swept : List Moment × Sweep} (named : swept.2.taker.id = id)
    (progressing : Progressing id swept.1 swept.2.venue) :
    Progressing id swept.1 (settle b side swept.2) := by
  subst named
  unfold settle
  split
  · exact progressingRest progressing
  · exact progressing

theorem performProgressing (request : Request) (proper : venue.Proper) :
    Progressing request.entering (perform wrappedFill request venue).1
      (perform wrappedFill request venue).2 := by
  have shape := performed wrappedFill request venue
  generalize perform wrappedFill request venue = result at shape
  cases shape with
  | refused request id reason => exact silentProgressing (by simp [reject, Event.isTrade]) _
  | spoiled order b book reason fresh flaw =>
    exact silentProgressing (by simp [reject, Event.isTrade]) _
  | killed order b book fresh valid fok short =>
    exact silentProgressing (by simp [acceptedMoment, Event.isTrade]) _
  | worked order b book fresh valid enough =>
    have outside := unusedOutside proper fresh.unused
    have swept : Progressing order.orderId (work b order (venue.spend order.orderId 0)).1
        (work b order (venue.spend order.orderId 0)).2.venue :=
      @sweepProgressing b order.instrumentId order.side (limitOf order)
        (venue.spend order.orderId 0) (takerOf order) (spendProper proper outside) outside
    exact progressingAfter rfl (disposeProgressing order (sweepTaker _ _ (takerOf order)).1 swept)
  | withdrawn request id b side old found leaves =>
    exact silentProgressing (by simp [cancelOrder, Event.isTrade]) _
  | requeued request b side old book replacing loses =>
    rw [requeueEqSettle]
    refine progressingAfter rfl (settleProgressing (requeueSweeping request b side old _).2.1 ?_)
    have outside := replacedOutside proper replacing
    unfold requeueSweep
    split
    · have start : ((venue.spend request.newOrderId old.filledQty).withdraw b side old.id).Proper :=
        spendProper (withdrawProper proper b side old.id) outside
      exact sweepProgressing start outside
    · exact silentProgressing (by simp) _
  | amended request b side old book replacing samePrice fewer =>
    exact silentProgressing (by simp [replacedMoment, Event.isTrade]) _

def opposing (venue : Venue) : Request → List Order
  | .submit order =>
    match venue.books.findIdx? (fun book => book.instrumentId = order.instrumentId) with
    | none => []
    | some b => eligible order.side (limitOf order) (venue.orders b order.side.opposite)
  | .cancel _ => []
  | .replace request => match venue.findOpen request.orderId with
    | none => []
    | some (b, side, _) => eligible side (some request.newPrice) (venue.orders b side.opposite)

theorem countAfter (silent : first.event.isTrade = false) :
    ((first :: moments).filter (·.event.isTrade)).length =
      (moments.filter (·.event.isTrade)).length := by
  rw [List.filter_cons, silent, if_neg Bool.false_ne_true]

theorem disposeCount (b : Nat) (order : NewOrder) (swept : List Moment × Sweep) :
    ((dispose b order swept).1.filter (·.event.isTrade)).length ≤ swept.1.length := by
  have all := List.length_filter_le (·.event.isTrade) swept.1
  simp only [dispose]
  split
  · split
    · exact all
    · simpa [Event.isTrade] using all
  · exact all

theorem performCount (request : Request) (proper : venue.Proper) :
    ((perform wrappedFill request venue).1.filter (·.event.isTrade)).length ≤
      (opposing venue request).length := by
  have shape := performed wrappedFill request venue
  generalize perform wrappedFill request venue = result at shape
  cases shape with
  | refused request id reason => simp [reject, Event.isTrade]
  | spoiled order b book reason fresh flaw => simp [reject, Event.isTrade]
  | killed order b book fresh valid fok short => simp [acceptedMoment, Event.isTrade]
  | worked order b book fresh valid enough =>
    simp only [opposing, fresh.index]
    rw [countAfter rfl]
    exact (disposeCount b order _).trans
      (sweepCount _ _ (takerOf order) (proper.sorted b order.side.opposite)).1
  | withdrawn request id b side old found leaves => simp [cancelOrder, Event.isTrade]
  | requeued request b side old book replacing loses =>
    simp only [opposing, replacing.found]
    rw [requeueEqSettle, countAfter rfl]
    unfold requeueSweep
    split
    · have opposite : ((venue.spend request.newOrderId old.filledQty).withdraw b side old.id).orders
          b side.opposite =
          venue.orders b side.opposite := by
        rw [withdraw, ordersPutSide, if_neg (fun h => Side.oppositeNe side h.2.1)]
        rfl
      rw [opposite]
      exact (List.length_filter_le _ _).trans (sweepCount _ _ _ (proper.sorted b side.opposite)).1
    · simp
  | amended request b side old book replacing samePrice fewer =>
    simp [replacedMoment, Event.isTrade]

end Requests

end Venue

namespace Engine
open OrderBook LevelBitset Effect

def opposing (engine : Engine) : Request → List Order
  | .submit order => eligibleResting engine order
  | .cancel _ => []
  | .replace request => match engine.findOpen request.orderId with
    | none => []
    | some slot => eligible (engine.pool.get slot).side (some request.newPrice)
        (restingOrders engine (engine.pool.get slot).instrumentId
          (engine.pool.get slot).side.opposite)

structure Closed (engine : Engine) (id : OrderId) (filled : Nat) : Prop where
  unlinked : ∀ slot ∈ bookedSlots engine, (engine.pool.get slot).id ≠ id
  record : ∃ slot, engine.orderIndex.find id = some slot ∧ (engine.pool.get slot).id = id ∧
    (engine.pool.get slot).isOpen = false ∧ (engine.pool.get slot).filledQty.toNat = filled

def FillsAndUnlinks (callback : Callback) (later : List Callback) (final : Engine) : Prop :=
  match callback.event with
  | .trade _ _ _ qty resting _ _ =>
    ∃ slot ∈ bookedSlots callback.seen, (callback.seen.pool.get slot).id = resting ∧
      (callback.seen.pool.get slot).openQty.toNat = qty ∧
      Closed final resting ((callback.seen.pool.get slot).filledQty.toNat + qty) ∧
      ∀ after ∈ later, Closed after.seen resting
      ((callback.seen.pool.get slot).filledQty.toNat + qty)
  | _ => True

def visitLevels (book : OrderBook) (side : Side) (isMarket : Bool) (limitPrice : Int)
    (needed : Quantity) :
    Nat → Int → Quantity → List Nat × Option Bool
  | 0, _, _ => ([], none)
  | fuel + 1, idx, available =>
    if 0 ≤ idx then
      let restingPrice := book.indexToPrice (UInt32.ofInt idx)
      if !isMarket && !crosses side limitPrice restingPrice then
        ([idx.toNat], some (decide (needed ≤ available)))
      else
        let available := available + (book.levelAt side.opposite (UInt32.ofInt idx)).totalQty
        if needed ≤ available then ([idx.toNat], some true)
        else
          let next :=
            visitLevels book side isMarket limitPrice needed fuel
              (book.nextIndex side.opposite idx) available
          (idx.toNat :: next.1, next.2)
    else ([], some (decide (needed ≤ available)))

def visitedLevels (book : OrderBook) (side : Side) (isMarket : Bool) (limitPrice : Int)
    (needed : Quantity) : List Nat × Option Bool :=
  if !book.hasBest side.opposite then ([], some false)
  else visitLevels book side isMarket limitPrice needed (book.ladder.size.toNat + 1)
    (book.bestIndex side.opposite) 0

/- The check ends, and on its way it looks at occupied levels of the opposite side, each at most
once and at ever worse prices. -/
structure WalksOnce (engine : Engine) (b : Nat) (side : Side) (isMarket : Bool) (limitPrice : Int)
    (needed : Quantity) :
    Prop where
  answers : (visitedLevels (engine.books.read b) side isMarket limitPrice needed).2 =
    canFullyFill (engine.books.read b) side isMarket limitPrice needed
  ends : canFullyFill (engine.books.read b) side isMarket limitPrice needed ≠ none
  occupied : ∀ i ∈ (visitedLevels (engine.books.read b) side isMarket limitPrice needed).1,
    i < (engine.books.read b).levelCount ∧ levelSlots engine b side.opposite i ≠ []
  worsening : (visitedLevels (engine.books.read b) side isMarket limitPrice needed).1.Pairwise
    (fun i j =>
    side.opposite.better ((engine.books.read b).indexToPrice (UInt32.ofNat i))
      ((engine.books.read b).indexToPrice (UInt32.ofNat j)))
  once : (visitedLevels (engine.books.read b) side isMarket limitPrice needed).1.Nodup

def Returned (env : Env) (request : Request) (engine : Engine) : Prop :=
  (perform env request).run.run { engine := engine } = (.ok (), call env request engine) ∨
    (perform env request).run.run { engine := engine } = (.error .memory, call env request engine) ∧
      (env.chunk = false ∨ env.slots = false) ∧ (call env request engine).log = []

structure CallProgresses (env : Env) (request : Request) (engine : Engine) : Prop where
  ends : Returned env request engine
  positive : ∀ callback ∈ (call env request engine).log,
    ∀ tradeId instrumentId price qty resting aggressive side,
    callback.event = .trade tradeId instrumentId price qty resting aggressive side → 0 < qty
  fills : ∀ before callback later, (call env request engine).log = before ++ callback :: later →
    (∃ after ∈ later, after.event.isTrade = true) →
    FillsAndUnlinks callback later (call env request engine).engine
  count : ((call env request engine).events.filter Event.isTrade).length ≤
    (opposing engine request).length
  walks : ∀ b < engine.books.size, ∀ side isMarket limitPrice needed,
    WalksOnce engine b side isMarket limitPrice needed
  walksSeen : ∀ callback ∈ (call env request engine).log, ∀ b < callback.seen.books.size,
    ∀ side isMarket limitPrice needed,
    WalksOnce callback.seen b side isMarket limitPrice needed

section Walk
variable {pool : OrderPool} {book : OrderBook} {queues : Queues} {side : Side} {limitPrice : Int}
  {isMarket : Bool} {needed : Quantity}

theorem visitAnswers (book : OrderBook) (side : Side) (isMarket : Bool) (limitPrice : Int)
    (needed : Quantity) (fuel : Nat) :
    ∀ idx available, (visitLevels book side isMarket limitPrice needed fuel idx available).2 =
      sumLevels book side isMarket limitPrice needed fuel idx available := by
  induction fuel with
  | zero => intro idx available; rfl
  | succ fuel ih =>
    intro idx available
    simp only [visitLevels, sumLevels]
    split
    · split
      · rfl
      · split
        · rfl
        · exact ih _ _
    · rfl

structure Visits (queues : Queues) (side : Side) (todo : List Nat)
    (visited : List Nat × Option Bool) : Prop where
  ends : visited.2 ≠ none
  occupied : ∀ level ∈ visited.1, level ∈ todo ∧ queues side.opposite level ≠ []
  ahead : visited.1.Pairwise side.opposite.ahead

theorem visitsNone (todo : List Nat) (answer : Bool) : Visits queues side todo ([], some answer) :=
  ⟨Option.some_ne_none _, by simp, .nil⟩

theorem visitsOne {todo : List Nat} {level : Nat} (answer : Bool) (listed : level ∈ todo)
    (occupied : queues side.opposite level ≠ []) : Visits queues side todo ([level], some answer) :=
  ⟨Option.some_ne_none _, by simp [listed, occupied], List.pairwise_singleton ..⟩

/- By induction on the rounds left: each looks at the first occupied level of those still ahead. -/
theorem visitLevelsVisits (fitted : Fitted book) (shape : Shape pool book queues) (fuel : Nat) :
    ∀ (done todo : List Nat) (idx : Int) (available : Quantity),
      levelOrder side.opposite book.levelCount = done ++ todo →
      Nearest (fun l => l ∈ todo ∧ queues side.opposite l ≠ []) side.opposite.ahead idx →
      todo.length < fuel →
      Visits queues side todo
        (visitLevels book side isMarket limitPrice needed fuel idx available) := by
  induction fuel with
  | zero => intro done todo idx available _ _ few; omega
  | succ fuel ih =>
    intro done todo idx available split nearest few
    rw [visitLevels]
    by_cases real : 0 ≤ idx
    · obtain ⟨level, rfl⟩ := Int.eq_ofNat_of_zero_le real
      obtain ⟨⟨listed, occupied⟩, _⟩ := nearest.some level rfl
      simp only [real, if_true, Int.toNat_natCast]
      split
      · exact visitsOne _ listed occupied
      · split
        · exact visitsOne _ listed occupied
        · obtain ⟨front, back, rfl⟩ := List.append_of_mem listed
          have later := laterNearest fitted shape split
          have rest :=
            ih (done ++ (front ++ [level])) back _
              (available + (book.levelAt side.opposite (UInt32.ofInt level)).totalQty)
            (by rw [split]; simp) later
            (by simp only [List.length_append, List.length_cons] at few; omega)
          have ahead := levelOrderAhead side.opposite book.levelCount
          rw [split, List.pairwise_append, List.pairwise_append, List.pairwise_cons] at ahead
          refine ⟨rest.ends, fun l member => ?_,
            List.pairwise_cons.mpr ⟨fun l further => ?_, rest.ahead⟩⟩
          · rcases List.mem_cons.mp member with rfl | further
            · exact ⟨listed, occupied⟩
            · exact ⟨by simp [(rest.occupied l further).1], (rest.occupied l further).2⟩
          · exact ahead.2.1.2.1.1 l (rest.occupied l further).1
    · simp only [real, if_false]
      exact visitsNone todo _

theorem visitedVisits (fitted : Fitted book) (shape : Shape pool book queues) :
    Visits queues side (levelOrder side.opposite book.levelCount)
      (visitedLevels book side isMarket limitPrice needed) := by
  unfold visitedLevels
  split
  · exact visitsNone _ _
  · refine visitLevelsVisits fitted shape _ [] _ _ _ rfl (bestNearest shape side.opposite) ?_
    rw [levelOrderLength]
    exact Nat.lt_succ_self _

end Walk

section Calls
variable {engine : Engine} {venue : Venue} {request : Request} {id : OrderId} {filled : Nat}
  {b : Nat} {side : Side}

theorem bookedOrder (sim : Sim engine venue) {slot : Slot} (booked : slot ∈ bookedSlots engine) :
    ∃ b side, viewOrder engine.pool slot ∈ venue.orders b side := by
  obtain ⟨queues, rep, _, view⟩ := sim
  obtain ⟨used, isOpen⟩ := List.mem_filter.mp ((bookedPerm rep).mem_iff.mp booked)
  obtain ⟨b, inside, side, level, queued⟩ :=
    rep.housed slot ((memSlotsUsed rep.narrow).mp used) isOpen
  exact ⟨b, side, (orderSlot rep view).mpr ⟨inside, level, slot, queued, rfl⟩⟩

theorem orderBooked (sim : Sim engine venue) {order : Order} (rests : order ∈ venue.orders b side) :
    ∃ slot ∈ bookedSlots engine, order = viewOrder engine.pool slot := by
  obtain ⟨queues, rep, _, view⟩ := sim
  obtain ⟨inside, level, slot, queued, is⟩ := (orderSlot rep view).mp rests
  have home := (rep.shape b inside).home side level slot queued
  exact ⟨slot, (bookedPerm rep).mem_iff.mpr
    (List.mem_filter.mpr ⟨(memSlotsUsed rep.narrow).mpr home.inside, home.isOpen⟩), is⟩

theorem doneClosed (sim : Sim engine venue) (done : venue.Done id filled) :
    Closed engine id filled := by
  refine ⟨fun slot booked same => ?_, ?_⟩
  · obtain ⟨b, side, rests⟩ := bookedOrder sim booked
    exact done.gone b side _ rests same
  · have start := sim
    obtain ⟨queues, rep, _, view⟩ := sim
    obtain ⟨slot, indexed⟩ := (view.spent id).mp done.spent
    obtain ⟨inside, named⟩ := rep.found id slot indexed
    refine ⟨slot, indexed, named, Bool.eq_false_iff.mpr (fun isOpen => ?_),
      (view.traded id slot indexed).trans done.traded⟩
    obtain ⟨b, inBooks, side, level, queued⟩ := rep.housed slot inside isOpen
    exact done.gone b side _ ((orderSlot rep view).mpr ⟨inBooks, level, slot, queued, rfl⟩) named

theorem usesUpFills {callback : Callback} {moment : Moment} {later : List Callback}
    {post : List Moment} {final : Engine} (follows : Follows callback moment)
    (after : List.Forall₂ Follows later post) (sim : Sim final venue)
    (uses : Venue.UsesUp id moment post venue) : FillsAndUnlinks callback later final := by
  obtain ⟨c, s, maker, rests, _, ⟨tradeId, instrumentId, price, side, is⟩, done, afterwards⟩ := uses
  obtain ⟨slot, booked, rfl⟩ := orderBooked follows.sim rests
  rw [FillsAndUnlinks, follows.event, is]
  refine ⟨slot, booked, rfl, rfl, doneClosed sim done, fun next member => ?_⟩
  obtain ⟨shown, inPost, shows⟩ := followsSome after next member
  exact doneClosed shows.sim (afterwards shown inPost)

theorem opposingLength (sim : Sim engine venue) (request : Request) :
    (opposing engine request).length = (Venue.opposing venue request).length := by
  cases request with
  | submit order =>
    simp only [opposing, Venue.opposing, simBook sim, eligibleResting]
    cases found : engine.findBook order.instrumentId with
    | none =>
      obtain ⟨queues, rep, _, _⟩ := sim
      simp [restingOrders, restingNone rep found, eligible]
    | some b => exact ((simPerm sim found order.side.opposite).filter _).length_eq
  | cancel request => rfl
  | replace request =>
    simp only [opposing, Venue.opposing]
    cases found : engine.findOpen request.orderId with
    | none =>
      obtain ⟨queues, rep, _, view⟩ := sim
      rw [venueFindNone rep view (findOpenNone rep found)]
    | some slot =>
      obtain ⟨b, book, place⟩ := located sim found
      have index := place.index
      rw [simBook sim, place.instrument] at index
      simp only [place.found]
      exact ((simPerm sim index _).filter _).length_eq

theorem simWalks (sim : Sim engine venue) (inside : b < engine.books.size) (side : Side)
    (isMarket : Bool) (limitPrice : Int) (needed : Quantity) :
    WalksOnce engine b side isMarket limitPrice needed := by
  obtain ⟨queues, rep, _, _⟩ := sim
  have fitted := rep.fitted b inside
  have visits :=
    @visitedVisits engine.pool (engine.books.read b) (queues b) side limitPrice isMarket needed
      fitted (rep.shape b inside)
  have bounded : ∀ i ∈ (visitedLevels (engine.books.read b) side isMarket limitPrice needed).1,
      i < (engine.books.read b).levelCount :=
    fun i member => memLevelOrder.mp (visits.occupied i member).1
  have answers : (visitedLevels (engine.books.read b) side isMarket limitPrice needed).2 =
      canFullyFill (engine.books.read b) side isMarket limitPrice needed := by
    unfold visitedLevels canFullyFill
    split
    · rfl
    · exact visitAnswers ..
  refine ⟨answers, answers ▸ visits.ends, fun i member => ⟨bounded i member, ?_⟩, ?_, ?_⟩
  · rw [levelSlotsEqQueue rep inside (bounded i member)]
    exact (visits.occupied i member).2
  · exact visits.ahead.imp_of_mem (fun here there ahead =>
      aheadBetter fitted (bounded _ here) (bounded _ there) ahead)
  · refine visits.ahead.imp (fun {i j} ahead same => ?_)
    rw [same] at ahead
    exact Side.aheadIrrefl _ _ ahead

theorem callReturns (sim : Sim engine venue) (room : engine.pool.size < kInvalidSlot.toNat)
    {env : Env} (quiet : env.Quiet) (request : Request) : Returned env request engine := by
  have refines := @performRefines env { engine := engine } venue sim room request
  unfold Refines wp at refines
  unfold Returned call
  cases ran : (perform env request).run.run { engine := engine } with
  | mk outcome session =>
    rw [ran] at refines
    cases outcome with
    | ok _ => exact .inl rfl
    | error why =>
      rcases refines with ⟨_, throws, _⟩ | ⟨rfl, short, log, _⟩
      · rw [quiet session.events] at throws
        contradiction
      · exact .inr ⟨rfl, short, log⟩

theorem callProgresses (sim : Sim engine venue) (room : engine.pool.size < kInvalidSlot.toNat)
    {env : Env} (quiet : env.Quiet) (request : Request) : CallProgresses env request engine := by
  have proper := simProper sim
  obtain ⟨venue', outcome⟩ := callOutcome sim room env request
  refine ⟨callReturns sim room quiet request,
    fun callback member tradeId instrumentId price qty resting aggressive side trade => ?_,
    fun before callback later split more => ?_, ?_, fun b inside => simWalks sim inside,
    fun callback member b inside => ?_⟩
  · obtain ⟨moment, inMoments, follows⟩ := outcomeSeen outcome callback member
    have is : moment.event.isTrade = true := by
      rw [← follows.event, trade]
      rfl
    obtain ⟨b, book, side, maker, rest, next, taker, trading⟩ :=
      Venue.performTrades request proper moment inMoments is
    have fits := callbackFits follows trading
    rw [TradeFits, trade] at fits
    exact fits.1
  · rcases quietOutcome quiet outcome with ⟨follows, rfl⟩ | ⟨_, silent, _⟩
    · rw [split] at follows
      obtain ⟨pre, moment, post, moments, shows, after⟩ := followsSplit follows
      by_cases trade : moment.event.isTrade = true
      · obtain ⟨next, inLater, is⟩ := more
        obtain ⟨shown, inPost, seen⟩ := followsSome after next inLater
        rw [seen.event] at is
        exact usesUpFills shows after (outcomeSim outcome)
          (Venue.performProgressing request proper pre moment post moments trade
            ⟨shown, inPost, is⟩)
      · rw [FillsAndUnlinks, shows.event]
        split
        · rename_i is
          rw [is] at trade
          exact absurd rfl trade
        · trivial
    · rw [silent] at split
      simp at split
  · rcases quietOutcome quiet outcome with ⟨follows, rfl⟩ | ⟨_, silent, _⟩
    · have events : (call env request engine).events =
          (Venue.perform wrappedFill request venue).1.map (·.event) := followsEvents follows
      rw [events, List.filter_map, List.length_map, opposingLength sim request]
      exact Venue.performCount request proper
    · rw [Session.events, silent]
      exact Nat.zero_le _
  · obtain ⟨moment, _, follows⟩ := outcomeSeen outcome callback member
    exact simWalks follows.sim inside

end Calls

theorem sweepsMakeProgress (actions : List Action) (roomy : Roomy (after actions)) (env : Env)
    (quiet : env.Quiet) (request : Request) : CallProgresses env request (after actions) := by
  obtain ⟨venue, sim, _⟩ := reached keptTrivial actions roomy
  exact callProgresses sim roomy.slots quiet request

theorem buyOfSixProgresses :
    CallProgresses .calm (.submit ⟨3, 7, .buy, .limit, .ioc, 100200, 6⟩)
      (after (calmRun [⟨7, 100000, 1000⟩] [.submit ⟨1, 7, .sell, .limit, .day, 100100, 5⟩,
        .submit ⟨2, 7, .sell, .limit, .day, 100200, 5⟩])) :=
  sweepsMakeProgress _ (roomyOf (by decide +kernel) (by decide +kernel)) .calm calmQuiet _

end Engine
end Xmatch
