import Xmatch.Bounds
import Xmatch.Conservation
import Xmatch.Crowding

/-! A market order is a limit order at the far edge of the band: the checks and the crossing
tests that it skips are met there by every price that can rest. -/
namespace Xmatch

def Event.relabel (reason : CancelReason) : Event → Event
  | .canceled id qty .noLiquidity => .canceled id qty reason
  | event => event

namespace Engine
open OrderBook Effect

def Callback.relabel (reason : CancelReason) (callback : Callback) : Callback :=
  { callback with event := callback.event.relabel reason }

def atEdge (book : OrderBook) (order : NewOrder) : NewOrder :=
  { order with type := .limit, price := book.edge order.side }

section Edges
variable {base : Engine} {allowed : Event → Prop} {env : Env} {b : Nat}
  {instrumentId : InstrumentId} {slot : Slot} {side : Side} {s : Session} {book book' : OrderBook}
  {order : NewOrder} {reason : CancelReason}

/- Every level that can be met is at a price that an order at the edge takes. -/
theorem sumLevelsEdge (fitted : Fitted book) (ranged : Ranged book) (price : Int)
    (needed : Quantity) (fuel : Nat) :
    ∀ (idx : Int) (available : Quantity), idx < (book.levelCount : Int) →
      sumLevels book side false (book.edge side) needed fuel idx available =
        sumLevels book side true price needed fuel idx available := by
  induction fuel with
  | zero => exact fun idx available _ => rfl
  | succ fuel ih =>
    intro idx available inside
    rw [sumLevels, sumLevels]
    by_cases found : 0 ≤ idx
    · have crosses := edgeCrosses fitted inside found side
      simp only [found, if_true, crosses, Bool.not_true, Bool.not_false, Bool.and_false,
        Bool.false_and, Bool.false_eq_true, if_false]
      split
      · rfl
      · exact ih _ _ (nextIndexInside ranged ..)
    · rw [if_neg found, if_neg found]

theorem canFullyFillEdge (fitted : Fitted book) (ranged : Ranged book) (price : Int)
    (needed : Quantity) :
    canFullyFill book side false (book.edge side) needed =
      canFullyFill book side true price needed := by
  rw [canFullyFill, canFullyFill, sumLevelsEdge fitted ranged price needed _ _ _ (ranged.best _)]

theorem edgeFrame (frame : SameFrame book book') : book'.edge side = book.edge side := by
  cases side <;> simp only [edge, bandHi, bandLo, frame.ladder]

theorem matchingGoesOnEdge (grounded : Grounded base) (inside : b < base.books.size)
    (held : Held base allowed s) (price : Int) :
    s.engine.matchingGoesOn b slot side ((base.books.read b).edge side) false =
      s.engine.matchingGoesOn b slot side price true := by
  simp only [matchingGoesOn, Bool.false_or, Bool.true_or, Bool.and_true]
  by_cases has : 0 ≤ (s.engine.books.read b).bestIndex side.opposite
  · have crosses := edgeCrosses (fittedFrame (grounded.fitted b inside) (held.grown.frame b))
      ((held.ranged b inside).best side.opposite) has side
    rw [edgeFrame (held.grown.frame b)] at crosses
    rw [crosses, Bool.and_true]
  · rw [hasBest, decide_eq_false has]
    simp

theorem matchLevelsEdge (grounded : Grounded base) (inside : b < base.books.size) (price : Int)
    (trades : ∀ tradeId instrumentId price qty resting aggressive side,
      allowed (.trade tradeId instrumentId price qty resting aggressive side)) (inner fuel : Nat) :
    ∀ s, Held base allowed s →
      (matchLevels env b instrumentId slot side ((base.books.read b).edge side) false inner
        fuel).run.run s =
        (matchLevels env b instrumentId slot side price true inner fuel).run.run s := by
  induction fuel with
  | zero =>
    intro s held
    rw [matchLevels, matchLevels, runCurrent, runCurrent,
      matchingGoesOnEdge grounded inside held price]
  | succ fuel ih =>
    intro s held
    rw [matchLevels, matchLevels, runCurrent, runCurrent,
      matchingGoesOnEdge grounded inside held price]
    split
    · exact runBindCongr (keepsMatchLevel trades inner s held) (fun _ t held' => ih t held')
    · rfl

theorem runMatchingEdge (grounded : Grounded base) (inside : b < base.books.size) (price : Int)
    (trades : ∀ tradeId instrumentId price qty resting aggressive side,
      allowed (.trade tradeId instrumentId price qty resting aggressive side))
    (held : Held base allowed s) :
    (runMatching env b instrumentId slot side ((base.books.read b).edge side) false).run.run s =
      (runMatching env b instrumentId slot side price true).run.run s := by
  rw [runMatching, runMatching, runCurrent, runCurrent]
  exact matchLevelsEdge grounded inside price trades _ _ s held

structure Alike (reason : CancelReason) (market limit : Session) : Prop where
  engine : limit.engine = market.engine
  log : limit.log = market.log.map (Callback.relabel reason)

def plain (reason : CancelReason) (event : Event) : Prop := event.relabel reason = event

theorem plainRelabel {callbacks : List Callback}
    (all : ∀ callback ∈ callbacks, plain reason callback.event) :
    callbacks.map (Callback.relabel reason) = callbacks := by
  refine (List.map_congr_left (fun callback member => ?_)).trans (List.map_id _)
  rw [Callback.relabel, all callback member]
  rfl

theorem alikeHeld (held : Held base (plain reason) s) :
    Alike reason s s := ⟨rfl, (plainRelabel held.log).symm⟩

theorem emitSession (env : Env) (event : Event) (s : Session) :
    ((emit env event).run.run s).2 = { s with log := s.log ++ [⟨event, s.engine⟩] } := by
  have ends : wp (emit env event) (fun _ t => t = { s with log := s.log ++ [⟨event, s.engine⟩] })
      (fun _ t => t = { s with log := s.log ++ [⟨event, s.engine⟩] }) s := by
    simp only [emit, wpBind, wpModify, wpGet, wpIte, wpThrow, wpPure, implies_true, and_self]
  unfold wp at ends
  revert ends
  rcases (emit env event).run.run s with ⟨outcome, t⟩
  cases outcome <;> exact fun same => same

theorem emitAlike {event event' : Event} (held : Held base (plain reason) s) (engine : Engine)
    (same : event.relabel reason = event') :
    Alike reason ((emit env event).run.run { s with engine := engine }).2
      ((emit env event').run.run { s with engine := engine }).2 := by
  rw [emitSession, emitSession]
  refine ⟨rfl, ?_⟩
  rw [List.map_append, plainRelabel held.log, ← same]
  rfl

def limitReason (order : NewOrder) : CancelReason :=
  if order.tif = .ioc then .iocRemainder
  else .fokUnfillable

theorem disposeEdge (held : Held base (plain (limitReason order)) s) (market : order.type = .market)
    (immediate : order.tif ≠ .day) (price price' : Int) :
    Alike (limitReason order) ((disposeRemainder env b slot order price).run.run s).2
      ((disposeRemainder env b slot (atEdge book order) price').run.run s).2 := by
  unfold disposeRemainder
  rw [runCurrent, runCurrent]
  by_cases left : 0 < (s.engine.pool.get slot).openQty
  · have tif : (atEdge book order).tif ≠ .day := immediate
    have type : (atEdge book order).type ≠ .market := fun same => by cases same
    simp only [left, if_true, if_neg immediate, if_neg tif, if_pos market, if_neg type]
    exact emitAlike held (s.engine.putRecord slot (fun rec => { rec with openQty := 0 })) rfl
  · rw [if_neg left, if_neg left]
    exact alikeHeld held

theorem matchAndDisposeEdge (grounded : Grounded base) (inside : b < base.books.size)
    (market : order.type = .market) (immediate : order.tif ≠ .day)
    (held : Held base (plain (limitReason order)) s) (price : Int) :
    Alike (limitReason order) ((matchAndDispose env b slot order price).run.run s).2
      ((matchAndDispose env b slot (atEdge (base.books.read b) order)
        ((base.books.read b).edge order.side)).run.run s).2 := by
  have trades : ∀ tradeId instrumentId price qty resting aggressive side,
      plain (limitReason order) (.trade tradeId instrumentId price qty resting aggressive side) :=
        fun _ _ _ _ _ _ _ => rfl
  have same :=
    @runMatchingEdge base (plain (limitReason order)) env b order.instrumentId slot order.side s
      grounded inside price trades held
  have limit : (matchAndDispose env b slot (atEdge (base.books.read b) order)
    ((base.books.read b).edge order.side)).run.run s =
      (runMatching env b order.instrumentId slot order.side price true >>= fun _ =>
        disposeRemainder env b slot (atEdge (base.books.read b) order)
          ((base.books.read b).edge order.side)).run.run s :=
    runBindFirst same
  rw [limit]
  unfold matchAndDispose
  rw [decide_eq_true market]
  exact runBindRel (R := fun p q => Alike (limitReason order) p.2 q.2)
    (keepsRunMatching trades s held)
    (fun _ t held' => alikeHeld held') (fun _ t held' => disposeEdge held' market immediate ..)

theorem executeEdge (grounded : Grounded base) (inside : b < base.books.size)
    (market : order.type = .market) (immediate : order.tif ≠ .day)
    (held : Held base (plain (limitReason order)) s) (price : Int) :
    Alike (limitReason order) ((execute env b slot order price).run.run s).2
      ((execute env b slot (atEdge (base.books.read b) order)
        ((base.books.read b).edge order.side)).run.run s).2 := by
  have both :=
    @matchAndDisposeEdge base env b slot s order grounded inside market immediate held price
  have feasible : canFullyFill (s.engine.books.read b) (atEdge (base.books.read b) order).side
      ((atEdge (base.books.read b) order).type = .market) ((base.books.read b).edge order.side)
      (atEdge (base.books.read b) order).quantity =
        canFullyFill (s.engine.books.read b) order.side (order.type = .market) price
        order.quantity := by
    have same :=
      @canFullyFillEdge order.side (s.engine.books.read b)
        (fittedFrame (grounded.fitted b inside) (held.grown.frame b))
      (held.ranged b inside) price order.quantity
    rw [edgeFrame (held.grown.frame b)] at same
    rw [decide_eq_true market]
    exact same
  unfold execute
  rw [runCurrent, runCurrent]
  by_cases fok : order.tif = .fok
  · have fok' : (atEdge (base.books.read b) order).tif = .fok := fok
    rw [if_pos fok, if_pos fok', feasible]
    cases canFullyFill (s.engine.books.read b) order.side (order.type = .market) price
      order.quantity with
    | none => exact alikeHeld held
    | some fits =>
      cases fits with
      | true => exact both
      | false =>
        exact emitAlike held (s.engine.putRecord slot (fun rec => { rec with openQty := 0 })) rfl
  · have other : (atEdge (base.books.read b) order).tif ≠ .fok := fok
    rw [if_neg fok, if_neg other]
    exact both

theorem marketValid (market : order.type = .market) (positive : order.quantity ≠ 0)
    (immediate : order.tif ≠ .day) : invalid book order = none := by
  rw [invalid, if_neg positive, if_neg (fun both => immediate both.2),
    if_neg (fun limited => limited market)]

theorem edgeValid (fitted : Fitted book) (priced : 0 ≤ book.priceToIndex (book.edge order.side))
    (positive : order.quantity ≠ 0) : invalid book (atEdge book order) = none := by
  have limited : (atEdge book order).type ≠ .market := fun same => by cases same
  have some : (atEdge book order).quantity ≠ 0 := positive
  have aligned : TickTable.isTickAligned kTickSchedule (atEdge book order).price = true :=
    (pricedIndex fitted priced).1
  have inBand : ¬book.priceToIndex (atEdge book order).price < 0 := Int.not_lt.mpr priced
  rw [invalid, if_neg some, if_neg (fun both => limited both.1), if_pos limited, aligned,
    if_neg (by decide), if_neg inBand]

theorem submitEdge {engine : Engine} (inBounds : InBounds engine) (env : Env)
    (valid : ValidSubmit engine order b) (market : order.type = .market)
    (immediate : order.tif ≠ .day) (positive : order.quantity ≠ 0) :
    Alike (limitReason order) (call env (.submit order) engine)
      (call env (.submit (atEdge (engine.books.read b) order)) engine) := by
  obtain ⟨grounded, ranged⟩ := inBounds
  have inside := grounded.found _ _ valid.found
  have valid' : ValidSubmit engine (atEdge (engine.books.read b) order) b :=
    ⟨valid.configured, valid.found, valid.unused,
      edgeValid (grounded.fitted b inside) (grounded.edges b inside _) positive⟩
  have start : Held engine (plain (limitReason order)) { engine := engine } :=
    ⟨grownRefl engine, ranged, fun callback impossible => absurd impossible List.not_mem_nil⟩
  have limit : limitPrice (atEdge (engine.books.read b) order) =
      (engine.books.read b).edge order.side := if_neg (fun same => by cases same)
  change Alike _ ((submit env order).run.run { engine := engine }).2
    ((submit env (atEdge (engine.books.read b) order)).run.run { engine := engine }).2
  rw [@submitEntered { engine := engine } _ _ _ valid,
    @submitEntered { engine := engine } _ _ _ valid', limit]
  refine runBindRel (R := fun p q => Alike (limitReason order) p.2 q.2)
    (@keepsEnterOrder engine _ env order _ start)
    (fun _ t held => alikeHeld held) (fun slot t held => ?_)
  refine runBindRel (R := fun p q => Alike (limitReason order) p.2 q.2)
    (@keepsAccept engine (plain (limitReason order)) env slot order rfl t held)
    (fun _ u held' => alikeHeld held') (fun _ u held' => ?_)
  exact executeEdge grounded inside market immediate held' _

theorem fokPlain {engine : Engine} {venue : Venue} (sim : Sim engine venue)
    (room : engine.pool.size < kInvalidSlot.toNat) (env : Env) (valid : ValidSubmit engine order b)
    (fok : order.tif = .fok) :
    ∀ callback ∈ (call env (.submit order) engine).log, plain reason callback.event := by
  intro callback member
  obtain ⟨_, outcome⟩ := callOutcome sim room env (.submit order)
  obtain ⟨moment, inMoments, follows⟩ := outcomeSeen outcome callback member
  obtain ⟨book, fresh, sound⟩ := validFresh sim valid
  rw [follows.event]
  cases enough : wrappedFill order.side (Venue.limitOf order) order.quantity.toNat
    (venue.orders b order.side.opposite) with
  | true =>
    rw [(Venue.fokFilled fresh sound fok (simProper sim) enough).1] at inMoments
    rcases List.mem_cons.mp inMoments with rfl | later
    · rfl
    · obtain ⟨_, _, _, _, _, _, _, _, trade⟩ :=
        (Venue.sweepSweeping _ (Venue.takerOf order)).2 moment later
      rw [trade]
      rfl
  | false =>
    rw [Venue.fokKilled fresh sound fok enough] at inMoments
    rcases List.mem_cons.mp inMoments with rfl | later
    · rfl
    · rw [List.mem_singleton.mp later]
      rfl

def leftover (order : NewOrder) (left : Nat) (reason : CancelReason) : List Event :=
  if 0 < left then [.canceled order.orderId left reason] else []

structure CancelsLeftover (env : Env) (engine : Engine) (order : NewOrder) (reason : CancelReason)
    (trades : List Event) : Prop where
  onlyTrades : ∀ event ∈ trades, event.isTrade = true
  within : tradedIn trades ≤ order.quantity.toNat
  events : (call env (.submit order) engine).events =
    .accepted order.orderId :: trades ++
    leftover order (order.quantity.toNat - tradedIn trades) reason

theorem iocCancelsLeftover {engine : Engine} {venue : Venue} (sim : Sim engine venue)
    (room : engine.pool.size < kInvalidSlot.toNat) (quiet : env.Quiet) (chunk : env.chunk = true)
    (slots : env.slots = true) (valid : ValidSubmit engine order b) (ioc : order.tif = .ioc) :
    ∃ trades, CancelsLeftover env engine order (Venue.remainderReason order) trades := by
  obtain ⟨venue', outcome⟩ := callOutcome sim room env (.submit order)
  rcases quietOutcome quiet outcome with ⟨follows, _⟩ | ⟨short, _⟩
  · obtain ⟨book, fresh, sound⟩ := validFresh sim valid
    have events := followsEvents follows
    have sum := Venue.workTraded b order (venue.spend order.orderId 0)
    have worked : Venue.execute wrappedFill b order (venue.spend order.orderId 0) =
        Venue.dispose b order (Venue.work b order (venue.spend order.orderId 0)) :=
      if_neg (fun both => by rw [ioc] at both; exact absurd both.1 (by decide))
    rw [Venue.submitValid fresh sound, worked,
      Venue.disposeDrops _ (fun day => by rw [ioc] at day; exact absurd day (by decide))] at events
    refine ⟨_, @Venue.workTrades b order (venue.spend order.orderId 0), by omega, events.trans ?_⟩
    have left : order.quantity.toNat - tradedIn
        ((Venue.work b order (venue.spend order.orderId 0)).1.map (·.event)) =
        (Venue.work b order (venue.spend order.orderId 0)).2.taker.openQty := by omega
    rw [left, List.map_cons, List.map_append, leftover]
    split <;> rfl
  · rw [chunk, slots] at short
    rcases short with impossible | impossible <;> contradiction

theorem leftoverRelabel {engine : Engine} {limit : NewOrder} {trades : List Event}
    (sameId : limit.orderId = order.orderId) (sameQuantity : limit.quantity = order.quantity)
    (market : CancelsLeftover env engine order .noLiquidity trades)
    (alike : Alike reason (call env (.submit order) engine) (call env (.submit limit) engine)) :
    CancelsLeftover env engine limit reason trades := by
  have same : trades.map (Event.relabel reason) = trades := by
    refine (List.map_congr_left (fun event member => ?_)).trans (List.map_id _)
    have trade := market.onlyTrades event member
    cases event <;> first | rfl | contradiction
  have events : (call env (.submit limit) engine).events =
      (call env (.submit order) engine).events.map (Event.relabel reason) := by
    rw [Session.events, alike.log, List.map_map, Session.events, List.map_map]
    rfl
  refine ⟨market.onlyTrades, by rw [sameQuantity]; exact market.within, ?_⟩
  rw [events, market.events, List.map_append, List.map_cons, same, sameQuantity, sameId]
  unfold leftover
  rw [sameId]
  split <;> rfl

end Edges

/- A market order, and the limit order at the edge of the band in its place: the same state, and the
same callbacks but for the reason of a remainder, which is what did not trade. A fill-or-kill order
has no remainder as long as no two orders share a slot. -/
structure SameAtEdge (env : Env) (engine : Engine) (b : Nat) (order : NewOrder) : Prop where
  state : (call env (.submit (atEdge (engine.books.read b) order)) engine).engine =
    (call env (.submit order) engine).engine
  ioc : order.tif = .ioc → (call env (.submit (atEdge (engine.books.read b) order)) engine).log =
    (call env (.submit order) engine).log.map (Callback.relabel .iocRemainder)
  fok : order.tif = .fok → (call env (.submit (atEdge (engine.books.read b) order)) engine).log =
    (call env (.submit order) engine).log.map (Callback.relabel .fokUnfillable)
  fokExactly : order.tif = .fok → engine.pool.size < kInvalidSlot.toNat →
    (call env (.submit (atEdge (engine.books.read b) order)) engine).log =
    (call env (.submit order) engine).log
  remainder : order.tif = .ioc → env.Quiet → env.chunk = true → env.slots = true →
    engine.pool.size < kInvalidSlot.toNat →
    ∃ trades, CancelsLeftover env engine order .noLiquidity trades ∧
      CancelsLeftover env engine (atEdge (engine.books.read b) order) .iocRemainder trades

theorem marketIsLimitAtEdge (actions : List Action) (laddered : Laddered (after actions))
    (env : Env) (order : NewOrder) (b : Nat)
    (found : (after actions).findBook order.instrumentId = some b)
    (fresh : (after actions).orderIndex.find order.orderId = none) (market : order.type = .market)
    (immediate : order.tif = .ioc ∨ order.tif = .fok) (positive : order.quantity ≠ 0) :
    SameAtEdge env (after actions) b order := by
  have configured : (after actions).configured = true := by
    by_contra unconfigured
    rw [blankUntilConfigured actions (Bool.eq_false_iff.mpr unconfigured)] at found
    contradiction
  have notDay : order.tif ≠ .day := by
    rintro day
    rw [day] at immediate
    rcases immediate with same | same <;> contradiction
  have inBounds := alwaysInBounds actions laddered configured
  have valid : ValidSubmit (after actions) order b :=
    ⟨configured, found, fresh, marketValid market positive notDay⟩
  have alike := submitEdge inBounds env valid market notDay positive
  refine ⟨alike.engine, fun ioc => ?_, fun fok => ?_, fun fok room => ?_,
    fun ioc quiet chunk slots room => ?_⟩
  · have reason : limitReason order = .iocRemainder := if_pos ioc
    rw [← reason]
    exact alike.log
  · have reason : limitReason order = .fokUnfillable :=
      if_neg (fun ioc => by rw [fok] at ioc; contradiction)
    rw [← reason]
    exact alike.log
  · obtain ⟨venue, sim, -⟩ := reached keptTrivial actions ⟨room, laddered⟩
    exact alike.log.trans (plainRelabel (fokPlain sim room env valid fok))
  · obtain ⟨venue, sim, -⟩ := reached keptTrivial actions ⟨room, laddered⟩
    obtain ⟨trades, cancels⟩ := iocCancelsLeftover sim room quiet chunk slots valid ioc
    have noLiquidity : Venue.remainderReason order = .noLiquidity := if_pos market
    have reason : limitReason order = .iocRemainder := if_pos ioc
    rw [noLiquidity] at cancels
    rw [reason] at alike
    refine ⟨trades, cancels, leftoverRelabel ?_ ?_ cancels alike⟩ <;> rfl

theorem marketBuyOfSevenAtEdge :
    SameAtEdge .calm (after
      (calmRun [⟨7, 100000, 1000⟩] [.submit ⟨1, 7, .sell, .limit, .day, 100100, 5⟩])) 0
      ⟨2, 7, .buy, .market, .ioc, 0, 7⟩ :=
  marketIsLimitAtEdge _ (roomyOf (by decide +kernel) (by decide +kernel)).levels .calm _ 0
    (by decide +kernel) (by decide +kernel)
    rfl (.inl rfl) (by decide)

/- After 2^32 orders a fill-or-kill order can have a remainder, and its reason tells the two
apart. -/
theorem crowdedFokTellsApart :
    Laddered (after (crowded 4294967295)) ∧
      (after (crowded 4294967295)).findBook marketFok.instrumentId = some 0 ∧
      (after (crowded 4294967295)).orderIndex.find marketFok.orderId = none ∧
      (call .calm (.submit marketFok) (after (crowded 4294967295))).events = [.accepted 4294967297,
        .trade 1 7 100000 0 4294967296 4294967297 .buy, .canceled 4294967297 4 .noLiquidity] ∧
      (call .calm (.submit (atEdge ((after (crowded 4294967295)).books.read 0) marketFok))
        (after (crowded 4294967295))).events =
        [.accepted 4294967297, .trade 1 7 100000 0 4294967296 4294967297 .buy,
          .canceled 4294967297 4 .fokUnfillable] := by
  have hollowed := crowdedHollow
  have books : (after (crowded 4294967295)).books = loneSell.books := by rw [hollowed.rest]
  have laddered : Laddered (after (crowded 4294967295)) := by
    rw [Laddered, books]
    exact loneSellRoomy.levels
  have valid := crowdedValid hollowed marketFok 0 rfl (by decide +kernel) (by decide +kernel) rfl
  have events := hollowFok hollowed
  have alike := submitEdge (alwaysInBounds _ laddered valid.configured) .calm valid rfl
      (by decide) (by decide)
  have tradeId : loneSell.nextTradeId.toNat = 1 := by decide +kernel
  rw [tradeId] at events
  refine ⟨laddered, valid.found, valid.unused, events, ?_⟩
  rw [Session.events, alike.log, List.map_map]
  change List.map (Event.relabel _ ∘ Callback.event) _ = _
  rw [← List.map_map]
  change List.map _ (Session.events _) = _
  rw [events]
  rfl

end Engine
end Xmatch
