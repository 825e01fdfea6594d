import Xmatch.VenueSteps

/-! Two venues that some requests cannot tell apart: they have the same books at the indices
`P` and the same record of the ids `mine`. Trade ids are compared through `name`. -/
namespace Xmatch

def Event.renumber (name : Nat → Nat) : Event → Event
  | trade tradeId instrumentId price quantity restingOrderId aggressiveOrderId aggressorSide =>
    trade (name tradeId) instrumentId price quantity restingOrderId aggressiveOrderId aggressorSide
  | event => event

theorem Event.renumberId (event : Event) : event.renumber id = event := by cases event <;> rfl

def Book.frame (book : Book) : InstrumentId × Int × Int :=
  (book.instrumentId, book.bandLo, book.bandHi)

def Order.bare (order : Order) : OrderId × Int × Nat := (order.id, order.price, order.openQty)

namespace Venue

structure Twin (name : Nat → Nat) (P : Nat → Prop) (mine : OrderId → Prop) (left right : Venue) :
    Prop where
  configured : left.configured = right.configured
  frames : left.books.map Book.frame = right.books.map Book.frame
  orders : ∀ b, P b → ∀ side, left.orders b side = right.orders b side
  spent : ∀ id, mine id → (id ∈ left.spent ↔ id ∈ right.spent)
  trades : ∀ k, name (left.nextTradeId + k) = name (right.nextTradeId + k)

section Twins
variable {name : Nat → Nat} {P : Nat → Prop} {mine : OrderId → Prop} {left right : Venue} {b : Nat}
  {side : Side}

theorem twinRefl (venue : Venue) : Twin name P mine venue venue :=
  ⟨rfl, rfl, fun _ _ _ => rfl, fun _ _ => Iff.rfl, fun _ => rfl⟩

theorem framesPut (venue : Venue) (b : Nat) (side : Side) (xs : List Order) :
    (venue.putSide b side xs).books.map Book.frame = venue.books.map Book.frame := by
  have same : ∀ book : Book, (book.put side xs).frame = book.frame := fun book => by
    cases side <;> rfl
  refine List.ext_getElem? (fun i => ?_)
  rw [putSide, List.getElem?_map, List.getElem?_modify, List.getElem?_map]
  split
  · cases venue.books[i]? with
    | none => rfl
    | some book => exact congrArg some (same book)
  · cases venue.books[i]? <;> rfl

theorem twinLength (twin : Twin name P mine left right) :
    left.books.length = right.books.length := by
  simpa using congrArg List.length twin.frames

theorem twinPut (twin : Twin name P mine left right) (b : Nat) (side : Side) (xs : List Order) :
    Twin name P mine (left.putSide b side xs) (right.putSide b side xs) := by
  refine ⟨twin.configured, by rw [framesPut, framesPut, twin.frames], fun c inside s => ?_, twin.spent, twin.trades⟩
  rw [ordersPutSide, ordersPutSide, twinLength twin, twin.orders c inside s]

theorem twinSpend (twin : Twin name P mine left right) (id : OrderId) (filled filled' : Nat) :
    Twin name P mine (left.spend id filled) (right.spend id filled') := by
  refine ⟨twin.configured, twin.frames, twin.orders, fun other own => ?_, twin.trades⟩
  simp only [spend, List.mem_cons, twin.spent other own]

theorem twinTrade (twin : Twin name P mine left right) (b : Nat) (maker : Order) (rest : List Order)
    {taker taker' : Order} (same : taker.bare = taker'.bare) :
    Twin name P mine (tradeStep b side maker rest left taker).venue
      (tradeStep b side maker rest right taker').venue := by
  have bumped : Twin name P mine { left with nextTradeId := left.nextTradeId + 1 }
      { right with nextTradeId := right.nextTradeId + 1 } := by
    refine ⟨twin.configured, twin.frames, twin.orders, twin.spent, fun k => ?_⟩
    have later := twin.trades (1 + k)
    rwa [← Nat.add_assoc, ← Nat.add_assoc] at later
  have openQty : taker.openQty = taker'.openQty := congrArg (·.2.2) same
  have put := twinPut bumped b side.opposite (if maker.openQty ≤ taker'.openQty then rest
    else maker.fill (min taker'.openQty maker.openQty) :: rest)
  simp only [tradeStep, openQty]
  exact ⟨put.configured, put.frames, put.orders, put.spent, put.trades⟩

structure Alike (name : Nat → Nat) (P : Nat → Prop) (mine : OrderId → Prop)
    (one two : List Moment × Venue) : Prop where
  events : one.1.map (fun moment => moment.event.renumber name) =
    two.1.map (fun moment => moment.event.renumber name)
  twin : Twin name P mine one.2 two.2

theorem twinSweep (instrumentId : InstrumentId) (limit : Option Int) :
    ∀ (orders : List Order) (left right : Venue)
    (taker taker' : Order), Twin name P mine left right → taker.bare = taker'.bare →
    Alike name P mine ((sweep b instrumentId side limit orders left taker).1,
      (sweep b instrumentId side limit orders left taker).2.venue)
        ((sweep b instrumentId side limit orders right taker').1,
          (sweep b instrumentId side limit orders right taker').2.venue) ∧
      (sweep b instrumentId side limit orders left taker).2.taker.bare =
        (sweep b instrumentId side limit orders right taker').2.taker.bare ∧
      (sweep b instrumentId side limit orders left taker).2.taker.filledQty + taker'.filledQty =
        (sweep b instrumentId side limit orders right taker').2.taker.filledQty +
          taker.filledQty := by
  intro orders
  induction orders with
  | nil => exact fun left right taker taker' twin same => ⟨⟨rfl, twin⟩, same, Nat.add_comm ..⟩
  | cons maker rest ih =>
    intro left right taker taker' twin same
    have next := @twinTrade name P mine left right side twin b maker rest taker taker' same
    have id : taker.id = taker'.id := congrArg (·.1) same
    have price : taker.price = taker'.price := congrArg (·.2.1) same
    have openQty : taker.openQty = taker'.openQty := congrArg (·.2.2) same
    have event : (tradeMoment instrumentId side maker left taker).event.renumber name =
        (tradeMoment instrumentId side maker right taker').event.renumber name := by
      have number := twin.trades 0
      simp only [Nat.add_zero] at number
      simp only [tradeMoment, Event.renumber, number, id, openQty]
    have left' : (tradeStep b side maker rest left taker).taker.bare =
        (tradeStep b side maker rest right taker').taker.bare := by
      simp only [tradeStep, Order.fill, Order.bare, id, price, openQty]
    by_cases goesOn : 0 < taker.openQty ∧ side.accepts limit maker.price = true
    · have goesOn' : 0 < taker'.openQty ∧ side.accepts limit maker.price = true := openQty ▸ goesOn
      by_cases closes : maker.openQty ≤ taker.openQty
      · have closes' : maker.openQty ≤ taker'.openQty := openQty ▸ closes
        obtain ⟨⟨events, twin'⟩, out, filled⟩ :=
          ih _ _ (tradeStep b side maker rest left taker).taker
          (tradeStep b side maker rest right taker').taker next left'
        simp only [sweep, goesOn, goesOn', and_self, if_true, closes, closes']
        refine ⟨⟨?_, twin'⟩, out, ?_⟩
        · rw [List.map_cons, List.map_cons, event, events]
        · simp only [tradeStep, Order.fill, openQty] at filled ⊢
          omega
      · have closes' : ¬maker.openQty ≤ taker'.openQty := openQty ▸ closes
        simp only [sweep, goesOn, goesOn', and_self, if_true, closes, closes', if_false]
        refine ⟨⟨by rw [List.map_singleton, List.map_singleton, event], next⟩, left', ?_⟩
        simp only [tradeStep, Order.fill, openQty]
        omega
    · have goesOn' : ¬(0 < taker'.openQty ∧ side.accepts limit maker.price = true) :=
        openQty ▸ goesOn
      simp only [sweep, goesOn, goesOn', if_false]
      exact ⟨⟨rfl, twin⟩, same, Nat.add_comm ..⟩

theorem bareFilled {order order' : Order} (same : order.bare = order'.bare)
    (filled : order.filledQty = order'.filledQty) : order = order' := by
  obtain ⟨_, _, _, _⟩ := order
  obtain ⟨_, _, _, _⟩ := order'
  simp only [Order.bare, Prod.mk.injEq] at same
  simp_all

theorem twinSwept (instrumentId : InstrumentId) (limit : Option Int) (orders : List Order)
    (twin : Twin name P mine left right) (taker : Order) :
    Alike name P mine ((sweep b instrumentId side limit orders left taker).1,
      (sweep b instrumentId side limit orders left taker).2.venue)
        ((sweep b instrumentId side limit orders right taker).1,
          (sweep b instrumentId side limit orders right taker).2.venue) ∧
      (sweep b instrumentId side limit orders left taker).2.taker =
        (sweep b instrumentId side limit orders right taker).2.taker := by
  obtain ⟨alike, same, filled⟩ :=
    twinSweep instrumentId limit orders left right taker taker twin rfl
  exact ⟨alike, bareFilled same (Nat.add_right_cancel filled)⟩

theorem alikeCons {one two : List Moment × Venue} (alike : Alike name P mine one two)
    {first second : Moment} (same : first.event = second.event) :
    Alike name P mine (first :: one.1, one.2) (second :: two.1, two.2) :=
  ⟨by rw [List.map_cons, List.map_cons, same, alike.events], alike.twin⟩

theorem twinReject (twin : Twin name P mine left right) (id : OrderId) (reason : RejectReason) :
    Alike name P mine (reject id reason left) (reject id reason right) := ⟨rfl, twin⟩

theorem twinRest (twin : Twin name P mine left right) (inside : P b) (taker : Order) :
    Twin name P mine (left.putSide b side (enqueue side taker (left.orders b side)))
      (right.putSide b side (enqueue side taker (right.orders b side))) := by
  rw [twin.orders b inside side]
  exact twinPut twin b side _

theorem twinDispose (order : NewOrder) {one two : List Moment × Sweep} (inside : P b)
    (alike : Alike name P mine (one.1, one.2.venue) (two.1, two.2.venue))
    (taker : one.2.taker = two.2.taker) :
    Alike name P mine (dispose b order one) (dispose b order two) := by
  unfold dispose
  simp only [taker]
  split
  · split
    · exact ⟨alike.events, twinRest alike.twin inside _⟩
    · refine ⟨?_, alike.twin⟩
      have events := alike.events
      simp only at events
      rw [List.map_append, List.map_append, events]
      rfl
  · exact alike

theorem twinWork (twin : Twin name P mine left right) (inside : P b) (order : NewOrder) :
    Alike name P mine (dispose b order (work b order left))
      (dispose b order (work b order right)) := by
  unfold work
  rw [twin.orders b inside]
  obtain ⟨alike, taker⟩ := @twinSwept name P mine left right b order.side order.instrumentId
    (limitOf order)
    (right.orders b order.side.opposite) twin (takerOf order)
  exact twinDispose order inside alike taker

theorem twinExecute (feasible : Feasible) (twin : Twin name P mine left right) (inside : P b)
    (order : NewOrder) :
    Alike name P mine (execute feasible b order left) (execute feasible b order right) := by
  unfold execute
  simp only [twin.orders b inside]
  split
  · exact ⟨rfl, twin⟩
  · have worked := twinWork twin inside order
    unfold work at worked
    rwa [twin.orders b inside] at worked

theorem frameIndex (instrumentId : InstrumentId) (books : List Book) :
    books.findIdx? (fun book => book.instrumentId = instrumentId) =
      (books.map Book.frame).findIdx? (fun frame => frame.1 = instrumentId) := by
  rw [List.findIdx?_map]
  rfl

theorem twinIndex (twin : Twin name P mine left right) (instrumentId : InstrumentId) :
    left.books.findIdx? (fun book => book.instrumentId = instrumentId) =
      right.books.findIdx? (fun book => book.instrumentId = instrumentId) := by
  rw [frameIndex, frameIndex, twin.frames]

theorem frameInvalid (venue : Venue) (b : Nat) (order : NewOrder) :
    (venue.books[b]?).bind (fun book => invalid book order) =
      ((venue.books.map Book.frame)[b]?).bind
        (fun frame => invalid ⟨frame.1, frame.2.1, frame.2.2, [], []⟩ order) := by
  rw [List.getElem?_map]
  cases venue.books[b]? with
  | none => rfl
  | some book => rfl

theorem frameOutside (venue : Venue) (b : Nat) (price : Int) :
    ((venue.books[b]?).map (fun book => outsideBand book price)).getD true =
      (((venue.books.map Book.frame)[b]?).map (fun frame =>
        outsideBand ⟨frame.1, frame.2.1, frame.2.2, [], []⟩ price)).getD true := by
  rw [List.getElem?_map]
  cases venue.books[b]? with
  | none => rfl
  | some book => rfl

theorem frameInstrument (venue : Venue) (b : Nat) :
    ((venue.books[b]?).map (·.instrumentId)).getD 0 =
      (((venue.books.map Book.frame)[b]?).map (·.1)).getD 0 := by
  rw [List.getElem?_map]
  cases venue.books[b]? with
  | none => rfl
  | some book => rfl

theorem twinSubmit (feasible : Feasible) (twin : Twin name P mine left right) {order : NewOrder}
    (own : mine order.orderId)
    (inside : ∀ b, right.books.findIdx? (fun book => book.instrumentId = order.instrumentId) =
      some b → P b) :
    Alike name P mine (submit feasible order left) (submit feasible order right) := by
  unfold submit
  simp only [twin.configured, twinIndex twin]
  split
  · exact twinReject twin _ _
  · split
    · exact twinReject twin _ _
    · rename_i b found
      simp only [twin.spent _ own]
      split
      · exact twinReject twin _ _
      · have spent := twinSpend twin order.orderId 0 0
        rw [frameInvalid, frameInvalid, spent.frames]
        split
        · exact twinReject spent _ _
        · exact alikeCons (twinExecute feasible spent (inside b found) order) rfl

theorem twinWithdraw (twin : Twin name P mine left right) (inside : P b) (id : OrderId) :
    Twin name P mine (left.withdraw b side id) (right.withdraw b side id) := by
  unfold withdraw
  rw [twin.orders b inside]
  exact twinPut twin b side _

theorem twinCancelOrder (twin : Twin name P mine left right) (inside : P b) (order : Order) :
    Alike name P mine (cancelOrder b side order left) (cancelOrder b side order right) :=
  ⟨rfl, twinWithdraw twin inside order.id⟩

structure FoundAlike (P : Nat → Prop) (left right : Venue) (id : OrderId) : Prop where
  same : left.findOpen id = right.findOpen id
  inside : ∀ b side order, right.findOpen id = some (b, side, order) → P b

theorem twinCancel (twin : Twin name P mine left right) {request : CancelOrder}
    (found : FoundAlike P left right request.orderId) :
    Alike name P mine (cancel request left) (cancel request right) := by
  unfold cancel
  simp only [twin.configured, found.same]
  split
  · exact twinReject twin _ _
  · split
    · exact twinReject twin _ _
    · rename_i here
      exact twinCancelOrder twin (found.inside _ _ _ here) _

theorem twinRequeue (twin : Twin name P mine left right) (inside : P b) (request : ReplaceOrder)
    (old : Order) :
    Alike name P mine (requeue request b side old left) (requeue request b side old right) := by
  have away := @twinWithdraw name P mine left right b side twin inside old.id
  have instrument : (((left.withdraw b side old.id).books[b]?).map (·.instrumentId)).getD 0 =
      (((right.withdraw b side old.id).books[b]?).map (·.instrumentId)).getD 0 := by
    rw [frameInstrument, frameInstrument, away.frames]
  unfold requeue
  simp only [instrument, away.orders b inside]
  split
  · obtain ⟨alike, taker⟩ := @twinSwept name P mine _ _ b side
      ((((right.withdraw b side old.id).books[b]?).map (·.instrumentId)).getD 0)
      (some request.newPrice)
      ((right.withdraw b side old.id).orders b side.opposite) away (replacement request old)
    simp only [taker]
    split
    · refine ⟨?_, twinRest alike.twin inside _⟩
      rw [List.map_cons, List.map_cons, alike.events]
      rfl
    · refine ⟨?_, alike.twin⟩
      rw [List.map_cons, List.map_cons, alike.events]
      rfl
  · split
    · refine ⟨rfl, ?_⟩
      exact twinRest away inside (replacement request old)
    · exact ⟨rfl, away⟩

theorem twinReplaceOrder (twin : Twin name P mine left right) (inside : P b)
    (request : ReplaceOrder) (old : Order) :
    Alike name P mine (replaceOrder request b side old left)
      (replaceOrder request b side old right) := by
  have spent := twinSpend twin request.newOrderId old.filledQty old.filledQty
  unfold replaceOrder
  simp only
  split
  · exact twinRequeue spent inside request old
  · refine ⟨rfl, ?_⟩
    rw [spent.orders b inside]
    exact twinPut spent b side _

theorem twinReplace (twin : Twin name P mine left right) {request : ReplaceOrder}
    (found : FoundAlike P left right request.orderId)
    (own : request.newOrderId ≠ request.orderId → mine request.newOrderId) :
    Alike name P mine (replace request left) (replace request right) := by
  unfold replace
  simp only [twin.configured, found.same]
  split
  · exact twinReject twin _ _
  · split
    · exact twinReject twin _ _
    · rename_i b side old here
      have inside := found.inside _ _ _ here
      split
      · exact twinCancelOrder twin inside _
      · have used : (request.newOrderId ≠ request.orderId ∧ request.newOrderId ∈ left.spent) ↔
            (request.newOrderId ≠ request.orderId ∧ request.newOrderId ∈ right.spent) :=
          and_congr_right (fun other => twin.spent _ (own other))
        simp only [used]
        split
        · exact twinReject twin _ _
        · split
          · exact twinReject twin _ _
          · rw [frameOutside, frameOutside, twin.frames]
            split
            · exact twinReject twin _ _
            · exact twinReplaceOrder twin inside request old

end Twins
end Venue
end Xmatch
