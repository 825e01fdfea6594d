import Xmatch.Runs

/-! What one request can do to a venue: seven shapes, and the sweep inside two of them. -/
namespace Xmatch

def Order.key (order : Order) : OrderId × Int := (order.id, order.price)

namespace Venue

section Lists
variable {venue : Venue} {b c : Nat} {side s : Side} {xs : List Order} {order : Order}

theorem sidePut (book : Book) (side s : Side) (xs : List Order) :
    (book.put side xs).side s = if s = side then xs else book.side s := by
  cases side <;> cases s <;> rfl

theorem ordersPutSide (venue : Venue) (b c : Nat) (side s : Side) (xs : List Order) :
    (venue.putSide b side xs).orders c s =
      if c = b ∧ s = side ∧ b < venue.books.length then xs else venue.orders c s := by
  rw [orders, orders, putSide, List.getElem?_modify]
  by_cases same : c = b
  · subst same
    by_cases inside : c < venue.books.length
    · simp only [List.getElem?_eq_getElem inside, if_true, Option.map_eq_map, Option.map_some,
        Option.getD_some, sidePut, true_and, inside, and_true]
    · rw [List.getElem?_eq_none (Nat.not_lt.mp inside)]
      simp [inside]
  · simp [same, Ne.symm same]

theorem ordersInside (member : order ∈ venue.orders b side) : b < venue.books.length := by
  by_contra past
  rw [orders, List.getElem?_eq_none (Nat.not_lt.mp past)] at member
  contradiction

theorem memEnqueue {o : Order} : o ∈ enqueue side order xs ↔ o = order ∨ o ∈ xs := by
  induction xs with
  | nil => simp [enqueue]
  | cons first rest ih =>
    rw [enqueue]
    split
    · exact List.mem_cons
    · rw [List.mem_cons, ih, List.mem_cons]
      exact or_left_comm

theorem memWithout {o : Order} {id : OrderId} : o ∈ without id xs ↔ o ∈ xs ∧ o.id ≠ id := by
  rw [without, List.mem_filter, decide_eq_true_eq]

end Lists

/- A sweep takes orders off the front of the opposite side and nothing else. -/
structure Sweeping (b : Nat) (side : Side) (base venue : Venue) (opposite : List Order) : Prop where
  others : ∀ c s, ¬(c = b ∧ s = side.opposite) → venue.orders c s = base.orders c s
  here : venue.orders b side.opposite = opposite
  length : venue.books.length = base.books.length
  suffix : opposite.map Order.key <:+ (base.orders b side.opposite).map Order.key
  spent : venue.spent = base.spent
  configured : venue.configured = base.configured

section Sweeps
variable {b : Nat} {instrumentId : InstrumentId} {side : Side} {limit : Option Int}
  {base venue : Venue} {taker maker : Order} {rest : List Order}

theorem sweepingStart (base : Venue) (b : Nat) (side : Side) :
    Sweeping b side base base (base.orders b side.opposite) :=
  ⟨fun _ _ _ => rfl, rfl, rfl, List.suffix_refl _, rfl, rfl⟩

theorem tradeStepKeys : (tradeStep b side maker rest venue taker).opposite.map Order.key <:+
    (maker :: rest).map Order.key := by
  simp only [tradeStep]
  split
  · exact List.suffix_cons _ _
  · exact List.suffix_refl _

theorem sweepingStep (sweeping : Sweeping b side base venue (maker :: rest)) :
    Sweeping b side base (tradeStep b side maker rest venue taker).venue
      (tradeStep b side maker rest venue taker).opposite := by
  have inside : b < venue.books.length := by
    have member : maker ∈ venue.orders b side.opposite := by
      rw [sweeping.here]
      exact List.mem_cons_self
    exact ordersInside member
  have put : ∀ c s, (tradeStep b side maker rest venue taker).venue.orders c s =
      if c = b ∧ s = side.opposite ∧
      b < venue.books.length then (tradeStep b side maker rest venue taker).opposite
      else venue.orders c s :=
    fun c s => ordersPutSide { venue with nextTradeId := venue.nextTradeId + 1 } b c
      side.opposite s _
  refine ⟨fun c s elsewhere => ?_, ?_, tradeStepBooks.trans sweeping.length,
    tradeStepKeys.trans sweeping.suffix, sweeping.spent, sweeping.configured⟩
  · rw [put, if_neg (fun h => elsewhere ⟨h.1, h.2.1⟩)]
    exact sweeping.others c s elsewhere
  · rw [put, if_pos ⟨rfl, rfl, inside⟩]

/- What every trade of a sweep preserves holds before each of its trades and at its end;
`seen` are the moments so far. -/
theorem sweepInduct {P : List Moment → Venue → Order → List Order → Prop}
    (step : ∀ seen venue taker maker rest, P seen venue taker (maker :: rest) → 0 < taker.openQty →
      side.accepts limit maker.price = true →
      P (seen ++ [tradeMoment instrumentId side maker venue taker])
      (tradeStep b side maker rest venue taker).venue
        (tradeStep b side maker rest venue taker).taker
        (tradeStep b side maker rest venue taker).opposite) :
    ∀ (orders : List Order) (seen : List Moment) (venue : Venue) (taker : Order),
    P seen venue taker orders →
      P (seen ++ (sweep b instrumentId side limit orders venue taker).1)
          (sweep b instrumentId side limit orders venue taker).2.venue
          (sweep b instrumentId side limit orders venue taker).2.taker
          (sweep b instrumentId side limit orders venue taker).2.opposite ∧
        ∀ pre moment post, (sweep b instrumentId side limit orders venue taker).1 =
          pre ++ moment :: post →
          ∃ maker rest venue taker, P (seen ++ pre) venue taker (maker :: rest) ∧
          0 < taker.openQty ∧
            side.accepts limit maker.price = true ∧
            moment = tradeMoment instrumentId side maker venue taker := by
  intro orders
  induction orders with
  | nil =>
    intro seen venue taker start
    refine ⟨by simpa [sweep] using start, fun pre moment post split => ?_⟩
    simp [sweep] at split
  | cons maker rest ih =>
    intro seen venue taker start
    by_cases goesOn : 0 < taker.openQty ∧ side.accepts limit maker.price = true
    · have next := step seen venue taker maker rest start goesOn.1 goesOn.2
      by_cases closes : maker.openQty ≤ taker.openQty
      · have left : (tradeStep b side maker rest venue taker).opposite = rest := by
          simp [tradeStep, closes]
        rw [left] at next
        obtain ⟨ends, each⟩ := ih _ _ _ next
        simp only [sweep, goesOn, and_self, if_true, closes]
        refine ⟨by simpa using ends, fun pre moment post split => ?_⟩
        cases pre with
        | nil =>
          obtain ⟨rfl, _⟩ := List.cons.inj split
          exact ⟨maker, rest, venue, taker, by simpa using start, goesOn.1, goesOn.2, rfl⟩
        | cons head pre =>
          obtain ⟨rfl, later⟩ := List.cons.inj split
          have found := each pre moment post later
          simpa using found
      · simp only [sweep, goesOn, and_self, if_true, closes, if_false]
        refine ⟨next, fun pre moment post split => ?_⟩
        cases pre with
        | nil =>
          obtain ⟨rfl, _⟩ := List.cons.inj split
          exact ⟨maker, rest, venue, taker, by simpa using start, goesOn.1, goesOn.2, rfl⟩
        | cons head pre => simp at split
    · simp only [sweep, goesOn, if_false]
      refine ⟨by simpa using start, fun pre moment post split => ?_⟩
      simp at split

theorem sweepStops : ∀ (orders : List Order) (venue : Venue) (taker : Order),
    (sweep b instrumentId side limit orders venue taker).2.taker.openQty = 0 ∨
      ∀ maker ∈ (sweep b instrumentId side limit orders venue taker).2.opposite.head?,
        side.accepts limit maker.price = false := by
  intro orders
  induction orders with
  | nil => intro venue taker; exact .inr (fun maker impossible => by simp [sweep] at impossible)
  | cons maker rest ih =>
    intro venue taker
    by_cases goesOn : 0 < taker.openQty ∧ side.accepts limit maker.price = true
    · by_cases closes : maker.openQty ≤ taker.openQty
      · simp only [sweep, goesOn, and_self, if_true, closes]
        exact ih _ _
      · refine .inl ?_
        simp only [sweep, goesOn, and_self, if_true, closes, if_false, tradeStep, Order.fill]
        omega
    · simp only [sweep, goesOn, if_false]
      by_cases active : 0 < taker.openQty
      · refine .inr (fun first here => ?_)
        obtain rfl : maker = first := by simpa using here
        exact Bool.eq_false_iff.mpr (fun accepted => goesOn ⟨active, accepted⟩)
      · exact .inl (by simpa using active)

theorem sortedRefused {orders : List Order} (sorted : Sorted side.opposite orders)
    (first : ∀ maker ∈ orders.head?, side.accepts limit maker.price = false) :
    ∀ order ∈ orders, side.accepts limit order.price = false := by
  intro order member
  cases orders with
  | nil => contradiction
  | cons maker rest =>
    have refused := first maker rfl
    rcases List.mem_cons.mp member with rfl | later
    · exact refused
    · have behind := List.rel_of_pairwise_cons sorted later
      refine Bool.eq_false_iff.mpr (fun accepted => ?_)
      rw [Engine.acceptsBetter accepted behind] at refused
      contradiction

theorem sortedKeys {side : Side} {orders orders' : List Order} (sorted : Sorted side orders)
    (suffix : orders'.map Order.key <:+ orders.map Order.key) : Sorted side orders' := by
  have byKey : ∀ xs : List Order, Sorted side xs ↔
      (xs.map Order.key).Pairwise (fun a b => ¬side.better b.2 a.2) :=
    fun xs => (@List.pairwise_map _ _ Order.key (fun a b : OrderId × Int =>
      ¬side.better b.2 a.2) xs).symm
  rw [byKey] at sorted ⊢
  exact sorted.sublist suffix.sublist

theorem keyMember {orders orders' : List Order} {order : Order}
    (suffix : orders'.map Order.key <:+ orders.map Order.key) (member : order ∈ orders') :
    ∃ o ∈ orders, o.id = order.id ∧ o.price = order.price := by
  obtain ⟨o, listed, same⟩ := List.mem_map.mp (suffix.subset (List.mem_map_of_mem member))
  exact ⟨o, listed, congrArg Prod.fst same, congrArg Prod.snd same⟩

theorem sweepSweeping (base : Venue) (taker : Order) :
    Sweeping b side base (sweep b instrumentId side limit (base.orders b side.opposite) base
      taker).2.venue
        (sweep b instrumentId side limit (base.orders b side.opposite) base taker).2.opposite ∧
      ∀ moment ∈ (sweep b instrumentId side limit (base.orders b side.opposite) base taker).1,
        ∃ maker rest venue left, Sweeping b side base venue (maker :: rest) ∧ left.id = taker.id ∧
          0 < left.openQty ∧
          side.accepts limit maker.price = true ∧
            moment = tradeMoment instrumentId side maker venue left := by
  have swept := @sweepInduct b instrumentId side limit
    (fun _ venue left opposite => Sweeping b side base venue opposite ∧ left.id = taker.id)
    (fun _ _ _ _ _ ⟨sweeping, same⟩ _ _ => ⟨sweepingStep sweeping, same⟩)
    (base.orders b side.opposite) [] base taker ⟨sweepingStart base b side, rfl⟩
  refine ⟨swept.1.1, fun moment member => ?_⟩
  obtain ⟨pre, post, split⟩ := List.append_of_mem member
  obtain ⟨maker, rest, venue, left, ⟨sweeping, same⟩, trade⟩ := swept.2 pre moment post split
  exact ⟨maker, rest, venue, left, sweeping, same, trade⟩

end Sweeps

structure Fresh (venue : Venue) (order : NewOrder) (b : Nat) (book : Book) : Prop where
  configured : venue.configured = true
  index : venue.books.findIdx? (fun book => book.instrumentId = order.instrumentId) = some b
  here : venue.books[b]? = some book
  unused : order.orderId ∉ venue.spent

structure Replacing (venue : Venue) (request : ReplaceOrder) (b : Nat) (side : Side) (old : Order)
    (book : Book) :
    Prop where
  configured : venue.configured = true
  found : venue.findOpen request.orderId = some (b, side, old)
  here : venue.books[b]? = some book
  positive : 0 < (replacement request old).openQty
  unused : request.newOrderId ≠ request.orderId → request.newOrderId ∉ venue.spent
  aligned : TickTable.isTickAligned kTickSchedule request.newPrice = true
  inBand : outsideBand book request.newPrice = false

/- A resting order leaves on request, either canceled or replaced down to nothing. -/
inductive Leaves (old : Order) : Request → OrderId → Prop where
  | canceled (request : CancelOrder) : Leaves old (.cancel request) request.orderId
  | reduced (request : ReplaceOrder) (nothing : (replacement request old).openQty = 0) :
      Leaves old (.replace request) request.orderId

def work (b : Nat) (order : NewOrder) (venue : Venue) : List Moment × Sweep :=
  sweep b order.instrumentId order.side (limitOf order) (venue.orders b order.side.opposite) venue
    (takerOf order)

def acceptedMoment (order : NewOrder) (venue : Venue) : Moment :=
  { event := .accepted order.orderId, venue }

def settle (b : Nat) (side : Side) (swept : Sweep) : Venue :=
  if 0 < swept.taker.openQty then
    swept.venue.putSide b side (enqueue side swept.taker (swept.venue.orders b side))
  else swept.venue

def requeueSweep (request : ReplaceOrder) (b : Nat) (side : Side) (old : Order) (venue : Venue) :
    List Moment × Sweep :=
  if request.newPrice ≠ old.price then
    sweep b (((venue.books[b]?).map (·.instrumentId)).getD 0) side (some request.newPrice)
      (venue.orders b side.opposite) venue (replacement request old)
  else ([], ⟨venue, replacement request old, venue.orders b side.opposite⟩)

theorem requeueEqSettle (request : ReplaceOrder) (b : Nat) (side : Side) (old : Order)
    (venue : Venue) :
    requeue request b side old venue =
      (replacedMoment request (replacement request old) (venue.withdraw b side old.id)
        (some (replacement request old)) ::
          (requeueSweep request b side old (venue.withdraw b side old.id)).1,
        settle b side (requeueSweep request b side old (venue.withdraw b side old.id)).2) := by
  simp only [requeue, requeueSweep, settle]
  split
  · split
    · rfl
    · rfl
  · split
    · rfl
    · rfl

theorem disposeSettles {b : Nat} {order : NewOrder} (one : List Moment × Sweep)
    (day : order.tif = .day) : dispose b order one = (one.1, settle b order.side one.2) := by
  unfold dispose settle
  simp only [day, if_true]
  split <;> rfl

theorem disposeDrops {b : Nat} {order : NewOrder} (one : List Moment × Sweep)
    (notDay : order.tif ≠ .day) :
    dispose b order one = (one.1 ++ (if 0 < one.2.taker.openQty then
      [{ event := .canceled order.orderId one.2.taker.openQty (remainderReason order),
         venue := one.2.venue }] else []), one.2.venue) := by
  unfold dispose
  simp only [notDay, if_false]
  split
  · rfl
  · rw [List.append_nil]

theorem validPositive {order : NewOrder} {book : Book} (valid : invalid book order = none) :
    0 < order.quantity.toNat := by
  refine Nat.pos_of_ne_zero (fun zero => ?_)
  have none : order.quantity = 0 := UInt32.toNat_inj.mp zero
  simp [invalid, none] at valid

inductive Performed (feasible : Feasible) (venue : Venue) :
    Request → List Moment × Venue → Prop where
  | refused (request : Request) (id : OrderId) (reason : RejectReason) :
      Performed feasible venue request (reject id reason venue)
  | spoiled (order : NewOrder) (b : Nat) (book : Book) (reason : RejectReason)
    (fresh : Fresh venue order b book)
      (flaw : invalid book order = some reason) :
      Performed feasible venue (.submit order)
      (reject order.orderId reason (venue.spend order.orderId 0))
  | killed (order : NewOrder) (b : Nat) (book : Book) (fresh : Fresh venue order b book)
      (valid : invalid book order = none) (fok : order.tif = .fok)
      (short : feasible order.side (limitOf order) order.quantity.toNat
        (venue.orders b order.side.opposite) = false) :
      Performed feasible venue (.submit order)
        ([acceptedMoment order (venue.spend order.orderId 0),
          { event := .canceled order.orderId order.quantity.toNat .fokUnfillable,
            venue := venue.spend order.orderId 0 }],
          venue.spend order.orderId 0)
  | worked (order : NewOrder) (b : Nat) (book : Book) (fresh : Fresh venue order b book)
      (valid : invalid book order = none)
      (enough : order.tif = .fok →
        feasible order.side (limitOf order) order.quantity.toNat
        (venue.orders b order.side.opposite) = true) :
      Performed feasible venue (.submit order)
        (acceptedMoment order (venue.spend order.orderId 0) ::
            (dispose b order (work b order (venue.spend order.orderId 0))).1,
          (dispose b order (work b order (venue.spend order.orderId 0))).2)
  | withdrawn (request : Request) (id : OrderId) (b : Nat) (side : Side) (old : Order)
      (found : venue.findOpen id = some (b, side, old)) (leaves : Leaves old request id) :
      Performed feasible venue request (cancelOrder b side old venue)
  | requeued (request : ReplaceOrder) (b : Nat) (side : Side) (old : Order) (book : Book)
      (replacing : Replacing venue request b side old book)
      (loses : request.newPrice ≠ old.price ∨ old.openQty < (replacement request old).openQty) :
      Performed feasible venue (.replace request)
      (requeue request b side old (venue.spend request.newOrderId old.filledQty))
  | amended (request : ReplaceOrder) (b : Nat) (side : Side) (old : Order) (book : Book)
      (replacing : Replacing venue request b side old book)
      (samePrice : request.newPrice = old.price)
      (fewer : (replacement request old).openQty ≤ old.openQty) :
      Performed feasible venue (.replace request)
        ([replacedMoment request (replacement request old)
            ((venue.spend request.newOrderId old.filledQty).putSide b side
              (instead old.id (replacement request old) (venue.orders b side))) none],
          (venue.spend request.newOrderId old.filledQty).putSide b side
            (instead old.id (replacement request old) (venue.orders b side)))

section Performing
variable {venue : Venue}

theorem bookOfIndex {p : Book → Bool} {b : Nat} (found : venue.books.findIdx? p = some b) :
    ∃ book, venue.books[b]? = some book := by
  obtain ⟨inside, -⟩ := List.findIdx?_eq_some_iff_getElem.mp found
  exact ⟨_, List.getElem?_eq_getElem inside⟩

theorem performedSubmit (feasible : Feasible) (order : NewOrder) (venue : Venue) :
    Performed feasible venue (.submit order) (submit feasible order venue) := by
  unfold submit
  by_cases configured : venue.configured = true
  · simp only [configured, Bool.not_true, Bool.false_eq_true, if_false]
    cases found : venue.books.findIdx? (fun book => book.instrumentId = order.instrumentId) with
    | none => exact .refused ..
    | some b =>
      obtain ⟨book, here⟩ := bookOfIndex found
      by_cases used : order.orderId ∈ venue.spent
      · simp only [used, if_true]
        exact .refused ..
      have fresh : Fresh venue order b book := ⟨configured, found, here, used⟩
      have spent : (venue.spend order.orderId 0).books[b]? = some book := here
      simp only [used, if_false, spent, Option.bind_some]
      cases flaw : invalid book order with
      | some reason => exact .spoiled order b book reason fresh flaw
      | none =>
        simp only
        unfold execute
        by_cases fok : order.tif = .fok ∧ (!feasible order.side (limitOf order) order.quantity.toNat
            ((venue.spend order.orderId 0).orders b order.side.opposite)) = true
        · simp only [fok, and_self, if_true]
          exact .killed order b book fresh flaw fok.1 (Bool.not_eq_true' _ |>.mp fok.2)
        · simp only [fok, if_false]
          refine .worked order b book fresh flaw (fun isFok => ?_)
          by_contra short
          exact fok ⟨isFok, Bool.not_eq_true' _ |>.mpr (Bool.eq_false_iff.mpr short)⟩
  · simp only [configured, Bool.not_false, if_true]
    exact .refused ..

theorem findFromIndex (id : OrderId) {books : List Book} {k b : Nat} {found : Side × Order}
    (here : findFrom id k books = some (b, found)) :
    k ≤ b ∧ ∃ book, books[b - k]? = some book ∧ book.find id = some found := by
  induction books generalizing k with
  | nil => contradiction
  | cons first rest ih =>
    rw [findFrom] at here
    split at here
    · rename_i side order has
      cases Option.some.inj here
      exact ⟨Nat.le_refl _, first, by simp, has⟩
    · obtain ⟨past, book, inRest, has⟩ := ih here
      refine ⟨by omega, book, ?_, has⟩
      rw [show b - k = (b - (k + 1)) + 1 by omega]
      exact inRest

theorem bookFindMember {book : Book} {id : OrderId} {side : Side} {order : Order}
    (found : book.find id = some (side, order)) : order ∈ book.side side ∧ order.id = id := by
  unfold Book.find at found
  split at found
  · rename_i first inBids
    cases Option.some.inj found
    exact ⟨List.mem_of_find?_eq_some inBids, by simpa using List.find?_some inBids⟩
  · obtain ⟨o, inAsks, same⟩ := Option.map_eq_some_iff.mp found
    cases same
    exact ⟨List.mem_of_find?_eq_some inAsks, by simpa using List.find?_some inAsks⟩

theorem findOpenRests {id : OrderId} {b : Nat} {side : Side} {order : Order}
    (found : venue.findOpen id = some (b, side, order)) :
    (∃ book, venue.books[b]? = some book) ∧ order ∈ venue.orders b side ∧ order.id = id := by
  obtain ⟨_, book, here, has⟩ := findFromIndex id found
  rw [Nat.sub_zero] at here
  obtain ⟨member, same⟩ := bookFindMember has
  refine ⟨⟨book, here⟩, ?_, same⟩
  rw [orders, here]
  exact member

theorem performedReplace (feasible : Feasible) (request : ReplaceOrder) (venue : Venue) :
    Performed feasible venue (.replace request) (replace request venue) := by
  unfold replace
  by_cases configured : venue.configured = true
  · simp only [configured, Bool.not_true, Bool.false_eq_true, if_false]
    cases found : venue.findOpen request.orderId with
    | none => exact .refused ..
    | some place =>
      obtain ⟨b, side, old⟩ := place
      obtain ⟨⟨book, here⟩, _, _⟩ := findOpenRests found
      by_cases nothing : (replacement request old).openQty = 0
      · simp only [nothing, if_true]
        exact .withdrawn _ _ b side old found (.reduced request nothing)
      simp only [nothing, if_false]
      by_cases used : request.newOrderId ≠ request.orderId ∧ request.newOrderId ∈ venue.spent
      · simp only [if_pos used]
        exact .refused ..
      simp only [if_neg used]
      by_cases aligned : TickTable.isTickAligned kTickSchedule request.newPrice = true
      · simp only [aligned, Bool.not_true, Bool.false_eq_true, if_false, here, Option.map_some,
          Option.getD_some]
        by_cases outside : outsideBand book request.newPrice = true
        · simp only [outside, if_true]
          exact .refused ..
        · have replacing : Replacing venue request b side old book :=
            ⟨configured, found, here, Nat.pos_of_ne_zero nothing, fun other member =>
              used ⟨other, member⟩, aligned,
              Bool.eq_false_iff.mpr outside⟩
          simp only [outside, Bool.false_eq_true, if_false]
          unfold replaceOrder
          by_cases loses : request.newPrice ≠ old.price ∨
            old.openQty < (replacement request old).openQty
          · simp only [if_pos loses]
            exact .requeued request b side old book replacing loses
          · simp only [if_neg loses]
            push Not at loses
            exact .amended request b side old book replacing loses.1 loses.2
      · simp only [aligned, Bool.not_false, if_true]
        exact .refused ..
  · simp only [configured, Bool.not_false, if_true]
    exact .refused ..

theorem performedCancel (feasible : Feasible) (request : CancelOrder) (venue : Venue) :
    Performed feasible venue (.cancel request) (cancel request venue) := by
  unfold cancel
  by_cases configured : venue.configured = true
  · simp only [configured, Bool.not_true, Bool.false_eq_true, if_false]
    cases found : venue.findOpen request.orderId with
    | none => exact .refused ..
    | some place =>
      obtain ⟨b, side, old⟩ := place
      exact .withdrawn _ _ b side old found (.canceled request)
  · simp only [configured, Bool.not_false, if_true]
    exact .refused ..

theorem performed (feasible : Feasible) (request : Request) (venue : Venue) :
    Performed feasible venue request (perform feasible request venue) := by
  cases request with
  | submit order => exact performedSubmit feasible order venue
  | cancel request => exact performedCancel feasible request venue
  | replace request => exact performedReplace feasible request venue

end Performing
end Venue
end Xmatch
