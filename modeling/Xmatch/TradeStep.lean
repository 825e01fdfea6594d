import Xmatch.EngineSteps

/-! One trade of the matching loop: the callback, the quantities of both records and of
the level, and the resting order out of the book when nothing of it is left. -/
namespace Xmatch
namespace Engine
open OrderBook

def taken (qty : Quantity) (rec : OrderRecord) : OrderRecord :=
  { rec with openQty := rec.openQty - qty, filledQty := rec.filledQty + qty }

section Records
variable {pool : OrderPool} {aggressor resting : Slot} {qty : Quantity}

theorem fillGet (apart : aggressor ≠ resting) (s : Slot) :
    ((pool.fill aggressor qty).fill resting qty).get s =
      if s = resting ∨ s = aggressor then taken qty (pool.get s) else pool.get s := by
  simp only [OrderPool.fill, OrderPool.getModify, taken]
  by_cases r : s = resting
  · subst r
    rw [if_pos rfl, if_neg (Ne.symm apart), if_pos (.inl rfl)]
  · rw [if_neg r]
    by_cases a : s = aggressor
    · subst a
      rw [if_pos rfl, if_pos (.inr rfl)]
    · rw [if_neg a, if_neg (by simp [r, a])]

theorem takenExact {rec : OrderRecord} (enough : qty.toNat ≤ rec.openQty.toNat)
    (fits : rec.openQty.toNat + rec.filledQty.toNat < 2 ^ 32) :
    (taken qty rec).openQty.toNat = rec.openQty.toNat - qty.toNat ∧
      (taken qty rec).filledQty.toNat = rec.filledQty.toNat + qty.toNat := by
  refine ⟨UInt32.toNat_sub_of_le _ _ (UInt32.le_iff_toNat_le.mpr enough), ?_⟩
  rw [taken, UInt32.toNat_add]
  exact Nat.mod_eq_of_lt (by omega)

end Records

theorem repTradeId {engine : Engine} {queues : Nat → Queues} (rep : Rep engine queues)
    (n : TradeId) : Rep { engine with nextTradeId := n } queues :=
  ⟨⟨rep.index, rep.narrow, rep.stored, rep.few, rep.fitted, rep.shape, rep.named, rep.filed,
    rep.housed, rep.found⟩,
    rep.indexed⟩

theorem viewCredit {engine : Engine} {queues : Nat → Queues} {venue : Venue} {credit credit' : Nat}
    (view : View engine queues venue credit) (less : credit' ≤ credit) :
    View engine queues venue credit' :=
  ⟨view.configured, view.books, view.spent, view.traded,
    view.tradeId, by have := view.budget; omega⟩

theorem countTrade {engine : Engine} {queues : Nat → Queues} {venue : Venue} {credit : Nat}
    (rep : Rep engine queues) (view : View engine queues venue (credit + 1)) :
    View { engine with nextTradeId := engine.nextTradeId + 1 } queues
      { venue with nextTradeId := venue.nextTradeId + 1 } credit := by
  have budget := view.budget
  refine ⟨view.configured, view.books, view.spent, view.traded, ?_, ?_⟩
  · have narrow := poolSmall rep
    have exact := view.tradeId
    rw [UInt64.toNat_add, exact]
    exact Nat.mod_eq_of_lt (by simp only [UInt64.toNat_one]; omega)
  · have count : ({ venue with nextTradeId := venue.nextTradeId + 1 } : Venue).openCount =
        venue.openCount := rfl
    rw [count]
    simp only
    omega

/- The engine while an order is worked against a book. -/
structure Matching (engine : Engine) (queues : Nat → Queues) (venue : Venue) (b : Nat)
    (aggressor : Slot) (taker : Order) : Prop where
  rep : Rep engine queues
  live : Live engine queues
  inside : b < engine.books.size
  view : View engine queues venue (if 0 < taker.openQty then 1 else 0)
  waiting : Waiting engine aggressor (engine.books.read b).instrumentId taker

section Trade
variable {engine : Engine} {queues : Nat → Queues} {venue : Venue} {credit b : Nat} {side : Side}
  {level : Nat} {aggressor resting : Slot} {taker : Order} {qty : Quantity} {later : List Slot}

theorem settleBook (rep : Rep engine queues) (inside : b < engine.books.size)
    (idle : (engine.pool.get aggressor).isOpen = false)
    (member : resting ∈ queues b side.opposite level)
    (enough : qty.toNat ≤ (engine.pool.get resting).openQty.toNat) :
    BookStep engine queues b ((engine.pool.fill aggressor qty).fill resting qty)
      ((engine.books.read b).putLevel side.opposite (UInt32.ofNat level)
        { (engine.books.read b).levelAt side.opposite (UInt32.ofNat level) with
          totalQty :=
            ((engine.books.read b).levelAt side.opposite (UInt32.ofNat level)).totalQty - qty })
      (queues b) := by
  have away := notQueued rep idle
  have apart : aggressor ≠ resting := fun same => away b inside _ _ (same ▸ member)
  have shape := rep.shape b inside
  have kept : ∀ c < engine.books.size, ∀ s l, ∀ slot ∈ queues c s l,
      (engine.pool.fill aggressor qty).get slot = engine.pool.get slot := by
    intro c insideC s l slot listed
    refine OrderPool.getModifyOther _ _ ?_
    rintro rfl
    exact away c insideC s l listed
  have before : Shape (engine.pool.fill aggressor qty) (engine.books.read b) (queues b) :=
    shapeCongr shape (Nat.le_refl _) (kept b inside)
  have field : ∀ {β : Type} (f : OrderRecord → β), (∀ rec, f (taken qty rec) = f rec) → ∀ s,
      f (((engine.pool.fill aggressor qty).fill resting qty).get s) = f (engine.pool.get s) := by
    intro β f blind s
    rw [fillGet apart]
    split
    · exact blind _
    · rfl
  refine ⟨inside, putLevelFrame .., rfl, ?_, ?_, field _ (fun _ => rfl),
    fun c insideC other s l slot listed => ?_, fun slot insideS isOpen => ?_, rep.indexed b inside⟩
  · simp only [OrderPool.fill, OrderPool.modify, OrderPool.put, Buffer.sizeWrite]
  · refine fillShape before member ?_
    rw [kept b inside _ _ resting member]
    exact enough
  · have notResting : slot ≠ resting := by
      rintro rfl
      exact other (oneBook rep insideC inside listed member)
    rw [OrderPool.fill, OrderPool.getModifyOther _ _ notResting]
    exact kept c insideC s l slot listed
  · rw [field OrderRecord.isOpen (fun _ => rfl)] at isOpen
    by_cases queued : ∃ s l, slot ∈ queues b s l
    · exact .inl queued
    · exact .inr ⟨isOpen, fun s l listed => queued ⟨s, l, listed⟩⟩

theorem settleView (rep : Rep engine queues) (view : View engine queues venue credit)
    (inside : b < engine.books.size)
    (waiting : Waiting engine aggressor (engine.books.read b).instrumentId taker)
    (member : resting ∈ queues b side.opposite level)
    (first : slotsOf (engine.books.read b).levelCount (queues b) side.opposite = resting :: later)
    (lively : Lively (engine.pool.get resting))
    (enough : qty.toNat ≤ (engine.pool.get resting).openQty.toNat)
    (has : qty.toNat ≤ taker.openQty) :
    View (engine.settleTrade b side (UInt32.ofNat level) aggressor resting qty) queues
      (((venue.putSide b side.opposite
          ((viewOrder engine.pool resting).fill qty.toNat ::
            later.map (viewOrder engine.pool))).bump
        (engine.pool.get resting).id qty.toNat).bump taker.id qty.toNat) credit := by
  have away := notQueued rep waiting.idle
  have apart : aggressor ≠ resting := fun same => away b inside _ _ (same ▸ member)
  have shape := rep.shape b inside
  have step := settleBook rep inside waiting.idle member enough
  have exactR := takenExact enough lively.fits
  have exactA : (taken qty (engine.pool.get aggressor)).filledQty.toNat =
      taker.filledQty + qty.toNat := by
    have fits := waiting.fits
    rw [← waiting.filledQty]
    refine (takenExact ?_ ?_).2
    · rw [waiting.openQty]
      exact has
    · rw [waiting.openQty, waiting.filledQty]
      exact fits
  have notLater : ∀ s ∈ later, s ≠ resting ∧ s ≠ aggressor := by
    intro s listed
    have nodup := slotsNodup shape side.opposite
    rw [first] at nodup
    have queued : s ∈ slotsOf (engine.books.read b).levelCount (queues b) side.opposite := by
      rw [first]
      exact List.mem_cons_of_mem _ listed
    obtain ⟨l, inQueue⟩ := (memSlotsOf shape).mp queued
    exact ⟨fun same => (List.nodup_cons.mp nodup).1 (same ▸ listed),
      fun same => away b inside _ l (same ▸ inQueue)⟩
  have changed : viewSide ((engine.pool.fill aggressor qty).fill resting qty)
      ((engine.books.read b).putLevel side.opposite (UInt32.ofNat level)
        { (engine.books.read b).levelAt side.opposite (UInt32.ofNat level) with
          totalQty :=
            ((engine.books.read b).levelAt side.opposite (UInt32.ofNat level)).totalQty - qty })
      (queues b) side.opposite =
      (viewOrder engine.pool resting).fill qty.toNat :: later.map (viewOrder engine.pool) := by
    have count : ((engine.books.read b).putLevel side.opposite (UInt32.ofNat level)
        { (engine.books.read b).levelAt side.opposite (UInt32.ofNat level) with
          totalQty :=
            ((engine.books.read b).levelAt side.opposite (UInt32.ofNat level)).totalQty - qty
              }).levelCount =
        (engine.books.read b).levelCount := by
      rw [levelCount, levelCount, (putLevelFrame ..).ladder]
    rw [viewSide, count, first, List.map_cons]
    congr 1
    · simp only [viewOrder, fillGet apart, true_or, if_true, exactR.1, exactR.2, Order.fill]
      rfl
    · refine List.map_congr_left (fun s listed => ?_)
      obtain ⟨notR, notA⟩ := notLater s listed
      simp only [viewOrder, fillGet apart, notR, notA, or_self, if_false]
  have kept : viewSide ((engine.pool.fill aggressor qty).fill resting qty)
      ((engine.books.read b).putLevel side.opposite (UInt32.ofNat level)
        { (engine.books.read b).levelAt side.opposite (UInt32.ofNat level) with
          totalQty :=
            ((engine.books.read b).levelAt side.opposite (UInt32.ofNat level)).totalQty - qty })
      (queues b) side.opposite.opposite =
      viewSide engine.pool (engine.books.read b) (queues b) side.opposite.opposite := by
    refine viewCongr (putLevelFrame ..) rfl (fun s listed => ?_)
    obtain ⟨l, inQueue⟩ := (memSlotsOf shape).mp listed
    have notA : s ≠ aggressor := fun same => away b inside _ l (same ▸ inQueue)
    have notR : s ≠ resting :=
      fun same => Side.oppositeNe side.opposite (oneQueue shape member (same ▸ inQueue)).1
    simp only [viewOrder, fillGet apart, notR, notA, or_self, if_false]
  have books := booksStep view step changed kept
  rw [Function.update_eq_self] at books
  refine ⟨view.configured, books, view.spent, fun id s found => ?_, view.tradeId, ?_⟩
  · obtain ⟨_, named⟩ := rep.found id s found
    have before := view.traded id s found
    have restingIndex := rep.indexed b inside _ level resting member
    change (((engine.pool.fill aggressor qty).fill resting qty).get s).filledQty.toNat = _
    simp only [fillGet apart, Venue.bump, Venue.putSide]
    by_cases r : s = resting
    · subst r
      have other : id ≠ taker.id := by
        rintro rfl
        have index : engine.orderIndex.find taker.id = some s := found
        rw [waiting.indexed] at index
        exact apart (Option.some.inj index)
      rw [if_pos (.inl rfl), if_neg other, if_pos named.symm, exactR.2, before]
    · by_cases a : s = aggressor
      · subst a
        have same : id = taker.id := named.symm.trans waiting.id
        have other : id ≠ (engine.pool.get resting).id := by
          rintro rfl
          have index : engine.orderIndex.find (engine.pool.get resting).id = some s := found
          rw [restingIndex] at index
          exact apart (Option.some.inj index).symm
        rw [if_pos (.inr rfl), if_pos same, if_neg other, exactA, ← before, waiting.filledQty]
      · have notTaker : id ≠ taker.id := by
          rintro rfl
          have index : engine.orderIndex.find taker.id = some s := found
          rw [waiting.indexed] at index
          exact a (Option.some.inj index).symm
        have notMaker : id ≠ (engine.pool.get resting).id := by
          rintro rfl
          have index : engine.orderIndex.find (engine.pool.get resting).id = some s := found
          rw [restingIndex] at index
          exact r (Option.some.inj index).symm
        rw [if_neg (by simp [r, a]), if_neg notTaker, if_neg notMaker, before]
  · have count := Venue.openCountPut side.opposite
      ((viewOrder engine.pool resting).fill qty.toNat :: later.map (viewOrder engine.pool))
      (bookAt view inside)
    rw [viewBookSide, viewSide, first] at count
    simp only [List.map_cons, List.length_cons, List.length_map] at count
    have budget := view.budget
    change venue.nextTradeId + (venue.putSide b side.opposite _).openCount + credit ≤
      2 * engine.pool.size + 1
    omega

def finishTrade (engine : Engine) (b : Nat) (side : Side) (idx : UInt32) (aggressor resting : Slot)
    (qty : Quantity) : Engine :=
  let settled := engine.settleTrade b side idx aggressor resting qty
  if (settled.pool.get resting).openQty = 0 then
    settled.putBook b (removeResting settled.pool (settled.books.read b) resting)
  else settled

def Foremost (queues : Queues) (side : Side) (level : Nat) : Prop :=
  ∀ l, queues side l ≠ [] → ¬side.ahead l level

theorem foremostBest {pool : OrderPool} {book : OrderBook} {queues : Queues}
    (shape : Shape pool book queues) (foremost : Foremost queues side level)
    (occupied : queues side level ≠ []) : book.bestIndex side = (level : Int) := by
  rcases Int.lt_or_le (book.bestIndex side) 0 with none | real
  · exact absurd occupied (((shape.best side).none none).2 level)
  · obtain ⟨best, same⟩ := Int.eq_ofNat_of_zero_le real
    obtain ⟨taken, first⟩ := (shape.best side).some best same
    rw [same, Side.aheadAntisymm (foremost best taken) (first level occupied)]

/- The quantities of a trade are exchanged, and the resting order is still in its queue, live or
not. -/
structure Exchanged (engine : Engine) (queues : Nat → Queues) (venue : Venue) (b : Nat)
    (aggressor resting : Slot) (taker : Order) (qty : Quantity) (settled : Engine) : Prop where
  rep : Rep settled queues
  view : View settled queues venue 0
  waiting : Waiting settled aggressor (settled.books.read b).instrumentId (taker.fill qty.toNat)
  others : ∀ c < settled.books.size, ∀ s l, ∀ other ∈ queues c s l, other ≠ resting →
    Lively (settled.pool.get other)
  record : settled.pool.get resting = taken qty (engine.pool.get resting)
  inside : b < settled.books.size

theorem tradeExchanged (matching : Matching engine queues venue b aggressor taker)
    (active : 0 < taker.openQty) (member : resting ∈ queues b side.opposite level)
    (first : slotsOf (engine.books.read b).levelCount (queues b) side.opposite = resting :: later)
    (enough : qty.toNat ≤ (engine.pool.get resting).openQty.toNat)
    (has : qty.toNat ≤ taker.openQty) :
    Exchanged engine queues
      ((({ venue with nextTradeId := venue.nextTradeId + 1 }.putSide b side.opposite
        ((viewOrder engine.pool resting).fill qty.toNat :: later.map (viewOrder engine.pool))).bump
          (engine.pool.get resting).id qty.toNat).bump taker.id qty.toNat) b aggressor
    resting taker qty
      (Engine.settleTrade { engine with nextTradeId := engine.nextTradeId + 1 } b side
        (UInt32.ofNat level) aggressor resting qty) := by
  have inside := matching.inside
  have waiting := matching.waiting
  have away := notQueued matching.rep waiting.idle
  have apart : aggressor ≠ resting := fun same => away b inside _ _ (same ▸ member)
  have lively := matching.live b inside _ level resting member
  have view : View engine queues venue (0 + 1) := by
    have view := matching.view
    rwa [if_pos active] at view
  have rep := repTradeId matching.rep (engine.nextTradeId + 1)
  have waiting' : Waiting { engine with nextTradeId := engine.nextTradeId + 1 } aggressor
      (engine.books.read b).instrumentId taker := waitingSame waiting rfl rfl rfl
  have settledView :=
    settleView rep (countTrade matching.rep view) inside waiting' member first lively enough has
  have settledRep := repStep rep.toStocked (settleBook rep inside waiting.idle member enough)
    (fun c insideC _ => rep.indexed c insideC)
  rw [Function.update_eq_self] at settledRep
  obtain ⟨settled, settledIs⟩ : ∃ settled, settled = Engine.settleTrade
      { engine with nextTradeId := engine.nextTradeId + 1 } b side (UInt32.ofNat level) aggressor
      resting qty := ⟨_, rfl⟩
  have settledRep : Rep settled queues := settledIs ▸ settledRep
  rw [← settledIs] at settledView ⊢
  have records : ∀ s, settled.pool.get s =
      if s = resting ∨ s = aggressor then taken qty (engine.pool.get s) else engine.pool.get s := by
    intro s
    rw [settledIs]
    exact fillGet apart s
  have size : settled.books.size = engine.books.size ∧ settled.pool.size = engine.pool.size ∧
      settled.orderIndex = engine.orderIndex := by
    rw [settledIs]
    exact ⟨rfl, rfl, rfl⟩
  have named : (settled.books.read b).instrumentId = (engine.books.read b).instrumentId := by
    rw [settledIs, settleTrade, readPutBook, if_pos rfl]
    exact (putLevelFrame ..).instrumentId
  refine ⟨settledRep, settledView, ?_, fun c insideC s l other listed notResting => ?_, ?_,
    by rw [size.1]; exact inside⟩
  · have hasRecord : qty.toNat ≤ (engine.pool.get aggressor).openQty.toNat := by
      rw [waiting.openQty]
      exact has
    have exactly :=
      takenExact hasRecord (by rw [waiting.openQty, waiting.filledQty]; exact waiting.fits)
    have own := records aggressor
    rw [if_pos (.inr rfl)] at own
    refine ⟨by rw [size.2.1]; exact waiting.inside, ?_, ?_, ?_, ?_, ?_, ?_, ?_⟩
    · rw [own]
      exact waiting.idle
    · rw [own, named]
      exact waiting.owner
    · rw [own]
      exact waiting.id
    · rw [own, exactly.1, waiting.openQty]
      rfl
    · rw [own, exactly.2, waiting.filledQty]
      rfl
    · rw [size.2.2]
      exact waiting.indexed
    · have := waiting.fits
      simp only [Order.fill]
      omega
  · rw [size.1] at insideC
    have notAggressor : other ≠ aggressor := fun same => away c insideC s l (same ▸ listed)
    rw [records, if_neg (by simp [notResting, notAggressor])]
    exact matching.live c insideC s l other listed
  · rw [records, if_pos (.inl rfl)]

theorem exchangedCloses {settled : Engine} {rest : List Slot} {filled : Order} {orders : List Order}
    (exchanged : Exchanged engine queues venue b aggressor resting taker qty settled)
    (here : queues b side level = resting :: rest) (front : venue.orders b side = filled :: orders)
    (named : (settled.pool.get resting).id = filled.id) (apart : aggressor ≠ resting) :
    Matching (settled.putBook b (removeResting settled.pool (settled.books.read b) resting))
      (Function.update queues b ((queues b).put side level rest))
        (venue.putSide b side orders) b aggressor
      (taker.fill qty.toNat) := by
  have alone : queues b side level = [] ++ resting :: rest := here
  obtain ⟨removed, removedIs, rep, live, view, core, size⟩ :=
    removeStep exchanged.rep exchanged.view exchanged.others exchanged.inside alone
  have distinct := viewIdsNodup exchanged.rep exchanged.inside side
  rw [← ordersAt exchanged.view exchanged.inside, front] at distinct
  rw [Venue.withdraw, named, front, withoutHead distinct] at view
  have instrument : (removed.books.read b).instrumentId = (settled.books.read b).instrumentId := by
    rw [removedIs, readPutBook, if_pos rfl]
    exact (removeRestingFrame ..).instrumentId
  have same : (removed.pool.get aggressor).core = (settled.pool.get aggressor).core := by
    rw [core, left, if_neg apart]
  have index : removed.orderIndex = settled.orderIndex := by
    rw [removedIs]
    rfl
  rw [← removedIs]
  refine ⟨rep, live, by rw [removedIs]; exact exchanged.inside, viewCredit view (by split <;> omega), ?_⟩
  rw [instrument]
  exact waitingSame exchanged.waiting size same (by rw [index])

theorem updatedForemost (foremost : Foremost (queues b) side level) (slots : List Slot) :
    Foremost (Function.update queues b ((queues b).put side level slots) b) side level := by
  intro l occupied
  rw [Function.update_self] at occupied
  by_cases spot : l = level
  · rw [spot]
    exact Side.aheadIrrefl _ _
  · rw [Queues.putOther (fun h => spot h.2)] at occupied
    exact foremost l occupied

theorem tradeMatching (matching : Matching engine queues venue b aggressor taker)
    (active : 0 < taker.openQty) (foremost : Foremost (queues b) side.opposite level)
    {rest : List Slot} (here : queues b side.opposite level = resting :: rest)
    (qtyIs : qty.toNat = min taker.openQty (engine.pool.get resting).openQty.toNat) :
    ∃ queues' orders, venue.orders b side.opposite = viewOrder engine.pool resting :: orders ∧
      Matching (finishTrade { engine with nextTradeId := engine.nextTradeId + 1 } b side
        (UInt32.ofNat level)
        aggressor resting qty) queues' (Venue.tradeStep b side
        (viewOrder engine.pool resting) orders venue taker).venue
        b aggressor (Venue.tradeStep b side (viewOrder engine.pool resting) orders venue
          taker).taker ∧
      Foremost (queues' b) side.opposite level ∧
      ((Venue.tradeStep b side (viewOrder engine.pool resting) orders venue taker).taker.openQty =
        0 ∨
        queues' b side.opposite level = rest) := by
  have inside := matching.inside
  have member : resting ∈ queues b side.opposite level := by
    rw [here]
    exact List.mem_cons_self
  have apart : aggressor ≠ resting :=
    fun same => notQueued matching.rep matching.waiting.idle b inside _ _ (same ▸ member)
  have best :=
    foremostBest (matching.rep.shape b inside) foremost (by rw [here]; exact List.cons_ne_nil _ _)
  obtain ⟨slot, tail, later, split, first, _, _⟩ := bestFirst (matching.rep.shape b inside) best
  rw [here] at split
  obtain ⟨rfl, rfl⟩ := List.cons.inj split
  have lively := matching.live b inside _ level resting member
  have ordersIs : venue.orders b side.opposite =
      viewOrder engine.pool resting :: (rest ++ later).map (viewOrder engine.pool) := by
    rw [ordersAt matching.view inside, viewSide, first, List.map_cons]
  have enough : qty.toNat ≤ (engine.pool.get resting).openQty.toNat := by omega
  have has : qty.toNat ≤ taker.openQty := by omega
  have exchanged := tradeExchanged matching active member first enough has
  have exactly := takenExact enough lively.fits
  have openIs : (viewOrder engine.pool resting).openQty = (engine.pool.get resting).openQty.toNat :=
    rfl
  obtain ⟨settled, settledIs⟩ : ∃ settled, settled = Engine.settleTrade
      { engine with nextTradeId := engine.nextTradeId + 1 } b side (UInt32.ofNat level) aggressor
      resting qty := ⟨_, rfl⟩
  rw [← settledIs] at exchanged
  have own := exchanged.record
  by_cases closes : (engine.pool.get resting).openQty.toNat ≤ taker.openQty
  · have drained : (settled.pool.get resting).openQty = 0 := by
      rw [own, ← UInt32.toNat_inj, exactly.1]
      simp only [UInt32.toNat_zero]
      omega
    have finish : finishTrade { engine with nextTradeId := engine.nextTradeId + 1 } b side
        (UInt32.ofNat level)
        aggressor resting qty =
        settled.putBook b (removeResting settled.pool (settled.books.read b) resting) := by
      rw [finishTrade, ← settledIs]
      simp only [drained, if_true]
    have book : ({ venue with nextTradeId := venue.nextTradeId + 1 } : Venue).books[b]? =
        some (viewBook engine.pool (engine.books.read b) (queues b)) := by
      have listed := bookAt matching.view inside
      exact listed
    have front := Venue.ordersPut side.opposite
      ((viewOrder engine.pool resting).fill qty.toNat ::
        (rest ++ later).map (viewOrder engine.pool)) book
    have named : (settled.pool.get resting).id =
        ((viewOrder engine.pool resting).fill qty.toNat).id := by
      rw [own]
      rfl
    have closed := exchangedCloses exchanged here front named apart
    have stepIs : Venue.tradeStep b side (viewOrder engine.pool resting)
        ((rest ++ later).map (viewOrder engine.pool)) venue taker =
        ⟨(({ venue with nextTradeId := venue.nextTradeId + 1 }.putSide b side.opposite
          ((rest ++ later).map (viewOrder engine.pool))).bump (engine.pool.get resting).id
        qty.toNat).bump taker.id qty.toNat,
          taker.fill qty.toNat, (rest ++ later).map (viewOrder engine.pool)⟩ := by
      rw [Venue.tradeStep]
      simp only [openIs, closes, if_true, ← qtyIs]
      rfl
    refine ⟨_, (rest ++ later).map (viewOrder engine.pool), ordersIs, ?_,
      updatedForemost foremost rest, .inr ?_⟩
    · rw [finish, stepIs, ← Venue.putSidePutSide _ b side.opposite
        ((viewOrder engine.pool resting).fill qty.toNat ::
          (rest ++ later).map (viewOrder engine.pool))]
      exact closed
    · rw [Function.update_self, Queues.putSame]
  · have left : (settled.pool.get resting).openQty ≠ 0 := by
      rw [own, Ne, ← UInt32.toNat_inj, exactly.1]
      simp only [UInt32.toNat_zero]
      omega
    have finish : finishTrade { engine with nextTradeId := engine.nextTradeId + 1 } b side
        (UInt32.ofNat level)
        aggressor resting qty = settled := by
      rw [finishTrade, ← settledIs]
      simp only [left, if_false]
    have stepIs : Venue.tradeStep b side (viewOrder engine.pool resting)
        ((rest ++ later).map (viewOrder engine.pool)) venue taker =
        ⟨(({ venue with nextTradeId := venue.nextTradeId + 1 }.putSide b side.opposite
          ((viewOrder engine.pool resting).fill qty.toNat ::
            (rest ++ later).map (viewOrder engine.pool))).bump
            (engine.pool.get resting).id qty.toNat).bump taker.id qty.toNat, taker.fill qty.toNat,
          (viewOrder engine.pool resting).fill qty.toNat ::
          (rest ++ later).map (viewOrder engine.pool)⟩ := by
      rw [Venue.tradeStep]
      simp only [openIs, closes, if_false, ← qtyIs]
      rfl
    have spent : (taker.fill qty.toNat).openQty = 0 := by
      simp only [Order.fill]
      omega
    refine ⟨queues, (rest ++ later).map (viewOrder engine.pool), ordersIs, ?_, foremost, .inl ?_⟩
    · rw [finish, stepIs]
      refine ⟨exchanged.rep, fun c insideC s l other listed => ?_, exchanged.inside,
        viewCredit exchanged.view ?_, exchanged.waiting⟩
      · by_cases same : other = resting
        · rw [same, own]
          exact ⟨by rw [exactly.1]; omega, by rw [exactly.1, exactly.2]; have := lively.fits; omega⟩
        · exact exchanged.others c insideC s l other listed same
      · rw [if_neg (by rw [spent]; omega)]
    · rw [stepIs]
      exact spent

end Trade
end Engine
end Xmatch
