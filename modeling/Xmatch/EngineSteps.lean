import Xmatch.Simulation

/-! The state changes a request is made of, each with what it means for the venue. -/
namespace Xmatch

namespace Venue

theorem putSidePutSide (venue : Venue) (b : Nat) (side : Side) (xs ys : List Order) :
    (venue.putSide b side xs).putSide b side ys = venue.putSide b side ys := by
  have twice : ∀ book : Book, (book.put side xs).put side ys = book.put side ys := by
    intro book
    cases side <;> rfl
  simp only [putSide, List.modify_modify_eq, Function.comp_def, twice]

end Venue

section Ids
variable {order first : Order} {left right rest orders : List Order}

theorem withoutSplit (distinct : ((left ++ order :: right).map (·.id)).Nodup) :
    without order.id (left ++ order :: right) = left ++ right := by
  simp only [List.map_append, List.map_cons, List.nodup_append, List.nodup_cons, List.mem_map,
    List.mem_cons] at distinct
  obtain ⟨_, ⟨notRight, _⟩, apart⟩ := distinct
  have keepLeft : without order.id left = left := by
    refine List.filter_eq_self.mpr (fun o member => ?_)
    simpa using apart o.id ⟨o, member, rfl⟩ order.id (.inl rfl)
  have keepRight : without order.id right = right := by
    refine List.filter_eq_self.mpr (fun o member => ?_)
    simpa using fun same => notRight ⟨o, member, same⟩
  rw [without, List.filter_append, List.filter_cons_of_neg (by simp)]
  exact congrArg₂ (· ++ ·) keepLeft keepRight

theorem insteadSplit {fresh : Order} (distinct : ((left ++ order :: right).map (·.id)).Nodup) :
    instead order.id fresh (left ++ order :: right) = left ++ fresh :: right := by
  simp only [List.map_append, List.map_cons, List.nodup_append, List.nodup_cons, List.mem_map,
    List.mem_cons] at distinct
  obtain ⟨_, ⟨notRight, _⟩, apart⟩ := distinct
  have keep : ∀ orders : List Order, (∀ o ∈ orders, o.id ≠ order.id) →
      instead order.id fresh orders = orders := by
    intro orders other
    refine (List.map_congr_left (fun o member => ?_)).trans (List.map_id' orders)
    rw [if_neg (other o member)]
  rw [instead, List.map_append, List.map_cons, if_pos rfl]
  have keepLeft := keep left (fun o member => apart o.id ⟨o, member, rfl⟩ order.id (.inl rfl))
  have keepRight := keep right (fun o member same => notRight ⟨o, member, same⟩)
  rw [instead] at keepLeft keepRight
  rw [keepLeft, keepRight]

theorem withoutHead (distinct : ((order :: rest).map (·.id)).Nodup) :
    without order.id (order :: rest) = rest := by
  have whole : (([] ++ order :: rest).map (·.id : Order → OrderId)).Nodup := distinct
  simpa using withoutSplit whole

end Ids

namespace Engine
open OrderBook

section Steps
variable {engine : Engine} {queues : Nat → Queues} {venue : Venue} {credit b : Nat} {side : Side}
  {level : Nat} {slot newSlot : Slot} {front back : List Slot}

theorem viewIdsNodup (rep : Rep engine queues) (inside : b < engine.books.size) (side : Side) :
    ((viewSide engine.pool (engine.books.read b) (queues b) side).map (·.id)).Nodup := by
  have shape := rep.shape b inside
  rw [viewSide, List.map_map]
  refine List.Nodup.map_on (fun x inX y inY same => ?_) (slotsNodup shape side)
  obtain ⟨_, hereX⟩ := (memSlotsOf shape).mp inX
  obtain ⟨_, hereY⟩ := (memSlotsOf shape).mp inY
  exact idUnique rep inside inside hereX hereY same

theorem stillHoused {queues queues' : Queues} (isOpen : (engine.pool.get slot).isOpen = true)
    (kept : ∀ s l, slot ∈ queues s l → slot ∈ queues' s l) : (∃ s l, slot ∈ queues' s l) ∨
      ((engine.pool.get slot).isOpen = true ∧ ∀ s l, slot ∉ queues s l) := by
  by_cases queued : ∃ s l, slot ∈ queues s l
  · obtain ⟨s, l, listed⟩ := queued
    exact .inl ⟨s, l, kept s l listed⟩
  · exact .inr ⟨isOpen, fun s l listed => queued ⟨s, l, listed⟩⟩

theorem livelySame {record record' : OrderRecord} (openQty : record'.openQty = record.openQty)
    (filledQty : record'.filledQty = record.filledQty) (lively : Lively record) :
    Lively record' := by
  refine ⟨?_, ?_⟩
  · rw [openQty]
    exact lively.left
  · rw [openQty, filledQty]
    exact lively.fits

theorem removeStep (rep : Rep engine queues) (view : View engine queues venue credit)
    (live : ∀ c < engine.books.size, ∀ s l, ∀ other ∈ queues c s l, other ≠ slot →
      Lively (engine.pool.get other))
    (inside : b < engine.books.size) (here : queues b side level = front ++ slot :: back) :
    ∃ engine', engine' = engine.putBook b (removeResting engine.pool (engine.books.read b) slot) ∧
      Rep engine' (Function.update queues b ((queues b).put side level (front ++ back))) ∧
      Live engine' (Function.update queues b ((queues b).put side level (front ++ back))) ∧
      View engine' (Function.update queues b ((queues b).put side level (front ++ back)))
        (venue.withdraw b side (engine.pool.get slot).id) (credit + 1) ∧
      (∀ s, (engine'.pool.get s).core = (left slot s (engine.pool.get s)).core) ∧
        engine'.pool.size = engine.pool.size := by
  have shape := rep.shape b inside
  have fitted := rep.fitted b inside
  have member : slot ∈ queues b side level := by simp [here]
  have bounded := occupiedInside shape member
  have queue := shape.queue side level bounded
  rw [here] at queue
  have records := removeRestingRecords queue
  obtain ⟨_, _, notFront, notBack, _, _⟩ := neighboursApart queue
  have field : ∀ {β : Type} (f : OrderRecord → β), (∀ r, f r.core = f r) →
      (∀ r, f { r with isOpen := false } = f r) →
      ∀ s, f ((removeResting engine.pool (engine.books.read b) slot).1.get s) =
      f (engine.pool.get s) := by
    intro β f blind idle s
    rw [← blind, records.core, blind, left]
    split
    · exact idle _
    · rfl
  have remaining : ∀ s l, ∀ other ∈ (queues b).put side level (front ++ back) s l,
      other ∈ queues b s l ∧ other ≠ slot := by
    intro s l other listed
    by_cases spot : s = side ∧ l = level
    · obtain ⟨rfl, rfl⟩ := spot
      rw [Queues.putSame] at listed
      rw [here]
      rcases List.mem_append.mp listed with inFront | inBack
      · exact ⟨by simp [inFront], fun same => notFront (same ▸ inFront)⟩
      · exact ⟨by simp [inBack], fun same => notBack (same ▸ inBack)⟩
    · rw [Queues.putOther spot] at listed
      exact ⟨listed, fun same => spot (oneQueue shape member (same ▸ listed))⟩
  have step : BookStep engine queues b (removeResting engine.pool (engine.books.read b) slot).1
      (removeResting engine.pool (engine.books.read b) slot).2
      ((queues b).put side level (front ++ back)) := by
    refine ⟨inside, removeRestingFrame .., records.size, records.chunks,
      removeRestingShape fitted shape (poolSmall rep) here, field _ (fun _ => rfl) (fun _ => rfl),
      fun c insideC other s l s' listed => ?_, fun s insideS isOpen => ?_, fun s l s' listed => ?_⟩
    · refine records.kept s' (fun mine => ?_)
      rw [← here] at mine
      exact other (oneBook rep insideC inside listed mine)
    · by_cases same : s = slot
      · have core := congrArg OrderRecord.isOpen (records.core s)
        rw [left, if_pos same] at core
        have closed : (false : Bool) = true := core.symm.trans isOpen
        contradiction
      · have core := congrArg OrderRecord.isOpen (records.core s)
        rw [left, if_neg same] at core
        refine stillHoused (core.symm.trans isOpen) (fun side' level' listed => ?_)
        by_cases spot : side' = side ∧ level' = level
        · obtain ⟨rfl, rfl⟩ := spot
          rw [here] at listed
          rw [Queues.putSame]
          simp only [List.mem_append, List.mem_cons] at listed ⊢
          tauto
        · rwa [Queues.putOther spot]
    · exact rep.indexed b inside s l s' (remaining s l s' listed).1
  have same : ∀ s, Lively (engine.pool.get s) →
      Lively ((removeResting engine.pool (engine.books.read b) slot).1.get s) :=
    fun s => livelySame (field OrderRecord.openQty (fun _ => rfl) (fun _ => rfl) s)
      (field OrderRecord.filledQty (fun _ => rfl) (fun _ => rfl) s)
  refine ⟨_, rfl, repStep rep.toStocked step (fun c insideC _ => rep.indexed c insideC),
    liveStep step ?_ ?_, ?_, records.core, records.size⟩
  · intro c insideC other s l s' listed
    refine live c insideC s l s' listed ?_
    rintro rfl
    exact other (oneBook rep insideC inside listed member)
  · intro s l s' listed
    obtain ⟨old, other⟩ := remaining s l s' listed
    exact same s' (live b inside s l s' old other)
  · obtain ⟨left, right, before, after, opposite⟩ := removeRestingView shape here
    have distinct := viewIdsNodup rep inside side
    rw [before] at distinct
    have removed : without (engine.pool.get slot).id (venue.orders b side) = left ++ right := by
      rw [ordersAt view inside, before]
      exact withoutSplit distinct
    rw [Venue.withdraw, removed]
    refine viewStep view step after opposite (field _ (fun _ => rfl) (fun _ => rfl)) ?_
    rw [ordersAt view inside, before]
    simp only [List.length_append, List.length_cons]
    omega

/- A record that carries an order which does not rest: an aggressor, or one about to rest. -/
structure Waiting (engine : Engine) (slot : Slot) (instrumentId : InstrumentId) (order : Order) :
    Prop where
  inside : slot.toNat < engine.pool.size
  idle : (engine.pool.get slot).isOpen = false
  owner : (engine.pool.get slot).instrumentId = instrumentId
  id : (engine.pool.get slot).id = order.id
  openQty : (engine.pool.get slot).openQty.toNat = order.openQty
  filledQty : (engine.pool.get slot).filledQty.toNat = order.filledQty
  indexed : engine.orderIndex.find order.id = some slot
  fits : order.openQty + order.filledQty < 2 ^ 32

structure Priced (book : OrderBook) (price : Int) (level : Nat) : Prop where
  bounded : level < book.levelCount
  index : book.priceToIndex price = (level : Int)
  price : book.indexToPrice (UInt32.ofNat level) = price

theorem notQueued (rep : Rep engine queues) (idle : (engine.pool.get slot).isOpen = false) :
    ∀ c < engine.books.size, ∀ s l, slot ∉ queues c s l := by
  intro c insideC s l member
  have := ((rep.shape c insideC).home s l slot member).isOpen
  rw [idle] at this
  contradiction

theorem waitingLively {instrumentId : InstrumentId} {order : Order}
    (waiting : Waiting engine slot instrumentId order) (positive : 0 < order.openQty) :
    Lively (engine.pool.get slot) := by
  refine ⟨?_, ?_⟩
  · rw [waiting.openQty]
    exact positive
  · rw [waiting.openQty, waiting.filledQty]
    exact waiting.fits

theorem waitingSame {engine' : Engine} {instrumentId : InstrumentId} {order : Order}
    (waiting : Waiting engine slot instrumentId order) (size : engine'.pool.size = engine.pool.size)
    (core : (engine'.pool.get slot).core = (engine.pool.get slot).core)
    (index : engine'.orderIndex.find order.id = engine.orderIndex.find order.id) :
    Waiting engine' slot instrumentId order where
  inside := by
    rw [size]
    exact waiting.inside
  idle := (coreField OrderRecord.isOpen (fun _ => rfl) core).trans waiting.idle
  owner := (coreField OrderRecord.instrumentId (fun _ => rfl) core).trans waiting.owner
  id := (coreField OrderRecord.id (fun _ => rfl) core).trans waiting.id
  openQty := by
    rw [coreField OrderRecord.openQty (fun _ => rfl) core]
    exact waiting.openQty
  filledQty := by
    rw [coreField OrderRecord.filledQty (fun _ => rfl) core]
    exact waiting.filledQty
  indexed := index.trans waiting.indexed
  fits := waiting.fits

theorem viewOrderEq {pool : OrderPool} {order : Order} (id : (pool.get slot).id = order.id)
    (openQty : (pool.get slot).openQty.toNat = order.openQty)
    (filledQty : (pool.get slot).filledQty.toNat = order.filledQty) :
    { viewOrder pool slot with price := order.price } = order := by
  simp only [viewOrder, id, openQty, filledQty]

theorem addStep {order : Order} (rep : Rep engine queues) (live : Live engine queues)
    (view : View engine queues venue (credit + 1)) (inside : b < engine.books.size)
    (waiting : Waiting engine slot (engine.books.read b).instrumentId order)
    (positive : 0 < order.openQty) (priced : Priced (engine.books.read b) order.price level)
    (side : Side) :
    ∃ queues', Rep (engine.putBook b
      (addResting engine.pool (engine.books.read b) slot side order.price)) queues' ∧
      Live (engine.putBook b
        (addResting engine.pool (engine.books.read b) slot side order.price)) queues' ∧
      View (engine.putBook b (addResting engine.pool (engine.books.read b) slot side order.price))
        queues'
        (venue.putSide b side (enqueue side order (venue.orders b side))) credit := by
  have shape := rep.shape b inside
  have fitted := rep.fitted b inside
  have fresh := notQueued rep waiting.idle
  have records := addRestingRecords slot (shape.queue side level priced.bounded) priced.index
  have field : ∀ {β : Type} (f : OrderRecord → β), (∀ r, f r.core = f r) →
      (∀ r a i, f { r with side, price := a, levelIndex := i, isOpen := true } = f r) → ∀ s,
      f ((addResting engine.pool (engine.books.read b) slot side order.price).1.get s) =
      f (engine.pool.get s) := by
    intro β f blind entering s
    rw [← blind, records.core, blind, entered]
    split
    · exact entering _ _ _
    · rfl
  have lists : ∀ s l, ∀ other ∈ (queues b).put side level (queues b side level ++ [slot]) s l,
      other = slot ∨ other ∈ queues b s l := by
    intro s l other listed
    by_cases spot : s = side ∧ l = level
    · obtain ⟨rfl, rfl⟩ := spot
      rw [Queues.putSame] at listed
      rcases List.mem_append.mp listed with old | new
      · exact .inr old
      · exact .inl (List.mem_singleton.mp new)
    · rw [Queues.putOther spot] at listed
      exact .inr listed
  have step : BookStep engine queues b
      (addResting engine.pool (engine.books.read b) slot side order.price).1
      (addResting engine.pool (engine.books.read b) slot side order.price).2
      ((queues b).put side level (queues b side level ++ [slot])) := by
    refine ⟨inside, addRestingFrame .., records.size, records.chunks, ?_,
      field _ (fun _ => rfl) (fun _ _ _ => rfl), fun c insideC other s l s' listed => ?_,
      fun s insideS isOpen => ?_, fun s l s' listed => ?_⟩
    · exact addRestingShape shape (poolSmall rep) waiting.inside
        (slotReal rep waiting.inside) waiting.idle
        waiting.owner priced.bounded priced.index priced.price
    · refine records.kept s' (fun mine => ?_)
      rcases List.mem_cons.mp mine with rfl | queued
      · exact fresh c insideC s l listed
      · exact other (oneBook rep insideC inside listed queued)
    · by_cases same : s = slot
      · exact .inl ⟨side, level, by rw [Queues.putSame, same]; simp⟩
      · have core := congrArg OrderRecord.isOpen (records.core s)
        rw [entered, if_neg same] at core
        refine stillHoused (core.symm.trans isOpen) (fun side' level' listed => ?_)
        by_cases spot : side' = side ∧ level' = level
        · obtain ⟨rfl, rfl⟩ := spot
          rw [Queues.putSame]
          exact List.mem_append_left _ listed
        · rwa [Queues.putOther spot]
    · rcases lists s l s' listed with rfl | old
      · rw [waiting.id]
        exact waiting.indexed
      · exact rep.indexed b inside s l s' old
  have same : ∀ s, Lively (engine.pool.get s) →
      Lively ((addResting engine.pool (engine.books.read b) slot side order.price).1.get s) :=
    fun s => livelySame (field OrderRecord.openQty (fun _ => rfl) (fun _ _ _ => rfl) s)
      (field OrderRecord.filledQty (fun _ => rfl) (fun _ _ _ => rfl) s)
  obtain ⟨after, opposite⟩ :=
    addRestingView fitted shape waiting.idle priced.bounded priced.index priced.price
  rw [viewOrderEq waiting.id waiting.openQty waiting.filledQty, ← ordersAt view inside] at after
  refine ⟨_, repStep rep.toStocked step (fun c insideC _ => rep.indexed c insideC),
    liveStep step (fun c insideC _ => live c insideC) (fun s l s' listed => ?_),
    viewStep view step after opposite (field _ (fun _ => rfl) (fun _ _ _ => rfl)) ?_⟩
  · rcases lists s l s' listed with rfl | old
    · exact same _ (waitingLively waiting positive)
    · exact same s' (live b inside s l s' old)
  · have grown : ∀ orders : List Order, (enqueue side order orders).length = orders.length + 1 := by
      intro orders
      induction orders with
      | nil => rfl
      | cons first rest ih =>
        rw [enqueue]
        split
        · rfl
        · rw [List.length_cons, ih, List.length_cons]
    rw [grown]
    omega

/- The new order takes the place of the old one. The id index names the new order already,
and under one id for both it no longer names the old one. -/
theorem inPlaceStep {order : Order} {named : FlatHashMap} (rep : Rep engine queues)
    (live : Live engine queues)
    (stocked : Stocked { engine with orderIndex := named } queues)
    (indexed : ∀ c < engine.books.size, ∀ s l, ∀ other ∈ queues c s l, other ≠ slot →
      named.find (engine.pool.get other).id = some other)
    (view : View { engine with orderIndex := named } queues venue credit)
    (inside : b < engine.books.size)
    (here : queues b side level = front ++ slot :: back)
    (waiting : Waiting { engine with orderIndex := named } newSlot
      (engine.books.read b).instrumentId order)
    (positive : 0 < order.openQty) (price : order.price = (engine.pool.get slot).price) :
    ∃ engine' queues', engine' = Engine.putBook { engine with orderIndex := named } b
        (replaceInPlace engine.pool (engine.books.read b) slot newSlot) ∧
      Rep engine' queues' ∧ Live engine' queues' ∧
      View engine' queues' (venue.putSide b side
        (instead (engine.pool.get slot).id order (venue.orders b side)))
        credit := by
  have shape := rep.shape b inside
  have member : slot ∈ queues b side level := by simp [here]
  have bounded := occupiedInside shape member
  have fresh := notQueued rep waiting.idle
  have queue := shape.queue side level bounded
  rw [here] at queue
  obtain ⟨_, _, notFront, notBack, _, _⟩ := neighboursApart queue
  have distinct : slot ≠ newSlot := fun same => fresh b inside side level (same ▸ member)
  have records := replaceInPlaceRecords distinct queue
  have field : ∀ {β : Type} (f : OrderRecord → β), (∀ r, f r.core = f r) →
      (∀ r, f { r with isOpen := false } = f r) →
      (∀ r s a i, f { r with side := s, price := a, levelIndex := i, isOpen := true } = f r) → ∀ s,
      f ((replaceInPlace engine.pool (engine.books.read b) slot newSlot).1.get s) =
      f (engine.pool.get s) := by
    intro β f blind idle entering s
    rw [← blind, records.core, blind, succeeded]
    split
    · exact idle _
    · split
      · exact entering _ _ _ _
      · rfl
  have lists : ∀ s l, ∀ other ∈ (queues b).put side level (front ++ newSlot :: back) s l,
      other = newSlot ∨ (other ∈ queues b s l ∧ other ≠ slot) := by
    intro s l other listed
    by_cases spot : s = side ∧ l = level
    · obtain ⟨rfl, rfl⟩ := spot
      rw [Queues.putSame] at listed
      rw [here]
      rcases List.mem_append.mp listed with inFront | inBack
      · exact .inr ⟨by simp [inFront], fun same => notFront (same ▸ inFront)⟩
      · rcases List.mem_cons.mp inBack with new | inBack
        · exact .inl new
        · exact .inr ⟨by simp [inBack], fun same => notBack (same ▸ inBack)⟩
    · rw [Queues.putOther spot] at listed
      exact .inr ⟨listed, fun same => spot (oneQueue shape member (same ▸ listed))⟩
  have step : BookStep { engine with orderIndex := named } queues b
      (replaceInPlace engine.pool (engine.books.read b) slot newSlot).1
      (replaceInPlace engine.pool (engine.books.read b) slot newSlot).2
      ((queues b).put side level (front ++ newSlot :: back)) := by
    refine ⟨inside, replaceInPlaceFrame .., records.size, records.chunks, ?_,
      field _ (fun _ => rfl) (fun _ => rfl) (fun _ _ _ _ => rfl),
      fun c insideC other s l s' listed => ?_, fun s insideS isOpen => ?_, fun s l s' listed => ?_⟩
    · exact replaceInPlaceShape shape here waiting.inside (slotReal rep waiting.inside)
        waiting.idle waiting.owner
    · refine records.kept s' (fun mine => ?_)
      rw [List.cons_append, List.mem_cons, ← here] at mine
      rcases mine with rfl | queued
      · exact fresh c insideC s l listed
      · exact other (oneBook rep insideC inside listed queued)
    · by_cases new : s = newSlot
      · exact .inl ⟨side, level, by rw [Queues.putSame, new]; simp⟩
      · have core := congrArg OrderRecord.isOpen (records.core s)
        by_cases old : s = slot
        · rw [succeeded, if_pos old] at core
          have closed : (false : Bool) = true := core.symm.trans isOpen
          contradiction
        · rw [succeeded, if_neg old, if_neg new] at core
          refine stillHoused (core.symm.trans isOpen) (fun side' level' listed => ?_)
          by_cases spot : side' = side ∧ level' = level
          · obtain ⟨rfl, rfl⟩ := spot
            rw [here] at listed
            rw [Queues.putSame]
            simp only [List.mem_append, List.mem_cons] at listed ⊢
            tauto
          · rwa [Queues.putOther spot]
    · rcases lists s l s' listed with rfl | ⟨old, other⟩
      · rw [waiting.id]
        exact waiting.indexed
      · exact indexed b inside s l s' old other
  have same : ∀ s, Lively (engine.pool.get s) →
      Lively ((replaceInPlace engine.pool (engine.books.read b) slot newSlot).1.get s) :=
    fun s => livelySame (field OrderRecord.openQty (fun _ => rfl) (fun _ => rfl)
      (fun _ _ _ _ => rfl) s)
      (field OrderRecord.filledQty (fun _ => rfl) (fun _ => rfl) (fun _ _ _ _ => rfl) s)
  obtain ⟨left, right, before, after, opposite⟩ := replaceInPlaceView shape here waiting.idle
  have ids := viewIdsNodup rep inside side
  rw [before] at ids
  have orders : venue.orders b side = left ++ viewOrder engine.pool slot :: right :=
    (ordersAt view inside side).trans before
  have placed : instead (engine.pool.get slot).id order (venue.orders b side) =
      left ++ order :: right := by
    rw [orders]
    exact insteadSplit ids
  rw [← price, viewOrderEq waiting.id waiting.openQty waiting.filledQty] at after
  rw [placed]
  have elsewhere : ∀ c < engine.books.size, c ≠ b → ∀ s l, ∀ other ∈ queues c s l,
      named.find (engine.pool.get other).id = some other := by
    intro c insideC apart s l other listed
    refine indexed c insideC s l other listed ?_
    rintro rfl
    exact apart (oneBook rep insideC inside listed member)
  refine ⟨_, _, rfl, repStep stocked step elsewhere,
    liveStep step (fun c insideC _ => live c insideC) (fun s l s' listed => ?_),
    viewStep view step after opposite
    (field _ (fun _ => rfl) (fun _ => rfl) (fun _ _ _ _ => rfl)) ?_⟩
  · rcases lists s l s' listed with rfl | ⟨old, _⟩
    · have lively := waitingLively waiting positive
      exact same _ lively
    · exact same s' (live b inside s l s' old)
  · rw [orders]
    simp only [List.length_append, List.length_cons]
    omega

end Steps
end Engine
end Xmatch
