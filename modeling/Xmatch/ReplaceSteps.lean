import Xmatch.SubmitSteps

/-! A cancel and a replace of the engine follow those of the venue. -/
namespace Xmatch

namespace Venue

theorem findFromNone (id : OrderId) {books : List Book}
    (absent : ∀ book ∈ books, book.find id = none) (k : Nat) : findFrom id k books = none := by
  induction books generalizing k with
  | nil => rfl
  | cons first rest ih =>
    rw [findFrom, absent first List.mem_cons_self]
    exact ih (fun book member => absent book (List.mem_cons_of_mem _ member)) _

theorem findFromSome (id : OrderId) {books : List Book} {b : Nat} {book : Book}
    {found : Side × Order} (here : books[b]? = some book) (has : book.find id = some found)
    (earlier : ∀ c < b, ∀ other, books[c]? = some other → other.find id = none) (k : Nat) :
    findFrom id k books = some (k + b, found) := by
  induction books generalizing b k with
  | nil => simp at here
  | cons first rest ih =>
    cases b with
    | zero =>
      obtain rfl : first = book := by simpa using here
      rw [findFrom, has]
      rfl
    | succ b =>
      rw [findFrom, earlier 0 (Nat.succ_pos b) first rfl]
      have later := ih (b := b) (by simpa using here)
        (fun c below other at' =>
          earlier (c + 1) (Nat.succ_lt_succ below) other (by simpa using at')) (k + 1)
      rw [later, Nat.add_assoc, Nat.add_comm 1 b]

theorem findUnique {orders : List Order} {order : Order} (member : order ∈ orders)
    (unique : ∀ other ∈ orders, other.id = order.id → other = order) :
    orders.find? (fun o => o.id = order.id) = some order := by
  cases found : orders.find? (fun o => o.id = order.id) with
  | none =>
    have missed := List.find?_eq_none.mp found order member
    simp at missed
  | some other =>
    have same : other.id = order.id := by simpa using List.find?_some found
    rw [unique other (List.mem_of_find?_eq_some found) same]

theorem findAbsent {orders : List Order} {id : OrderId} (absent : ∀ order ∈ orders, order.id ≠ id) :
    orders.find? (fun o => o.id = id) = none :=
  List.find?_eq_none.mpr (fun order member => by simpa using absent order member)

end Venue

namespace Engine
open OrderBook Effect

section Finding
variable {engine : Engine} {queues : Nat → Queues} {venue : Venue} {credit b : Nat} {side : Side}
  {level : Nat} {slot : Slot} {id : OrderId}

theorem viewMember (rep : Rep engine queues) (inside : b < engine.books.size) {order : Order} :
    order ∈ viewSide engine.pool (engine.books.read b) (queues b) side ↔
      ∃ level, ∃ slot ∈ queues b side level, order = viewOrder engine.pool slot := by
  rw [viewSide, List.mem_map]
  constructor
  · rintro ⟨slot, listed, rfl⟩
    obtain ⟨level, member⟩ := (memSlotsOf (rep.shape b inside)).mp listed
    exact ⟨level, slot, member, rfl⟩
  · rintro ⟨level, slot, member, rfl⟩
    exact ⟨slot, (memSlotsOf (rep.shape b inside)).mpr ⟨level, member⟩, rfl⟩

theorem bookFindNone (rep : Rep engine queues) (inside : b < engine.books.size)
    (absent : ∀ s l, ∀ other ∈ queues b s l, (engine.pool.get other).id ≠ id) :
    (viewBook engine.pool (engine.books.read b) (queues b)).find id = none := by
  have side : ∀ s, (viewSide engine.pool (engine.books.read b) (queues b) s).find? (fun o => o.id =
    id) = none := by
    intro s
    refine Venue.findAbsent (fun order member => ?_)
    obtain ⟨l, other, queued, rfl⟩ := (viewMember rep inside).mp member
    exact absent s l other queued
  simp only [Book.find, viewBook, side, Option.map_none]

theorem bookFindSome (rep : Rep engine queues) (inside : b < engine.books.size)
    (member : slot ∈ queues b side level) :
    (viewBook engine.pool (engine.books.read b) (queues b)).find (engine.pool.get slot).id =
      some (side, viewOrder engine.pool slot) := by
  have own : (viewSide engine.pool (engine.books.read b) (queues b) side).find?
      (fun o => o.id = (engine.pool.get slot).id) = some (viewOrder engine.pool slot) := by
    refine Venue.findUnique ((viewMember rep inside).mpr ⟨level, slot, member, rfl⟩)
      (fun order listed same => ?_)
    obtain ⟨l, other, queued, rfl⟩ := (viewMember rep inside).mp listed
    rw [idUnique rep inside inside queued member same]
  have opposite : (viewSide engine.pool (engine.books.read b) (queues b) side.opposite).find?
      (fun o => o.id = (engine.pool.get slot).id) = none := by
    refine Venue.findAbsent (fun order listed same => ?_)
    obtain ⟨l, other, queued, rfl⟩ := (viewMember rep inside).mp listed
    have twin := idUnique rep inside inside queued member same
    subst twin
    exact Side.oppositeNe side (oneQueue (rep.shape b inside) member queued).1
  cases side
  · simp only [Book.find, viewBook, own]
  · simp only [Side.opposite] at opposite
    simp only [Book.find, viewBook, own, opposite, Option.map_some]

theorem venueFindSome (rep : Rep engine queues) (view : View engine queues venue credit)
    (inside : b < engine.books.size) (member : slot ∈ queues b side level) :
    venue.findOpen (engine.pool.get slot).id = some (b, side, viewOrder engine.pool slot) := by
  have found := Venue.findFromSome (engine.pool.get slot).id (bookAt view inside)
      (bookFindSome rep inside member)
    (fun c below other here => by
      have insideC : c < engine.books.size := Nat.lt_trans below inside
      cases Option.some.inj ((bookAt view insideC).symm.trans here)
      refine bookFindNone rep insideC (fun s l other queued same => ?_)
      have twin := idUnique rep insideC inside queued member same
      subst twin
      have := oneBook rep insideC inside queued member
      omega) 0
  rw [Venue.findOpen, found, Nat.zero_add]

theorem venueFindNone (rep : Rep engine queues) (view : View engine queues venue credit)
    (absent : ∀ b < engine.books.size, ∀ s l, ∀ other ∈ queues b s l,
      (engine.pool.get other).id ≠ id) :
    venue.findOpen id = none := by
  refine Venue.findFromNone id (fun book listed => ?_) 0
  rw [view.books] at listed
  obtain ⟨b, inRange, rfl⟩ := List.mem_map.mp listed
  have inside := List.mem_range.mp inRange
  exact bookFindNone rep inside (absent b inside)

structure Rests (engine : Engine) (queues : Nat → Queues) (id : OrderId) (slot : Slot) (b : Nat)
    (side : Side) (level : Nat) : Prop where
  inside : b < engine.books.size
  member : slot ∈ queues b side level
  named : (engine.pool.get slot).id = id
  book : engine.bookOf slot = b
  indexed : engine.orderIndex.find id = some slot

theorem findOpenSome (rep : Rep engine queues) (found : engine.findOpen id = some slot) :
    ∃ b side level, Rests engine queues id slot b side level := by
  unfold findOpen at found
  split at found
  · contradiction
  · rename_i other indexed
    split at found
    · rename_i isOpen
      cases Option.some.inj found
      obtain ⟨real, named⟩ := rep.found id slot indexed
      obtain ⟨b, inside, side, level, member⟩ := rep.housed slot real isOpen
      have home := (rep.shape b inside).home side level slot member
      refine ⟨b, side, level, inside, member, named, ?_, indexed⟩
      rw [bookOf, home.instrumentId, findBookOf rep inside]
      rfl
    · contradiction

theorem findOpenNone (rep : Rep engine queues) (missing : engine.findOpen id = none) :
    ∀ b < engine.books.size, ∀ s l, ∀ other ∈ queues b s l, (engine.pool.get other).id ≠ id := by
  rintro b inside s l other member rfl
  have indexed := rep.indexed b inside s l other member
  have isOpen := ((rep.shape b inside).home s l other member).isOpen
  simp only [findOpen, indexed, isOpen, if_true] at missing
  contradiction

end Finding

section Canceling
variable {env : Env} {before : Session} {queues : Nat → Queues} {venue : Venue} {credit b : Nat}
  {side : Side} {level : Nat} {slot : Slot} {id : OrderId} {fallback : Option Venue}

theorem cancelSlotRefines (rep : Rep before.engine queues) (live : Live before.engine queues)
    (view : View before.engine queues venue 0)
    (rests : Rests before.engine queues id slot b side level) :
    Refines env fallback (cancelSlot env id slot) before
      (Venue.cancelOrder b side (viewOrder before.engine.pool slot) venue).1
      (fun _ engine => Sim engine
        (Venue.cancelOrder b side (viewOrder before.engine.pool slot) venue).2) := by
  obtain ⟨front, back, here⟩ := List.append_of_mem rests.member
  obtain ⟨engine', engineIs, rep', live', view', _, _⟩ :=
    removeStep rep view (fun c inside s l other member _ => live c inside s l other member)
      rests.inside here
  have sim : Sim engine' (venue.withdraw b side (before.engine.pool.get slot).id) :=
    ⟨_, rep', live', viewCredit view' (Nat.zero_le _)⟩
  refine refinesRead (refinesAfter ?_)
  rw [rests.book, ← engineIs]
  refine refinesEmit ⟨?_, sim, fun _ impossible => by contradiction⟩ sim
  rw [← rests.named]
  rfl

end Canceling

section Replacing
variable {env : Env} {before : Session} {queues : Nat → Queues} {venue : Venue} {credit b : Nat}
  {side : Side} {level : Nat} {oldSlot newSlot : Slot} {request : ReplaceOrder} {old : OrderRecord}

def replacementRecord (request : ReplaceOrder) (old : OrderRecord) : OrderRecord :=
  { id := request.newOrderId, instrumentId := old.instrumentId, side := old.side,
    price := request.newPrice,
    openQty := replacementOpen request old, filledQty := old.filledQty }

theorem enterReplacementRefines (rep : Rep before.engine queues) (live : Live before.engine queues)
    (view : View before.engine queues venue 0) (room : before.engine.pool.size < kInvalidSlot.toNat)
    (present : before.engine.orderIndex.find request.orderId = some oldSlot)
    (fresh : request.newOrderId ≠ request.orderId →
      before.engine.orderIndex.find request.newOrderId = none) :
    Refines env (some venue) (enterReplacement env request old) before []
      (fun newSlot engine =>
        Entered before.engine newSlot (replacementRecord request old) engine) := by
  refine refinesThen (allocateRefines rep live view room)
    (fun newSlot after spare _ => refinesAfter ?_)
  have spare := spareRecord spare (fun rec =>
    { rec with
      id := request.newOrderId, instrumentId := old.instrumentId, side := old.side, price :=
        request.newPrice,
      openQty := replacementOpen request old, filledQty := old.filledQty })
  obtain ⟨spared, sparedIs⟩ : ∃ spared : Session, spared = { after with
    engine := after.engine.putRecord newSlot (fun rec =>
      { rec with
        id := request.newOrderId, instrumentId := old.instrumentId, side := old.side, price :=
          request.newPrice,
        openQty := replacementOpen request old, filledQty := old.filledQty }) } := ⟨_, rfl⟩
  rw [← sparedIs]
  have spare : Spare before.engine newSlot (replacementRecord request old) spared.engine := by
    rw [sparedIs]
    exact spare
  have inside : newSlot.toNat < spared.engine.pool.size := by
    rw [spare.named, spare.size]
    exact Nat.lt_succ_self _
  have index : spared.engine.orderIndex = before.engine.orderIndex := by rw [spare.rest]
  have own : (spared.engine.pool.get newSlot).id = request.newOrderId := by
    rw [spare.holds]
    rfl
  have rep' := spareRep spare rfl rep room
  refine refinesIte (fun same => refinesAfter (refinesPure _ ?_)) (fun other => ?_)
  · have present' : spared.engine.orderIndex.find request.newOrderId = some oldSlot := by
      rw [same, index]
      exact present
    obtain ⟨valid, reads⟩ := FlatHashMap.assignExistingValid rep'.index present'
    exact ⟨_, _, spare, rfl, valid, reads, inside, own⟩
  · have absent : spared.engine.orderIndex.find request.newOrderId = none := by
      rw [index]
      exact fresh other
    refine refinesThen (insertOrderRefines rep' (spareLive spare rep live)
      (spareView spare rep view) absent inside own) ?_
    rintro _ after ⟨named, engineIs, renamed⟩ _
    exact refinesPure _ ⟨_, named, spare, engineIs, renamed⟩

theorem replacementExact (request : ReplaceOrder) (old : OrderRecord) :
    (replacementOpen request old).toNat = request.newQuantity.toNat - old.filledQty.toNat := by
  unfold replacementOpen
  split
  · rename_i less
    exact UInt32.toNat_sub_of_le _ _
      (UInt32.le_iff_toNat_le.mpr (Nat.le_of_lt (UInt32.lt_iff_toNat_lt.mp less)))
  · rename_i enough
    have := mt UInt32.lt_iff_toNat_lt.mpr enough
    simp only [UInt32.toNat_zero]
    omega

structure Succeeding (before : Engine) (queues : Nat → Queues) (venue : Venue)
    (request : ReplaceOrder) (b : Nat) (side : Side) (oldSlot newSlot : Slot) (spared : Engine)
    (named : FlatHashMap) : Prop where
  rep : Rep spared queues
  live : Live spared queues
  view : View spared queues venue 2
  renamed : Renamed spared request.newOrderId newSlot named
  waiting : Waiting { spared with orderIndex := named } newSlot (spared.books.read b).instrumentId
    (Venue.replacement request (viewOrder before.pool oldSlot))
  filled : (spared.pool.get newSlot).filledQty.toNat = (before.pool.get oldSlot).filledQty.toNat
  books : spared.books = before.books
  keeps : spared.pool.get oldSlot = before.pool.get oldSlot
  others : ∀ c < spared.books.size, ∀ s l, ∀ other ∈ queues c s l, other ≠ oldSlot →
    (spared.pool.get other).id ≠ request.newOrderId

theorem enteredSucceeding (rep : Rep before.engine queues) (live : Live before.engine queues)
    (view : View before.engine queues venue 0) (room : before.engine.pool.size < kInvalidSlot.toNat)
    (rests : Rests before.engine queues request.orderId oldSlot b side level)
    (fresh : request.newOrderId ≠ request.orderId →
      before.engine.orderIndex.find request.newOrderId = none)
    (positive : replacementOpen request (before.engine.pool.get oldSlot) ≠ 0) {engine : Engine}
    (entered : Entered before.engine newSlot
      (replacementRecord request (before.engine.pool.get oldSlot)) engine) :
    ∃ spared named, engine = { spared with orderIndex := named } ∧
      Succeeding before.engine queues venue request b side oldSlot newSlot spared named := by
  obtain ⟨spared, named, spare, engineIs, renamed⟩ := entered
  have home := (rep.shape b rests.inside).home side level oldSlot rests.member
  have rep' := spareRep spare rfl rep room
  have books : spared.books = before.engine.books := by rw [spare.rest]
  have index : spared.orderIndex = before.engine.orderIndex := by rw [spare.rest]
  have exact := replacementExact request (before.engine.pool.get oldSlot)
  refine ⟨spared, named, engineIs, rep', spareLive spare rep live, spareView spare rep view,
    renamed, ?_, ?_, books, spare.kept oldSlot home.inside,
    fun c inside s l other member apart same => ?_⟩
  · refine ⟨renamed.inside, ?_, ?_, ?_, ?_, ?_, ?_, ?_⟩
    · exact congrArg OrderRecord.isOpen spare.holds
    · have own := congrArg OrderRecord.instrumentId spare.holds
      rw [books]
      exact own.trans home.instrumentId
    · exact congrArg OrderRecord.id spare.holds
    · exact (congrArg (fun r => r.openQty.toNat) spare.holds).trans exact
    · exact congrArg (fun r => r.filledQty.toNat) spare.holds
    · exact (renamed.reads _).trans (if_pos rfl)
    · have wide := UInt32.toNat_lt request.newQuantity
      have left : 0 < (replacementOpen request (before.engine.pool.get oldSlot)).toNat := by
        rw [Nat.pos_iff_ne_zero, Ne, ← UInt32.toNat_zero, UInt32.toNat_inj]
        exact positive
      simp only [Venue.replacement, viewOrder]
      omega
  · exact congrArg (fun r => r.filledQty.toNat) spare.holds
  · have known := rep'.indexed c inside s l other member
    rw [same, index] at known
    by_cases own : request.newOrderId = request.orderId
    · rw [own, rests.indexed] at known
      exact apart (Option.some.inj known).symm
    · rw [fresh own] at known
      contradiction

section Placing
variable {after : Session} {spared : Engine} {named : FlatHashMap}

theorem inPlaceRefines
    (succeeding : Succeeding before.engine queues venue request b side oldSlot newSlot spared named)
    (afterIs : after.engine = { spared with orderIndex := named })
    (rests : Rests before.engine queues request.orderId oldSlot b side level)
    (positive : replacementOpen request (before.engine.pool.get oldSlot) ≠ 0)
    (samePrice : request.newPrice = (before.engine.pool.get oldSlot).price) :
    Refines env none
      (do
        update (fun engine =>
          engine.putBook b (OrderBook.replaceInPlace engine.pool (engine.books.read b)
            oldSlot newSlot))
        emit env (.replaced request.orderId request.newOrderId request.newPrice
          (replacementOpen request (before.engine.pool.get oldSlot)).toNat)) after
      [Venue.replacedMoment request
        (Venue.replacement request (viewOrder before.engine.pool oldSlot))
        ((venue.spend request.newOrderId (viewOrder before.engine.pool oldSlot).filledQty).putSide b
          side
          (instead request.orderId
            (Venue.replacement request (viewOrder before.engine.pool oldSlot))
            (venue.orders b side))) none]
      (fun _ engine => Sim engine
        ((venue.spend request.newOrderId (viewOrder before.engine.pool oldSlot).filledQty).putSide
        b side (instead request.orderId
          (Venue.replacement request (viewOrder before.engine.pool oldSlot))
          (venue.orders b side)))) := by
  obtain ⟨front, back, here⟩ := List.append_of_mem rests.member
  have exact := replacementExact request (before.engine.pool.get oldSlot)
  have inside : b < spared.books.size := by
    rw [succeeding.books]
    exact rests.inside
  have left : 0 < (Venue.replacement request (viewOrder before.engine.pool oldSlot)).openQty := by
    change 0 < request.newQuantity.toNat - (before.engine.pool.get oldSlot).filledQty.toNat
    rw [← exact, Nat.pos_iff_ne_zero, Ne, ← UInt32.toNat_zero, UInt32.toNat_inj]
    exact positive
  obtain ⟨engine', queues', engineIs, rep', live', view'⟩ :=
    inPlaceStep succeeding.rep succeeding.live
    (renamedStocked succeeding.rep succeeding.renamed)
    (fun c inside s l other member apart =>
      renamedOther succeeding.rep succeeding.renamed inside member
        (succeeding.others c inside s l other member apart))
    (renamedView succeeding.view succeeding.renamed succeeding.filled) inside here
    succeeding.waiting left
    (by rw [succeeding.keeps]; exact samePrice)
  rw [succeeding.keeps, rests.named] at view'
  refine refinesAfter ?_
  rw [afterIs, ← engineIs]
  have sim : Sim engine' _ := ⟨queues', rep', live', viewCredit view' (Nat.zero_le _)⟩
  refine refinesEmit ⟨?_, sim, fun _ impossible => by contradiction⟩ sim
  rw [exact]
  rfl

theorem leftSame {slot s : Slot} {record record' : OrderRecord} (apart : s ≠ slot)
    (core : record'.core = (left slot s record).core) : record'.core = record.core := by
  rw [core, left, if_neg apart]

theorem removedMatching
    (succeeding : Succeeding before.engine queues venue request b side oldSlot newSlot spared named)
    (rests : Rests before.engine queues request.orderId oldSlot b side level) :
    ∃ queues', Matching
      { spared.putBook b (removeResting spared.pool (spared.books.read b)
        oldSlot) with orderIndex := named } queues'
      ((venue.spend request.newOrderId (viewOrder before.engine.pool oldSlot).filledQty).withdraw b
        side request.orderId)
      b newSlot (Venue.replacement request (viewOrder before.engine.pool oldSlot)) := by
  obtain ⟨front, back, here⟩ := List.append_of_mem rests.member
  have inside : b < spared.books.size := by
    rw [succeeding.books]
    exact rests.inside
  obtain ⟨removed, removedIs, rep', live', view', core, size⟩ :=
    removeStep succeeding.rep succeeding.view (fun c insideC s l other member _ =>
      succeeding.live c insideC s l other member)
      inside here
  rw [succeeding.keeps, rests.named] at view'
  have waiting := succeeding.waiting
  have apart : newSlot ≠ oldSlot := by
    rintro rfl
    exact notQueued succeeding.rep waiting.idle b inside _ _ rests.member
  have same := leftSame apart (core newSlot)
  have field {β : Type} (f : OrderRecord → β) (blind : ∀ r, f r.core = f r) :
      f (removed.pool.get newSlot) = f (spared.pool.get newSlot) := by rw [← blind, same, blind]
  have insideRemoved : newSlot.toNat < removed.pool.size := by
    rw [size]
    exact waiting.inside
  have index : removed.orderIndex = spared.orderIndex := by
    rw [removedIs]
    rfl
  have renamed : Renamed removed request.newOrderId newSlot named := by
    refine ⟨succeeding.renamed.valid, fun key => ?_, insideRemoved, ?_⟩
    · rw [index]
      exact succeeding.renamed.reads key
    · rw [field OrderRecord.id (fun _ => rfl)]
      exact succeeding.renamed.own
  have closed : (removed.pool.get oldSlot).isOpen = false := by
    have own := congrArg OrderRecord.isOpen (core oldSlot)
    rw [left, if_pos rfl] at own
    exact own
  have ids : ∀ s, (removed.pool.get s).id = (spared.pool.get s).id := by
    intro s
    have own := congrArg OrderRecord.id (core s)
    rw [left] at own
    split at own <;> exact own
  have instrument : (removed.books.read b).instrumentId = (spared.books.read b).instrumentId := by
    rw [removedIs, readPutBook, if_pos rfl]
    exact (removeRestingFrame ..).instrumentId
  have insideB : b < removed.books.size := by
    rw [removedIs]
    exact inside
  have unused : ∀ c < removed.books.size, ∀ s l,
      ∀ other ∈ Function.update queues b ((queues b).put side level (front ++ back)) c s l,
      (removed.pool.get other).id ≠ request.newOrderId := by
    intro c insideC s l other member
    have notOld : other ≠ oldSlot := by
      rintro rfl
      exact notQueued rep' closed c insideC s l member
    have before : other ∈ queues c s l := by
      by_cases here' : c = b
      · subst here'
        rw [Function.update_self] at member
        by_cases spot : s = side ∧ l = level
        · obtain ⟨rfl, rfl⟩ := spot
          rw [Queues.putSame] at member
          rw [here]
          simp only [List.mem_append, List.mem_cons] at member ⊢
          tauto
        · rwa [Queues.putOther spot] at member
      · rwa [Function.update_of_ne here'] at member
    rw [ids]
    refine succeeding.others c ?_ s l other before notOld
    rw [removedIs] at insideC
    exact insideC
  have filled : (removed.pool.get newSlot).filledQty.toNat =
      (viewOrder before.engine.pool oldSlot).filledQty := by
    rw [field OrderRecord.filledQty (fun _ => rfl)]
    exact succeeding.filled
  have rep'' := renamedRep rep' renamed unused
  have view'' := renamedView view' renamed filled
  rw [← removedIs]
  refine ⟨_, rep'', live', insideB, viewCredit view'' (by split <;> omega), insideRemoved, ?_, ?_,
    ?_, ?_, ?_, ?_, waiting.fits⟩
  · exact (field OrderRecord.isOpen (fun _ => rfl)).trans waiting.idle
  · exact ((field OrderRecord.instrumentId (fun _ => rfl)).trans waiting.owner).trans
      instrument.symm
  · exact (field OrderRecord.id (fun _ => rfl)).trans waiting.id
  · exact (congrArg UInt32.toNat (field OrderRecord.openQty (fun _ => rfl))).trans waiting.openQty
  · exact (congrArg UInt32.toNat (field OrderRecord.filledQty (fun _ => rfl))).trans
      waiting.filledQty
  · exact waiting.indexed

theorem restRefines (swept : Venue.Sweep)
    (matching : Matching before.engine queues swept.venue b newSlot swept.taker) {price : Int}
    (priceIs : swept.taker.price = price) (side : Side)
    (priced : Priced (before.engine.books.read b) price level) :
    Refines env none
      (do
        let engine ← current
        if 0 < (engine.pool.get newSlot).openQty then
          update (fun engine =>
            engine.putBook b (OrderBook.addResting engine.pool (engine.books.read b)
              newSlot side price)))
      before []
      (fun _ engine => Sim engine (if 0 < swept.taker.openQty then
        swept.venue.putSide b side (enqueue side swept.taker (swept.venue.orders b side))
          else swept.venue)) := by
  refine refinesRead (refinesIte (fun some => ?_) (fun none => ?_))
  · have left := (takerOpen matching).mp some
    rw [← priceIs] at priced ⊢
    rw [if_pos left]
    exact refinesUpdate _ (restSim matching left priced side)
  · rw [if_neg (fun left => none ((takerOpen matching).mpr left))]
    exact refinesPure _ (matchingSim matching)

theorem requeueRefines (rep : Rep before.engine queues)
    (succeeding : Succeeding before.engine queues venue request b side oldSlot newSlot spared named)
    (afterIs : after.engine = { spared with orderIndex := named })
    (rests : Rests before.engine queues request.orderId oldSlot b side level)
    (priced : ∃ level', Priced (before.engine.books.read b) request.newPrice level') :
    Refines env none (requeue env request b oldSlot newSlot (before.engine.pool.get oldSlot)) after
      (Venue.requeue request b side (viewOrder before.engine.pool oldSlot)
        (venue.spend request.newOrderId (viewOrder before.engine.pool oldSlot).filledQty)).1
      (fun _ engine => Sim engine
        (Venue.requeue request b side (viewOrder before.engine.pool oldSlot)
        (venue.spend request.newOrderId (viewOrder before.engine.pool oldSlot).filledQty)).2) := by
  obtain ⟨queues', matching⟩ := removedMatching succeeding rests
  obtain ⟨level', priced⟩ := priced
  have home := (rep.shape b rests.inside).home side level oldSlot rests.member
  have exact := replacementExact request (before.engine.pool.get oldSlot)
  have frame := removeRestingFrame spared.pool (spared.books.read b) oldSlot
  rw [succeeding.books] at frame
  obtain ⟨taken, takenIs⟩ : ∃ taken, taken =
      (venue.spend request.newOrderId (viewOrder before.engine.pool oldSlot).filledQty).withdraw b
      side request.orderId :=
    ⟨_, rfl⟩
  obtain ⟨removed, removedIs⟩ : ∃ removed : Session, removed = { after with
      engine :=
        after.engine.putBook b
          (removeResting after.engine.pool (after.engine.books.read b) oldSlot) } := ⟨_, rfl⟩
  have engineIs : removed.engine =
      { spared.putBook b (removeResting spared.pool (spared.books.read b) oldSlot) with
      orderIndex := named } := by
    rw [removedIs, afterIs]
    rfl
  rw [← engineIs, ← takenIs] at matching
  have priced' : Priced (removed.engine.books.read b) request.newPrice level' := by
    rw [engineIs]
    change Priced ((spared.putBook b _).books.read b) _ _
    rw [readPutBook, if_pos rfl, succeeding.books]
    exact pricedFrame frame priced
  have instrument : ((taken.books[b]?).map (·.instrumentId)).getD 0 =
      (before.engine.pool.get oldSlot).instrumentId := by
    have book := bookAt matching.view matching.inside
    rw [book, home.instrumentId, Option.map_some, Option.getD_some, engineIs]
    change ((spared.putBook b _).books.read b).instrumentId = _
    rw [readPutBook, if_pos rfl, succeeding.books]
    exact frame.instrumentId
  have idIs : (viewOrder before.engine.pool oldSlot).id = request.orderId := rests.named
  unfold Venue.requeue
  simp only [idIs, ← takenIs, instrument]
  have pair : ∀ (p : Prop) [Decidable p] (moments : List Moment) (x y : Venue),
      (if p then (moments, x) else (moments, y)) = (moments, if p then x else y) := by
    intro p _ moments x y
    split <;> rfl
  have replaced : Refines env none
      (emit env (.replaced request.orderId request.newOrderId request.newPrice
        (replacementOpen request (before.engine.pool.get oldSlot)).toNat)) removed
      [Venue.replacedMoment request
        (Venue.replacement request (viewOrder before.engine.pool oldSlot)) taken
        (some (Venue.replacement request (viewOrder before.engine.pool oldSlot)))]
      (fun _ engine => engine = removed.engine) := by
    refine refinesEmit ⟨?_, matchingSim matching, fun order working => ?_⟩ rfl
    · rw [exact]
      rfl
    · cases Option.some.inj working
      exact ⟨newSlot, _, matching.waiting⟩
  rw [pair]
  refine refinesAfter ?_
  rw [← removedIs]
  refine refinesBind replaced (fun _ delivered same => ?_)
  rw [← same] at matching priced'
  rw [home.side]
  by_cases moved : request.newPrice ≠ (before.engine.pool.get oldSlot).price
  · have worked := @runMatchingRefines env b newSlot side queues' taken
      (Venue.replacement request (viewOrder before.engine.pool oldSlot)) delivered
      (before.engine.pool.get oldSlot).instrumentId request.newPrice false matching
    have same := @Venue.sweepTaker b (before.engine.pool.get oldSlot).instrumentId side
        (some request.newPrice)
      (taken.orders b side.opposite) taken
      (Venue.replacement request (viewOrder before.engine.pool oldSlot))
    rw [if_pos moved]
    rw [if_pos (show request.newPrice ≠ (viewOrder before.engine.pool oldSlot).price from moved),
      ← List.append_nil (Venue.sweep ..).1]
    refine refinesBind worked ?_
    rintro _ swept ⟨queues'', matching', frame', _⟩
    exact restRefines (Venue.sweep _ _ _ _ _ _ _).2 matching' same.2 side
      (pricedFrame frame' priced')
  · rw [if_neg moved]
    rw [if_neg (show ¬request.newPrice ≠ (viewOrder before.engine.pool oldSlot).price from moved)]
    exact restRefines ⟨taken, _, taken.orders b side.opposite⟩ matching rfl side priced'

end Placing

theorem replaceSlotRefines (rep : Rep before.engine queues) (live : Live before.engine queues)
    (view : View before.engine queues venue 0) (room : before.engine.pool.size < kInvalidSlot.toNat)
    (rests : Rests before.engine queues request.orderId oldSlot b side level)
    (fresh : request.newOrderId ≠ request.orderId →
      before.engine.orderIndex.find request.newOrderId = none)
    (positive : replacementOpen request (before.engine.pool.get oldSlot) ≠ 0)
    (priced : ∃ level', Priced (before.engine.books.read b) request.newPrice level') :
    Refines env (some venue)
      (replaceSlot env request b oldSlot (before.engine.pool.get oldSlot)) before
      (Venue.replaceOrder request b side (viewOrder before.engine.pool oldSlot) venue).1
      (fun _ engine => Sim engine
        (Venue.replaceOrder request b side (viewOrder before.engine.pool oldSlot) venue).2) := by
  refine refinesThen (enterReplacementRefines rep live view room rests.indexed fresh) ?_
  rintro newSlot after entered _
  obtain ⟨spared, named, afterIs, succeeding⟩ :=
    enteredSucceeding rep live view room rests fresh positive entered
  have exact := replacementExact request (before.engine.pool.get oldSlot)
  have moves : (request.newPrice ≠ (before.engine.pool.get oldSlot).price ∨
      (before.engine.pool.get oldSlot).openQty <
      replacementOpen request (before.engine.pool.get oldSlot)) ↔
      (request.newPrice ≠ (viewOrder before.engine.pool oldSlot).price ∨
        (viewOrder before.engine.pool oldSlot).openQty <
        (Venue.replacement request (viewOrder before.engine.pool oldSlot)).openQty) := by
    refine or_congr Iff.rfl ?_
    rw [UInt32.lt_iff_toNat_lt, exact]
    rfl
  have idIs : (viewOrder before.engine.pool oldSlot).id = request.orderId := rests.named
  unfold Venue.replaceOrder
  refine refinesAny (refinesIte (fun requeued => ?_) (fun stays => ?_))
  · simp only [moves.mp requeued, if_true]
    exact requeueRefines rep succeeding afterIs rests priced
  · simp only [mt moves.mpr stays, if_false, idIs]
    exact inPlaceRefines succeeding afterIs rests positive
      (by_contra (fun moved => stays (.inl moved)))

theorem bandCheck (rep : Rep before.engine queues) (view : View before.engine queues venue credit)
    (inside : b < before.engine.books.size)
    (aligned : TickTable.isTickAligned kTickSchedule request.newPrice = true) :
    (((venue.books[b]?).map (fun book => Venue.outsideBand book request.newPrice)).getD true =
      true ∧
      (before.engine.books.read b).priceToIndex request.newPrice < 0) ∨
    (((venue.books[b]?).map (fun book => Venue.outsideBand book request.newPrice)).getD
      true = false ∧
      ∃ level, Priced (before.engine.books.read b) request.newPrice level) := by
  rw [bookAt view inside]
  exact pricedOr (rep.fitted b inside) aligned

theorem replaceRefines (sim : Sim before.engine venue)
    (room : before.engine.pool.size < kInvalidSlot.toNat) (request : ReplaceOrder) :
    Refines env (some venue) (replace env request) before (Venue.replace request venue).1
      (fun _ engine => Sim engine (Venue.replace request venue).2) := by
  have start := sim
  obtain ⟨queues, rep, live, view⟩ := sim
  unfold Venue.replace
  rw [view.configured]
  refine refinesRead (refinesIte (fun unconfigured => ?_) (fun configured => ?_))
  · rw [if_pos unconfigured]
    exact rejectRefines start ..
  rw [if_neg configured]
  cases found : before.engine.findOpen request.orderId with
  | none =>
    rw [venueFindNone rep view (findOpenNone rep found)]
    exact rejectRefines start ..
  | some oldSlot =>
    obtain ⟨b, side, level, rests⟩ := findOpenSome rep found
    have place := venueFindSome rep view rests.inside rests.member
    rw [rests.named] at place
    have exact := replacementExact request (before.engine.pool.get oldSlot)
    have nothing : replacementOpen request (before.engine.pool.get oldSlot) = 0 ↔
        (Venue.replacement request (viewOrder before.engine.pool oldSlot)).openQty = 0 := by
      rw [← UInt32.toNat_inj, exact]
      rfl
    have own := rests.book
    simp only [place, own]
    refine refinesIte (fun zero => ?_) (fun positive => ?_)
    · simp only [nothing.mp zero, if_true]
      exact cancelSlotRefines rep live view rests
    simp only [mt nothing.mpr positive, if_false]
    refine refinesIte (fun used => ?_) (fun unused => ?_)
    · have spent := (containsSpent view _).mp used.2
      simp only [used.1, spent, ne_eq, not_false_eq_true, and_self, if_true]
      exact rejectRefines start ..
    have notSpent : ¬(request.newOrderId ≠ request.orderId ∧ request.newOrderId ∈ venue.spent) :=
      fun h => unused ⟨h.1, (containsSpent view _).mpr h.2⟩
    simp only [notSpent, if_false]
    refine refinesIte (fun misaligned => ?_) (fun aligned => ?_)
    · rw [if_pos misaligned]
      exact rejectRefines start ..
    rw [if_neg aligned]
    have aligned : TickTable.isTickAligned kTickSchedule request.newPrice = true := by
      simpa using aligned
    rcases bandCheck rep view rests.inside aligned with ⟨outside, negative⟩ | ⟨within, priced⟩
    · rw [if_pos negative]
      simp only [outside, if_true]
      exact rejectRefines start ..
    · obtain ⟨level', at'⟩ := priced
      have nonneg : ¬(before.engine.books.read b).priceToIndex request.newPrice < 0 := by
        rw [at'.index]
        omega
      rw [if_neg nonneg]
      simp only [within, Bool.false_eq_true, if_false]
      have fresh : request.newOrderId ≠ request.orderId →
          before.engine.orderIndex.find request.newOrderId = none := by
        intro other
        have absent : ¬before.engine.orderIndex.contains request.newOrderId = true :=
          fun used => unused ⟨other, used⟩
        rwa [FlatHashMap.contains, Bool.not_eq_true, Option.isSome_eq_false_iff,
          Option.isNone_iff_eq_none] at absent
      exact replaceSlotRefines rep live view room rests fresh positive ⟨level', at'⟩

theorem cancelRefines (sim : Sim before.engine venue) (request : CancelOrder) :
    Refines env (some venue) (cancel env request) before (Venue.cancel request venue).1
      (fun _ engine => Sim engine (Venue.cancel request venue).2) := by
  have start := sim
  obtain ⟨queues, rep, live, view⟩ := sim
  unfold Venue.cancel
  rw [view.configured]
  refine refinesRead (refinesIte (fun unconfigured => ?_) (fun configured => ?_))
  · rw [if_pos unconfigured]
    exact rejectRefines start ..
  rw [if_neg configured]
  cases found : before.engine.findOpen request.orderId with
  | none =>
    rw [venueFindNone rep view (findOpenNone rep found)]
    exact rejectRefines start ..
  | some slot =>
    obtain ⟨b, side, level, rests⟩ := findOpenSome rep found
    have place := venueFindSome rep view rests.inside rests.member
    rw [rests.named] at place
    rw [place]
    exact cancelSlotRefines rep live view rests

theorem performRefines (sim : Sim before.engine venue)
    (room : before.engine.pool.size < kInvalidSlot.toNat) (request : Request) :
    Refines env (some venue) (perform env request) before
      (Venue.perform wrappedFill request venue).1
      (fun _ engine => Sim engine (Venue.perform wrappedFill request venue).2) := by
  cases request with
  | submit order => exact submitRefines sim room order
  | cancel request => exact cancelRefines sim request
  | replace request => exact replaceRefines sim room request

end Replacing
end Engine
end Xmatch
