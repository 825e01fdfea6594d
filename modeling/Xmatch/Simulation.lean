import Xmatch.BookView
import Xmatch.Engine

/-! The engine stands for a venue. `Rep` says how the shared pool, the books and the two
indices hang together; `View` reads a venue off them. -/
namespace Xmatch

namespace Venue

def openCount (venue : Venue) : Nat :=
  (venue.books.map (fun book => book.bids.length + book.asks.length)).sum

section Books
variable {venue : Venue} {b : Nat} {book : Book}

theorem putLength (book : Book) (side : Side) (xs : List Order) :
    (book.put side xs).bids.length + (book.put side xs).asks.length + (book.side side).length =
      book.bids.length + book.asks.length + xs.length := by
  cases side <;> simp only [Book.put, Book.side] <;> omega

theorem openCountPut (side : Side) (xs : List Order) (here : venue.books[b]? = some book) :
    (venue.putSide b side xs).openCount + (book.side side).length =
      venue.openCount + xs.length := by
  have general : ∀ (books : List Book) (b : Nat), books[b]? = some book →
      ((books.modify b (fun book => book.put side xs)).map (fun book => book.bids.length +
        book.asks.length)).sum + (book.side side).length =
        (books.map (fun book => book.bids.length + book.asks.length)).sum + xs.length := by
    intro books
    induction books with
    | nil => intro b here; simp at here
    | cons first rest ih =>
      intro b here
      cases b with
      | zero =>
        obtain rfl : first = book := by simpa using here
        have := putLength first side xs
        simp only [List.modify_zero_cons, List.map_cons, List.sum_cons]
        omega
      | succ b =>
        have := ih b (by simpa using here)
        simp only [List.modify_succ_cons, List.map_cons, List.sum_cons]
        omega
  exact general venue.books b here

theorem ordersPut (side : Side) (xs : List Order) (here : venue.books[b]? = some book) :
    (venue.putSide b side xs).orders b side = xs := by
  have own : (book.put side xs).side side = xs := by cases side <;> rfl
  simp [orders, putSide, here, own]

end Books
end Venue

theorem modifyRange {α : Type} (n b : Nat) (f : Nat → α) (g : α → α) :
    ((List.range n).map f).modify b g = (List.range n).map (fun c => if c = b then g (f c)
      else f c) := by
  refine List.ext_getElem? (fun i => ?_)
  rw [List.getElem?_modify, List.getElem?_map, List.getElem?_map]
  by_cases inside : i < n
  · rw [List.getElem?_range inside]
    by_cases same : b = i
    · simp [same]
    · simp [same, Ne.symm same]
  · rw [List.getElem?_eq_none (by simpa using inside)]
    simp

namespace Engine
open OrderBook

/- The shared pool, the books and the two indices, all but the ids of the queued orders. -/
structure Stocked (engine : Engine) (queues : Nat → Queues) : Prop where
  index : engine.orderIndex.Valid
  narrow : engine.pool.size ≤ kInvalidSlot.toNat
  stored : engine.pool.Stored
  few : engine.books.size ≤ kUint32Max
  fitted : ∀ b < engine.books.size, Fitted (engine.books.read b)
  shape : ∀ b < engine.books.size, Shape engine.pool (engine.books.read b) (queues b)
  named : ∀ id i, engine.instrumentIndex.find id = some i →
    i.toNat < engine.books.size ∧ (engine.books.read i.toNat).instrumentId.toUInt64 = id
  filed : ∀ b < engine.books.size,
    engine.instrumentIndex.find (engine.books.read b).instrumentId.toUInt64 = some (UInt32.ofNat b)
  housed : ∀ slot : Slot, slot.toNat < engine.pool.size → (engine.pool.get slot).isOpen = true →
    ∃ b < engine.books.size, ∃ side level, slot ∈ queues b side level
  found : ∀ id slot, engine.orderIndex.find id = some slot →
    slot.toNat < engine.pool.size ∧ (engine.pool.get slot).id = id

structure Rep (engine : Engine) (queues : Nat → Queues) : Prop extends Stocked engine queues where
  indexed : ∀ b < engine.books.size, ∀ side level, ∀ slot ∈ queues b side level,
    engine.orderIndex.find (engine.pool.get slot).id = some slot

structure Lively (record : OrderRecord) : Prop where
  left : 0 < record.openQty.toNat
  fits : record.openQty.toNat + record.filledQty.toNat < 2 ^ 32

def Live (engine : Engine) (queues : Nat → Queues) : Prop :=
  ∀ b < engine.books.size, ∀ side level, ∀ slot ∈ queues b side level, Lively (engine.pool.get slot)

/- Each slot pays for at most two trades, so trade ids stay far below 64 bits; `credit`
is what the order being worked has not used. -/
structure View (engine : Engine) (queues : Nat → Queues) (venue : Venue) (credit : Nat) : Prop where
  configured : venue.configured = engine.configured
  books : venue.books = (List.range engine.books.size).map
    (fun b => viewBook engine.pool (engine.books.read b) (queues b))
  spent : ∀ id, id ∈ venue.spent ↔ ∃ slot, engine.orderIndex.find id = some slot
  traded : ∀ id slot, engine.orderIndex.find id = some slot →
    (engine.pool.get slot).filledQty.toNat = venue.traded id
  tradeId : engine.nextTradeId.toNat = venue.nextTradeId
  budget : venue.nextTradeId + venue.openCount + credit ≤ 2 * engine.pool.size + 1

def Sim (engine : Engine) (venue : Venue) : Prop :=
  ∃ queues, Rep engine queues ∧ Live engine queues ∧ View engine queues venue 0

section Reading
variable {engine : Engine} {queues : Nat → Queues} {venue : Venue} {credit b c : Nat}
  {side s : Side} {level l : Nat} {slot : Slot}

theorem bookAt (view : View engine queues venue credit) (inside : b < engine.books.size) :
    venue.books[b]? = some (viewBook engine.pool (engine.books.read b) (queues b)) := by
  rw [view.books, List.getElem?_map, List.getElem?_range inside]
  rfl

theorem ordersAt (view : View engine queues venue credit) (inside : b < engine.books.size)
    (side : Side) :
    venue.orders b side = viewSide engine.pool (engine.books.read b) (queues b) side := by
  simp [Venue.orders, bookAt view inside]

theorem bookNarrow (rep : Rep engine queues) (inside : b < engine.books.size) : b < 2 ^ 32 := by
  have := rep.few
  unfold kUint32Max at this
  omega

theorem toUInt64Inj {x y : UInt32} (same : x.toUInt64 = y.toUInt64) : x = y := by
  have := congrArg UInt64.toNat same
  simpa [UInt32.toNat_inj] using this

theorem bookUnique (rep : Rep engine queues) (insideB : b < engine.books.size)
    (insideC : c < engine.books.size)
    (same : (engine.books.read b).instrumentId = (engine.books.read c).instrumentId) : b = c := by
  have filedB := rep.filed b insideB
  rw [same, rep.filed c insideC] at filedB
  have := congrArg UInt32.toNat (Option.some.inj filedB)
  rwa [WordBits.toNatOfNat (bookNarrow rep insideB), WordBits.toNatOfNat (bookNarrow rep insideC),
    eq_comm] at this

theorem oneBook (rep : Rep engine queues) (insideB : b < engine.books.size)
    (insideC : c < engine.books.size) (here : slot ∈ queues b side level)
    (there : slot ∈ queues c s l) : b = c := by
  refine bookUnique rep insideB insideC ?_
  have homeB := (rep.shape b insideB).home side level slot here
  have homeC := (rep.shape c insideC).home s l slot there
  rw [← homeB.instrumentId, homeC.instrumentId]

theorem slotReal (rep : Rep engine queues) (inside : slot.toNat < engine.pool.size) :
    slot ≠ kInvalidSlot := by
  rintro rfl
  have := rep.narrow
  omega

theorem poolSmall (rep : Rep engine queues) : engine.pool.size < 2 ^ 32 := by
  have narrow := rep.narrow
  have : kInvalidSlot.toNat = 2 ^ 32 - 1 := by decide
  omega

theorem idUnique (rep : Rep engine queues) (insideB : b < engine.books.size)
    (insideC : c < engine.books.size) (here : slot ∈ queues b side level) {other : Slot}
    (there : other ∈ queues c s l) (same : (engine.pool.get slot).id = (engine.pool.get other).id) :
    slot = other := by
  have a := rep.indexed b insideB side level slot here
  have b := rep.indexed c insideC s l other there
  rw [same, b] at a
  exact (Option.some.inj a).symm

theorem findBookSome (rep : Rep engine queues) {id : InstrumentId}
    (found : engine.findBook id = some b) :
    b < engine.books.size ∧ (engine.books.read b).instrumentId = id := by
  obtain ⟨i, here, rfl⟩ := Option.map_eq_some_iff.mp found
  obtain ⟨inside, same⟩ := rep.named _ i here
  exact ⟨inside, toUInt64Inj same⟩

theorem findBookOf (rep : Rep engine queues) (inside : b < engine.books.size) :
    engine.findBook (engine.books.read b).instrumentId = some b := by
  rw [findBook, rep.filed b inside]
  exact congrArg some (WordBits.toNatOfNat (bookNarrow rep inside))

theorem findBookNone (rep : Rep engine queues) {id : InstrumentId}
    (missing : engine.findBook id = none) :
    ∀ b < engine.books.size, (engine.books.read b).instrumentId ≠ id := by
  intro b inside same
  have := findBookOf rep inside
  rw [same, missing] at this
  contradiction

end Reading

structure BookStep (engine : Engine) (queues : Nat → Queues) (b : Nat) (pool' : OrderPool)
    (book' : OrderBook) (queues' : Queues) : Prop where
  inside : b < engine.books.size
  frame : SameFrame (engine.books.read b) book'
  size : pool'.size = engine.pool.size
  chunks : pool'.chunks.size = engine.pool.chunks.size
  shape : Shape pool' book' queues'
  ids : ∀ slot, (pool'.get slot).id = (engine.pool.get slot).id
  others : ∀ c < engine.books.size, c ≠ b → ∀ side level, ∀ slot ∈ queues c side level,
    pool'.get slot = engine.pool.get slot
  housed : ∀ slot : Slot, slot.toNat < engine.pool.size → (pool'.get slot).isOpen = true →
    (∃ side level, slot ∈ queues' side level) ∨
      ((engine.pool.get slot).isOpen = true ∧ ∀ side level, slot ∉ queues b side level)
  indexed : ∀ side level, ∀ slot ∈ queues' side level,
    engine.orderIndex.find (engine.pool.get slot).id = some slot

section Stepping
variable {engine : Engine} {queues : Nat → Queues} {venue : Venue} {credit credit' b : Nat}
  {pool' : OrderPool} {book' : OrderBook} {queues' : Queues} {side : Side} {xs : List Order}

theorem readPutBook (engine : Engine) (b c : Nat) (updated : OrderPool × OrderBook) :
    (engine.putBook b updated).books.read c = if c = b then updated.2 else engine.books.read c :=
  Buffer.readWrite ..

theorem stockedStep (stocked : Stocked engine queues)
    (step : BookStep engine queues b pool' book' queues') :
    Stocked (engine.putBook b (pool', book')) (Function.update queues b queues') := by
  have instrument : ∀ c, ((engine.putBook b (pool', book')).books.read c).instrumentId =
      (engine.books.read c).instrumentId := by
    intro c
    rw [readPutBook]
    split
    · rename_i same
      rw [same]
      exact step.frame.instrumentId
    · rfl
  refine ⟨stocked.index, ?_, ?_, stocked.few, fun c inside => ?_, fun c inside => ?_,
    fun id i here => ?_, fun c inside => ?_, fun slot inside isOpen => ?_, fun id slot here => ?_⟩
  · exact step.size ▸ stocked.narrow
  · have stored := stocked.stored
    simp only [OrderPool.Stored, putBook, step.size, step.chunks] at stored ⊢
    exact stored
  · rw [readPutBook]
    split
    · exact fittedFrame (stocked.fitted b step.inside) step.frame
    · exact stocked.fitted c inside
  · rw [readPutBook]
    split
    · rename_i same
      subst same
      rw [Function.update_self]
      exact step.shape
    · rename_i other
      rw [Function.update_of_ne other]
      exact shapeCongr (stocked.shape c inside) (Nat.le_of_eq step.size.symm)
        (step.others c inside other)
  · rw [instrument]
    exact stocked.named id i here
  · rw [instrument]
    exact stocked.filed c inside
  · rcases step.housed slot (step.size ▸ inside) isOpen with ⟨s, l, member⟩ | ⟨before, away⟩
    · exact ⟨b, step.inside, s, l, by rwa [Function.update_self]⟩
    · obtain ⟨c, insideC, s, l, member⟩ := stocked.housed slot (step.size ▸ inside) before
      have other : c ≠ b := fun same => away s l (same ▸ member)
      exact ⟨c, insideC, s, l, by rwa [Function.update_of_ne other]⟩
  · obtain ⟨inside, same⟩ := stocked.found id slot here
    exact ⟨step.size.symm ▸ inside, (step.ids slot).trans same⟩

theorem repStep (stocked : Stocked engine queues)
    (step : BookStep engine queues b pool' book' queues')
    (elsewhere : ∀ c < engine.books.size, c ≠ b → ∀ s l, ∀ slot ∈ queues c s l,
      engine.orderIndex.find (engine.pool.get slot).id = some slot) :
    Rep (engine.putBook b (pool', book')) (Function.update queues b queues') := by
  refine ⟨stockedStep stocked step, fun c inside s l slot member => ?_⟩
  have id := step.ids slot
  change engine.orderIndex.find (pool'.get slot).id = some slot
  rw [id]
  by_cases same : c = b
  · subst same
    rw [Function.update_self] at member
    exact step.indexed s l slot member
  · rw [Function.update_of_ne same] at member
    exact elsewhere c inside same s l slot member

theorem liveStep (step : BookStep engine queues b pool' book' queues')
    (elsewhere : ∀ c < engine.books.size, c ≠ b → ∀ s l, ∀ slot ∈ queues c s l,
      Lively (engine.pool.get slot))
    (here : ∀ s l, ∀ slot ∈ queues' s l, Lively (pool'.get slot)) :
    Live (engine.putBook b (pool', book')) (Function.update queues b queues') := by
  intro c inside s l slot member
  by_cases same : c = b
  · subst same
    rw [Function.update_self] at member
    exact here s l slot member
  · rw [Function.update_of_ne same] at member
    have still : pool'.get slot = engine.pool.get slot := step.others c inside same s l slot member
    rw [putBook, still]
    exact elsewhere c inside same s l slot member

theorem booksStep (view : View engine queues venue credit)
    (step : BookStep engine queues b pool' book' queues')
    (changed : viewSide pool' book' queues' side = xs)
    (kept : viewSide pool' book' queues' side.opposite =
      viewSide engine.pool (engine.books.read b) (queues b) side.opposite) :
    (venue.putSide b side xs).books = (List.range (engine.putBook b (pool', book')).books.size).map
      (fun c => viewBook pool' ((engine.putBook b (pool', book')).books.read c)
        (Function.update queues b queues' c)) := by
  rw [Venue.putSide, view.books, modifyRange]
  refine List.map_congr_left (fun c listed => ?_)
  have inside := List.mem_range.mp listed
  rw [readPutBook]
  by_cases same : c = b
  · subst same
    rw [if_pos rfl, if_pos rfl, Function.update_self]
    have band : book'.bandLo = (engine.books.read c).bandLo ∧
        book'.bandHi = (engine.books.read c).bandHi := by
      rw [bandLo, bandHi, step.frame.ladder]
      exact ⟨rfl, rfl⟩
    cases side
    all_goals
      simp only [Side.opposite] at kept
      simp only [viewBook, Book.put, changed, kept, band, step.frame.instrumentId]
  · rw [if_neg same, if_neg same, Function.update_of_ne same]
    have still : ∀ s, viewSide pool' (engine.books.read c) (queues c) s =
        viewSide engine.pool (engine.books.read c) (queues c) s := by
      intro s
      refine viewCongr (sameFrameRefl _) rfl (fun slot member => viewOrderCore ?_)
      obtain ⟨l, _, inQueue⟩ := List.mem_flatMap.mp member
      rw [step.others c inside same s l slot inQueue]
    simp only [viewBook, still]

theorem viewStep (view : View engine queues venue credit)
    (step : BookStep engine queues b pool' book' queues')
    (changed : viewSide pool' book' queues' side = xs)
    (kept : viewSide pool' book' queues' side.opposite =
      viewSide engine.pool (engine.books.read b) (queues b) side.opposite)
    (filled : ∀ slot, (pool'.get slot).filledQty = (engine.pool.get slot).filledQty)
    (paid : xs.length + credit' ≤ (venue.orders b side).length + credit) :
    View (engine.putBook b (pool', book')) (Function.update queues b queues')
      (venue.putSide b side xs) credit' := by
  refine ⟨view.configured, booksStep view step changed kept, view.spent, fun id slot here => ?_,
    view.tradeId, ?_⟩
  · exact (congrArg UInt32.toNat (filled slot)).trans (view.traded id slot here)
  · have count := Venue.openCountPut side xs (bookAt view step.inside)
    have budget := view.budget
    rw [ordersAt view step.inside, ← viewBookSide] at paid
    have size : (engine.putBook b (pool', book')).pool.size = engine.pool.size := step.size
    have trades : (venue.putSide b side xs).nextTradeId = venue.nextTradeId := rfl
    omega

end Stepping
end Engine
end Xmatch
