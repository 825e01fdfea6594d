import Xmatch.FillOrKill

/-! Past 2^32 records the slots begin again at 0, and a new order is handed the record of one that
rests. -/
namespace Xmatch
namespace Engine
open OrderBook Effect

/- The engine `start` after some slots more were handed out, and the ids below their number used. -/
structure Crowded (start : Engine) (slots : Nat) (first : OrderRecord) (engine : Engine) :
    Prop where
  rest : engine = { start with pool := engine.pool, orderIndex := engine.orderIndex }
  size : engine.pool.size = slots
  stored : engine.pool.Stored
  first : engine.pool.get 0 = first
  index : engine.orderIndex.Valid
  unused : ∀ id : OrderId, slots ≤ id.toNat → engine.orderIndex.find id = none

def enteredAs (order : NewOrder) (rec : OrderRecord) : OrderRecord :=
  { rec with id := order.orderId, instrumentId := order.instrumentId, side := order.side }

section Crowds
variable {start engine : Engine} {slots : Nat} {first : OrderRecord} {order : NewOrder} {b : Nat}
  {slot : Slot} {before : Session} {pool : OrderPool} {book : OrderBook}

theorem wpEmitCalm {event : Event} {s : Session} {post : Unit → Session → Prop}
    {stop : Abort → Session → Prop} :
    wp (emit .calm event) post stop s ↔ post () { s with log := s.log ++ [⟨event, s.engine⟩] } := by
  simp only [emit, wpBind, wpModify, wpGet, wpIte, wpThrow, wpPure, Env.calm, Bool.false_eq_true,
    false_imp_iff, true_and, not_false_eq_true, true_imp_iff]

theorem enterCrowded (crowded : Crowded start slots first before.engine) (order : NewOrder)
    (used : 0 < slots) (next : order.orderId.toNat = slots) :
    wp (enterOrder .calm order) (fun slot after => slot = UInt32.ofNat slots ∧
      after.log = before.log ∧
      (after.engine.pool.get slot).id = order.orderId ∧
        Crowded start (slots + 1) (if 0 = slot then enteredAs order first else first) after.engine)
      (fun _ _ => False) before := by
  obtain ⟨rest, size, stored, firstIs, index, unused⟩ := crowded
  unfold enterOrder allocate insertOrder
  simp only [current, wpBind, wpGet, wpPure]
  cases allocated : before.engine.pool.allocate Env.calm.chunk with
  | none => exact absurd (OrderPool.allocateFails allocated) (by decide)
  | some pair =>
    obtain ⟨slot, pool⟩ := pair
    obtain ⟨named, larger, stored', -, kept⟩ := OrderPool.allocateAllocated stored allocated
    simp only [update, wpBind, wpModify, wpPure]
    have absent := unused order.orderId (Nat.le_of_eq next.symm)
    cases inserted : before.engine.orderIndex.insert Env.calm.slots order.orderId slot with
    | none => exact absurd (FlatHashMap.insertFails inserted) (by decide)
    | some index' =>
      obtain ⟨valid, reads⟩ := FlatHashMap.insertValid index absent inserted
      simp only [putRecord, inserted, wpModify]
      refine ⟨by rw [named, size], trivial, by rw [OrderPool.getModifySame], ?_,
        by rw [← size]; exact larger, stored', ?_,
        valid, fun id past => ?_⟩
      · rw [rest]
      · have same := kept 0 (by rw [size]; exact used)
        rw [OrderPool.getModify]
        split
        · rename_i here
          rw [← here, same, firstIs]
          rfl
        · exact same.trans firstIs
      · rw [reads, if_neg (fun same => by rw [same, next] at past; omega)]
        exact unused id (by omega)

theorem spoiledCrowds (crowded : Crowded start slots first engine) (order : NewOrder)
    (used : 0 < slots) (few : slots < 2 ^ 32) (next : order.orderId.toNat = slots)
    (configured : start.configured = true) (found : start.findBook order.instrumentId = some b)
    (empty : order.quantity = 0) :
    Crowded start (slots + 1) first (call .calm (.submit order) engine).engine := by
  have absent : engine.orderIndex.contains order.orderId = false := by
    rw [FlatHashMap.contains, crowded.unused _ (Nat.le_of_eq next.symm)]
    rfl
  have ready : engine.configured = true ∧ engine.findBook order.instrumentId = some b := by
    rw [crowded.rest]
    exact ⟨configured, found⟩
  have apart : (0 : Slot) ≠ UInt32.ofNat slots := by
    intro same
    have zero := congrArg UInt32.toNat same
    rw [UInt32.toNat_ofNat_of_lt' few] at zero
    exact absurd zero.symm (Nat.pos_iff_ne_zero.mp used)
  refine @callEnds _ _ _ (fun session => Crowded start (slots + 1) first session.engine) ?_
  change wp (submit .calm order) _ _ _
  unfold submit
  simp only [current, wpBind, wpGet, wpPure, ready.1, ready.2, absent, Bool.not_true,
    Bool.false_eq_true, if_false]
  refine wpMono (@enterCrowded _ _ _ { engine := engine } crowded order used next)
    (fun slot after entered => ?_) (fun _ _ impossible => impossible.elim)
  obtain ⟨named, -, -, crowded'⟩ := entered
  rw [if_neg (by rw [named]; exact apart)] at crowded'
  simp only [invalid, if_pos empty, wpEmitCalm]
  exact crowded'

theorem crowdedValid (crowded : Crowded start slots first engine) (order : NewOrder) (b : Nat)
    (next : order.orderId.toNat = slots) (configured : start.configured = true)
    (found : start.findBook order.instrumentId = some b)
    (valid : invalid (start.books.read b) order = none) : ValidSubmit engine order b := by
  refine ⟨?_, ?_, crowded.unused _ (Nat.le_of_eq next.symm), ?_⟩
  · rw [crowded.rest]
    exact configured
  · rw [crowded.rest]
    exact found
  · rw [crowded.rest]
    exact valid

theorem removeRestingAlone (first : (pool.get slot).prev = kInvalidSlot)
    (last : (pool.get slot).next = kInvalidSlot) :
    removeResting pool book slot =
      (withdraw pool slot, vacate (book.putLevel (pool.get slot).side (pool.get slot).levelIndex
      ⟨kInvalidSlot, kInvalidSlot,
        (book.levelAt (pool.get slot).side (pool.get slot).levelIndex).totalQty - (pool.get
          slot).openQty,
        (book.levelAt (pool.get slot).side (pool.get slot).levelIndex).orderCount - 1⟩)
      (pool.get slot).side (pool.get slot).levelIndex) := by
  simp only [removeResting, bypass, joinNext, joinPrev, first, last, ne_eq, not_true, if_false]

theorem matchingIdle {env : Env} {instrumentId : InstrumentId} {side : Side} {price : Int}
    {isMarket : Bool} {s : Session} {post : Unit → Session → Prop} {stop : Abort → Session → Prop}
    (inner fuel : Nat) (idle : s.engine.matchingGoesOn b slot side price isMarket = false)
    (holds : post () s) :
    wp (matchLevels env b instrumentId slot side price isMarket inner fuel) post stop s := by
  cases fuel with
  | zero =>
    simpa only [matchLevels, current, wpBind, wpGet, wpPure, idle, Bool.false_eq_true, if_false]
  | succ fuel =>
    simpa only [matchLevels, current, wpBind, wpGet, wpPure, idle, Bool.false_eq_true, if_false]

theorem levelIdle {env : Env} {instrumentId : InstrumentId} {side : Side} {idx : UInt32}
    {s : Session} {post : Unit → Session → Prop} {stop : Abort → Session → Prop} (fuel : Nat)
    (idle : s.engine.levelGoesOn b slot side idx = false) (holds : post () s) :
    wp (matchLevel env b instrumentId slot side idx fuel) post stop s := by
  cases fuel with
  | zero =>
    simpa only [matchLevel, current, wpBind, wpGet, wpPure, idle, Bool.false_eq_true, if_false]
  | succ fuel =>
    simpa only [matchLevel, current, wpBind, wpGet, wpPure, idle, Bool.false_eq_true, if_false]

theorem submitRuns {env : Env} (post : Session → Prop) (valid : ValidSubmit engine order b)
    (ends : wp (enterOrder env order) (fun slot after => wp (accept env slot order) (fun _ ready =>
      wp (execute env b slot order (limitPrice order)) (fun _ t => post t)
      (fun _ t => post t) ready)
      (fun _ t => post t) after) (fun _ t => post t) { engine := engine }) :
    post (call env (.submit order) engine) := by
  refine callEnds ?_
  change wp (submit env order) _ _ _
  unfold wp
  rw [@submitEntered { engine := engine } _ _ _ valid]
  change wp (enterOrder env order >>= fun slot => accept env slot order >>= fun _ =>
    execute env b slot order (limitPrice order)) _ _ _
  simpa only [wpBind] using ends

theorem iocCrowds (crowded : Crowded start slots first engine) (order : NewOrder)
    (full : slots = 2 ^ 32) (next : order.orderId.toNat = slots)
    (valid : ValidSubmit engine order b) (ioc : order.tif = .ioc)
    (nothing : (start.books.read b).hasBest order.side.opposite = false) :
    Crowded start (slots + 1) { enteredAs order first with openQty := 0, filledQty := 0 }
      (call .calm (.submit order) engine).engine := by
  refine submitRuns (fun t => Crowded start (slots + 1) _ t.engine) valid
    (wpMono (enterCrowded crowded order (by omega) next) (fun slot after entered => ?_)
      (fun _ _ impossible => impossible.elim))
  obtain ⟨named, -, -, rest, size, stored, firstIs, index, unused⟩ := entered
  have zero : slot = 0 := by rw [named, full]; decide
  subst zero
  rw [if_pos rfl] at firstIs
  have books : after.engine.books = start.books := by rw [rest]
  have idle : ∀ engine : Engine, engine.books = start.books →
      engine.matchingGoesOn b 0 order.side (limitPrice order) (decide (order.type = .market)) =
      false := by
    intro engine books
    simp only [matchingGoesOn, books, nothing, Bool.and_false, Bool.false_and]
  have held : Crowded start (slots + 1) { enteredAs order first with openQty := 0, filledQty := 0 }
      ((after.engine.putRecord 0 (fun rec =>
        { rec with openQty := order.quantity, filledQty := 0 })).putRecord 0
        (fun rec => { rec with openQty := 0 })) := by
    refine ⟨?_, size, stored, ?_, index, unused⟩
    · rw [rest]
      rfl
    · simp only [putRecord, OrderPool.getModifySame, firstIs]
  have more : 0 < order.quantity := Nat.pos_of_ne_zero (fun none => by
    have zero : order.quantity = 0 := UInt32.toNat_inj.mp none
    have flawed := valid.valid
    rw [invalid, if_pos zero] at flawed
    contradiction)
  simp only [accept, update, wpEmitCalm, wpBind, wpModify, wpGet, wpPure, execute, current, ioc,
    reduceCtorEq, if_false, matchAndDispose, runMatching]
  refine matchingIdle _ _ (idle _ books) ?_
  simp only [disposeRemainder, ioc, reduceCtorEq, if_false, current, update, wpEmitCalm, wpBind,
    wpModify, wpGet, wpIte, wpPure, putRecord, OrderPool.getModifySame, more, true_imp_iff,
    not_true, false_imp_iff, and_true]
  exact held

end Crowds

def loneSell : Engine :=
  after (calmRun [⟨7, 100000, 0⟩] [.submit ⟨0, 7, .sell, .limit, .day, 100000, 4⟩])

theorem loneSellRoomy : Roomy loneSell := roomyOf (by decide +kernel) (by decide +kernel)

/- The record of the sell after a later order was written over it. -/
def hollow : OrderRecord :=
  ⟨4294967296, 100000, 7, 0, 0, kInvalidSlot, kInvalidSlot, 0, .sell, true⟩

def marketFok : NewOrder := ⟨4294967297, 7, .buy, .market, .fok, 0, 4⟩

/- The book once the hollow record is out of it: its level still counts four. -/
def clearedBook : OrderBook :=
  vacate (((loneSell.books.read 0).putLevel .sell 0 ⟨0, 0, 4, 1⟩).putLevel .sell 0 ⟨kInvalidSlot,
    kInvalidSlot, 4, 0⟩) .sell 0

structure Settled (engine : Engine) : Prop where
  book : engine.books.read 0 = (loneSell.books.read 0).putLevel .sell 0 ⟨0, 0, 4, 1⟩
  own : (engine.pool.get 1).openQty = 4
  other : engine.pool.get 0 = hollow

theorem hollowSettles {engine : Engine} (books : engine.books = loneSell.books)
    (own : (engine.pool.get 1).openQty = 4) (other : engine.pool.get 0 = hollow) :
    Settled (engine.settleTrade 0 .buy 0 1 0 0) := by
  have level : (loneSell.books.read 0).levelAt .sell 0 = ⟨0, 0, 4, 1⟩ := by decide +kernel
  have apart : (1 : Slot) ≠ 0 := by decide
  refine ⟨?_, ?_, ?_⟩
  · simp only [settleTrade, putBook, Buffer.readWrite, if_true, books, Side.opposite, level]
    rfl
  · simp only [settleTrade, putBook, OrderPool.fill]
    rw [OrderPool.getModifyOther _ _ apart, OrderPool.getModifySame, own]
    rfl
  · simp only [settleTrade, putBook, OrderPool.fill]
    rw [OrderPool.getModifySame, OrderPool.getModifyOther _ _ apart.symm, other]
    rfl

theorem hollowRemoved {engine : Engine} (settled : Settled engine) :
    removeResting engine.pool (engine.books.read 0) 0 = (withdraw engine.pool 0, clearedBook) := by
  have first : (engine.pool.get 0).prev = kInvalidSlot := by rw [settled.other]; rfl
  have last : (engine.pool.get 0).next = kInvalidSlot := by rw [settled.other]; rfl
  rw [removeRestingAlone first last, settled.other, settled.book]
  simp only [hollow, levelAtPutLevel, and_self, if_true]
  rfl

theorem hollowTrade {s : Session} (books : s.engine.books = loneSell.books)
    (own : (s.engine.pool.get 1).openQty = 4) (id : (s.engine.pool.get 1).id = 4294967297)
    (other : s.engine.pool.get 0 = hollow) :
    wp (tradeHead .calm 0 7 1 .buy 0) (fun _ t =>
      t.events = s.events ++ [.trade s.engine.nextTradeId.toNat 7 100000 0 4294967296
        4294967297 .buy] ∧
      (t.engine.pool.get 1).openQty = 4 ∧ t.engine.books.read 0 = clearedBook)
      (fun _ _ => False) s := by
  have head : ((loneSell.books.read 0).levelAt .sell 0).head = 0 := by decide +kernel
  have settled :=
    @hollowSettles { s.engine with nextTradeId := s.engine.nextTradeId + 1 } books own other
  have empty : hollow.openQty = 0 := rfl
  have less : (0 : Quantity) < 4 := by decide
  simp only [tradeHead, current, update, wpEmitCalm, wpBind, wpModify, wpGet, wpPure, Side.opposite,
    books, head, own, id, other, empty, less, if_true]
  rw [← books]
  rw [wpIte]
  refine ⟨fun _ => ⟨?_, ?_, ?_⟩,
    fun left => absurd (congrArg OrderRecord.openQty settled.other) left⟩
  · simp only [Session.events, List.map_append]
    rfl
  · change ((removeResting _ _ 0).1.get 1).openQty = 4
    rw [hollowRemoved settled]
    exact (congrArg OrderRecord.openQty (OrderPool.getModifyOther _ _ (by decide))).trans
      settled.own
  · change (Buffer.write _ 0 (removeResting _ _ 0).2).read 0 = _
    rw [Buffer.readWrite, if_pos rfl, hollowRemoved settled]

theorem clearedIdle {engine : Engine} (cleared : engine.books.read 0 = clearedBook) :
    engine.levelGoesOn 0 1 .buy 0 = false ∧ ∀ price,
      engine.matchingGoesOn 0 1 .buy price true = false := by
  have head : (clearedBook.levelAt .sell 0).head = kInvalidSlot := by decide +kernel
  have best : clearedBook.hasBest .sell = false := by decide +kernel
  refine ⟨?_, fun price => ?_⟩
  · simp only [levelGoesOn, cleared, Side.opposite, head, ne_eq, not_true, decide_false,
      Bool.and_false]
  · simp only [matchingGoesOn, cleared, Side.opposite, best, Bool.and_false, Bool.false_and]

theorem hollowMatched {s : Session} (books : s.engine.books = loneSell.books)
    (own : (s.engine.pool.get 1).openQty = 4) (id : (s.engine.pool.get 1).id = 4294967297)
    (other : s.engine.pool.get 0 = hollow) :
    wp (runMatching .calm 0 7 1 .buy 0 true) (fun _ t =>
      t.events = s.events ++ [.trade s.engine.nextTradeId.toNat 7 100000 0 4294967296
        4294967297 .buy] ∧
      (t.engine.pool.get 1).openQty = 4) (fun _ _ => False) s := by
  have best : (loneSell.books.read 0).bestIndex .sell = 0 := by decide +kernel
  have head : ((loneSell.books.read 0).levelAt .sell 0).head = 0 := by decide +kernel
  have goesOn : s.engine.matchingGoesOn 0 1 .buy 0 true = true := by
    simp only [matchingGoesOn, own, books, Side.opposite, hasBest, best, Bool.true_or,
      Bool.and_true]
    decide
  have levelOn : s.engine.levelGoesOn 0 1 .buy 0 = true := by
    simp only [levelGoesOn, own, books, Side.opposite, head]
    decide
  have zero : UInt32.ofInt 0 = 0 := rfl
  simp only [runMatching, matchLevels, matchLevel, current, wpBind, wpGet, wpPure, goesOn, if_true,
    Side.opposite, books, best, zero, levelOn]
  refine wpMono (hollowTrade books own id other) (fun _ t traded => ?_)
    (fun _ _ impossible => impossible.elim)
  obtain ⟨events, left, cleared⟩ := traded
  obtain ⟨levelOff, off⟩ := clearedIdle cleared
  exact levelIdle _ levelOff (matchingIdle _ _ (off 0) ⟨events, left⟩)

theorem hollowExecuted {s : Session} (books : s.engine.books = loneSell.books)
    (own : (s.engine.pool.get 1).openQty = 4) (id : (s.engine.pool.get 1).id = 4294967297)
    (other : s.engine.pool.get 0 = hollow) :
    wp (execute .calm 0 1 marketFok (limitPrice marketFok)) (fun _ t => t.events = s.events ++
      [.trade s.engine.nextTradeId.toNat 7 100000 0 4294967296 4294967297 .buy,
        .canceled 4294967297 4 .noLiquidity])
      (fun _ _ => False) s := by
  have enough : canFullyFill (loneSell.books.read 0) marketFok.side
      (decide (marketFok.type = .market)) (limitPrice marketFok)
      marketFok.quantity = some true := by decide +kernel
  unfold execute
  simp only [current, wpBind, wpGet, wpPure, books, enough]
  rw [if_pos (by rfl), matchAndDispose, wpBind]
  refine wpMono (hollowMatched books own id other) (fun _ t matched => ?_)
    (fun _ _ impossible => impossible.elim)
  obtain ⟨events, left⟩ := matched
  have some : (0 : Quantity) < 4 := by decide
  unfold disposeRemainder
  simp only [current, update, wpBind, wpGet, wpPure, left, some, if_true]
  rw [if_neg (by decide), wpBind, wpModify, wpEmitCalm]
  rw [Session.events, List.map_append]
  change t.events ++ _ = _
  rw [events, List.append_assoc]
  rfl

theorem hollowFok {engine : Engine} (crowded : Crowded loneSell 4294967297 hollow engine) :
    (call .calm (.submit marketFok) engine).events =
      [.accepted 4294967297,
        .trade loneSell.nextTradeId.toNat 7 100000 0 4294967296 4294967297 .buy,
        .canceled 4294967297 4 .noLiquidity] := by
  have valid := crowdedValid crowded marketFok 0 rfl (by decide +kernel) (by decide +kernel) rfl
  refine submitRuns (fun t => t.events = _) valid
    (wpMono (@enterCrowded _ _ _ { engine := engine } crowded
    marketFok (by decide) rfl) (fun slot after entered => ?_)
  (fun _ _ impossible => impossible.elim))
  obtain ⟨named, log, id, rest, -, -, firstIs, -, -⟩ := entered
  have one : slot = 1 := by rw [named]; decide
  subst one
  rw [if_neg (by decide)] at firstIs
  have books : after.engine.books = loneSell.books := by rw [rest]
  have tradeId : after.engine.nextTradeId = loneSell.nextTradeId := by rw [rest]
  unfold accept
  rw [wpBind, update, wpModify, wpEmitCalm, log]
  refine wpMono (hollowExecuted books ?_ ?_ ?_) (fun _ t executed => ?_)
    (fun _ _ impossible => impossible.elim)
  · simp only [putRecord, OrderPool.getModifySame, marketFok]
  · simp only [putRecord, OrderPool.getModifySame, id, marketFok]
  · simp only [putRecord]
    rw [OrderPool.getModifyOther _ _ (by decide)]
    exact firstIs
  · rw [executed, ← tradeId]
    rfl

def spoiled (n : Nat) : NewOrder := ⟨UInt64.ofNat n, 7, .buy, .limit, .day, 100000, 0⟩

def crowd (n : Nat) : List Request := (List.range n).map (fun k => .submit (spoiled (k + 1)))

theorem loneSellCrowded : Crowded loneSell 1 (loneSell.pool.get 0) loneSell := by
  have reach : ∃ venue, Sim loneSell venue :=
    (reached keptTrivial _ loneSellRoomy).imp (fun _ => And.left)
  obtain ⟨_, queues, rep, _, _⟩ := reach
  have size : loneSell.pool.size = 1 := by decide +kernel
  refine ⟨rfl, size, rep.stored, rfl, rep.index, fun id past => ?_⟩
  cases found : loneSell.orderIndex.find id with
  | none => rfl
  | some slot =>
    obtain ⟨inside, named⟩ := rep.found id slot found
    have first : slot = 0 := UInt32.toNat_inj.mp (Nat.lt_one_iff.mp (by rw [← size]; exact inside))
    have zero : (loneSell.pool.get 0).id = 0 := by decide +kernel
    rw [first, zero] at named
    rw [← named] at past
    exact absurd past (by decide)

theorem crowdFills (n : Nat) (few : n < 2 ^ 32) : Crowded loneSell (n + 1) (loneSell.pool.get 0)
    (((crowd n).map (Action.call .calm)).foldl act loneSell) := by
  induction n with
  | zero => exact loneSellCrowded
  | succ n ih =>
    have crowded := ih (by omega)
    have next : (spoiled (n + 1)).orderId.toNat = n + 1 :=
      UInt64.toNat_ofNat_of_lt' (Nat.lt_trans few (by decide))
    have found : loneSell.findBook 7 = some 0 := by decide +kernel
    rw [crowd, List.range_succ, List.map_append, List.map_append, List.foldl_append]
    exact spoiledCrowds crowded (spoiled (n + 1)) (by omega) few next (by decide +kernel) found rfl

def overwriting : NewOrder := ⟨4294967296, 7, .sell, .limit, .ioc, 100000, 3⟩

def crowded (n : Nat) : List Action := calmRun [⟨7, 100000, 0⟩]
  (.submit ⟨0, 7, .sell, .limit, .day, 100000, 4⟩ :: crowd n ++ [.submit overwriting])

theorem afterCrowded (n : Nat) : after (crowded n) =
    (call .calm (.submit overwriting) (((crowd n).map (Action.call .calm)).foldl act
      loneSell)).engine := by
  rw [after, crowded, calmRun, List.map_append, List.map_cons, ← List.cons_append,
    List.foldl_append]
  rfl

theorem crowdedHollow : Crowded loneSell 4294967297 hollow (after (crowded 4294967295)) := by
  have full := crowdFills 4294967295 (by decide)
  have last := iocCrowds full overwriting (by decide) rfl
    (crowdedValid full overwriting 0 rfl (by decide +kernel) (by decide +kernel)
      (by decide +kernel)) rfl (by decide +kernel)
  have record :
      { enteredAs overwriting (loneSell.pool.get 0) with openQty := 0, filledQty := 0 } =
        hollow := by
    decide +kernel
  rw [afterCrowded, ← record]
  exact last

end Engine
end Xmatch
