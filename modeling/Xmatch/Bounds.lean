import Xmatch.Runs

/-! Every book stays inside its ladder, whatever becomes of the pool of records: a level that
is marked, or the best, is a level of the ladder, and so has a price in the band. -/
namespace Xmatch

namespace OrderBook

/- The price at the end of the band that an order of the side reaches last. -/
def edge (book : OrderBook) : Side → Int
  | .buy => book.bandHi
  | .sell => book.bandLo

structure Ranged (book : OrderBook) : Prop where
  marked : ∀ side level, (book.bitmap side).has level = true → level < book.levelCount
  best : ∀ side, book.bestIndex side < (book.levelCount : Int)

section Ranges
variable {pool : OrderPool} {book book' : OrderBook} {side : Side} {idx : UInt32} {slot : Slot}
  {level : Level}

theorem countFrame (frame : SameFrame book book') : book'.levelCount = book.levelCount := by
  rw [levelCount, levelCount, frame.ladder]

theorem rangedPutLevel (ranged : Ranged book) : Ranged (book.putLevel side idx level) := by
  refine ⟨fun s l has => ?_, fun s => ?_⟩
  · rw [bitmapPutLevel] at has
    rw [countFrame (putLevelFrame ..)]
    exact ranged.marked s l has
  · rw [bestIndexPutLevel, countFrame (putLevelFrame ..)]
    exact ranged.best s

theorem rangedPutBitmap (ranged : Ranged book) {bits : LevelBitset}
    (words : bits.words.size = (book.bitmap side).words.size)
    (inside : ∀ level, bits.has level = true → level < book.levelCount) :
    Ranged (book.putBitmap side bits) := by
  have count := countFrame (putBitmapFrame book side bits words)
  refine ⟨fun s l has => ?_, fun s => ?_⟩
  · rw [bitmapPutBitmap] at has
    rw [count]
    split at has
    · exact inside l has
    · exact ranged.marked s l has
  · rw [bestIndexPutBitmap, count]
    exact ranged.best s

theorem rangedPutBest (ranged : Ranged book) {best : Int}
    (inside : best < (book.levelCount : Int)) : Ranged (book.putBest side best) := by
  have count := countFrame (putBestFrame book side best)
  refine ⟨fun s l has => ?_, fun s => ?_⟩
  · rw [bitmapPutBest] at has
    rw [count]
    exact ranged.marked s l has
  · rw [bestIndexPutBest, count]
    split
    · exact inside
    · exact ranged.best s

theorem nextIndexInside (ranged : Ranged book) (side : Side) (after : Int) :
    book.nextIndex side after < (book.levelCount : Int) := by
  have ends : ∀ {found : Int} {eligible : Nat → Prop} {ahead : Nat → Nat → Prop},
      LevelBitset.Nearest eligible ahead found →
      (∀ level, eligible level → level < book.levelCount) → found < (book.levelCount : Int) := by
    intro found eligible ahead nearest inside
    by_cases none : found < 0
    · omega
    · have found' := inside found.toNat (nearest.some found.toNat (by omega)).1
      omega
  cases side with
  | buy =>
    exact ends (LevelBitset.findHighestLeNearest ..) (fun level eligible =>
      ranged.marked .buy level eligible.2)
  | sell =>
    exact ends (LevelBitset.findLowestGeNearest ..) (fun level eligible =>
      ranged.marked .sell level eligible.2.2)

theorem rangedMark (ranged : Ranged book) (inside : idx.toNat < book.levelCount) :
    Ranged (markOccupied book side idx) := by
  unfold markOccupied
  split
  · refine rangedPutBitmap ranged rfl (fun l has => ?_)
    rw [LevelBitset.hasSet, Bool.or_eq_true, decide_eq_true_eq] at has
    rcases has with before | now
    · exact ranged.marked side l before
    · exact now ▸ inside
  · exact ranged

theorem rangedImprove (ranged : Ranged book) (inside : idx.toNat < book.levelCount) :
    Ranged (improveBest book side idx) := by
  have best : (idx.toNat : Int) < (book.levelCount : Int) := by exact_mod_cast inside
  unfold improveBest
  cases side <;> simp only <;> split
  all_goals first | exact rangedPutBest ranged best | exact ranged

theorem rangedVacate (ranged : Ranged book) : Ranged (vacate book side idx) := by
  unfold vacate
  split
  · have cleared : Ranged (book.putBitmap side ((book.bitmap side).clear idx)) := by
      refine rangedPutBitmap ranged rfl (fun l has => ?_)
      rw [LevelBitset.hasClear, Bool.and_eq_true] at has
      exact ranged.marked side l has.1
    simp only
    split
    · exact rangedPutBest cleared (nextIndexInside cleared ..)
    · exact cleared
  · exact ranged

theorem rangedRemove (ranged : Ranged book) : Ranged (removeResting pool book slot).2 :=
  rangedVacate (rangedPutLevel ranged)

theorem rangedReplace (ranged : Ranged book) (newSlot : Slot) :
    Ranged (replaceInPlace pool book slot newSlot).2 :=
  rangedPutLevel ranged

theorem pricedIndex (fitted : Fitted book) {price : Int} (priced : 0 ≤ book.priceToIndex price) :
    TickTable.isTickAligned kTickSchedule price = true ∧ ∃ level < book.levelCount,
      book.priceToIndex price = (level : Int) := by
  by_cases listed : TickTable.isTickAligned kTickSchedule price = true ∧ book.bandLo ≤ price ∧
    price ≤ book.bandHi
  · obtain ⟨level, inside, index, _⟩ := fitted.numbered.index price listed.1 listed.2.1 listed.2.2
    exact ⟨listed.1, level, inside, index⟩
  · have index := fitted.numbered.none price listed
    rw [priceToIndex, index] at priced
    omega

theorem rangedAdd (fitted : Fitted book) (ranged : Ranged book) {price : Int}
    (priced : 0 ≤ book.priceToIndex price) : Ranged (addResting pool book slot side price).2 := by
  obtain ⟨_, level, inside, index⟩ := pricedIndex fitted priced
  have within : (UInt32.ofInt (book.priceToIndex price)).toNat < book.levelCount := by
    rw [index, WordBits.ofIntNatCast, levelNarrow inside]
    exact inside
  refine rangedImprove (rangedMark (rangedPutLevel ranged) ?_) ?_
  · rw [countFrame (putLevelFrame ..)]
    exact within
  · rw [countFrame (markOccupiedFrame ..), countFrame (putLevelFrame ..)]
    exact within

theorem edgeCrosses (fitted : Fitted book) {index : Int} (inside : index < (book.levelCount : Int))
    (found : 0 ≤ index) (side : Side) :
    Engine.crosses side (book.edge side) (book.indexToPrice (UInt32.ofInt index)) = true := by
  obtain ⟨level, rfl⟩ := Int.eq_ofNat_of_zero_le found
  have price := fitted.numbered.price level (by exact_mod_cast inside)
  rw [WordBits.ofIntNatCast]
  cases side with
  | buy => exact decide_eq_true price.2.2.1
  | sell => exact decide_eq_true price.2.1

end Ranges
end OrderBook

namespace Engine
open OrderBook Effect

/- What `configure` settles: the lookups lead to books with whole ladders, and the edges of a band
are prices of it. -/
structure Grounded (engine : Engine) : Prop where
  found : ∀ id b, engine.findBook id = some b → b < engine.books.size
  fitted : ∀ b < engine.books.size, Fitted (engine.books.read b)
  edges : ∀ b < engine.books.size, ∀ side,
    0 ≤ (engine.books.read b).priceToIndex ((engine.books.read b).edge side)

theorem grownGrounded {before after : Engine} (grounded : Grounded before)
    (grown : Grown before after) : Grounded after := by
  refine ⟨fun id b found => ?_, fun b inside => ?_, fun b inside side => ?_⟩
  · rw [findBook, grown.instrumentIndex] at found
    rw [grown.books]
    exact grounded.found id b found
  · rw [grown.books] at inside
    exact fittedFrame (grounded.fitted b inside) (grown.frame b)
  · rw [grown.books] at inside
    have priced := grounded.edges b inside side
    have same : (after.books.read b).edge side = (before.books.read b).edge side := by
      cases side <;> simp only [edge, bandHi, bandLo, (grown.frame b).ladder]
    rw [same, priceToIndex, (grown.frame b).ladder]
    exact priced

structure Held (base : Engine) (allowed : Event → Prop) (s : Session) : Prop where
  grown : Grown base s.engine
  ranged : ∀ b < base.books.size, Ranged (s.engine.books.read b)
  log : ∀ callback ∈ s.log, allowed callback.event

section Holding
variable {base : Engine} {allowed : Event → Prop} {env : Env} {b : Nat}
  {instrumentId : InstrumentId} {aggressor slot newSlot : Slot} {side : Side} {idx : UInt32}
  {price : Int} {isMarket : Bool} {order : NewOrder} {α : Type}

theorem keepsRead {f : Engine → Op α}
    (rest : ∀ engine, Grown base engine → Keeps (Held base allowed) (f engine)) :
    Keeps (Held base allowed) (current >>= f) := by
  intro s held
  rw [wpBind]
  exact rest s.engine held.grown s held

theorem keepsUpdate {f : Engine → Engine} (grown : ∀ engine, Grown engine (f engine))
    (same : ∀ engine, (f engine).books = engine.books) : Keeps (Held base allowed) (update f) := by
  refine keepsModify (fun s held => ⟨grownTrans held.grown (grown _), fun b inside => ?_, held.log⟩)
  rw [same]
  exact held.ranged b inside

theorem keepsBook {f : Engine → OrderPool × OrderBook}
    (size : ∀ engine, (f engine).1.size = engine.pool.size)
    (frame : ∀ engine, SameFrame (engine.books.read b) (f engine).2)
    (ranged : ∀ engine, Grown base engine → b < base.books.size → Ranged (engine.books.read b) →
      Ranged (f engine).2) :
    Keeps (Held base allowed) (update (fun engine => engine.putBook b (f engine))) := by
  refine keepsModify (fun s held => ⟨grownTrans held.grown (grownBook _ b (size _) (frame _)),
    fun c inside => ?_, held.log⟩)
  rw [readPutBook]
  split
  · rename_i same
    subst same
    exact ranged _ held.grown inside (held.ranged c inside)
  · exact held.ranged c inside

theorem keepsEmit {event : Event} (ok : allowed event) :
    Keeps (Held base allowed) (emit env event) := by
  refine keepsBind (keepsModify
    (fun s held => ⟨held.grown, held.ranged, fun callback member => ?_⟩)) (fun _ => ?_)
  · rcases List.mem_append.mp member with before | now
    · exact held.log callback before
    · rw [List.mem_singleton.mp now]
      exact ok
  · exact keepsBind (fun s held => held) (fun s => keepsIte (keepsThrow _) (keepsPure _))

theorem keepsAllocate : Keeps (Held base allowed) (allocate env) := by
  intro s held
  simp only [allocate, current, update, wpBind, wpGet, wpPure]
  cases allocated : s.engine.pool.allocate env.chunk with
  | none => exact held
  | some result =>
    obtain ⟨slot, pool⟩ := result
    have size := OrderPool.allocateSize allocated
    exact ⟨grownTrans held.grown
      ⟨by simp only [size]; omega, rfl, fun _ => sameFrameRefl _, rfl, rfl⟩, held.ranged, held.log⟩

theorem keepsInsertOrder (id : OrderId) : Keeps (Held base allowed) (insertOrder env id slot) := by
  refine keepsRead (fun engine _ => ?_)
  cases engine.orderIndex.insert env.slots id slot with
  | none => exact keepsThrow _
  | some index =>
    exact keepsUpdate (fun _ => ⟨Nat.le_refl _, rfl, fun _ => sameFrameRefl _, rfl, rfl⟩)
      (fun _ => rfl)

theorem keepsRecord (f : OrderRecord → OrderRecord) :
    Keeps (Held base allowed) (update (fun engine => engine.putRecord slot f)) :=
  keepsUpdate (fun _ => ⟨Nat.le_refl _, rfl, fun _ => sameFrameRefl _, rfl, rfl⟩) (fun _ => rfl)

theorem keepsRemove : Keeps (Held base allowed) (update (fun engine =>
    engine.putBook b (removeResting engine.pool (engine.books.read b) slot))) :=
  keepsBook (fun _ => removeRestingSize ..) (fun _ => removeRestingFrame ..)
    (fun _ _ _ ranged => rangedRemove ranged)

theorem keepsAdd (grounded : Grounded base) (priced : 0 ≤ (base.books.read b).priceToIndex price) :
    Keeps (Held base allowed) (update (fun engine =>
      engine.putBook b (addResting engine.pool (engine.books.read b) slot side price))) := by
  refine keepsBook (fun _ => addRestingSize ..) (fun _ => addRestingFrame ..)
    (fun engine grown inside ranged => ?_)
  refine rangedAdd (fittedFrame (grounded.fitted b inside) (grown.frame b)) ranged ?_
  rw [priceToIndex, (grown.frame b).ladder]
  exact priced

theorem keepsTradeHead (trades : ∀ tradeId instrumentId price qty resting aggressive side,
    allowed (.trade tradeId instrumentId price qty resting aggressive side)) :
    Keeps (Held base allowed) (tradeHead env b instrumentId aggressor side idx) := by
  refine keepsRead (fun engine _ =>
    keepsBind ?_ (fun _ => keepsBind (keepsEmit (trades ..)) (fun _ => keepsBind ?_ (fun _ =>
    keepsRead (fun settled _ => keepsIte keepsRemove (keepsPure _))))))
  · exact keepsUpdate (fun _ => ⟨Nat.le_refl _, rfl, fun _ => sameFrameRefl _, rfl, rfl⟩)
      (fun _ => rfl)
  · exact keepsBook (fun _ => rfl) (fun _ => putLevelFrame ..)
      (fun _ _ _ ranged => rangedPutLevel ranged)

theorem keepsMatchLevel (trades : ∀ tradeId instrumentId price qty resting aggressive side,
    allowed (.trade tradeId instrumentId price qty resting aggressive side)) (fuel : Nat) :
    Keeps (Held base allowed) (matchLevel env b instrumentId aggressor side idx fuel) := by
  induction fuel with
  | zero => exact keepsRead (fun engine _ => keepsIte (keepsThrow _) (keepsPure _))
  | succ fuel ih =>
    exact keepsRead (fun engine _ => keepsIte (keepsBind (keepsTradeHead trades) (fun _ => ih))
      (keepsPure _))

theorem keepsMatchLevels (trades : ∀ tradeId instrumentId price qty resting aggressive side,
    allowed (.trade tradeId instrumentId price qty resting aggressive side)) (inner fuel : Nat) :
    Keeps (Held base allowed)
    (matchLevels env b instrumentId aggressor side price isMarket inner fuel) := by
  induction fuel with
  | zero => exact keepsRead (fun engine _ => keepsIte (keepsThrow _) (keepsPure _))
  | succ fuel ih =>
    exact keepsRead (fun engine _ => keepsIte (keepsBind (keepsMatchLevel trades _) (fun _ => ih))
      (keepsPure _))

theorem keepsRunMatching (trades : ∀ tradeId instrumentId price qty resting aggressive side,
    allowed (.trade tradeId instrumentId price qty resting aggressive side)) :
    Keeps (Held base allowed) (runMatching env b instrumentId aggressor side price isMarket) :=
  keepsRead (fun _ _ => keepsMatchLevels trades _ _)

theorem keepsEnterOrder : Keeps (Held base allowed) (enterOrder env order) :=
  keepsBind keepsAllocate
    (fun _ => keepsBind (keepsRecord _)
      (fun _ => keepsBind (keepsInsertOrder _) (fun _ => keepsPure _)))

theorem keepsAccept (ok : allowed (.accepted order.orderId)) :
    Keeps (Held base allowed) (accept env slot order) :=
  keepsBind (keepsRecord _) (fun _ => keepsEmit ok)

end Holding

section Requests
variable {base : Engine} {env : Env} {b : Nat} {slot newSlot : Slot} {price : Int}
  {order : NewOrder}

theorem keepsDispose (grounded : Grounded base)
    (priced : order.tif = .day → 0 ≤ (base.books.read b).priceToIndex price) :
    Keeps (Held base (fun _ => True)) (disposeRemainder env b slot order price) := by
  refine keepsRead (fun _ _ => keepsIte ?_ (keepsPure _))
  by_cases day : order.tif = .day
  · rw [if_pos day]
    exact keepsAdd grounded (priced day)
  · rw [if_neg day]
    exact keepsBind (keepsRecord _) (fun _ => keepsEmit trivial)

theorem keepsExecute (grounded : Grounded base)
    (priced : order.tif = .day → 0 ≤ (base.books.read b).priceToIndex price) :
    Keeps (Held base (fun _ => True)) (execute env b slot order price) := by
  have both : Keeps (Held base (fun _ => True)) (matchAndDispose env b slot order price) :=
    keepsBind (keepsRunMatching (fun _ _ _ _ _ _ _ => trivial))
      (fun _ => keepsDispose grounded priced)
  refine keepsRead (fun engine _ => keepsIte ?_ both)
  cases canFullyFill (engine.books.read b) order.side (order.type = .market) price
    order.quantity with
  | none => exact keepsThrow _
  | some fits =>
    cases fits with
    | true => exact both
    | false => exact keepsBind (keepsRecord _) (fun _ => keepsEmit trivial)

theorem dayPriced {book : OrderBook} (valid : invalid book order = none) (day : order.tif = .day) :
    0 ≤ book.priceToIndex (limitPrice order) := by
  rw [invalid] at valid
  split at valid
  · contradiction
  · split at valid
    · contradiction
    · rename_i notDayMarket
      have limited : order.type ≠ .market := fun market => notDayMarket ⟨market, day⟩
      rw [if_pos limited] at valid
      rw [limitPrice, if_neg limited]
      split at valid
      · contradiction
      · split at valid
        · contradiction
        · exact Int.not_lt.mp ‹_›

theorem keepsSubmit (grounded : Grounded base) :
    Keeps (Held base (fun _ => True)) (submit env order) := by
  refine keepsRead (fun engine grown => keepsIte (keepsEmit trivial) ?_)
  cases engine.findBook order.instrumentId with
  | none => exact keepsEmit trivial
  | some b =>
    refine keepsIte (keepsEmit trivial) (keepsBind keepsEnterOrder (fun slot => ?_))
    cases valid : invalid (engine.books.read b) order with
    | some reason => exact keepsEmit trivial
    | none =>
      refine keepsBind (keepsAccept trivial) (fun _ => keepsExecute grounded (fun day => ?_))
      have priced := dayPriced valid day
      rwa [priceToIndex, (grown.frame b).ladder] at priced

theorem keepsCancelSlot (id : OrderId) :
    Keeps (Held base (fun _ => True)) (cancelSlot env id slot) :=
  keepsRead (fun _ _ => keepsBind keepsRemove (fun _ => keepsEmit trivial))

theorem keepsCancel (request : CancelOrder) :
    Keeps (Held base (fun _ => True)) (cancel env request) := by
  refine keepsRead (fun engine _ => keepsIte (keepsEmit trivial) ?_)
  cases engine.findOpen request.orderId with
  | none => exact keepsEmit trivial
  | some slot => exact keepsCancelSlot _

theorem keepsEnterReplacement (request : ReplaceOrder) (old : OrderRecord) :
    Keeps (Held base (fun _ => True)) (enterReplacement env request old) := by
  refine keepsBind keepsAllocate
    (fun newSlot => keepsBind (keepsRecord _) (fun _ => keepsIte ?_ ?_))
  · exact keepsBind (keepsUpdate (fun _ => ⟨Nat.le_refl _, rfl, fun _ => sameFrameRefl _, rfl, rfl⟩)
      (fun _ => rfl)) (fun _ => keepsPure _)
  · exact keepsBind (keepsInsertOrder _) (fun _ => keepsPure _)

theorem keepsRequeue (grounded : Grounded base) {request : ReplaceOrder} (old : OrderRecord)
    (priced : 0 ≤ (base.books.read b).priceToIndex request.newPrice) :
    Keeps (Held base (fun _ => True)) (requeue env request b slot newSlot old) := by
  have rest : Keeps (Held base (fun _ => True)) (do
      let engine ← current
      if 0 < (engine.pool.get newSlot).openQty then
        update (fun engine =>
          engine.putBook b (addResting engine.pool (engine.books.read b) newSlot old.side
            request.newPrice))) :=
    keepsRead (fun _ _ => keepsIte (keepsAdd grounded priced) (keepsPure _))
  refine keepsBind keepsRemove (fun _ => keepsBind (keepsEmit trivial) (fun _ => keepsIte ?_ rest))
  exact keepsBind (keepsRunMatching (fun _ _ _ _ _ _ _ => trivial)) (fun _ => rest)

theorem keepsReplaceSlot (grounded : Grounded base) {request : ReplaceOrder} (old : OrderRecord)
    (priced : 0 ≤ (base.books.read b).priceToIndex request.newPrice) :
    Keeps (Held base (fun _ => True)) (replaceSlot env request b slot old) := by
  refine keepsBind (keepsEnterReplacement request old)
    (fun newSlot => keepsIte (keepsRequeue grounded _ priced) ?_)
  exact keepsBind (keepsBook (fun _ => replaceInPlaceSize ..) (fun _ => replaceInPlaceFrame ..)
    (fun _ _ _ ranged => rangedReplace ranged _)) (fun _ => keepsEmit trivial)

theorem keepsReplace (grounded : Grounded base) (request : ReplaceOrder) :
    Keeps (Held base (fun _ => True)) (replace env request) := by
  refine keepsRead (fun engine grown => keepsIte (keepsEmit trivial) ?_)
  cases engine.findOpen request.orderId with
  | none => exact keepsEmit trivial
  | some slot =>
    refine keepsIte (keepsCancelSlot _)
      (keepsIte (keepsEmit trivial) (keepsIte (keepsEmit trivial) ?_))
    by_cases outside : (engine.books.read (engine.bookOf slot)).priceToIndex request.newPrice < 0
    · rw [if_pos outside]
      exact keepsEmit trivial
    · rw [if_neg outside]
      refine keepsReplaceSlot grounded _ ?_
      rwa [priceToIndex, (grown.frame _).ladder, Int.not_lt] at outside

theorem keepsPerform (grounded : Grounded base) (request : Request) :
    Keeps (Held base (fun _ => True)) (perform env request) := by
  cases request with
  | submit order => exact keepsSubmit grounded
  | cancel request => exact keepsCancel request
  | replace request => exact keepsReplace grounded request

end Requests

/- Fewer than 2^32 levels in every ladder. -/
def Laddered (engine : Engine) : Prop :=
  ∀ b < engine.books.size,
    PriceLadder.ticksIn kTickSchedule (engine.books.read b).bandLo (engine.books.read b).bandHi <
      2 ^ 32

def InBounds (engine : Engine) : Prop := Grounded engine ∧ ∀ b < engine.books.size,
    Ranged (engine.books.read b)

theorem ladderedBefore {before after : Engine} (grown : Grown before after)
    (laddered : Laddered after) : Laddered before := by
  intro b inside
  have levels := laddered b (by rw [grown.books]; exact inside)
  rwa [bandLo, bandHi, (grown.frame b).ladder] at levels

theorem callInBounds {engine : Engine} (inBounds : InBounds engine) (env : Env)
    (request : Request) : InBounds (call env request engine).engine := by
  obtain ⟨grounded, ranged⟩ := inBounds
  have grown := callGrown env request engine
  have held := @keepsPerform engine env grounded request { engine := engine }
    ⟨grownRefl engine, ranged, fun callback impossible => absurd impossible List.not_mem_nil⟩
  refine ⟨grownGrounded grounded grown, fun b inside => ?_⟩
  rw [grown.books] at inside
  exact callEnds (wpMono held (fun _ _ after => after.ranged b inside)
    (fun _ _ after => after.ranged b inside))

theorem blankRanged {cfg : InstrumentConfig} {book : OrderBook} (blank : Blank cfg book) :
    Ranged book := by
  refine ⟨fun side level has => ?_, fun side => ?_⟩
  · rw [blank.bitmap side, LevelBitset.hasResize] at has
    contradiction
  · rw [blank.best side]
    omega

theorem installedInBounds {engine engine' : Engine} {instruments : List InstrumentConfig}
    (installed : Installed engine instruments engine') (laddered : Laddered engine') :
    InBounds engine' := by
  have built : ∀ b < engine'.books.size, ∃ cfg, acceptable cfg = true ∧
      Blank cfg (engine'.books.read b) := by
    intro b inside
    rw [installed.size] at inside
    obtain ⟨ok, blank⟩ := installed.listed.built b instruments[b] (List.getElem?_eq_getElem inside)
    exact ⟨instruments[b], ok, blank⟩
  refine ⟨⟨fun id b found => installedFound installed found, fun b inside => ?_,
    fun b inside side => ?_⟩, fun b inside => ?_⟩
  · obtain ⟨cfg, ok, blank⟩ := built b inside
    exact blankFitted blank ok (laddered b inside)
  · obtain ⟨cfg, ok, blank⟩ := built b inside
    have fitted := blankFitted blank ok (laddered b inside)
    have banded := accepted ok
    rw [← blank.bandLo, ← blank.bandHi] at banded
    have span := Int.le_trans banded.low banded.high
    cases side with
    | buy =>
      obtain ⟨i, _, index, _⟩ := fitted.numbered.index _ banded.stop span (Int.le_refl _)
      rw [edge, priceToIndex, index]
      omega
    | sell =>
      obtain ⟨i, _, index, _⟩ := fitted.numbered.index _ banded.start (Int.le_refl _) span
      rw [edge, priceToIndex, index]
      omega
  · obtain ⟨cfg, _, blank⟩ := built b inside
    exact blankRanged blank

theorem alwaysInBounds (actions : List Action) :
    Laddered (after actions) → (after actions).configured = true → InBounds (after actions) := by
  induction actions using List.reverseRecOn with
  | nil => exact fun _ impossible => absurd impossible Bool.false_ne_true
  | append_singleton actions action ih =>
    rw [afterNext]
    intro laddered configured
    cases action with
    | call env request =>
      have grown := callGrown env request (after actions)
      exact callInBounds (ih (ladderedBefore grown laddered)
        (grown.configured.symm.trans configured)) env request
    | configure trouble instruments =>
      rcases actConfigure actions trouble instruments with same | ⟨list, _, installed⟩
      · rw [same] at laddered configured ⊢
        exact ih laddered configured
      · exact installedInBounds installed laddered

end Engine
end Xmatch
