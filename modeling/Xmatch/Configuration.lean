import Xmatch.SubmitSteps

/-! What `configure` accepts, and the engine it leaves: every book fitted and empty. -/
namespace Xmatch

open TickTable

theorem shippedChecked : Checked kTickSchedule := checked (by decide) (by decide)

theorem shippedEnds : ∀ bracket ∈ kTickSchedule.dropLast,
    bracket.tick ∣ bracket.upperExclusive := by decide

theorem shippedRegular (lo hi : Int) : PriceLadder.Regular kTickSchedule lo hi :=
  fun bracket member _ _ => shippedEnds bracket member

/- The band of an accepted configuration lies around its reference price, far inside 64 bits. -/
structure Banded (cfg : InstrumentConfig) (lo hi : Int) : Prop where
  start : isTickAligned kTickSchedule lo = true
  stop : isTickAligned kTickSchedule hi = true
  low : lo ≤ cfg.referencePrice
  high : cfg.referencePrice ≤ hi
  fits : hi + tickSize kTickSchedule hi ≤ kPriceMax

section Bands
variable {cfg : InstrumentConfig}

theorem acceptableIff :
    Engine.acceptable cfg = true ↔ cfg.referencePrice ≤ kPriceMax.tdiv kMaxBandBps ∧
    isTickAligned kTickSchedule cfg.referencePrice = true ∧ cfg.bandBps.toNat ≤ kMaxBandBps := by
  simp only [Engine.acceptable, Bool.not_eq_true', Bool.or_eq_false_iff, decide_eq_false_iff_not,
    Bool.not_eq_false', Int.not_lt, Nat.not_lt, and_assoc]

theorem coarsest (price : Int) : tickSize kTickSchedule price ≤ 1000 := by
  unfold tickSize
  split
  · rename_i bracket found
    have every : ∀ bracket ∈ kTickSchedule, bracket.tick ≤ 1000 := by decide
    exact every bracket (List.mem_of_find?_eq_some found)
  · decide

theorem ceilClose {price : Int} (positive : 0 < price) :
    ceilToTick kTickSchedule price ≤ price + 1000 := by
  have := coarsest price
  have := Int.tmod_nonneg (tickSize kTickSchedule price) (Int.le_of_lt positive)
  unfold ceilToTick
  rw [if_neg (by omega)]
  simp only
  split <;> omega

theorem shareBounds (ok : Engine.acceptable cfg = true) :
    0 ≤ cfg.referencePrice * (cfg.bandBps.toNat : Int) ∧
    cfg.referencePrice * (cfg.bandBps.toNat : Int) ≤ kPriceMax ∧
    0 ≤ (cfg.referencePrice * (cfg.bandBps.toNat : Int)).tdiv kBpsPerUnit ∧
    (cfg.referencePrice * (cfg.bandBps.toNat : Int)).tdiv kBpsPerUnit ≤ cfg.referencePrice := by
  obtain ⟨small, aligned, narrow⟩ := acceptableIff.mp ok
  have positive := (alignedIff.mp aligned).1
  have limit : cfg.referencePrice ≤ 922337203685477 := small
  have units : (cfg.bandBps.toNat : Int) ≤ kBpsPerUnit := Int.ofNat_le.mpr narrow
  have whole : 0 ≤ cfg.referencePrice * (cfg.bandBps.toNat : Int) :=
    Int.mul_nonneg (Int.le_of_lt positive) (Int.natCast_nonneg _)
  have most := Int.mul_le_mul_of_nonneg_left units (Int.le_of_lt positive)
  refine ⟨whole, ?_, ?_⟩
  · have unit : (kBpsPerUnit : Int) = 10000 := rfl
    rw [unit] at most
    unfold kPriceMax
    omega
  · rw [Int.tdiv_eq_ediv_of_nonneg whole]
    exact ⟨Int.ediv_nonneg whole (by decide), Int.ediv_le_of_le_mul (by decide) most⟩

theorem rawBounds (ok : Engine.acceptable cfg = true) :
    0 < (OrderBook.rawBand cfg.referencePrice cfg.bandBps).1 ∧
      (OrderBook.rawBand cfg.referencePrice cfg.bandBps).1 ≤ cfg.referencePrice ∧
      cfg.referencePrice ≤ (OrderBook.rawBand cfg.referencePrice cfg.bandBps).2 ∧
      (OrderBook.rawBand cfg.referencePrice cfg.bandBps).2 ≤ 2 * cfg.referencePrice := by
  have positive := (alignedIff.mp (acceptableIff.mp ok).2.1).1
  obtain ⟨_, _, low, high⟩ := shareBounds ok
  rw [OrderBook.rawBand]
  simp only
  split <;> omega

theorem ceilBand (ok : Engine.acceptable cfg = true) :
    IsCeil kTickSchedule (OrderBook.rawBand cfg.referencePrice cfg.bandBps).1
      (OrderBook.band cfg.referencePrice cfg.bandBps).1 := by
  have limit : cfg.referencePrice ≤ 922337203685477 := (acceptableIff.mp ok).1
  obtain ⟨positive, low, _, _⟩ := rawBounds ok
  have right := (PriceLadder.ceilRightIff shippedChecked positive).mpr
    (fun bracket member => .inl (shippedEnds bracket member))
  refine right ?_
  have := ceilClose positive
  unfold kPriceMax
  omega

theorem floorBand (ok : Engine.acceptable cfg = true) :
    isTickAligned kTickSchedule (OrderBook.band cfg.referencePrice cfg.bandBps).2 = true ∧
      (OrderBook.band cfg.referencePrice cfg.bandBps).2 ≤
        (OrderBook.rawBand cfg.referencePrice cfg.bandBps).2 ∧
      ∀ p, isTickAligned kTickSchedule p = true →
      p ≤ (OrderBook.rawBand cfg.referencePrice cfg.bandBps).2 →
        p ≤ (OrderBook.band cfg.referencePrice cfg.bandBps).2 := by
  have aligned := (acceptableIff.mp ok).2.1
  have positive := (alignedIff.mp aligned).1
  obtain ⟨_, _, high, _⟩ := rawBounds ok
  rcases floorExact shippedChecked
    (show 0 < (OrderBook.rawBand cfg.referencePrice cfg.bandBps).2 by omega) with
    floor | ⟨_, none⟩
  · exact floor
  · have := none _ aligned
    omega

theorem accepted (ok : Engine.acceptable cfg = true) :
    Banded cfg (OrderBook.band cfg.referencePrice cfg.bandBps).1
      (OrderBook.band cfg.referencePrice cfg.bandBps).2 := by
  obtain ⟨small, aligned, _⟩ := acceptableIff.mp ok
  have limit : cfg.referencePrice ≤ 922337203685477 := small
  obtain ⟨_, rawLow, rawHigh, twice⟩ := rawBounds ok
  obtain ⟨start, _, least⟩ := ceilBand ok
  obtain ⟨stop, below, greatest⟩ := floorBand ok
  refine ⟨start, stop, least _ aligned rawLow, greatest _ aligned rawHigh, ?_⟩
  have := coarsest (OrderBook.band cfg.referencePrice cfg.bandBps).2
  unfold kPriceMax
  omega

end Bands

namespace OrderBook
open PriceLadder

structure Blank (cfg : InstrumentConfig) (book : OrderBook) : Prop where
  made : configure cfg.instrumentId cfg.referencePrice cfg.bandBps = some book
  instrumentId : book.instrumentId = cfg.instrumentId
  built : build kTickSchedule (band cfg.referencePrice cfg.bandBps).1
    (band cfg.referencePrice cfg.bandBps).2 =
    some book.ladder
  bandLo : book.bandLo = (band cfg.referencePrice cfg.bandBps).1
  bandHi : book.bandHi = (band cfg.referencePrice cfg.bandBps).2
  levels : ∀ side, book.levels side = Buffer.replicate book.levelCount {}
  bitmap : ∀ side, book.bitmap side = LevelBitset.resize book.levelCount
  best : ∀ side, book.bestIndex side = -1

section Blanks
variable {cfg : InstrumentConfig} {book : OrderBook}

theorem configureBlank (ok : Engine.acceptable cfg = true) :
    ∃ book, configure cfg.instrumentId cfg.referencePrice cfg.bandBps = some book ∧
      Blank cfg book := by
  have banded := accepted ok
  obtain ⟨segments, _, built⟩ := tiledLadder shippedChecked banded.start banded.stop
    (Int.le_trans banded.low banded.high) banded.fits (shippedRegular _ _)
  have whole := built kTickSchedule.length (Nat.le_refl _)
  have laddered : build kTickSchedule (band cfg.referencePrice cfg.bandBps).1
      (band cfg.referencePrice cfg.bandBps).2 =
      some ⟨segments, UInt32.ofNat (prices segments).length,
        (band cfg.referencePrice cfg.bandBps).1,
        (band cfg.referencePrice cfg.bandBps).2⟩ := by
    rw [build, whole]
    rfl
  have made := congrArg (fun ladder => ladder.map (fun ladder : PriceLadder => (
    { instrumentId := cfg.instrumentId, referencePrice := cfg.referencePrice, ladder,
      bidLevels := Buffer.replicate ladder.size.toNat {},
      askLevels := Buffer.replicate ladder.size.toNat {},
      bidBitmap := LevelBitset.resize ladder.size.toNat,
      askBitmap := LevelBitset.resize ladder.size.toNat } : OrderBook))) laddered
  refine ⟨_, made, made, rfl, laddered, rfl, rfl, ?_, ?_, ?_⟩
  all_goals
    intro side
    cases side <;> rfl

theorem blankFitted (blank : Blank cfg book) (ok : Engine.acceptable cfg = true)
    (few : ticksIn kTickSchedule book.bandLo book.bandHi < 2 ^ 32) : Fitted book := by
  have banded := accepted ok
  rw [← blank.bandLo, ← blank.bandHi] at banded
  obtain ⟨ladder, built, numbered, _⟩ := buildNumbered shippedChecked banded.start banded.stop
    (Int.le_trans banded.low banded.high) banded.fits (shippedRegular _ _) few
  have same : ladder = book.ladder := by
    have own := blank.built
    rw [← blank.bandLo, ← blank.bandHi, built] at own
    exact Option.some.inj own
  rw [same] at numbered
  refine ⟨numbered, fun side => ?_, fun side => ?_⟩
  · rw [blank.levels]
    rfl
  · rw [blank.bitmap]
    rfl

theorem blankShape (pool : OrderPool) (blank : Blank cfg book) :
    Shape pool book (fun _ _ => []) := by
  have level : ∀ side idx, book.levelAt side idx = {} := by
    intro side idx
    rw [levelAt, blank.levels]
    rfl
  refine ⟨fun side l _ => ?_, fun _ _ _ => rfl, fun _ _ _ member => by contradiction,
    fun side l _ => ?_, fun side l _ => ?_, fun side l => ?_, fun side => ?_⟩
  · rw [ends, level]
    exact LinkedQueue.queueNil _ _
  · rw [level]
    rfl
  · rw [level]
    rfl
  · rw [blank.bitmap, LevelBitset.hasResize]
    simp
  · rw [blank.best]
    exact ⟨fun _ => ⟨rfl, fun _ taken => taken rfl⟩, fun level same => by omega⟩

end Blanks
end OrderBook

namespace Engine
open OrderBook

structure Listed (done : List InstrumentConfig) (books : Buffer OrderBook) (index : FlatHashMap) :
    Prop where
  valid : index.Valid
  built : ∀ i cfg, done[i]? = some cfg → acceptable cfg = true ∧ Blank cfg (books.read i)
  filed : ∀ i cfg, done[i]? = some cfg →
    index.find cfg.instrumentId.toUInt64 = some (UInt32.ofNat i)
  named : ∀ id k, index.find id = some k →
    ∃ i cfg, done[i]? = some cfg ∧ k = UInt32.ofNat i ∧ cfg.instrumentId.toUInt64 = id

section Books
variable {done rest : List InstrumentConfig} {books books' : Buffer OrderBook}
  {index index' : FlatHashMap} {trouble : Nat → Option Failure} {cfg : InstrumentConfig}

theorem listedNext (listed : Listed done books index) (ok : acceptable cfg = true)
    (absent : index.find cfg.instrumentId.toUInt64 = none) {book : OrderBook}
    (blank : Blank cfg book) {memory : Bool}
    (inserted : index.insert memory cfg.instrumentId.toUInt64 (UInt32.ofNat done.length) =
      some index') :
    Listed (done ++ [cfg]) (books.write done.length book) index' := by
  obtain ⟨valid, reads⟩ := FlatHashMap.insertValid listed.valid absent inserted
  have position : ∀ i other, (done ++ [cfg])[i]? = some other →
      (i < done.length ∧ done[i]? = some other) ∨ (i = done.length ∧ other = cfg) := by
    intro i other here
    rw [List.getElem?_append] at here
    split at here
    · rename_i short
      exact .inl ⟨short, here⟩
    · rename_i past
      rw [List.getElem?_singleton] at here
      split at here
      · rename_i zero
        exact .inr ⟨by omega, (Option.some.inj here).symm⟩
      · contradiction
  refine ⟨valid, fun i other here => ?_, fun i other here => ?_, fun id k found => ?_⟩
  · rcases position i other here with ⟨short, old⟩ | ⟨rfl, rfl⟩
    · rw [Buffer.readWrite, if_neg (by omega)]
      exact listed.built i other old
    · rw [Buffer.readWrite, if_pos rfl]
      exact ⟨ok, blank⟩
  · rw [reads]
    rcases position i other here with ⟨_, old⟩ | ⟨rfl, rfl⟩
    · have known := listed.filed i other old
      rw [if_neg]
      · exact known
      · intro same
        rw [same, absent] at known
        contradiction
    · rw [if_pos rfl]
  · rw [reads] at found
    split at found
    · rename_i same
      exact ⟨done.length, cfg, by simp, (Option.some.inj found).symm, same.symm⟩
    · obtain ⟨i, other, here, kIs, idIs⟩ := listed.named id k found
      have short := (List.getElem?_eq_some_iff.mp here).1
      exact ⟨i, other, by rw [List.getElem?_append_left short]; exact here, kIs, idIs⟩

theorem configureBooksListed (listed : Listed done books index)
    (ran : configureBooks trouble done.length rest books index = some (.ok (books', index'))) :
    Listed (done ++ rest) books' index' ∧ books'.size = books.size := by
  induction rest generalizing done books index with
  | nil =>
    simp only [configureBooks, Option.some.injEq, Except.ok.injEq, Prod.mk.injEq] at ran
    obtain ⟨rfl, rfl⟩ := ran
    rw [List.append_nil]
    exact ⟨listed, rfl⟩
  | cons cfg rest ih =>
    rw [configureBooks] at ran
    split at ran
    · simp at ran
    rename_i ok
    split at ran
    · simp at ran
    rename_i unused
    split at ran
    · simp at ran
    split at ran
    · contradiction
    rename_i book built
    split at ran
    · simp at ran
    rename_i next inserted
    have ok : acceptable cfg = true := by simpa using ok
    have absent : index.find cfg.instrumentId.toUInt64 = none := by
      simpa [FlatHashMap.contains] using unused
    obtain ⟨own, ownIs, blank⟩ := configureBlank ok
    cases Option.some.inj (built.symm.trans ownIs)
    have step := listedNext listed ok absent blank inserted
    have length : (done ++ [cfg]).length = done.length + 1 := by simp
    rw [← length] at ran
    obtain ⟨whole, size⟩ := ih step ran
    rw [List.append_assoc, List.singleton_append] at whole
    exact ⟨whole, size⟩

theorem configureBooksDefined (trouble : Nat → Option Failure) (rest : List InstrumentConfig) :
    ∀ (i : Nat) (books : Buffer OrderBook) (index : FlatHashMap),
      configureBooks trouble i rest books index ≠ none := by
  induction rest with
  | nil => intro i books index; simp [configureBooks]
  | cons cfg rest ih =>
    intro i books index
    rw [configureBooks]
    split
    · simp
    rename_i ok
    have ok : acceptable cfg = true := by simpa using ok
    split
    · simp
    split
    · simp
    obtain ⟨own, ownIs, _⟩ := configureBlank ok
    rw [ownIs]
    simp only
    split
    · simp
    · exact ih _ _ _

theorem configureBooksError (trouble : Nat → Option Failure) {result : ConfigureResult}
    (rest : List InstrumentConfig) :
    ∀ (i : Nat) (books : Buffer OrderBook) (index : FlatHashMap),
      configureBooks trouble i rest books index = some (.error result) → result ≠ .ok := by
  induction rest with
  | nil => intro i books index ran; simp [configureBooks] at ran
  | cons cfg rest ih =>
    intro i books index ran
    rw [configureBooks] at ran
    split at ran
    · cases Except.error.inj (Option.some.inj ran)
      decide
    split at ran
    · cases Except.error.inj (Option.some.inj ran)
      decide
    split at ran
    · rename_i failure _
      cases Except.error.inj (Option.some.inj ran)
      cases failure <;> decide
    split at ran
    · contradiction
    split at ran
    · cases Except.error.inj (Option.some.inj ran)
      decide
    · exact ih _ _ _ ran

structure Installed (engine : Engine) (instruments : List InstrumentConfig) (engine' : Engine) :
    Prop where
  was : engine.configured = false
  listed : Listed instruments engine'.books engine'.instrumentIndex
  size : engine'.books.size = instruments.length
  few : instruments.length ≤ kUint32Max
  pool : engine'.pool = OrderPool.reserve {} kDefaultOrderCapacity
  orderIndex : engine'.orderIndex = FlatHashMap.empty.reserve kDefaultOrderCapacity
  configured : engine'.configured = true
  nextTradeId : engine'.nextTradeId = engine.nextTradeId

variable {engine engine' : Engine} {instruments : Option (List InstrumentConfig)}

theorem configureDefined (trouble : Nat → Option Failure)
    (instruments : Option (List InstrumentConfig)) (engine : Engine) :
    engine.configure trouble instruments ≠ none := by
  unfold configure
  split
  · simp
  split
  · simp
  rename_i list
  split
  · simp
  split
  · simp
  split
  · rename_i undefined
    exact absurd undefined (configureBooksDefined trouble list _ _ _)
  · simp
  · split <;> simp

theorem configureFails {result : ConfigureResult}
    (ran : engine.configure trouble instruments = some (result, engine')) (failed : result ≠ .ok) :
    engine' = engine := by
  unfold configure at ran
  split at ran
  · cases Option.some.inj ran
    rfl
  split at ran
  · cases Option.some.inj ran
    rfl
  split at ran
  · cases Option.some.inj ran
    rfl
  split at ran
  · cases Option.some.inj ran
    rfl
  split at ran
  · contradiction
  · cases Option.some.inj ran
    rfl
  · split at ran
    · cases Option.some.inj ran
      rfl
    · cases Option.some.inj ran
      exact absurd rfl failed

theorem configureInstalls (ran : engine.configure trouble instruments = some (.ok, engine')) :
    ∃ list, instruments = some list ∧ Installed engine list engine' := by
  unfold configure at ran
  split at ran
  · cases congrArg Prod.fst (Option.some.inj ran)
  rename_i fresh
  split at ran
  · cases congrArg Prod.fst (Option.some.inj ran)
  rename_i list
  split at ran
  · cases congrArg Prod.fst (Option.some.inj ran)
  rename_i count
  split at ran
  · rename_i failure _
    cases failure <;> cases congrArg Prod.fst (Option.some.inj ran)
  split at ran
  · contradiction
  · rename_i result loop
    exact absurd (congrArg Prod.fst (Option.some.inj ran))
      (configureBooksError trouble list _ _ _ loop)
  · rename_i books index loop
    split at ran
    · rename_i failure _
      cases failure <;> cases congrArg Prod.fst (Option.some.inj ran)
    · cases Option.some.inj ran
      obtain ⟨valid, reads⟩ := FlatHashMap.reserveValid FlatHashMap.emptyValid.1 list.length
      have start : Listed [] (Buffer.replicate list.length ({} : OrderBook))
          (FlatHashMap.empty.reserve list.length) := by
        refine ⟨valid, fun i cfg here => ?_, fun i cfg here => ?_, fun id k found => ?_⟩
        · simp at here
        · simp at here
        · rw [reads, FlatHashMap.emptyValid.2] at found
          contradiction
      obtain ⟨whole, size⟩ := configureBooksListed start loop
      exact ⟨list, rfl, by simpa using fresh, whole, size, by omega, rfl, rfl, rfl, rfl⟩

theorem configureNonempty (ran : engine.configure trouble instruments = some (.ok, engine')) :
    0 < engine'.books.size := by
  obtain ⟨list, same, installed⟩ := configureInstalls ran
  by_contra empty
  have zero : list.length = 0 := by
    rw [← installed.size]
    omega
  rw [same] at ran
  simp [configure, installed.was, zero] at ran

theorem installedFound {list : List InstrumentConfig} (installed : Installed engine list engine')
    {id : InstrumentId} {b : Nat} (found : engine'.findBook id = some b) :
    b < engine'.books.size := by
  obtain ⟨k, indexed, rfl⟩ := Option.map_eq_some_iff.mp found
  obtain ⟨i, cfg, listed, rfl, _⟩ := installed.listed.named _ _ indexed
  have inside := (List.getElem?_eq_some_iff.mp listed).1
  have few := installed.few
  rw [installed.size, WordBits.toNatOfNat (by simp only [kUint32Max] at few; omega)]
  exact inside

end Books

end Engine

namespace Venue

def opened (instruments : List InstrumentConfig) : Venue :=
  { configured := true
    books := instruments.map (fun cfg =>
      { instrumentId := cfg.instrumentId,
        bandLo := (OrderBook.band cfg.referencePrice cfg.bandBps).1,
        bandHi := (OrderBook.band cfg.referencePrice cfg.bandBps).2, bids := [], asks := [] }) }

end Venue

namespace Engine
open OrderBook

/- The assumptions on the size of things: slots below the one that means none, and as many
price levels as 32 bits count. -/
structure Roomy (engine : Engine) : Prop where
  slots : engine.pool.size < kInvalidSlot.toNat
  levels : ∀ b < engine.books.size,
    PriceLadder.ticksIn kTickSchedule (engine.books.read b).bandLo (engine.books.read b).bandHi <
      2 ^ 32

theorem roomyOf {engine : Engine} (slots : engine.pool.size < kInvalidSlot.toNat)
    (levels : ∀ b < engine.books.size,
      ((engine.books.read b).bandHi + 1 - (engine.books.read b).bandLo).toNat < 2 ^ 32) :
    Roomy engine :=
  ⟨slots, fun b inside => Nat.lt_of_le_of_lt PriceLadder.ticksBound (levels b inside)⟩

theorem unconfiguredSim : Sim {} {} := by
  refine ⟨fun _ _ _ => [],
    ⟨⟨FlatHashMap.emptyValid.1, Nat.zero_le _, Nat.zero_le _, Nat.zero_le _, ?_, ?_,
      ?_, ?_, ?_, ?_⟩,
    ?_⟩, ?_, ⟨rfl, rfl, fun id => ?_, fun id slot found => ?_, rfl, Nat.le_refl _⟩⟩
  · intro b inside
    exact absurd inside (Nat.not_lt_zero b)
  · intro b inside
    exact absurd inside (Nat.not_lt_zero b)
  · intro id i found
    rw [FlatHashMap.emptyValid.2] at found
    contradiction
  · intro b inside
    exact absurd inside (Nat.not_lt_zero b)
  · intro slot inside
    exact absurd inside (Nat.not_lt_zero _)
  · intro id slot found
    rw [FlatHashMap.emptyValid.2] at found
    contradiction
  · intro b inside
    exact absurd inside (Nat.not_lt_zero b)
  · intro b inside
    exact absurd inside (Nat.not_lt_zero b)
  · simp [FlatHashMap.emptyValid.2]
  · rw [FlatHashMap.emptyValid.2] at found
    contradiction

theorem openedSim {engine engine' : Engine} {instruments : List InstrumentConfig}
    (installed : Installed engine instruments engine') (first : engine.nextTradeId = 1)
    (levels : ∀ b < engine'.books.size,
      PriceLadder.ticksIn kTickSchedule (engine'.books.read b).bandLo
      (engine'.books.read b).bandHi < 2 ^ 32) :
    Sim engine' (Venue.opened instruments) := by
  have listed := installed.listed
  have at' : ∀ b < engine'.books.size, ∃ cfg, instruments[b]? = some cfg := by
    intro b inside
    rw [installed.size] at inside
    exact ⟨_, List.getElem?_eq_getElem inside⟩
  have noOrder : ∀ id, engine'.orderIndex.find id = none := by
    intro id
    rw [installed.orderIndex, (FlatHashMap.reserveValid FlatHashMap.emptyValid.1 _).2,
      FlatHashMap.emptyValid.2]
  obtain ⟨noSlot, stored⟩ := OrderPool.reserveEmpty kDefaultOrderCapacity
  rw [← installed.pool] at noSlot stored
  have few : engine'.books.size ≤ kUint32Max := by
    rw [installed.size]
    exact installed.few
  refine ⟨fun _ _ _ => [], ⟨⟨?_, ?_, stored, few, ?_, ?_, ?_, ?_, ?_, ?_⟩, ?_⟩, ?_,
    ⟨?_, ?_, fun id => ?_, fun id slot found => ?_, ?_, ?_⟩⟩
  · rw [installed.orderIndex]
    exact (FlatHashMap.reserveValid FlatHashMap.emptyValid.1 _).1
  · rw [noSlot]
    exact Nat.zero_le _
  · intro b inside
    obtain ⟨cfg, here⟩ := at' b inside
    obtain ⟨ok, blank⟩ := listed.built b cfg here
    exact blankFitted blank ok (levels b inside)
  · intro b inside
    obtain ⟨cfg, here⟩ := at' b inside
    exact blankShape _ (listed.built b cfg here).2
  · intro id i found
    obtain ⟨b, cfg, here, rfl, rfl⟩ := listed.named id i found
    have inside := (List.getElem?_eq_some_iff.mp here).1
    rw [← installed.size] at inside
    have narrow : b < 2 ^ 32 := by
      unfold kUint32Max at few
      omega
    rw [WordBits.toNatOfNat narrow, (listed.built b cfg here).2.instrumentId]
    exact ⟨inside, rfl⟩
  · intro b inside
    obtain ⟨cfg, here⟩ := at' b inside
    rw [(listed.built b cfg here).2.instrumentId]
    exact listed.filed b cfg here
  · intro slot inside
    rw [noSlot] at inside
    exact absurd inside (Nat.not_lt_zero _)
  · intro id slot found
    rw [noOrder] at found
    contradiction
  · intro b inside side level slot member
    contradiction
  · intro b inside side level slot member
    contradiction
  · exact installed.configured.symm
  · refine List.ext_getElem? (fun b => ?_)
    rw [Venue.opened, List.getElem?_map, List.getElem?_map]
    by_cases inside : b < engine'.books.size
    · obtain ⟨cfg, here⟩ := at' b inside
      have blank := (listed.built b cfg here).2
      rw [here, List.getElem?_range inside]
      have none : ∀ side, viewSide engine'.pool (engine'.books.read b)
          (fun _ _ => []) side = [] := by
        intro side
        simp [viewSide, slotsOf]
      simp only [Option.map_some, viewBook, none, blank.instrumentId, blank.bandLo, blank.bandHi]
    · rw [List.getElem?_eq_none (by rw [← installed.size]; omega),
        List.getElem?_eq_none (by simpa using inside)]
      rfl
  · simp [Venue.opened, noOrder]
  · rw [noOrder] at found
    contradiction
  · rw [installed.nextTradeId, first]
    rfl
  · have nothing : (Venue.opened instruments).openCount = 0 := by
      rw [Venue.openCount, Venue.opened, List.map_map, List.sum_eq_zero]
      intro n listed
      obtain ⟨cfg, _, rfl⟩ := List.mem_map.mp listed
      rfl
    rw [nothing, noSlot]
    exact Nat.le_refl _

end Engine
end Xmatch
