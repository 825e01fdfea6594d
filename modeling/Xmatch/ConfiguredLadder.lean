import Xmatch.Runs

/-! What a configuration makes: which lists are accepted, the ladder of each book, and the
prices it admits. -/
namespace Xmatch

def InBand (lo hi price : Int) : Prop := TickTable.isTickAligned kTickSchedule price = true ∧
    lo ≤ price ∧ price ≤ hi

namespace OrderBook
open PriceLadder

/- Prices of the band and indices below the size are in bijection, in order, and an index
narrowed to 32 bits stays inside the arrays. -/
structure LadderSound (book : OrderBook) (lo hi : Int) : Prop where
  index : ∀ p, InBand lo hi p →
    0 ≤ book.priceToIndex p ∧ book.priceToIndex p < book.ladder.size.toNat
  ascends : ∀ p q, InBand lo hi p → InBand lo hi q → p < q →
    book.priceToIndex p < book.priceToIndex q
  hit : ∀ i < book.ladder.size.toNat, ∃ p, InBand lo hi p ∧ book.priceToIndex p = (i : Int)
  back : ∀ p, InBand lo hi p → book.indexToPrice (UInt32.ofInt (book.priceToIndex p)) = p
  forth : ∀ i < book.ladder.size.toNat,
    book.priceToIndex (book.indexToPrice (UInt32.ofNat i)) = (i : Int)
  arrays : ∀ side p, InBand lo hi p →
    (UInt32.ofInt (book.priceToIndex p)).toNat < (book.levels side).size ∧
    (UInt32.ofInt (book.priceToIndex p)).toNat / 64 < (book.bitmap side).words.size
  apart : ∀ p q, InBand lo hi p → InBand lo hi q →
    UInt32.ofInt (book.priceToIndex p) = UInt32.ofInt (book.priceToIndex q) → p = q

section Ladders
variable {book : OrderBook} {cfg : InstrumentConfig} {lo hi : Int}

theorem ladderSound (fitted : Fitted book) : LadderSound book book.bandLo book.bandHi := by
  have numbered := fitted.numbered
  have place : ∀ p, InBand book.bandLo book.bandHi p → ∃ i < book.ladder.size.toNat,
      book.priceToIndex p = (i : Int) ∧ book.indexToPrice (UInt32.ofNat i) = p :=
    fun p inBand => numbered.index p inBand.1 inBand.2.1 inBand.2.2
  have narrow : ∀ i < book.ladder.size.toNat, (UInt32.ofNat i).toNat = i :=
    fun i inside => WordBits.toNatOfNat (Nat.lt_trans inside (UInt32.toNat_lt _))
  refine ⟨fun p inBand => ?_, fun p q inP inQ less => ?_, fun i inside => ?_, fun p inBand => ?_,
    fun i inside => ?_, fun side p inBand => ?_, fun p q inP inQ same => ?_⟩
  · obtain ⟨i, inside, index, _⟩ := place p inBand
    omega
  · obtain ⟨i, insideI, indexP, priceP⟩ := place p inP
    obtain ⟨j, insideJ, indexQ, priceQ⟩ := place q inQ
    rw [indexP, indexQ]
    rcases Nat.lt_trichotomy i j with before | equal | past
    · omega
    · rw [equal, priceQ] at priceP
      omega
    · have reversed : book.indexToPrice (UInt32.ofNat j) < book.indexToPrice (UInt32.ofNat i) :=
        numbered.ascends j i past insideI
      omega
  · obtain ⟨aligned, low, high, index⟩ := numbered.price i inside
    exact ⟨_, ⟨aligned, low, high⟩, index⟩
  · obtain ⟨i, _, index, price⟩ := place p inBand
    rw [index, WordBits.ofIntNatCast, price]
  · exact (numbered.price i inside).2.2.2
  · obtain ⟨i, inside, index, _⟩ := place p inBand
    rw [index, WordBits.ofIntNatCast, narrow i inside, fitted.levels, fitted.words, levelCount]
    exact ⟨inside, by omega⟩
  · obtain ⟨i, insideI, indexP, priceP⟩ := place p inP
    obtain ⟨j, insideJ, indexQ, priceQ⟩ := place q inQ
    rw [indexP, indexQ, WordBits.ofIntNatCast, WordBits.ofIntNatCast] at same
    rw [← priceP, ← priceQ, same]

theorem fewWhenSound (sound : LadderSound book lo hi) : ticksIn kTickSchedule lo hi < 2 ^ 32 := by
  have inBand : ∀ p ∈ (@Finset.Icc Int _ Int.instLocallyFiniteOrder lo hi).filter
      (fun p => TickTable.isTickAligned kTickSchedule p = true), InBand lo hi p := by
    intro p member
    obtain ⟨range, aligned⟩ := Finset.mem_filter.mp member
    obtain ⟨low, high⟩ := Finset.mem_Icc.mp range
    exact ⟨aligned, low, high⟩
  have bounded : ticksIn kTickSchedule lo hi ≤ (Finset.range book.ladder.size.toNat).card := by
    refine Finset.card_le_card_of_injOn (fun p => (book.priceToIndex p).toNat) (fun p member => ?_)
      (fun p inP q inQ same => ?_)
    · have index := sound.index p (inBand p member)
      exact Finset.mem_coe.mpr (Finset.mem_range.mpr (by simp only; omega))
    · have bandP := inBand p inP
      have bandQ := inBand q inQ
      have indexP := sound.index p bandP
      have indexQ := sound.index q bandQ
      simp only at same
      rcases Int.lt_trichotomy p q with less | equal | more
      · have := sound.ascends p q bandP bandQ less
        omega
      · exact equal
      · have := sound.ascends q p bandQ bandP more
        omega
  rw [Finset.card_range] at bounded
  exact Nat.lt_of_le_of_lt bounded (UInt32.toNat_lt _)

theorem blankSoundIff (blank : Blank cfg book) (ok : Engine.acceptable cfg = true) :
    LadderSound book (band cfg.referencePrice cfg.bandBps).1
      (band cfg.referencePrice cfg.bandBps).2 ↔
      ticksIn kTickSchedule (band cfg.referencePrice cfg.bandBps).1
        (band cfg.referencePrice cfg.bandBps).2 < 2 ^ 32 := by
  constructor
  · exact fewWhenSound
  · intro few
    rw [← blank.bandLo, ← blank.bandHi] at few ⊢
    exact ladderSound (blankFitted blank ok few)

end Ladders
end OrderBook

namespace Engine
open OrderBook PriceLadder

theorem ladderSoundIff (trouble : Nat → Option Failure) (instruments : List InstrumentConfig)
    (engine engine' : Engine)
    (configured : engine.configure trouble (some instruments) = some (.ok, engine')) (i : Nat)
    (cfg : InstrumentConfig) (listed : instruments[i]? = some cfg) :
    LadderSound (engine'.books.read i) (band cfg.referencePrice cfg.bandBps).1
      (band cfg.referencePrice cfg.bandBps).2 ↔
      ticksIn kTickSchedule (band cfg.referencePrice cfg.bandBps).1
        (band cfg.referencePrice cfg.bandBps).2 < 2 ^ 32 := by
  obtain ⟨list, same, installed⟩ := configureInstalls configured
  cases Option.some.inj same
  obtain ⟨ok, blank⟩ := installed.listed.built i cfg listed
  exact blankSoundIff blank ok

theorem ladderOfTenPercentBand :
    LadderSound ((after (calmRun [⟨7, 100000, 1000⟩] [])).books.read 0) (band 100000 1000).1
      (band 100000 1000).2 ↔
      ticksIn kTickSchedule (band 100000 1000).1 (band 100000 1000).2 < 2 ^ 32 :=
  ladderSoundIff (fun _ => none) [⟨7, 100000, 1000⟩] {} _ (configuredStart (by decide +kernel)) 0
    ⟨7, 100000, 1000⟩ rfl

/- Exactly 2^32 prices from 100 to 4294963796000: the size is zero, and the price 100 has index
zero. -/
theorem fullLadderHasSizeZero :
    ¬∀ (trouble : Nat → Option Failure) (instruments : List InstrumentConfig)
    (engine engine' : Engine), engine.configure trouble (some instruments) = some (.ok, engine') →
    ∀ i cfg, instruments[i]? = some cfg →
      LadderSound (engine'.books.read i) (band cfg.referencePrice cfg.bandBps).1
        (band cfg.referencePrice cfg.bandBps).2 := by
  intro promised
  have sound :=
    promised (fun _ => none) [⟨7, 2147481898000, 10000⟩] {} _
      (configuredStart (by decide +kernel)) 0 _ rfl
  have inside := (sound.index 100 ⟨by decide, by decide, by decide⟩).2
  exact absurd inside (by decide +kernel)

structure ValidList (instruments : List InstrumentConfig) : Prop where
  some : 0 < instruments.length
  few : instruments.length ≤ kUint32Max
  distinct : (instruments.map (·.instrumentId)).Nodup
  aligned : ∀ cfg ∈ instruments, TickTable.isTickAligned kTickSchedule cfg.referencePrice = true
  small : ∀ cfg ∈ instruments, cfg.referencePrice ≤ kPriceMax / 10000
  narrow : ∀ cfg ∈ instruments, cfg.bandBps.toNat ≤ 10000

section Lists
variable {done rest instruments : List InstrumentConfig} {books : Buffer OrderBook}
  {index : FlatHashMap} {engine engine' : Engine}

theorem validAcceptable (valid : ValidList instruments) :
    ∀ cfg ∈ instruments, acceptable cfg = true := by
  intro cfg member
  have bound : kPriceMax.tdiv kMaxBandBps = kPriceMax / 10000 := by decide
  rw [acceptableIff, bound]
  exact ⟨valid.small cfg member, valid.aligned cfg member, valid.narrow cfg member⟩

theorem configureBooksAccepts (listed : Listed done books index)
    (ok : ∀ cfg ∈ rest, acceptable cfg = true)
    (distinct : ((done ++ rest).map (·.instrumentId)).Nodup) :
    ∃ result, configureBooks (fun _ => none) done.length rest books index = some (.ok result) := by
  induction rest generalizing done books index with
  | nil => exact ⟨_, rfl⟩
  | cons cfg rest ih =>
    have own := ok cfg List.mem_cons_self
    have absent : index.find cfg.instrumentId.toUInt64 = none := by
      cases found : index.find cfg.instrumentId.toUInt64 with
      | none => rfl
      | some k =>
        obtain ⟨i, other, here, _, same⟩ := listed.named _ k found
        rw [List.map_append, List.map_cons, List.nodup_append] at distinct
        have member : other.instrumentId ∈ done.map (·.instrumentId) :=
          List.mem_map_of_mem (List.mem_of_getElem? here)
        exact absurd (toUInt64Inj same) (distinct.2.2 _ member _ List.mem_cons_self)
    obtain ⟨book, made, blank⟩ := configureBlank own
    cases inserted : index.insert true cfg.instrumentId.toUInt64 (UInt32.ofNat done.length) with
    | none => exact absurd (FlatHashMap.insertFails inserted) (by decide)
    | some index' =>
      have step := listedNext listed own absent blank inserted
      have length : (done ++ [cfg]).length = done.length + 1 := by simp
      obtain ⟨result, later⟩ :=
        ih step (fun other member => ok other (List.mem_cons_of_mem _ member))
        (by rwa [List.append_assoc, List.singleton_append])
      rw [length] at later
      refine ⟨result, ?_⟩
      have unused : index.contains cfg.instrumentId.toUInt64 = false := by
        rw [FlatHashMap.contains, absent]
        rfl
      simp only [configureBooks, own, Bool.not_true, Bool.false_eq_true, if_false, unused, made,
        inserted]
      exact later

theorem listedStart (n : Nat) :
    Listed [] (Buffer.replicate n ({} : OrderBook)) (FlatHashMap.empty.reserve n) := by
  obtain ⟨valid, reads⟩ := FlatHashMap.reserveValid FlatHashMap.emptyValid.1 n
  refine ⟨valid, fun i cfg here => ?_, fun i cfg here => ?_, fun id k found => ?_⟩
  · simp at here
  · simp at here
  · rw [reads, FlatHashMap.emptyValid.2] at found
    contradiction

theorem configureAccepts (fresh : engine.configured = false) (valid : ValidList instruments) :
    ∃ engine', engine.configure (fun _ => none) (some instruments) = some (.ok, engine') := by
  obtain ⟨result, loop⟩ :=
    @configureBooksAccepts [] instruments _ _ (listedStart instruments.length)
    (validAcceptable valid) valid.distinct
  have count : ¬(instruments.length = 0 ∨ kUint32Max < instruments.length) := by
    have := valid.some
    have := valid.few
    omega
  refine ⟨{ engine with
    books := result.1
    pool := OrderPool.reserve {} kDefaultOrderCapacity
    instrumentIndex := result.2
    orderIndex := FlatHashMap.empty.reserve kDefaultOrderCapacity
    configured := true }, ?_⟩
  simp only [List.length_nil] at loop
  simp only [configure, fresh, Bool.false_eq_true, if_false, count, loop]

theorem installedValid (installed : Installed engine instruments engine')
    (some : 0 < instruments.length) : ValidList instruments := by
  have listed := installed.listed
  have each : ∀ cfg ∈ instruments, acceptable cfg = true := by
    intro cfg member
    obtain ⟨i, here⟩ := List.mem_iff_getElem?.mp member
    exact (listed.built i cfg here).1
  have bound : kPriceMax.tdiv kMaxBandBps = kPriceMax / 10000 := by decide
  have few := installed.few
  refine ⟨some, few, ?_, fun cfg member => (acceptableIff.mp (each cfg member)).2.1,
    fun cfg member => ?_, fun cfg member => (acceptableIff.mp (each cfg member)).2.2⟩
  · refine List.nodup_iff_getElem?_ne_getElem?.mpr (fun i j less inside same => ?_)
    rw [List.length_map] at inside
    rw [List.getElem?_map, List.getElem?_map, List.getElem?_eq_getElem (Nat.lt_trans less inside),
      List.getElem?_eq_getElem inside] at same
    have ids : instruments[i].instrumentId = instruments[j].instrumentId := Option.some.inj same
    have filedI := listed.filed i _ (List.getElem?_eq_getElem (Nat.lt_trans less inside))
    have filedJ := listed.filed j _ (List.getElem?_eq_getElem inside)
    rw [ids, filedJ] at filedI
    have numbers := congrArg UInt32.toNat (Option.some.inj filedI)
    unfold kUint32Max at few
    rw [WordBits.toNatOfNat (by omega), WordBits.toNatOfNat (by omega)] at numbers
    omega
  · rw [← bound]
    exact (acceptableIff.mp (each cfg member)).1

theorem configureOkIff (fresh : engine.configured = false) (next : Option (List InstrumentConfig)) :
    (∃ engine', engine.configure (fun _ => none) next = some (.ok, engine')) ↔
      ∃ instruments, next = some instruments ∧ ValidList instruments := by
  constructor
  · rintro ⟨engine', ran⟩
    obtain ⟨instruments, same, installed⟩ := configureInstalls ran
    have nonempty : 0 < instruments.length := by
      rw [← installed.size]
      exact configureNonempty ran
    exact ⟨instruments, same, installedValid installed nonempty⟩
  · rintro ⟨instruments, rfl, valid⟩
    exact configureAccepts fresh valid

theorem installedBooks (installed : Installed engine instruments engine') :
    (∀ cfg ∈ instruments, ∃ b, engine'.findBook cfg.instrumentId = some b ∧
      OrderBook.configure cfg.instrumentId cfg.referencePrice cfg.bandBps =
        some (engine'.books.read b)) ∧
    ∀ id, (∀ cfg ∈ instruments, cfg.instrumentId ≠ id) → engine'.findBook id = none := by
  have listed := installed.listed
  refine ⟨fun cfg member => ?_, fun id unlisted => ?_⟩
  · obtain ⟨i, here⟩ := List.mem_iff_getElem?.mp member
    have inside := (List.getElem?_eq_some_iff.mp here).1
    have few := installed.few
    unfold kUint32Max at few
    refine ⟨i, ?_, (listed.built i cfg here).2.made⟩
    rw [findBook, listed.filed i cfg here, Option.map_some, WordBits.toNatOfNat (by omega)]
  · rw [findBook, Option.map_eq_none_iff]
    cases found : engine'.instrumentIndex.find id.toUInt64 with
    | none => rfl
    | some k =>
      obtain ⟨i, cfg, here, _, same⟩ := listed.named _ k found
      exact absurd (toUInt64Inj same) (unlisted cfg (List.mem_of_getElem? here))

end Lists

def configureCall (instruments : Option (List InstrumentConfig)) : Action :=
  .configure (fun _ => none) instruments

def configureAnswers (calls : List (Option (List InstrumentConfig))) :
    List (Option ConfigureResult) :=
  (List.range calls.length).map (fun k =>
    ((after ((calls.take k).map configureCall)).configure (fun _ => none)
      ((calls[k]?).getD none)).map Prod.fst)

theorem configuredIff (calls : List (Option (List InstrumentConfig))) :
    (after (calls.map configureCall)).configured = true ↔ some .ok ∈ configureAnswers calls := by
  induction calls using List.reverseRecOn with
  | nil => simp [after, configureAnswers]
  | append_singleton calls next ih =>
    have answers : configureAnswers (calls ++ [next]) = configureAnswers calls ++
        [((after (calls.map configureCall)).configure (fun _ => none) next).map Prod.fst] := by
      rw [configureAnswers, List.length_append, List.length_singleton, List.range_succ,
        List.map_append, configureAnswers]
      congr 1
      · refine List.map_congr_left (fun k listed => ?_)
        have short := List.mem_range.mp listed
        rw [List.take_append_of_le_length (Nat.le_of_lt short), List.getElem?_append_left short]
      · simp
    rw [answers, List.map_append, List.map_singleton, afterNext, configureCall, List.mem_append,
      List.mem_singleton, ← ih, act]
    cases ran : (after (calls.map configureCall)).configure (fun _ => none) next with
    | none => exact absurd ran (configureDefined _ _ _)
    | some answer =>
      obtain ⟨result, engine⟩ := answer
      by_cases ok : result = .ok
      · subst ok
        obtain ⟨_, _, installed⟩ := configureInstalls ran
        exact iff_of_true installed.configured (.inr rfl)
      · rw [configureFails ran ok]
        simp [Ne.symm ok]

/- The next call after some configure calls, on an engine that was fresh before them. -/
structure ConfigureExact (calls : List (Option (List InstrumentConfig)))
    (next : Option (List InstrumentConfig)) (result : ConfigureResult) (engine engine' : Engine) :
    Prop where
  accepts : result = .ok ↔ some .ok ∉ configureAnswers calls ∧ ∃ instruments,
    next = some instruments ∧ ValidList instruments
  unchanged : result ≠ .ok → engine' = engine
  listed : result = .ok → ∀ instruments, next = some instruments → ∀ cfg ∈ instruments,
    ∃ b, engine'.findBook cfg.instrumentId = some b ∧
      OrderBook.configure cfg.instrumentId cfg.referencePrice cfg.bandBps =
      some (engine'.books.read b)
  unlisted : result = .ok → ∀ instruments, next = some instruments → ∀ id,
    (∀ cfg ∈ instruments, cfg.instrumentId ≠ id) → engine'.findBook id = none

theorem configureAcceptsExactly (calls : List (Option (List InstrumentConfig)))
    (next : Option (List InstrumentConfig)) :
    ∃ result engine', (after (calls.map configureCall)).configure (fun _ => none) next =
      some (result, engine') ∧
      ConfigureExact calls next result (after (calls.map configureCall)) engine' := by
  cases ran : (after (calls.map configureCall)).configure (fun _ => none) next with
  | none => exact absurd ran (configureDefined _ _ _)
  | some answer =>
    obtain ⟨result, engine'⟩ := answer
    have books : result = .ok → ∀ instruments, next = some instruments →
        Installed (after (calls.map configureCall)) instruments engine' := by
      rintro rfl instruments same
      obtain ⟨list, same', installed⟩ := configureInstalls ran
      cases Option.some.inj (same.symm.trans same')
      exact installed
    refine ⟨result, engine', rfl, ⟨?_, configureFails ran, fun ok instruments same =>
      (installedBooks (books ok instruments same)).1, fun ok instruments same =>
        (installedBooks (books ok instruments same)).2⟩⟩
    rw [← configuredIff, Bool.not_eq_true]
    constructor
    · rintro rfl
      obtain ⟨_, _, installed⟩ := configureInstalls ran
      exact ⟨installed.was, (configureOkIff installed.was next).mp ⟨engine', ran⟩⟩
    · rintro ⟨fresh, valid⟩
      obtain ⟨other, accepted⟩ := (configureOkIff fresh next).mpr valid
      rw [ran] at accepted
      exact congrArg Prod.fst (Option.some.inj accepted)

end Engine
end Xmatch
