import Xmatch.ConfiguredLadder

/-! Which prices a submit or a replace lets pass: in exact integers, whatever the width of
the band. -/
namespace Xmatch
open TickTable

def Misaligned (price : Int) : Prop := price ≤ 0 ∨ ¬tickSize kTickSchedule price ∣ price

def Beyond (cfg : InstrumentConfig) (price : Int) : Prop :=
  cfg.referencePrice * (cfg.bandBps.toNat : Int) <
    10000 * ((price - cfg.referencePrice).natAbs : Int)

/- The quantities that `OrderBook::configure` and `build` compute on the way to a band. -/
structure BandExact (cfg : InstrumentConfig) : Prop where
  product : 0 ≤ cfg.referencePrice * (cfg.bandBps.toNat : Int) ∧
    cfg.referencePrice * (cfg.bandBps.toNat : Int) ≤ kPriceMax
  raw : 0 ≤ cfg.referencePrice - (cfg.referencePrice * (cfg.bandBps.toNat : Int)).tdiv kBpsPerUnit ∧
    cfg.referencePrice + (cfg.referencePrice * (cfg.bandBps.toNat : Int)).tdiv kBpsPerUnit ≤
    kPriceMax
  ends : 0 < (OrderBook.band cfg.referencePrice cfg.bandBps).1 ∧
    (OrderBook.band cfg.referencePrice cfg.bandBps).2 ≤ kPriceMax
  order : (OrderBook.band cfg.referencePrice cfg.bandBps).1 ≤
    (OrderBook.band cfg.referencePrice cfg.bandBps).2
  built : OrderBook.configure cfg.instrumentId cfg.referencePrice cfg.bandBps ≠ none

section Bands
variable {cfg : InstrumentConfig} {book : OrderBook} {price : Int}

theorem misalignedIff : Misaligned price ↔ isTickAligned kTickSchedule price = false := by
  rw [← Bool.not_eq_true, alignedIff, not_and_or, Int.not_lt, Misaligned]

theorem bandExact (ok : Engine.acceptable cfg = true) : BandExact cfg := by
  have banded := accepted ok
  obtain ⟨whole, fits, low, high⟩ := shareBounds ok
  have limit : cfg.referencePrice ≤ 922337203685477 := (acceptableIff.mp ok).1
  have start := (alignedIff.mp banded.start).1
  have tick := tickPositive shippedChecked (OrderBook.band cfg.referencePrice cfg.bandBps).2
  have last := banded.fits
  obtain ⟨book, made, _⟩ := OrderBook.configureBlank ok
  refine ⟨⟨whole, fits⟩, ⟨by omega, ?_⟩, ⟨start, by omega⟩, Int.le_trans banded.low banded.high,
    by rw [made]; simp⟩
  unfold kPriceMax
  omega

theorem inBandIff (ok : Engine.acceptable cfg = true)
    (aligned : isTickAligned kTickSchedule price = true) :
    ((OrderBook.band cfg.referencePrice cfg.bandBps).1 ≤ price ∧
      price ≤ (OrderBook.band cfg.referencePrice cfg.bandBps).2) ↔
      ¬Beyond cfg price := by
  obtain ⟨_, above, least⟩ := ceilBand ok
  obtain ⟨_, below, greatest⟩ := floorBand ok
  have low : (OrderBook.band cfg.referencePrice cfg.bandBps).1 ≤ price ↔
      (OrderBook.rawBand cfg.referencePrice cfg.bandBps).1 ≤ price :=
    ⟨fun h => Int.le_trans above h, least price aligned⟩
  have high : price ≤ (OrderBook.band cfg.referencePrice cfg.bandBps).2 ↔
      price ≤ (OrderBook.rawBand cfg.referencePrice cfg.bandBps).2 :=
    ⟨fun h => Int.le_trans h below, greatest price aligned⟩
  have positive := (alignedIff.mp aligned).1
  obtain ⟨whole, _, _, _⟩ := shareBounds ok
  have share : (cfg.referencePrice * (cfg.bandBps.toNat : Int)).tdiv kBpsPerUnit =
      cfg.referencePrice * (cfg.bandBps.toNat : Int) / 10000 := Int.tdiv_eq_ediv_of_nonneg whole
  rw [low, high, Beyond, OrderBook.rawBand, share]
  simp only
  split <;> omega

theorem admitsIff (blank : OrderBook.Blank cfg book) (ok : Engine.acceptable cfg = true) :
    0 ≤ book.priceToIndex price ↔ ¬Misaligned price ∧ ¬Beyond cfg price := by
  have banded := accepted ok
  have admits := PriceLadder.builtAdmits shippedChecked banded.start banded.stop
      (Int.le_trans banded.low banded.high)
    banded.fits (shippedRegular _ _) blank.built price
  rw [OrderBook.priceToIndex, admits, misalignedIff, Bool.not_eq_false]
  exact and_congr_right (inBandIff ok)

theorem referencePasses (ok : Engine.acceptable cfg = true) :
    ¬Misaligned cfg.referencePrice ∧ ¬Beyond cfg cfg.referencePrice := by
  obtain ⟨whole, _⟩ := shareBounds ok
  refine ⟨?_, ?_⟩
  · rw [misalignedIff, (acceptableIff.mp ok).2.1]
    decide
  · rw [Beyond, Int.sub_self, Int.natAbs_zero]
    omega

end Bands

namespace Engine
open OrderBook Effect

theorem actsGrown (start : Engine) (configured : start.configured = true) (actions : List Action) :
    Grown start (actions.foldl act start) := by
  induction actions using List.reverseRecOn with
  | nil => exact grownRefl start
  | append_singleton actions action ih =>
    rw [List.foldl_append, List.foldl_cons, List.foldl_nil]
    cases action with
    | call env request => exact grownTrans ih (callGrown env request _)
    | configure trouble instruments =>
      have already : (actions.foldl act start).configured = true := ih.configured.trans configured
      have same : act (actions.foldl act start) (.configure trouble instruments) =
          actions.foldl act start := by
        simp only [act, configure, already, if_true]
      rw [same]
      exact ih

theorem roomyEarlier {earlier later : List Action} (roomy : Roomy (after (earlier ++ later))) :
    Roomy (after earlier) := by
  cases configured : (after earlier).configured with
  | false =>
    rw [blankUntilConfigured earlier configured]
    exact ⟨by decide, fun b inside => absurd inside (Nat.not_lt_zero b)⟩
  | true =>
    rw [after, List.foldl_append] at roomy
    exact roomyBefore (actsGrown _ configured later) roomy

structure Kin (cfg : InstrumentConfig) (engine : Engine) (b : Nat) : Prop where
  configured : engine.configured = true
  found : engine.findBook cfg.instrumentId = some b
  admits : ∀ price, 0 ≤ (engine.books.read b).priceToIndex price ↔
    ¬Misaligned price ∧ ¬Beyond cfg price

theorem installedKin {before start engine : Engine} {instruments : List InstrumentConfig}
    {cfg : InstrumentConfig} (installed : Installed before instruments start)
    (grown : Grown start engine) (member : cfg ∈ instruments) :
    acceptable cfg = true ∧ ∃ b, Kin cfg engine b := by
  obtain ⟨i, here⟩ := List.mem_iff_getElem?.mp member
  obtain ⟨ok, blank⟩ := installed.listed.built i cfg here
  have inside := (List.getElem?_eq_some_iff.mp here).1
  have few := installed.few
  unfold kUint32Max at few
  refine ⟨ok, i, grown.configured.trans installed.configured, ?_, fun price => ?_⟩
  · rw [findBook, grown.instrumentIndex, installed.listed.filed i cfg here, Option.map_some,
      WordBits.toNatOfNat (by omega)]
  · rw [OrderBook.priceToIndex, (grown.frame i).ladder]
    exact admitsIff blank ok

section Firsts
variable {env : Env} {α β : Type} {event : Event} {s : Session}

def Silent (program : Op α) (s : Session) : Prop :=
  wp program (fun _ t => t.log = s.log) (fun _ _ => False) s

def Opens (event : Event) (program : Op α) (s : Session) : Prop :=
  wp program (fun _ t => t.events.head? = some event) (fun _ t => t.events.head? = some event) s

theorem opensAfter {program : Op α} {f : α → Op β} (silent : Silent program s) (empty : s.log = [])
    (rest : ∀ a (t : Session), t.log = [] → Opens event (f a) t) :
    Opens event (program >>= f) s := by
  rw [Opens, wpBind]
  exact wpMono silent (fun a t log => rest a t (log.trans empty))
    (fun _ _ impossible => impossible.elim)

theorem opensRead {f : Engine → Op β} (rest : Opens event (f s.engine) s) :
    Opens event (current >>= f) s := by
  simpa only [Opens, current, wpBind, wpGet, wpPure] using rest

theorem opensUpdate {g : Engine → Engine} {f : Unit → Op β}
    (rest : Opens event (f ()) { s with engine := g s.engine }) :
    Opens event (update g >>= f) s := by
  simp only [Opens, update, wpBind, wpModify]
  exact rest

theorem emitOpens (env : Env) (event : Event) (empty : s.log = []) :
    Opens event (emit env event) s := by
  simp only [Opens, emit, wpBind, wpModify, wpGet, wpIte, wpThrow, wpPure, Session.events, empty]
  exact ⟨fun _ => rfl, fun _ => rfl⟩

theorem opensThen {program : Op α} {f : α → Op β} (first : Opens event program s)
    (rest : ∀ a, Grows env (f a)) : Opens event (program >>= f) s := by
  rw [Opens, wpBind]
  refine wpMono first (fun a t head => ?_) (fun _ _ head => head)
  have kept : ∀ u : Session, t.log <+: u.log → u.events.head? = some event := by
    rintro u ⟨new, split⟩
    have first : (t.log.map (·.event)).head? = some event := head
    rw [Session.events, ← split, List.map_append, List.head?_append, first]
    rfl
  exact wpMono ((rest a).ends t) (fun _ u h => kept u h.1.log) (fun _ u h => kept u h.1.log)

theorem opensCall {request : Request} {engine : Engine}
    (opens : Opens event (perform env request) { engine := engine }) :
    (call env request engine).events.head? = some event :=
  callEnds opens

theorem allocateSilent (memory : env.chunk = true) : Silent (allocate env) s := by
  simp only [Silent, allocate, current, update, wpBind, wpGet, wpPure]
  cases allocated : s.engine.pool.allocate env.chunk with
  | none => rw [OrderPool.allocateFails allocated] at memory; contradiction
  | some result => exact rfl

theorem insertOrderSilent (memory : env.slots = true) (id : OrderId) (slot : Slot) :
    Silent (insertOrder env id slot) s := by
  simp only [Silent, insertOrder, current, update, wpBind, wpGet, wpPure]
  cases inserted : s.engine.orderIndex.insert env.slots id slot with
  | none => rw [FlatHashMap.insertFails inserted] at memory; contradiction
  | some result => exact rfl

theorem silentBind {program : Op α} {f : α → Op β} (first : Silent program s)
    (rest : ∀ a (t : Session), Silent (f a) t) : Silent (program >>= f) s := by
  rw [Silent, wpBind]
  refine wpMono first (fun a t log => ?_) (fun _ _ impossible => impossible)
  exact wpMono (rest a t) (fun _ u log' => log'.trans log) (fun _ _ impossible => impossible)

theorem updateSilent (f : Engine → Engine) : Silent (update f) s := rfl

theorem pureSilent (a : α) : Silent (pure a) s := rfl

theorem enterOrderSilent (memory : env.chunk = true ∧ env.slots = true) (order : NewOrder) :
    Silent (enterOrder env order) s :=
  silentBind (allocateSilent memory.1) (fun _ _ => silentBind (updateSilent _) (fun _ _ =>
    silentBind (insertOrderSilent memory.2 ..) (fun _ _ => pureSilent _)))

theorem enterReplacementSilent (memory : env.chunk = true ∧ env.slots = true)
    (request : ReplaceOrder) (old : OrderRecord) : Silent (enterReplacement env request old) s := by
  refine silentBind (allocateSilent memory.1) (fun newSlot _ =>
    silentBind (updateSilent _) (fun _ _ => ?_))
  split
  · exact silentBind (updateSilent _) (fun _ _ => pureSilent _)
  · exact silentBind (insertOrderSilent memory.2 ..) (fun _ _ => pureSilent _)

end Firsts

instance (price : Int) : Decidable (Misaligned price) := inferInstanceAs (Decidable (_ ∨ _))
instance (cfg : InstrumentConfig) (price : Int) : Decidable (Beyond cfg price) :=
  inferInstanceAs (Decidable (_ < _))

def verdict (cfg : InstrumentConfig) (price : Int) (id : OrderId) (passes : Event) : Event :=
  if Misaligned price then .rejected id .invalidPriceTick
  else if Beyond cfg price then .rejected id .priceOutOfBand
  else passes

structure SubmitPriced (engine : Engine) (order : NewOrder) : Prop where
  limit : order.type = .limit
  quantity : order.quantity ≠ 0
  unused : engine.orderIndex.contains order.orderId = false

structure ReplacePriced (engine : Engine) (request : ReplaceOrder) (slot : Slot) : Prop where
  found : engine.findOpen request.orderId = some slot
  positive : replacementOpen request (engine.pool.get slot) ≠ 0
  unused : request.newOrderId ≠ request.orderId →
    engine.orderIndex.contains request.newOrderId = false

section Verdicts
variable {cfg : InstrumentConfig} {engine : Engine} {b : Nat} {env : Env}

theorem alignedOf {price : Int} (aligned : ¬Misaligned price) :
    isTickAligned kTickSchedule price = true := by
  rwa [misalignedIff, Bool.not_eq_false] at aligned

theorem priceChecks (kin : Kin cfg engine b) (price : Int) :
    (Misaligned price → isTickAligned kTickSchedule price = false) ∧
      (¬Misaligned price → Beyond cfg price → (engine.books.read b).priceToIndex price < 0) ∧
      (¬Misaligned price → ¬Beyond cfg price → ¬(engine.books.read b).priceToIndex price < 0) := by
  have admits := kin.admits price
  refine ⟨misalignedIff.mp, fun _ beyond => ?_, fun aligned within => ?_⟩
  · exact Int.not_le.mp (fun inside => (admits.mp inside).2 beyond)
  · exact Int.not_lt.mpr (admits.mpr ⟨aligned, within⟩)

theorem invalidVerdict (kin : Kin cfg engine b) {order : NewOrder}
    (priced : SubmitPriced engine order) :
    invalid (engine.books.read b) order =
      if Misaligned order.price then some .invalidPriceTick
      else if Beyond cfg order.price then some .priceOutOfBand else none := by
  obtain ⟨unaligned, outside, inside⟩ := priceChecks kin order.price
  have limit : ¬(order.type = .market ∧ order.tif = .day) := fun h => by simp [priced.limit] at h
  have notMarket : order.type ≠ .market := by simp [priced.limit]
  rw [invalid, if_neg priced.quantity, if_neg limit, if_pos notMarket]
  by_cases misaligned : Misaligned order.price
  · simp [misaligned, unaligned misaligned]
  · have aligned := alignedOf misaligned
    by_cases beyond : Beyond cfg order.price
    · simp [misaligned, aligned, beyond, outside misaligned beyond]
    · simp [misaligned, aligned, beyond, inside misaligned beyond]

theorem submitVerdict (kin : Kin cfg engine b) (memory : env.chunk = true ∧ env.slots = true)
    {order : NewOrder} (instrument : order.instrumentId = cfg.instrumentId)
    (priced : SubmitPriced engine order) :
    (call env (.submit order) engine).events.head? =
      some (verdict cfg order.price order.orderId (.accepted order.orderId)) := by
  have found := kin.found
  rw [← instrument] at found
  have checked := invalidVerdict kin priced
  refine opensCall ?_
  unfold perform submit
  refine opensRead ?_
  simp only [kin.configured, Bool.not_true, Bool.false_eq_true, if_false, found, priced.unused,
    checked]
  refine opensAfter (enterOrderSilent memory order) rfl (fun slot start empty => ?_)
  unfold verdict
  by_cases misaligned : Misaligned order.price
  · simp only [misaligned, if_true]
    exact emitOpens env _ empty
  · by_cases beyond : Beyond cfg order.price
    · simp only [misaligned, beyond, if_true, if_false]
      exact emitOpens env _ empty
    · simp only [misaligned, beyond, if_false]
      refine opensThen (opensUpdate (emitOpens env _ empty))
        (fun _ => growsExecute env b slot _ order)

theorem replaceVerdict (kin : Kin cfg engine b) (memory : env.chunk = true ∧ env.slots = true)
    {request : ReplaceOrder} {slot : Slot} (priced : ReplacePriced engine request slot)
    (instrument : (engine.pool.get slot).instrumentId = cfg.instrumentId) :
    (call env (.replace request) engine).events.head? =
      some (verdict cfg request.newPrice request.newOrderId
        (.replaced request.orderId request.newOrderId request.newPrice
        (replacementOpen request (engine.pool.get slot)).toNat)) := by
  have book : engine.bookOf slot = b := by
    rw [bookOf, instrument, kin.found]
    rfl
  have unused : ¬(request.newOrderId ≠ request.orderId ∧
    engine.orderIndex.contains request.newOrderId = true) := by
    rintro ⟨other, used⟩
    rw [priced.unused other] at used
    contradiction
  obtain ⟨unaligned, outside, inside⟩ := priceChecks kin request.newPrice
  refine opensCall ?_
  unfold perform replace
  refine opensRead ?_
  simp only [kin.configured, Bool.not_true, Bool.false_eq_true, if_false, priced.found,
    priced.positive, unused, book]
  unfold verdict
  by_cases misaligned : Misaligned request.newPrice
  · simp only [misaligned, unaligned misaligned, Bool.not_false, if_true]
    exact emitOpens env _ rfl
  · simp only [misaligned, alignedOf misaligned, Bool.not_true, Bool.false_eq_true, if_false]
    by_cases beyond : Beyond cfg request.newPrice
    · simp only [beyond, outside misaligned beyond, if_true]
      exact emitOpens env _ rfl
    · simp only [beyond, inside misaligned beyond, if_false]
      unfold replaceSlot
      refine opensAfter (enterReplacementSilent memory request _) rfl
        (fun newSlot start empty => ?_)
      split
      · refine opensUpdate (@opensThen env _ _ _ _ _ _ (emitOpens env _ empty)
          (fun _ => growsIte ?_ (growsRest ..)))
        exact growsBind (growsRunMatching ..) (fun _ => growsRest ..)
      · exact opensUpdate (emitOpens env _ empty)

end Verdicts

/- How prices are admitted to an instrument, at any time after its configuration. -/
structure AdmitsExactly (cfg : InstrumentConfig) (engine : Engine) : Prop where
  exact : BandExact cfg
  reference : ¬Misaligned cfg.referencePrice ∧ ¬Beyond cfg cfg.referencePrice
  submit : ∀ (env : Env) (order : NewOrder), env.chunk = true ∧ env.slots = true →
    order.instrumentId = cfg.instrumentId → SubmitPriced engine order →
    (call env (.submit order) engine).events.head? =
      some (verdict cfg order.price order.orderId (.accepted order.orderId))
  replace : ∀ (env : Env) (request : ReplaceOrder) (slot : Slot), env.chunk = true ∧
    env.slots = true →
    ReplacePriced engine request slot → (engine.pool.get slot).instrumentId = cfg.instrumentId →
    (call env (.replace request) engine).events.head? =
      some (verdict cfg request.newPrice request.newOrderId
        (.replaced request.orderId request.newOrderId request.newPrice
        (replacementOpen request (engine.pool.get slot)).toNat))

theorem pricesAdmittedExactly (trouble : Nat → Option Failure) (instruments : List InstrumentConfig)
    (start : Engine)
    (configured : ({} : Engine).configure trouble (some instruments) = some (.ok, start))
    (cfg : InstrumentConfig) (member : cfg ∈ instruments) (actions : List Action) :
    AdmitsExactly cfg (actions.foldl act start) := by
  obtain ⟨list, same, installed⟩ := configureInstalls configured
  cases Option.some.inj same
  obtain ⟨ok, b, kin⟩ :=
    installedKin installed (actsGrown start installed.configured actions) member
  exact ⟨bandExact ok, referencePasses ok, fun env order memory instrument priced =>
    submitVerdict kin memory instrument priced, fun env request slot memory priced instrument =>
    replaceVerdict kin memory priced instrument⟩

theorem tenPercentBandAdmitsExactly : AdmitsExactly ⟨7, 100000, 1000⟩
    ([.call .calm (.submit ⟨1, 7, .sell, .limit, .day, 100000, 5⟩)].foldl act
      (after (calmRun [⟨7, 100000, 1000⟩] []))) :=
  pricesAdmittedExactly (fun _ => none) [⟨7, 100000, 1000⟩] _
    (configuredStart (by decide +kernel)) _
    List.mem_cons_self _

end Engine
end Xmatch
