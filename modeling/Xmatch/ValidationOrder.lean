import Xmatch.Rejections

/-! Which of several violated conditions a request is refused for, against the order in which
the reasons are declared. -/
namespace Xmatch
namespace Engine
open OrderBook Effect

/- As declared, except that `notConfigured` is always first. -/
def declaredOrder : List RejectReason :=
  [.notConfigured, .unknownInstrument, .duplicateOrderId, .invalidQuantity, .invalidPriceTick,
    .priceOutOfBand,
    .invalidTimeInForce, .unknownOrder]

def Outside (book : OrderBook) (price : Int) : Prop := price < book.bandLo ∨ book.bandHi < price

instance (book : OrderBook) (price : Int) : Decidable (Outside book price) :=
  inferInstanceAs (Decidable (_ ∨ _))

def submitViolates (engine : Engine) (order : NewOrder) : RejectReason → Bool
  | .notConfigured => !engine.configured
  | .unknownInstrument => (engine.findBook order.instrumentId).isNone
  | .duplicateOrderId => engine.orderIndex.contains order.orderId
  | .invalidQuantity => order.quantity = 0
  | .invalidPriceTick => order.type = .limit ∧ Misaligned order.price
  | .priceOutOfBand =>
    order.type = .limit && (engine.findBook order.instrumentId).any fun b =>
      Outside (engine.books.read b) order.price
  | .invalidTimeInForce => order.type = .market ∧ order.tif = .day
  | .unknownOrder => false

def cancelViolates (engine : Engine) (request : CancelOrder) : RejectReason → Bool
  | .notConfigured => !engine.configured
  | .unknownOrder => (engine.findOpen request.orderId).isNone
  | _ => false

/- A replace of an open order down to zero is a cancel. -/
def onlyCancels (engine : Engine) (request : ReplaceOrder) : Bool :=
  (engine.findOpen request.orderId).any fun slot =>
    replacementOpen request (engine.pool.get slot) = 0

def reusesId (engine : Engine) (request : ReplaceOrder) : Bool :=
  request.newOrderId ≠ request.orderId && engine.orderIndex.contains request.newOrderId

/- `known` says which orders have an instrument whose band the new price is held against. -/
def leavesBand (known : Engine → OrderId → Option Slot) (engine : Engine) (request : ReplaceOrder) :
    Bool :=
  (known engine request.orderId).any fun slot =>
    Outside (engine.books.read (engine.bookOf slot)) request.newPrice

def replaceViolates (known : Engine → OrderId → Option Slot) (engine : Engine)
    (request : ReplaceOrder) :
    RejectReason → Bool
  | .notConfigured => !engine.configured
  | .duplicateOrderId => !engine.onlyCancels request && engine.reusesId request
  | .invalidPriceTick => !engine.onlyCancels request && Misaligned request.newPrice
  | .priceOutOfBand => !engine.onlyCancels request && leavesBand known engine request
  | .unknownOrder => (engine.findOpen request.orderId).isNone
  | _ => false

def violates (known : Engine → OrderId → Option Slot) (engine : Engine) :
    Request → RejectReason → Bool
  | .submit order => engine.submitViolates order
  | .cancel request => engine.cancelViolates request
  | .replace request => replaceViolates known engine request

def firstViolated (known : Engine → OrderId → Option Slot) (engine : Engine) (request : Request) :
    Option RejectReason :=
  declaredOrder.find? (violates known engine request)

def rejectedId : Request → OrderId
  | .submit order => order.orderId
  | .cancel request => request.orderId
  | .replace request => request.newOrderId

def Short (env : Env) : Prop := ¬(env.chunk = true ∧ env.slots = true)

/- Whatever the listener does, the call reports the first violated condition and nothing else,
unless memory runs out before it reports anything. -/
def ReportsFirst (known : Engine → OrderId → Option Slot) (engine : Engine) (request : Request) :
    Prop :=
  ∀ env reason, firstViolated known engine request = some reason →
    (call env request engine).events = [.rejected (rejectedId request) reason] ∨
      ((call env request engine).events = [] ∧ Short env)

/- A replace of an order that is not open violates a condition declared before that one. -/
def Shadowed (known : Engine → OrderId → Option Slot) (engine : Engine) (request : Request) :
    Prop :=
  ∃ r, request = .replace r ∧ engine.configured = true ∧ engine.findOpen r.orderId = none ∧
    (engine.reusesId r = true ∨ Misaligned r.newPrice ∨ leavesBand known engine r = true)

section Reporting
variable {env : Env} {α β : Type} {event : Event} {s : Session}

def Reports (env : Env) (event : Event) (program : Op α) (s : Session) : Prop :=
  wp program (fun _ t => t.events = [event]) (fun _ t => t.events = [event] ∨
    t.events = [] ∧ Short env) s

def Hushed (env : Env) (program : Op α) (s : Session) : Prop :=
  wp program (fun _ t => t.log = s.log) (fun _ t => t.log = s.log ∧ Short env) s

theorem emitReports (empty : s.log = []) : Reports env event (emit env event) s := by
  simp only [Reports, emit, wpBind, wpModify, wpGet, wpIte, wpThrow, wpPure, Session.events, empty]
  exact ⟨fun _ => .inl rfl, fun _ => rfl⟩

theorem reportsRead {f : Engine → Op α} (rest : Reports env event (f s.engine) s) :
    Reports env event (current >>= f) s := by
  simpa only [Reports, current, wpBind, wpGet, wpPure] using rest

theorem hushedBind {program : Op α} {f : α → Op β} (first : Hushed env program s)
    (rest : ∀ a (t : Session), Hushed env (f a) t) : Hushed env (program >>= f) s := by
  rw [Hushed, wpBind]
  refine wpMono first (fun a t log => ?_) (fun _ _ early => early)
  exact wpMono (rest a t) (fun _ u log' => log'.trans log) (fun _ u early =>
    ⟨early.1.trans log, early.2⟩)

theorem reportsAfter {program : Op α} {f : α → Op β} (first : Hushed env program s)
    (empty : s.log = []) (rest : ∀ a (t : Session), t.log = [] → Reports env event (f a) t) :
    Reports env event (program >>= f) s := by
  rw [Reports, wpBind]
  refine wpMono first (fun a t log => rest a t (log.trans empty))
    (fun _ t early => .inr ⟨?_, early.2⟩)
  rw [Session.events, early.1, empty, List.map_nil]

theorem hushedAllocate : Hushed env (allocate env) s := by
  simp only [Hushed, allocate, current, update, wpBind, wpGet, wpPure]
  cases allocated : s.engine.pool.allocate env.chunk with
  | none =>
    exact ⟨rfl, fun memory => absurd (OrderPool.allocateFails allocated) (by simp [memory.1])⟩
  | some result => exact rfl

theorem hushedInsert (id : OrderId) (slot : Slot) : Hushed env (insertOrder env id slot) s := by
  simp only [Hushed, insertOrder, current, update, wpBind, wpGet, wpPure]
  cases inserted : s.engine.orderIndex.insert env.slots id slot with
  | none =>
    exact ⟨rfl, fun memory => absurd (FlatHashMap.insertFails inserted) (by simp [memory.2])⟩
  | some result => exact rfl

theorem hushedEnter (order : NewOrder) : Hushed env (enterOrder env order) s :=
  hushedBind hushedAllocate (fun slot _ => @hushedBind env _ _ _ (update _) _ rfl (fun _ _ =>
    hushedBind (hushedInsert order.orderId slot) (fun _ _ => rfl)))

theorem reportsCall {request : Request} {engine : Engine}
    (reports : Reports env event (perform env request) { engine := engine }) :
    (call env request engine).events = [event] ∨
      ((call env request engine).events = [] ∧ Short env) :=
  callEnds (wpMono reports (fun _ _ one => .inl one) (fun _ _ early => early))

end Reporting

structure Banded (engine : Engine) : Prop where
  nonempty : 0 < engine.books.size
  found : ∀ id b, engine.findBook id = some b → b < engine.books.size
  priced : ∀ b < engine.books.size, ∀ price,
    (engine.books.read b).priceToIndex price < 0 ↔
    Misaligned price ∨ Outside (engine.books.read b) price

theorem grownBanded {before after : Engine} (banded : Banded before) (grown : Grown before after) :
    Banded after := by
  refine ⟨by rw [grown.books]; exact banded.nonempty, fun id b found => ?_, fun b inside price => ?_⟩
  · rw [findBook, grown.instrumentIndex] at found
    rw [grown.books]
    exact banded.found id b found
  · rw [grown.books] at inside
    have priced := banded.priced b inside price
    simp only [priceToIndex, Outside, bandLo, bandHi, (grown.frame b).ladder] at priced ⊢
    exact priced

theorem blankPriced {cfg : InstrumentConfig} {book : OrderBook} (blank : Blank cfg book)
    (ok : acceptable cfg = true) (price : Int) :
    book.priceToIndex price < 0 ↔ Misaligned price ∨ Outside book price := by
  have banded := accepted ok
  have admits := PriceLadder.builtAdmits shippedChecked banded.start banded.stop
      (Int.le_trans banded.low banded.high)
    banded.fits (shippedRegular _ _) blank.built price
  rw [← Int.not_le, priceToIndex, admits, misalignedIff, ← blank.bandLo, ← blank.bandHi,
    ← Bool.not_eq_true, Outside]
  by_cases aligned : TickTable.isTickAligned kTickSchedule price = true
  · simp only [aligned, true_and, not_true_eq_false, false_or]
    omega
  · simp [aligned]

theorem configuredBanded {engine engine' : Engine} {trouble : Nat → Option Failure}
    {instruments : Option (List InstrumentConfig)}
    (ran : engine.configure trouble instruments = some (.ok, engine')) : Banded engine' := by
  obtain ⟨list, _, installed⟩ := configureInstalls ran
  refine ⟨configureNonempty ran, fun id b found => installedFound installed found,
    fun b inside price => ?_⟩
  rw [installed.size] at inside
  obtain ⟨ok, blank⟩ := installed.listed.built b list[b] (List.getElem?_eq_getElem inside)
  exact blankPriced blank ok price

theorem alwaysBanded (actions : List Action) :
    (after actions).configured = true → Banded (after actions) := by
  induction actions using List.reverseRecOn with
  | nil => exact fun impossible => absurd impossible Bool.false_ne_true
  | append_singleton actions action ih =>
    rw [afterNext]
    intro configured
    cases action with
    | call env request =>
      have grown := callGrown env request (after actions)
      exact grownBanded (ih (grown.configured.symm.trans configured)) grown
    | configure trouble instruments =>
      rw [act] at configured ⊢
      split at configured
      · rename_i result engine ran
        by_cases ok : result = .ok
        · rw [ok] at ran
          exact configuredBanded ran
        · rw [configureFails ran ok] at configured ⊢
          exact ih configured
      · exact ih configured

section Requests
variable {known : Engine → OrderId → Option Slot} {engine : Engine} {env : Env}
  {reason : RejectReason}

theorem bookOfInside (banded : Banded engine) (slot : Slot) :
    engine.bookOf slot < engine.books.size := by
  rw [bookOf]
  cases found : engine.findBook (engine.pool.get slot).instrumentId with
  | none => exact banded.nonempty
  | some b => exact banded.found _ b found

theorem invalidFirst (banded : Banded engine) (configured : engine.configured = true)
    {order : NewOrder} {b : Nat} (found : engine.findBook order.instrumentId = some b)
    (unused : engine.orderIndex.contains order.orderId = false) :
    firstViolated known engine (.submit order) = invalid (engine.books.read b) order := by
  have priced := banded.priced b (banded.found _ b found) order.price
  simp only [firstViolated, declaredOrder, List.find?_cons, violates, submitViolates, configured,
    found, unused, invalid, Bool.not_true, Option.isNone_some, Option.any_some]
  by_cases zero : order.quantity = 0
  · simp [zero]
  cases kind : order.type with
  | market => by_cases day : order.tif = .day <;> simp [zero, day]
  | limit =>
    by_cases misaligned : Misaligned order.price
    · simp [zero, misaligned, misalignedIff.mp misaligned]
    · by_cases outside : Outside (engine.books.read b) order.price <;>
        simp [zero, misaligned, alignedOf misaligned, outside, priced]

theorem submitReports (banded : engine.configured = true → Banded engine) {order : NewOrder}
    (first : firstViolated known engine (.submit order) = some reason) :
    Reports env (.rejected order.orderId reason) (submit env order) { engine := engine } := by
  refine reportsRead ?_
  cases configured : engine.configured with
  | false =>
    have reasonIs : reason = .notConfigured := by
      simpa [firstViolated, declaredOrder, violates, submitViolates, configured] using first.symm
    rw [reasonIs]
    exact emitReports rfl
  | true =>
    simp only [Bool.not_true, Bool.false_eq_true, if_false]
    cases found : engine.findBook order.instrumentId with
    | none =>
      have reasonIs : reason = .unknownInstrument := by
        simpa [firstViolated, declaredOrder, violates, submitViolates, configured,
          found] using first.symm
      rw [reasonIs]
      exact emitReports rfl
    | some b =>
      cases used : engine.orderIndex.contains order.orderId with
      | true =>
        have reasonIs : reason = .duplicateOrderId := by
          simpa [firstViolated, declaredOrder, violates, submitViolates, configured, found,
            used] using first.symm
        simp only [if_true, reasonIs]
        exact emitReports rfl
      | false =>
        rw [invalidFirst (banded configured) configured found used] at first
        simp only [Bool.false_eq_true, if_false, first]
        exact reportsAfter (hushedEnter order) rfl (fun slot t empty => emitReports empty)

theorem cancelReports {request : CancelOrder}
    (first : firstViolated known engine (.cancel request) = some reason) :
    Reports env (.rejected request.orderId reason) (cancel env request) { engine := engine } := by
  refine reportsRead ?_
  cases configured : engine.configured with
  | false =>
    have reasonIs : reason = .notConfigured := by
      simpa [firstViolated, declaredOrder, violates, cancelViolates, configured] using first.symm
    rw [reasonIs]
    exact emitReports rfl
  | true =>
    simp only [Bool.not_true, Bool.false_eq_true, if_false]
    cases found : engine.findOpen request.orderId with
    | none =>
      have reasonIs : reason = .unknownOrder := by
        simpa [firstViolated, declaredOrder, violates, cancelViolates, configured,
          found] using first.symm
      rw [reasonIs]
      exact emitReports rfl
    | some slot =>
      simp [firstViolated, declaredOrder, violates, cancelViolates, configured, found] at first

theorem reusesIff {request : ReplaceOrder} : engine.reusesId request = true ↔
    request.newOrderId ≠ request.orderId ∧
      engine.orderIndex.contains request.newOrderId = true := by
  rw [reusesId, Bool.and_eq_true, decide_eq_true_eq]

theorem replaceFirst (banded : Banded engine) (configured : engine.configured = true)
    {request : ReplaceOrder} {slot : Slot} (found : engine.findOpen request.orderId = some slot)
    (isKnown : known engine request.orderId = some slot) :
    firstViolated known engine (.replace request) =
      if replacementOpen request (engine.pool.get slot) = 0 then none
      else if request.newOrderId ≠ request.orderId ∧
        engine.orderIndex.contains request.newOrderId then some .duplicateOrderId
      else if !TickTable.isTickAligned kTickSchedule request.newPrice then some .invalidPriceTick
      else if (engine.books.read (engine.bookOf slot)).priceToIndex request.newPrice <
        0 then some .priceOutOfBand
      else none := by
  have priced := banded.priced _ (bookOfInside banded slot) request.newPrice
  simp only [firstViolated, declaredOrder, List.find?_cons, violates, replaceViolates, configured,
    onlyCancels, leavesBand, found, isKnown, Bool.not_true, Option.isNone_some, Option.any_some,
    ← reusesIff]
  by_cases zero : replacementOpen request (engine.pool.get slot) = 0
  · simp [zero]
  by_cases reused : engine.reusesId request = true
  · simp [zero, reused]
  by_cases misaligned : Misaligned request.newPrice
  · simp [zero, reused, misaligned, misalignedIff.mp misaligned]
  · by_cases outside : Outside (engine.books.read (engine.bookOf slot)) request.newPrice <;>
      simp [zero, reused, misaligned, alignedOf misaligned, outside, priced]

theorem replaceReports (openKnown : ∀ engine id slot, findOpen engine id = some slot →
  known engine id = some slot)
    (banded : engine.configured = true → Banded engine) {request : ReplaceOrder}
    (unshadowed : ¬Shadowed known engine (.replace request))
    (first : firstViolated known engine (.replace request) = some reason) :
    Reports env (.rejected request.newOrderId reason) (replace env request)
      { engine := engine } := by
  refine reportsRead ?_
  cases configured : engine.configured with
  | false =>
    have reasonIs : reason = .notConfigured := by
      simpa [firstViolated, declaredOrder, violates, replaceViolates, configured] using first.symm
    rw [reasonIs]
    exact emitReports rfl
  | true =>
    simp only [Bool.not_true, Bool.false_eq_true, if_false]
    cases found : engine.findOpen request.orderId with
    | none =>
      have clear : engine.reusesId request = false ∧ ¬Misaligned request.newPrice ∧
          leavesBand known engine request = false := by
        have all : ¬(engine.reusesId request = true ∨ Misaligned request.newPrice ∨
          leavesBand known engine request = true) :=
          fun violated => unshadowed ⟨request, rfl, configured, found, violated⟩
        simpa only [not_or, Bool.not_eq_true] using all
      have reasonIs : reason = .unknownOrder := by
        simpa [firstViolated, declaredOrder, violates, replaceViolates, configured, found,
          onlyCancels, clear] using first.symm
      rw [reasonIs]
      exact emitReports rfl
    | some slot =>
      rw [replaceFirst (banded configured) configured found (openKnown _ _ _ found)] at first
      simp only
      split at first
      · contradiction
      rename_i positive
      rw [if_neg positive]
      split at first
      · rename_i reused
        cases first
        rw [if_pos reused]
        exact emitReports rfl
      rename_i fresh
      rw [if_neg fresh]
      split at first
      · rename_i misaligned
        cases first
        rw [if_pos misaligned]
        exact emitReports rfl
      rename_i aligned
      rw [if_neg aligned]
      split at first
      · rename_i outside
        cases first
        rw [if_pos outside]
        exact emitReports rfl
      · contradiction

theorem shadowedReports {request : ReplaceOrder} (configured : engine.configured = true)
    (closed : engine.findOpen request.orderId = none) :
    Reports env (.rejected request.newOrderId .unknownOrder) (replace env request)
      { engine := engine } := by
  refine reportsRead ?_
  simp only [configured, Bool.not_true, Bool.false_eq_true, if_false, closed]
  exact emitReports rfl

theorem shadowedFirst {request : ReplaceOrder} (configured : engine.configured = true)
    (closed : engine.findOpen request.orderId = none)
    (violated : engine.reusesId request = true ∨ Misaligned request.newPrice ∨
      leavesBand known engine request = true) :
    ∃ reason, firstViolated known engine (.replace request) = some reason ∧
      reason ≠ .unknownOrder := by
  simp only [firstViolated, declaredOrder, List.find?_cons, violates, replaceViolates, configured,
    onlyCancels, closed, Bool.not_true, Option.any_none, Bool.not_false, Bool.true_and]
  cases reused : engine.reusesId request with
  | true => exact ⟨_, rfl, by decide⟩
  | false =>
    by_cases misaligned : Misaligned request.newPrice
    · exact ⟨.invalidPriceTick, by simp [misaligned], by decide⟩
    · have leaves : leavesBand known engine request = true := by
        simpa [reused, misaligned] using violated
      exact ⟨.priceOutOfBand, by simp [misaligned, leaves], by decide⟩

theorem reportsFirstViolated (known : Engine → OrderId → Option Slot)
    (openKnown : ∀ engine id slot, findOpen engine id = some slot → known engine id = some slot)
    (actions : List Action) (request : Request) :
    ReportsFirst known (after actions) request ↔ ¬Shadowed known (after actions) request := by
  have banded := alwaysBanded actions
  constructor
  · rintro reports ⟨r, rfl, configured, closed, violated⟩
    obtain ⟨reason, first, other⟩ := shadowedFirst configured closed violated
    have said := @reportsCall .calm _ (.replace r) _ (shadowedReports configured closed)
    rcases reports .calm reason first with same | ⟨empty, short⟩
    · rcases said with unknown | ⟨_, short⟩
      · rw [unknown] at same
        simp only [List.cons.injEq, Event.rejected.injEq, and_true] at same
        exact other same.2.symm
      · exact short ⟨rfl, rfl⟩
    · exact short ⟨rfl, rfl⟩
  · intro unshadowed env reason first
    cases request with
    | submit order => exact reportsCall (submitReports banded first)
    | cancel r => exact reportsCall (cancelReports first)
    | replace r => exact reportsCall (replaceReports openKnown banded unshadowed first)

end Requests

def indexed (engine : Engine) (id : OrderId) : Option Slot := engine.orderIndex.find id

theorem openIndexed (engine : Engine) (id : OrderId) (slot : Slot)
    (found : findOpen engine id = some slot) : indexed engine id = some slot := by
  rw [findOpen] at found
  rw [indexed]
  split at found
  · contradiction
  · rename_i place here
    split at found
    · rw [here, found]
    · contradiction

theorem offTickReportsFirst : ReportsFirst indexed (after (calmRun [⟨7, 100000, 1000⟩] []))
    (.submit ⟨9, 7, .sell, .limit, .day, 999999, 5⟩) :=
  (reportsFirstViolated indexed openIndexed _ _).mpr (by rintro ⟨_, impossible, _⟩; contradiction)

/- Order 9 was never entered, and id 1 is used. -/
theorem unknownReplaceShadowsDuplicate :
    ¬∀ actions request, ReportsFirst indexed (after actions) request := by
  intro promised
  have reports :=
    promised (calmRun [⟨7, 100000, 1000⟩] [.submit ⟨1, 7, .sell, .limit, .day, 100000, 5⟩])
    (.replace ⟨9, 1, 100000, 5⟩) .calm .duplicateOrderId (by decide +kernel)
  have said : (call .calm (.replace ⟨9, 1, 100000, 5⟩) (after (calmRun [⟨7, 100000, 1000⟩]
      [.submit ⟨1, 7, .sell, .limit, .day, 100000, 5⟩]))).events =
  [.rejected 1 .unknownOrder] := by decide +kernel
  rw [said] at reports
  simp [rejectedId] at reports

end Engine
end Xmatch
