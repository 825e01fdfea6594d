import Xmatch.Admission
import Xmatch.TopOfBook
import Xmatch.Twins

/-! What a rejected call leaves behind: nothing, or an id that cannot be used any more. -/
namespace Xmatch

namespace Venue

section Everywhere
variable {name : Nat → Nat} {mine : OrderId → Prop} {left right : Venue}

theorem twinBooks (twin : Twin name (fun _ => True) mine left right) :
    left.books = right.books := by
  have byParts : ∀ x y : Book, x.frame = y.frame → (∀ side, x.side side = y.side side) → x = y := by
    intro x y frame sides
    have bids : x.bids = y.bids := sides .buy
    have asks : x.asks = y.asks := sides .sell
    obtain ⟨_, _, _, _, _⟩ := x
    obtain ⟨_, _, _, _, _⟩ := y
    simp only [Book.frame, Prod.mk.injEq] at frame
    simp_all
  refine List.ext_getElem (twinLength twin) (fun i insideL insideR =>
    byParts _ _ ?_ (fun side => ?_))
  · have frames := congrArg (fun frames : List (InstrumentId × Int × Int) => frames[i]?) twin.frames
    simpa [insideL, insideR] using frames
  · have orders := twin.orders i trivial side
    simpa [orders, Venue.orders, insideL, insideR] using orders

theorem twinPerform (feasible : Feasible) (twin : Twin name (fun _ => True) mine left right)
    {request : Request} (own : ∀ order, request = .submit order → mine order.orderId)
    (renamed : ∀ r, request = .replace r → r.newOrderId ≠ r.orderId → mine r.newOrderId) :
    Alike name (fun _ => True) mine (perform feasible request left)
      (perform feasible request right) := by
  have found : ∀ id, FoundAlike (fun _ => True) left right id := by
    refine fun id => ⟨?_, fun _ _ _ _ => trivial⟩
    rw [findOpen, findOpen, twinBooks twin]
  cases request with
  | submit order => exact twinSubmit feasible twin (own order rfl) (fun _ _ => trivial)
  | cancel request => exact twinCancel twin (found _)
  | replace request => exact twinReplace twin (found _) (renamed request rfl)

end Everywhere

def shownTop (venue : Venue) (id : InstrumentId) : TopOfBook :=
  match venue.books.findIdx? (fun book => book.instrumentId = id) with
  | none => {}
  | some b =>
    { bidPrice := (Book.top (venue.orders b .buy)).1,
      bidQuantity := UInt32.ofNat (Book.top (venue.orders b .buy)).2,
      askPrice := (Book.top (venue.orders b .sell)).1, askQuantity :=
        UInt32.ofNat (Book.top (venue.orders b .sell)).2 }

theorem twinShown {name : Nat → Nat} {P : Nat → Prop} {mine : OrderId → Prop} {left right : Venue}
    (twin : Twin name P mine left right) (id : InstrumentId)
    (shared : ∀ b, right.books.findIdx? (fun book => book.instrumentId = id) = some b → P b) :
    left.shownTop id = right.shownTop id := by
  unfold shownTop
  rw [twinIndex twin]
  cases found : right.books.findIdx? (fun book => book.instrumentId = id) with
  | none => rfl
  | some b => simp only [twin.orders b (shared b found)]

theorem performRejected {feasible : Feasible} {venue : Venue} {request : Request} {id : OrderId}
    {reason : RejectReason}
    (rejected : Event.rejected id reason ∈ (perform feasible request venue).1.map (·.event)) :
    perform feasible request venue = reject id reason venue ∨
      ∃ order b book, request = .submit order ∧ id = order.orderId ∧
        invalid book order = some reason ∧
        Fresh venue order b book ∧
          perform feasible request venue = reject id reason (venue.spend order.orderId 0) := by
  have shape := performed feasible request venue
  generalize perform feasible request venue = result at shape rejected ⊢
  have noTrade : ∀ {b : Nat} {instrumentId : InstrumentId} {side : Side} {limit : Option Int} (orders : List Order)
      (venue : Venue) (taker : Order),
      Event.rejected id reason ∉ (sweep b instrumentId side limit orders venue taker).1.map
      (·.event) := by
    intro b instrumentId side limit orders
    induction orders with
    | nil => intro venue taker; simp [sweep]
    | cons maker rest ih =>
      intro venue taker
      unfold sweep
      split
      · split
        · simp [tradeMoment, ih]
        · simp [tradeMoment]
      · simp
  cases shape with
  | refused request id' reason' =>
    simp only [reject, List.map_cons, List.map_nil, List.mem_singleton,
      Event.rejected.injEq] at rejected
    obtain ⟨rfl, rfl⟩ := rejected
    exact .inl rfl
  | spoiled order b book reason' fresh flaw =>
    simp only [reject, List.map_cons, List.map_nil, List.mem_singleton,
      Event.rejected.injEq] at rejected
    obtain ⟨rfl, rfl⟩ := rejected
    exact .inr ⟨order, b, book, rfl, rfl, flaw, fresh, rfl⟩
  | killed order b book fresh valid fok short => simp [acceptedMoment] at rejected
  | worked order b book fresh valid enough =>
    rw [disposeSplit] at rejected
    simp only [acceptedMoment, List.map_cons, List.map_append, List.mem_cons, List.mem_append,
      reduceCtorEq, false_or]
      at rejected
    rcases rejected with swept | left
    · exact absurd swept (noTrade _ _ _)
    · unfold remainder at left
      split at left
      · split at left <;> simp at left
      · simp at left
  | withdrawn request id' b side old found leaves => simp [cancelOrder] at rejected
  | requeued request b side old book replacing loses =>
    unfold requeue at rejected
    simp only at rejected
    split at rejected
    · split at rejected <;>
        simp only [replacedMoment, List.map_cons, List.mem_cons, reduceCtorEq,
          false_or] at rejected <;>
        exact absurd rejected (noTrade _ _ _)
    · split at rejected <;> simp [replacedMoment] at rejected
  | amended request b side old book replacing samePrice fewer => simp [replacedMoment] at rejected

end Venue

namespace Engine
open OrderBook Effect

def Action.Calm : Action → Prop
  | .configure _ _ => True
  | .call env _ => env.Quiet ∧ env.chunk = true ∧ env.slots = true

def Action.Introduces (id : OrderId) : Action → Prop
  | .configure _ _ => False
  | .call _ (.submit order) => order.orderId = id
  | .call _ (.cancel _) => False
  | .call _ (.replace request) => request.newOrderId = id ∧ request.newOrderId ≠ request.orderId

def answer (engine : Engine) : Action → Option ConfigureResult × List Event
  | .configure trouble instruments => ((engine.configure trouble instruments).map Prod.fst, [])
  | .call env request => (none, (call env request engine).events)

/- What a run shows: after each action its answer, and the top of every book. -/
def answers : List Action → Engine →
    List ((Option ConfigureResult × List Event) × (InstrumentId → TopOfBook))
  | [], _ => []
  | action :: rest, engine =>
    (engine.answer action, (act engine action).topOfBook) :: answers rest (act engine action)

theorem answersAppend (earlier later : List Action) : ∀ engine : Engine,
    answers (earlier ++ later) engine =
      answers earlier engine ++ answers later (earlier.foldl act engine) := by
  induction earlier with
  | nil => exact fun _ => rfl
  | cons action rest ih => intro engine; rw [List.cons_append, answers, ih, answers]; rfl

theorem answersLength (actions : List Action) :
    ∀ engine : Engine, (answers actions engine).length = actions.length := by
  induction actions with
  | nil => exact fun _ => rfl
  | cons action rest ih => intro engine; rw [answers, List.length_cons, ih, List.length_cons]

theorem calmOnly {env : Env} (quiet : env.Quiet) (memory : env.chunk = true ∧ env.slots = true) :
    env = .calm := by
  obtain ⟨throws, chunk, slots⟩ := env
  obtain rfl : throws = fun _ => false := funext quiet
  simp_all [Env.calm]

section Mirrors
variable {mine : OrderId → Prop} {one two : Engine}

theorem simShown {engine : Engine} {venue : Venue} (sim : Sim engine venue) (id : InstrumentId) :
    engine.topOfBook id = venue.shownTop id := by
  have index := @simBook engine venue id sim
  unfold Venue.shownTop
  rw [index]
  cases found : engine.findBook id with
  | none => rw [topOfBook, found]
  | some b =>
    obtain ⟨bid, bids⟩ := simTop sim found .buy
    obtain ⟨ask, asks⟩ := simTop sim found .sell
    rw [topOfBookFound found, topOfBookSides, bid, bids, ask, asks]

/- The engines stand for venues that differ in nothing but ids that are not `mine`. -/
def Mirror (mine : OrderId → Prop) (one two : Engine) : Prop :=
  ∃ left right, Sim one left ∧ Sim two right ∧ Venue.Twin id (fun _ => True) mine left right

theorem simConfigured {engine : Engine} {venue : Venue} (sim : Sim engine venue) :
    venue.configured = engine.configured := by
  obtain ⟨_, _, _, view⟩ := sim
  exact view.configured

theorem mirrorTop (mirror : Mirror mine one two) : one.topOfBook = two.topOfBook := by
  obtain ⟨left, right, simOne, simTwo, twin⟩ := mirror
  funext id
  rw [simShown simOne, simShown simTwo, Venue.twinShown twin id (fun _ _ => trivial)]

theorem configureAgain {engine : Engine} (configured : engine.configured = true)
    (trouble : Nat → Option Failure) (instruments : Option (List InstrumentConfig)) :
    engine.configure trouble instruments = some (.alreadyConfigured, engine) := by
  simp only [configure, configured, if_true]

theorem mirrorAct (mirror : Mirror mine one two) (configured : one.configured = true)
    {action : Action} (calm : action.Calm) (own : ∀ id, ¬mine id → ¬action.Introduces id)
    (roomOne : one.pool.size < kInvalidSlot.toNat) (roomTwo : two.pool.size < kInvalidSlot.toNat) :
    one.answer action = two.answer action ∧ Mirror mine (act one action) (act two action) := by
  obtain ⟨left, right, simOne, simTwo, twin⟩ := mirror
  have both : two.configured = true := by
    rw [← simConfigured simTwo, ← twin.configured, simConfigured simOne, configured]
  cases action with
  | configure trouble instruments =>
    simp only [answer, act, configureAgain configured, configureAgain both, Option.map_some]
    exact ⟨trivial, left, right, simOne, simTwo, twin⟩
  | call env request =>
    obtain rfl := calmOnly calm.1 calm.2
    have submits : ∀ order, request = .submit order → mine order.orderId := by
      rintro order rfl
      exact Classical.not_not.mp (fun foreign => own _ foreign rfl)
    have renames : ∀ r, request = .replace r → r.newOrderId ≠ r.orderId → mine r.newOrderId := by
      rintro r rfl other
      exact Classical.not_not.mp (fun foreign => own _ foreign ⟨rfl, other⟩)
    have alike := Venue.twinPerform wrappedFill twin submits renames
    have events := alike.events
    simp only [Event.renumberId] at events
    refine ⟨?_, _, _, (calmCall simOne roomOne request).2, (calmCall simTwo roomTwo request).2,
      alike.twin⟩
    rw [answer, answer, calmEvents simOne roomOne request, calmEvents simTwo roomTwo request,
      events]

theorem foldRoomy {start : Engine} (configured : start.configured = true) {actions : List Action}
    (roomy : Roomy (actions.foldl act start)) : start.pool.size < kInvalidSlot.toNat :=
  (roomyBefore (actsGrown start configured actions) roomy).slots

theorem mirrorAnswers (later : List Action) : ∀ one two : Engine, Mirror mine one two →
    one.configured = true →
    (∀ action ∈ later, action.Calm) → (∀ action ∈ later, ∀ id, ¬mine id → ¬action.Introduces id) →
    Roomy (later.foldl act one) → Roomy (later.foldl act two) →
    answers later one = answers later two := by
  induction later with
  | nil => exact fun _ _ _ _ _ _ _ _ => rfl
  | cons action rest ih =>
    intro one two mirror configured calm own roomOne roomTwo
    have both : two.configured = true := by
      obtain ⟨left, right, simOne, simTwo, twin⟩ := mirror
      rw [← simConfigured simTwo, ← twin.configured, simConfigured simOne, configured]
    obtain ⟨answered, next⟩ := mirrorAct mirror configured (calm action List.mem_cons_self)
      (own action List.mem_cons_self)
      (foldRoomy configured roomOne) (foldRoomy both roomTwo)
    have still : (act one action).configured = true :=
      (actsGrown one configured [action]).configured.trans configured
    rw [answers, answers, answered, mirrorTop next]
    exact congrArg _ (ih _ _ next still (fun a member => calm a (List.mem_cons_of_mem _ member))
      (fun a member => own a (List.mem_cons_of_mem _ member)) roomOne roomTwo)

end Mirrors

/- A submit rejected for one of these has consumed its id. -/
def Spoils : RejectReason → Prop
  | .invalidQuantity | .invalidTimeInForce | .invalidPriceTick | .priceOutOfBand => True
  | _ => False

theorem invalidSpoils {book : OrderBook} {order : NewOrder} {reason : RejectReason}
    (flaw : invalid book order = some reason) : Spoils reason := by
  unfold invalid at flaw
  split at flaw
  · cases Option.some.inj flaw
    trivial
  split at flaw
  · cases Option.some.inj flaw
    trivial
  split at flaw
  · split at flaw
    · cases Option.some.inj flaw
      trivial
    split at flaw
    · cases Option.some.inj flaw
      trivial
    · contradiction
  · contradiction

def Spares (kind : Event → Prop) {α : Type} (program : Op α) (s : Session) : Prop :=
  wp program (fun _ t => t.engine = s.engine ∨ ∃ event, t.events.head? = some event ∧ ¬kind event)
    (fun _ t => t.engine = s.engine ∨ ∃ event, t.events.head? = some event ∧ ¬kind event) s

section Sparing
variable {kind : Event → Prop} {env : Env} {α : Type} {program : Op α} {s : Session} {event : Event}
  {slot : Slot} {b : Nat}

theorem sparesEmit : Spares kind (emit env event) s := by
  simp only [Spares, emit, wpBind, wpModify, wpGet, wpIte, wpThrow, wpPure]
  exact ⟨fun _ => .inl trivial, fun _ => .inl trivial⟩

theorem sparesOpens (opens : Opens event program s) (other : ¬kind event) : Spares kind program s :=
  wpMono opens (fun _ _ head => .inr ⟨event, head, other⟩)
    (fun _ _ head => .inr ⟨event, head, other⟩)

theorem sparesRead {f : Engine → Op α} (rest : Spares kind (f s.engine) s) :
    Spares kind (current >>= f) s := by
  simpa only [Spares, current, wpBind, wpGet, wpPure] using rest

theorem cancelSlotOpens (id : OrderId) (empty : s.log = []) : Opens
    (.canceled id (s.engine.pool.get slot).openQty.toNat .userRequested)
      (cancelSlot env id slot) s := by
  unfold cancelSlot
  exact opensRead (opensUpdate (emitOpens env _ empty))

theorem replacementOpens {request : ReplaceOrder} {old : OrderRecord} {oldSlot newSlot : Slot}
    (empty : s.log = []) :
    Opens (.replaced request.orderId request.newOrderId request.newPrice
      (replacementOpen request old).toNat)
      (if request.newPrice ≠ old.price ∨ old.openQty < replacementOpen request old then
        requeue env request b oldSlot newSlot old
      else do
        update (fun engine =>
          engine.putBook b (OrderBook.replaceInPlace engine.pool (engine.books.read b)
            oldSlot newSlot))
        emit env (.replaced request.orderId request.newOrderId request.newPrice
          (replacementOpen request old).toNat)) s := by
  split
  · refine opensUpdate (@opensThen env _ _ _ _ _ _ (emitOpens env _ empty)
      (fun _ => growsIte ?_ (growsRest ..)))
    exact growsBind (growsRunMatching ..) (fun _ => growsRest ..)
  · exact opensUpdate (emitOpens env _ empty)

theorem replaceSlotOpens (memory : env.chunk = true ∧ env.slots = true) (request : ReplaceOrder)
    (old : OrderRecord) (empty : s.log = []) :
    Opens (.replaced request.orderId request.newOrderId request.newPrice
      (replacementOpen request old).toNat)
      (replaceSlot env request b slot old) s :=
  opensAfter (enterReplacementSilent memory request old) empty
    (fun _ _ empty => replacementOpens empty)

def Harmless (request : Request) : Event → Prop
  | .rejected _ reason => (∀ order, request ≠ .submit order) ∨ ¬Spoils reason
  | _ => False

theorem submitSpares (memory : env.chunk = true ∧ env.slots = true) (order : NewOrder)
    (empty : s.log = []) :
    Spares (Harmless (.submit order)) (submit env order) s := by
  refine sparesRead ?_
  split
  · exact sparesEmit
  · split
    · exact sparesEmit
    · split
      · exact sparesEmit
      · rename_i b found unused
        cases flaw : invalid (s.engine.books.read b) order with
        | some reason =>
          have spoils : ¬Harmless (.submit order) (.rejected order.orderId reason) := by
            rintro (other | harmless)
            · exact other order rfl
            · exact harmless (invalidSpoils flaw)
          refine sparesOpens (opensAfter (enterOrderSilent memory order) empty
            (fun slot start empty => ?_)) spoils
          exact emitOpens env _ empty
        | none =>
          refine sparesOpens (opensAfter (enterOrderSilent memory order) empty
            (fun slot start empty => ?_))
            (id : ¬Harmless (.submit order) (.accepted order.orderId))
          exact opensThen (opensUpdate (emitOpens env _ empty))
            (fun _ => growsExecute env b slot _ order)

theorem cancelSpares (request : CancelOrder) (empty : s.log = []) :
    Spares (Harmless (.cancel request)) (cancel env request) s := by
  refine sparesRead ?_
  split
  · exact sparesEmit
  · split
    · exact sparesEmit
    · exact sparesOpens (cancelSlotOpens request.orderId empty) id

theorem replaceSpares (memory : env.chunk = true ∧ env.slots = true) (request : ReplaceOrder)
    (empty : s.log = []) :
    Spares (Harmless (.replace request)) (replace env request) s := by
  refine sparesRead ?_
  split
  · exact sparesEmit
  · split
    · exact sparesEmit
    · simp only
      split
      · exact sparesOpens (cancelSlotOpens request.orderId empty) id
      split
      · exact sparesEmit
      split
      · exact sparesEmit
      split
      · exact sparesEmit
      · exact sparesOpens (replaceSlotOpens memory request _ empty) id

theorem harmlessCall {request : Request} {engine : Engine}
    (memory : env.chunk = true ∧ env.slots = true)
    (only : (call env request engine).events = [event]) (harmless : Harmless request event) :
    (call env request engine).engine = engine := by
  have spares : Spares (Harmless request) (perform env request) { engine := engine } := by
    cases request with
    | submit order => exact submitSpares memory order rfl
    | cancel request => exact cancelSpares request rfl
    | replace request => exact replaceSpares memory request rfl
  rcases callEnds spares with same | ⟨first, head, other⟩
  · exact same
  · rw [only] at head
    cases Option.some.inj head
    exact absurd harmless other

end Sparing

theorem calmStart {earlier later : List Action} (roomy : Roomy (after (earlier ++ later))) :
    ∃ venue, Sim (after earlier) venue ∧ (after earlier).pool.size < kInvalidSlot.toNat := by
  have before := roomyEarlier roomy
  obtain ⟨venue, sim, -⟩ := reached keptTrivial earlier before
  exact ⟨venue, sim, before.slots⟩

structure LeavesNoTrace (earlier : List Action) (env : Env) (request : Request)
    (later : List Action) (orderId : OrderId) (reason : RejectReason) : Prop where
  alone : (call env request (after earlier)).events = [.rejected orderId reason]
  tops : (call env request (after earlier)).engine.topOfBook = (after earlier).topOfBook
  deleted : (∀ order, request = .submit order → Spoils reason → ∀ action ∈ later,
    ¬action.Introduces order.orderId) →
    (answers (earlier ++ .call env request :: later) {}).eraseIdx earlier.length =
    answers (earlier ++ later) {}
  untouched : (∀ order, request ≠ .submit order) ∨ ¬Spoils reason →
    (call env request (after earlier)).engine = after earlier

theorem rejectedMirror {engine : Engine} {venue : Venue} (sim : Sim engine venue)
    (room : engine.pool.size < kInvalidSlot.toNat) {request : Request} {orderId : OrderId}
    {reason : RejectReason}
    (rejected : .rejected orderId reason ∈ (call .calm request engine).events) :
    (call .calm request engine).events = [.rejected orderId reason] ∧
      ∃ mine, Mirror mine (call .calm request engine).engine engine ∧
        ∀ id, ¬mine id → ∃ order, request = .submit order ∧ order.orderId = id := by
  obtain ⟨_, sim'⟩ := calmCall sim room request
  have events := calmEvents sim room request
  rw [events] at rejected
  rcases Venue.performRejected rejected with whole | ⟨order, b, book, submits, _, _, _, whole⟩
  · rw [whole] at events sim'
    exact ⟨events, fun _ => True, ⟨venue, venue, sim', sim, Venue.twinRefl venue⟩,
      fun _ impossible => absurd trivial impossible⟩
  · rw [whole] at events sim'
    have spent : Venue.Twin id (fun _ => True) (· ≠ order.orderId)
        (venue.spend order.orderId 0) venue := by
      refine ⟨rfl, rfl, fun _ _ _ => rfl, fun other apart => ?_, fun _ => rfl⟩
      simp [Venue.spend, apart]
    exact ⟨events, (· ≠ order.orderId), ⟨venue.spend order.orderId 0, venue, sim', sim, spent⟩,
      fun id same => ⟨order, submits, (Classical.not_not.mp same).symm⟩⟩

theorem rejectedLeavesNoTrace (earlier : List Action) (env : Env) (request : Request)
    (later : List Action) (calm : ∀ action ∈ .call env request :: later, action.Calm)
    (roomy : Roomy (after (earlier ++ .call env request :: later)))
    (shorter : Roomy (after (earlier ++ later))) (orderId : OrderId) (reason : RejectReason)
    (rejected : .rejected orderId reason ∈ (call env request (after earlier)).events) :
    LeavesNoTrace earlier env request later orderId reason := by
  obtain ⟨quiet, memory⟩ := calm _ List.mem_cons_self
  obtain rfl := calmOnly quiet memory
  obtain ⟨venue, sim, room⟩ := calmStart shorter
  obtain ⟨only, mine, mirror, spoiled⟩ := rejectedMirror sim room rejected
  have untouched :=
    @harmlessCall .calm (.rejected orderId reason) request (after earlier) memory only
  refine ⟨only, mirrorTop mirror, fun apart => ?_, untouched⟩
  have same : answers later (call .calm request (after earlier)).engine =
      answers later (after earlier) := by
    by_cases harmless : (∀ order, request ≠ .submit order) ∨ ¬Spoils reason
    · rw [untouched harmless]
    · push Not at harmless
      cases configured : (after earlier).configured with
      | false => rw [idleCall configured]
      | true =>
        have still : (call .calm request (after earlier)).engine.configured = true :=
          (callGrown .calm request _).configured.trans configured
        refine mirrorAnswers later _ _ mirror still
          (fun a member => calm a (List.mem_cons_of_mem _ member)) ?_ ?_ ?_
        · intro action member id foreign
          obtain ⟨order, submits, rfl⟩ := spoiled id foreign
          exact apart order submits harmless.2 action member
        · rwa [after, List.foldl_append, List.foldl_cons] at roomy
        · rwa [after, List.foldl_append] at shorter
  rw [answersAppend, answersAppend, List.eraseIdx_append_of_length_le (by rw [answersLength]),
    answersLength, Nat.sub_self, answers, List.eraseIdx_cons_zero]
  exact congrArg (answers earlier {} ++ ·) same

theorem emptySubmitLeavesNoTrace :
    LeavesNoTrace (calmRun [⟨7, 100000, 1000⟩] []) .calm
      (.submit ⟨9, 7, .sell, .limit, .day, 100000, 0⟩)
      [.call .calm (.submit ⟨1, 7, .sell, .limit, .day, 100000, 5⟩),
        .call .calm (.submit ⟨2, 7, .buy, .limit, .day, 100000, 3⟩)]
      9 .invalidQuantity :=
  rejectedLeavesNoTrace _ _ _ _ (by simp [Action.Calm, Env.calm, Env.Quiet])
    (roomyOf (by decide +kernel) (by decide +kernel))
    (roomyOf (by decide +kernel) (by decide +kernel)) 9 .invalidQuantity (by decide +kernel)

end Engine
end Xmatch
