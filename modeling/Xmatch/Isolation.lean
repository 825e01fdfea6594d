import Xmatch.Reference
import Xmatch.Rejections
import Xmatch.Uncrossed

/-! Instruments do not see each other: a request changes one book, and the calls that name
an instrument or its orders go the same way whatever the other calls are. -/
namespace Xmatch

namespace Venue

structure Confined (b : Nat) (id : OrderId) (before after : Venue) : Prop where
  configured : after.configured = before.configured
  frames : after.books.map Book.frame = before.books.map Book.frame
  elsewhere : ∀ c, c ≠ b → ∀ side, after.orders c side = before.orders c side
  spent : ∀ other, other ≠ id → (other ∈ after.spent ↔ other ∈ before.spent)
  origin : ∀ c side, ∀ o ∈ after.orders c side, (∃ o' ∈ before.orders c side, o'.id = o.id) ∨
    (c = b ∧ o.id = id)

section Confining
variable {venue middle after : Venue} {b : Nat} {id : OrderId} {side : Side}

theorem confinedTrans (first : Confined b id venue middle) (second : Confined b id middle after) :
    Confined b id venue after := by
  refine ⟨second.configured.trans first.configured, second.frames.trans first.frames,
    fun c other s => (second.elsewhere c other s).trans (first.elsewhere c other s),
    fun other apart => (second.spent other apart).trans (first.spent other apart),
    fun c s o member => ?_⟩
  rcases second.origin c s o member with ⟨o', inMiddle, same⟩ | brought
  · rw [← same]
    exact first.origin c s o' inMiddle
  · exact .inr brought

theorem confinedSpend (venue : Venue) (b : Nat) (id : OrderId) (filled : Nat) :
    Confined b id venue (venue.spend id filled) := by
  refine ⟨rfl, rfl, fun _ _ _ => rfl, fun other apart => ?_,
    fun _ _ o member => .inl ⟨o, member, rfl⟩⟩
  simp [spend, apart]

theorem confinedPut {xs : List Order}
    (known : ∀ o ∈ xs, (∃ o' ∈ venue.orders b side, o'.id = o.id) ∨ o.id = id) :
    Confined b id venue (venue.putSide b side xs) := by
  refine ⟨rfl, framesPut venue b side xs, fun c other s => ?_, fun _ _ => Iff.rfl,
    fun c s o member => ?_⟩
  · rw [ordersPutSide, if_neg (fun h => other h.1)]
  · rw [ordersPutSide] at member
    split at member
    · rename_i here
      obtain ⟨rfl, rfl, -⟩ := here
      exact (known o member).imp (fun h => h) (fun h => ⟨rfl, h⟩)
    · exact .inl ⟨o, member, rfl⟩

theorem sweepFrames {instrumentId : InstrumentId} {limit : Option Int} (base : Venue)
    (taker : Order) (orders : List Order) :
    (sweep b instrumentId side limit orders base taker).2.venue.books.map Book.frame =
      base.books.map Book.frame :=
  (@sweepInduct b instrumentId side limit (fun _ venue _ _ => venue.books.map Book.frame =
    base.books.map Book.frame)
    (fun _ _ _ _ _ same _ _ => (framesPut _ b side.opposite _).trans same) orders
    [] base taker rfl).1

theorem confinedSweep {instrumentId : InstrumentId} {limit : Option Int} (base : Venue)
    (taker : Order) (id : OrderId) :
    Confined b id base (sweep b instrumentId side limit (base.orders b side.opposite) base
      taker).2.venue := by
  have sweeping := (@sweepSweeping b instrumentId side limit base taker).1
  refine ⟨sweeping.configured, sweepFrames base taker _,
    fun c other s => sweeping.others c s (fun h => other h.1),
    fun other _ => by rw [sweeping.spent], fun c s o member => .inl ?_⟩
  by_cases here : c = b ∧ s = side.opposite
  · obtain ⟨rfl, rfl⟩ := here
    rw [sweeping.here] at member
    obtain ⟨o', listed, same, _⟩ := keyMember sweeping.suffix member
    exact ⟨o', listed, same⟩
  · rw [sweeping.others c s here] at member
    exact ⟨o, member, rfl⟩

theorem confinedRest {taker : Order} (own : taker.id = id) :
    Confined b id venue (venue.putSide b side (enqueue side taker (venue.orders b side))) := by
  refine confinedPut (fun o member => ?_)
  rcases memEnqueue.mp member with rfl | listed
  · exact .inr own
  · exact .inl ⟨o, listed, rfl⟩

theorem confinedWithdraw (venue : Venue) (b : Nat) (side : Side) (gone id : OrderId) :
    Confined b id venue (venue.withdraw b side gone) :=
  confinedPut (fun o member => .inl ⟨o, (memWithout.mp member).1, rfl⟩)

end Confining

end Venue

def Request.names : Request → OrderId
  | .submit order => order.orderId
  | .cancel request => request.orderId
  | .replace request => request.orderId

def Request.brings : Request → OrderId
  | .submit order => order.orderId
  | .cancel request => request.orderId
  | .replace request => request.newOrderId

namespace Venue

def touches (venue : Venue) : Request → Option Nat
  | .submit order => venue.books.findIdx? (fun book => book.instrumentId = order.instrumentId)
  | .cancel request => (venue.findOpen request.orderId).map (·.1)
  | .replace request => (venue.findOpen request.orderId).map (·.1)

theorem performConfined (feasible : Feasible) (request : Request) (venue : Venue) :
    (perform feasible request venue).2 = venue ∨
      ∃ b, venue.touches request = some b ∧
        Confined b request.brings venue (perform feasible request venue).2 := by
  have shape := performed feasible request venue
  generalize perform feasible request venue = result at shape
  cases shape with
  | refused request id reason => exact .inl rfl
  | spoiled order b book reason fresh flaw => exact .inr ⟨b, fresh.index, confinedSpend venue b _ 0⟩
  | killed order b book fresh valid fok short =>
    exact .inr ⟨b, fresh.index, confinedSpend venue b _ 0⟩
  | worked order b book fresh valid enough =>
    refine .inr ⟨b, fresh.index, confinedTrans (confinedSpend venue b order.orderId 0) ?_⟩
    generalize venue.spend order.orderId 0 = base
    have swept : Confined b order.orderId base (work b order base).2.venue :=
      confinedSweep base (takerOf order) order.orderId
    have taker : (work b order base).2.taker.id = order.orderId :=
      (sweepTaker _ base (takerOf order)).1
    simp only [dispose]
    split
    · split
      · exact confinedTrans swept (confinedRest taker)
      · exact swept
    · exact swept
  | withdrawn request id b side old found leaves =>
    refine .inr ⟨b, ?_, confinedWithdraw venue b side old.id _⟩
    cases leaves <;> simp [touches, found]
  | requeued request b side old book replacing loses =>
    refine .inr ⟨b, by simp [touches, replacing.found],
      confinedTrans (confinedSpend venue b request.newOrderId old.filledQty) ?_⟩
    generalize venue.spend request.newOrderId old.filledQty = base
    have away : Confined b request.newOrderId base (base.withdraw b side old.id) :=
      confinedWithdraw base b side old.id _
    simp only [requeue]
    split
    · have swept :=
        confinedTrans away (@confinedSweep b side
          ((((base.withdraw b side old.id).books[b]?).map (·.instrumentId)).getD 0)
        (some request.newPrice) (base.withdraw b side old.id) (replacement request old)
        request.newOrderId)
      split
      · exact confinedTrans swept (confinedRest (sweepTaker _ _ (replacement request old)).1)
      · exact swept
    · split
      · exact confinedTrans away (confinedRest rfl)
      · exact away
  | amended request b side old book replacing samePrice fewer =>
    refine .inr ⟨b, by simp [touches, replacing.found],
      confinedTrans (confinedSpend venue b request.newOrderId old.filledQty) ?_⟩
    refine confinedPut (fun o member => ?_)
    obtain ⟨o', listed, same⟩ := List.mem_map.mp member
    split at same
    · rw [← same]
      exact .inr rfl
    · rw [← same]
      exact .inl ⟨o', listed, rfl⟩

end Venue

/- Submits of the instrument use the ids that are `mine`, and no others do; a replace keeps to one
kind. -/
def Request.Separated (instrument : InstrumentId) (mine : OrderId → Bool) : Request → Prop
  | .submit order => mine order.orderId = true ↔ order.instrumentId = instrument
  | .cancel _ => True
  | .replace request => mine request.newOrderId = mine request.orderId

theorem Request.separatedBrings {instrument : InstrumentId} {mine : OrderId → Bool}
    {request : Request} (separated : request.Separated instrument mine) :
    mine request.brings = mine request.names := by
  cases request with
  | submit order => rfl
  | cancel request => rfl
  | replace request => exact separated

namespace Venue

/- The orders with ids that are `mine` are those of one book. -/
structure Housed (instrument : InstrumentId) (mine : OrderId → Bool) (home : Option Nat)
    (venue : Venue) : Prop where
  index : venue.books.findIdx? (fun book => book.instrumentId = instrument) = home
  apart : ∀ b side, ∀ o ∈ venue.orders b side, (mine o.id = true ↔ home = some b)

section Houses
variable {instrument : InstrumentId} {mine : OrderId → Bool} {home : Option Nat}
  {venue left right : Venue} {request : Request} {b : Nat} {feasible : Feasible}

theorem indexInstrument {id : InstrumentId}
    (found : venue.books.findIdx? (fun book => book.instrumentId = id) = some b) :
    ∃ book, venue.books[b]? = some book ∧ book.instrumentId = id := by
  obtain ⟨inside, same, _⟩ := List.findIdx?_eq_some_iff_getElem.mp found
  exact ⟨venue.books[b], List.getElem?_eq_getElem inside, by simpa using same⟩

theorem touchesHome (housed : Housed instrument mine home venue)
    (separated : request.Separated instrument mine) (touched : venue.touches request = some b) :
    mine request.names = true ↔ home = some b := by
  have open' : ∀ id, (venue.findOpen id).map (·.1) = some b → (mine id = true ↔ home = some b) := by
    intro id looked
    obtain ⟨⟨c, side, order⟩, found, rfl⟩ := Option.map_eq_some_iff.mp looked
    obtain ⟨_, member, rfl⟩ := findOpenRests found
    exact housed.apart c side order member
  cases request with
  | submit order =>
    refine Iff.trans separated ⟨fun same => ?_, fun here => ?_⟩
    · rw [← housed.index, ← same]
      exact touched
    · obtain ⟨book, inB, own⟩ := indexInstrument (housed.index.trans here)
      obtain ⟨book', inB', own'⟩ := indexInstrument touched
      rw [inB] at inB'
      obtain rfl := Option.some.inj inB'
      exact own'.symm.trans own
  | cancel request => exact open' _ touched
  | replace request => exact open' _ touched

theorem performHoused (housed : Housed instrument mine home venue)
    (separated : request.Separated instrument mine) :
    Housed instrument mine home (perform feasible request venue).2 := by
  rcases performConfined feasible request venue with same | ⟨b, touched, confined⟩
  · rwa [same]
  · refine ⟨?_, fun c side o member => ?_⟩
    · rw [frameIndex, confined.frames, ← frameIndex]
      exact housed.index
    · rcases confined.origin c side o member with ⟨o', listed, same⟩ | ⟨rfl, same⟩
      · rw [← same]
        exact housed.apart c side o' listed
      · rw [same, Request.separatedBrings separated]
        exact touchesHome housed separated touched

theorem performElsewhere (housed : Housed instrument mine home venue)
    (separated : request.Separated instrument mine) (foreign : mine request.names = false) :
    Twin (fun _ => 0) (fun c => home = some c) (fun id => mine id = true)
      (perform feasible request venue).2 venue := by
  rcases performConfined feasible request venue with same | ⟨b, touched, confined⟩
  · rw [same]
    exact twinRefl venue
  · refine ⟨confined.configured, confined.frames, fun c here side => confined.elsewhere c ?_ side,
      fun id own => confined.spent id ?_, fun _ => rfl⟩
    · rintro rfl
      have named := (touchesHome housed separated touched).mpr here
      rw [foreign] at named
      contradiction
    · rintro rfl
      rw [Request.separatedBrings separated, foreign] at own
      contradiction

theorem twinTrans {name : Nat → Nat} {P : Nat → Prop} {own : OrderId → Prop} {middle : Venue}
    (first : Twin name P own left middle) (second : Twin name P own middle right) :
    Twin name P own left right :=
  ⟨first.configured.trans second.configured, first.frames.trans second.frames,
    fun b inside side => (first.orders b inside side).trans (second.orders b inside side),
    fun id here => (first.spent id here).trans (second.spent id here), fun k =>
    (first.trades k).trans (second.trades k)⟩

theorem findTwin {name : Nat → Nat} {P : Nat → Prop} {own : OrderId → Prop} {id : OrderId}
    {side : Side} {order : Order} (twin : Twin name P own left right)
    (only : ∀ c s, ∀ o ∈ right.orders c s, o.id = id → c = b) (inside : P b)
    (found : left.findOpen id = some (b, side, order)) :
    right.findOpen id = some (b, side, order) := by
  obtain ⟨_, book, here, has⟩ := findFromIndex id found
  rw [Nat.sub_zero] at here
  have within : b < right.books.length := by
    rw [← twinLength twin]
    exact (List.getElem?_eq_some_iff.mp here).1
  have there := List.getElem?_eq_getElem within
  have sides : ∀ s, book.side s = (right.books[b]).side s := by
    intro s
    have orders := twin.orders b inside s
    rw [Venue.orders, Venue.orders, here, there] at orders
    exact orders
  have has' : (right.books[b]).find id = some (side, order) := by
    have bids : book.bids = (right.books[b]).bids := sides .buy
    have asks : book.asks = (right.books[b]).asks := sides .sell
    rw [← has, Book.find, Book.find, bids, asks]
  have earlier : ∀ c < b, ∀ other, right.books[c]? = some other → other.find id = none := by
    intro c below other inC
    cases held : other.find id with
    | none => rfl
    | some place =>
      obtain ⟨s, o⟩ := place
      obtain ⟨member, same⟩ := bookFindMember held
      have member : o ∈ right.orders c s := by
        rw [Venue.orders, inC]
        exact member
      exact absurd (only c s o member same) (Nat.ne_of_lt below)
  rw [findOpen, findFromSome id there has' earlier 0, Nat.zero_add]

theorem foundAlike {name : Nat → Nat} {id : OrderId}
    (twin : Twin name (fun c => home = some c) (fun id => mine id = true) left right)
    (twin' : Twin name (fun c => home = some c) (fun id => mine id = true) right left)
    (houseL : Housed instrument mine home left) (houseR : Housed instrument mine home right)
    (own : mine id = true) : FoundAlike (fun c => home = some c) left right id := by
  have inside : ∀ {venue : Venue}, Housed instrument mine home venue → ∀ b side order,
      venue.findOpen id = some (b, side, order) → home = some b := by
    intro venue housed b side order found
    obtain ⟨_, member, same⟩ := findOpenRests found
    exact (housed.apart b side order member).mp (same ▸ own)
  have only : ∀ {venue : Venue}, Housed instrument mine home venue → ∀ b, home = some b →
      ∀ c s, ∀ o ∈ venue.orders c s, o.id = id → c = b := by
    intro venue housed b here c s o member same
    have there := (housed.apart c s o member).mp (same ▸ own)
    rw [here] at there
    exact (Option.some.inj there).symm
  refine ⟨?_, inside houseR⟩
  cases found : left.findOpen id with
  | some place =>
    obtain ⟨b, side, order⟩ := place
    have here := inside houseL b side order found
    exact (findTwin twin (only houseR b here) here found).symm
  | none =>
    cases found' : right.findOpen id with
    | none => rfl
    | some place =>
      obtain ⟨b, side, order⟩ := place
      have here := inside houseR b side order found'
      rw [findTwin twin' (only houseL b here) here found'] at found
      contradiction

theorem twinSymm {name : Nat → Nat} {P : Nat → Prop} {own : OrderId → Prop}
    (twin : Twin name P own left right) : Twin name P own right left :=
  ⟨twin.configured.symm, twin.frames.symm, fun b inside side => (twin.orders b inside side).symm,
    fun id here => (twin.spent id here).symm, fun k => (twin.trades k).symm⟩

theorem performHome {name : Nat → Nat}
    (twin : Twin name (fun c => home = some c) (fun id => mine id = true) left right)
    (houseL : Housed instrument mine home left) (houseR : Housed instrument mine home right)
    (separated : request.Separated instrument mine) (own : mine request.names = true) :
    Alike name (fun c => home = some c) (fun id => mine id = true) (perform feasible request left)
      (perform feasible request right) := by
  cases request with
  | submit order =>
    refine twinSubmit feasible twin own (fun b found => ?_)
    have here : order.instrumentId = instrument := separated.mp own
    rw [← houseR.index, ← here]
    exact found
  | cancel request => exact twinCancel twin (foundAlike twin (twinSymm twin) houseL houseR own)
  | replace request =>
    refine twinReplace twin (foundAlike twin (twinSymm twin) houseL houseR own) (fun _ => ?_)
    have same : mine request.newOrderId = mine request.orderId := separated
    rw [same]
    exact own

end Houses

def ownAnswers (instrument : InstrumentId) : List Request → Venue → List (List Event × TopOfBook)
  | [], _ => []
  | request :: rest, venue =>
    ((perform wrappedFill request venue).1.map (fun moment => moment.event.renumber fun _ => 0),
      (perform wrappedFill request venue).2.shownTop instrument) ::
        ownAnswers instrument rest (perform wrappedFill request venue).2

end Venue

namespace Engine
open OrderBook

/- What a session shows to the requests that name an id that is `mine`: their events, trade
ids apart, and the top of the book of the instrument after them. -/
def ownAnswers (instrument : InstrumentId) (mine : OrderId → Bool) :
    List Request → Engine → List (List Event × TopOfBook)
  | [], _ => []
  | request :: rest, engine =>
    if mine request.names then
      ((call .calm request engine).events.map (Event.renumber fun _ => 0),
        (call .calm request engine).engine.topOfBook instrument) ::
          ownAnswers instrument mine rest (call .calm request engine).engine
    else ownAnswers instrument mine rest (call .calm request engine).engine

theorem ownRun {instrument : InstrumentId} {mine : OrderId → Bool} {home : Option Nat}
    (requests : List Request) :
    ∀ (engine : Engine) (venue alone : Venue), Sim engine venue →
      Venue.Twin (fun _ => 0) (fun c => home = some c) (fun id => mine id = true) venue alone →
      Venue.Housed instrument mine home venue → Venue.Housed instrument mine home alone →
      (∀ request ∈ requests, request.Separated instrument mine) → Roomy (session requests engine) →
      ownAnswers instrument mine requests engine =
        Venue.ownAnswers instrument
          (requests.filter (fun request => mine request.names)) alone := by
  induction requests with
  | nil => intros; rfl
  | cons request rest ih =>
    intro engine venue alone sim twin housed houseA separated roomy
    have room := (roomyBefore (callsGrown (request :: rest) engine) roomy).slots
    obtain ⟨_, sim'⟩ := calmCall sim room request
    have here := separated request List.mem_cons_self
    have later : ∀ r ∈ rest, r.Separated instrument mine :=
      fun r member => separated r (List.mem_cons_of_mem _ member)
    have housed' := @Venue.performHoused instrument mine home venue request wrappedFill housed here
    by_cases own : mine request.names = true
    · obtain ⟨events, twin'⟩ :=
        @Venue.performHome instrument mine home venue alone request wrappedFill _ twin housed
          houseA here own
      have houseA' :=
        @Venue.performHoused instrument mine home alone request wrappedFill houseA here
      have shown := Venue.twinShown twin' instrument (fun b found => houseA'.index.symm.trans found)
      have kept : (request :: rest).filter (fun request => mine request.names) =
          request :: rest.filter (fun request => mine request.names) := by simp [own]
      rw [ownAnswers, if_pos own, kept, Venue.ownAnswers, calmEvents sim room request, List.map_map,
        simShown sim', shown, ← events]
      exact congrArg _ (ih _ _ _ sim' twin' housed' houseA' later roomy)
    · have foreign : mine request.names = false := Bool.eq_false_iff.mpr own
      have dropped : (request :: rest).filter (fun request => mine request.names) =
          rest.filter (fun request => mine request.names) := by simp [own]
      rw [ownAnswers, if_neg own, dropped]
      have twin' :=
        Venue.twinTrans (@Venue.performElsewhere instrument mine home venue request wrappedFill
          housed here foreign) twin
      exact ih _ _ _ sim' twin' housed' houseA later roomy

theorem instrumentsIsolated (instruments : List InstrumentConfig) (trouble : Nat → Option Failure)
    (start : Engine)
    (accepted : ({} : Engine).configure trouble (some instruments) = some (.ok, start))
    (instrument : InstrumentId)
    (mine : OrderId → Bool) (left right : List Request)
    (separated : ∀ request ∈ left ++ right, request.Separated instrument mine)
    (same : left.filter (fun request => mine request.names) =
      right.filter (fun request => mine request.names))
    (roomyLeft : Roomy (session left start)) (roomyRight : Roomy (session right start)) :
    ownAnswers instrument mine left start = ownAnswers instrument mine right start := by
  obtain ⟨list, listed, installed⟩ := configureInstalls accepted
  cases Option.some.inj listed
  have levels := (roomyBefore (callsGrown left start) roomyLeft).levels
  have sim := openedSim installed rfl levels
  have housed : Venue.Housed instrument mine
      ((Venue.opened instruments).books.findIdx? (fun book => book.instrumentId = instrument))
      (Venue.opened instruments) :=
    ⟨rfl, fun b side o member => by rw [Venue.openedOrders] at member; contradiction⟩
  have one := ownRun left start _ _ sim (Venue.twinRefl _) housed housed
    (fun r member => separated r (List.mem_append_left _ member)) roomyLeft
  have two := ownRun right start _ _ sim (Venue.twinRefl _) housed housed
    (fun r member => separated r (List.mem_append_right _ member)) roomyRight
  rw [one, two, same]

theorem otherInstrumentUnseen :
    ownAnswers 7 (fun id => id < 10)
        [.submit ⟨1, 7, .sell, .limit, .day, 100000, 5⟩,
          .submit ⟨20, 8, .sell, .limit, .day, 100000, 5⟩,
          .submit ⟨21, 8, .buy, .limit, .day, 100000, 5⟩,
            .submit ⟨2, 7, .buy, .limit, .day, 100000, 3⟩]
        (after (calmRun [⟨7, 100000, 1000⟩, ⟨8, 100000, 1000⟩] [])) =
      ownAnswers 7 (fun id => id < 10)
        [.submit ⟨1, 7, .sell, .limit, .day, 100000, 5⟩,
          .submit ⟨2, 7, .buy, .limit, .day, 100000, 3⟩]
        (after (calmRun [⟨7, 100000, 1000⟩, ⟨8, 100000, 1000⟩] [])) :=
  instrumentsIsolated [⟨7, 100000, 1000⟩, ⟨8, 100000, 1000⟩] (fun _ => none) _
    (configuredStart (by decide +kernel)) 7
    (fun id => id < 10) _ _ (by simp [Request.Separated]) (by decide)
    (roomyOf (by decide +kernel) (by decide +kernel))
    (roomyOf (by decide +kernel) (by decide +kernel))

end Engine
end Xmatch
