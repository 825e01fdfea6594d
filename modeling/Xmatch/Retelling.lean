import Xmatch.Requeueing
import Xmatch.Symmetry

/-! Sessions said another way: renamed, with the sides exchanged, or in lots. -/
namespace Xmatch

namespace Symmetry

def renamed (order : OrderId → OrderId) (instrument : InstrumentId → InstrumentId) : Symmetry :=
  { order, instrument }

def scaling (lot : Nat) : Symmetry := { lot }

end Symmetry

/- The price as far from the other end of the ladder; what is no price of the ladder stays as it
is. -/
def OrderBook.mirrored (book : OrderBook) (price : Int) : Int :=
  if book.priceToIndex price < 0 then price
  else book.indexToPrice
    (UInt32.ofNat (book.ladder.size.toNat - 1 - (book.priceToIndex price).toNat))

namespace Engine
open OrderBook Symmetry

def mirrored (engine : Engine) (id : InstrumentId) (price : Int) : Int :=
  ((engine.findBook id).map (fun b => (engine.books.read b).mirrored price)).getD price

def mirroring (engine : Engine) : Symmetry := { flipped := true, price := engine.mirrored }

def subject (engine : Engine) : Request → InstrumentId
  | .submit order => order.instrumentId
  | .cancel _ => 0
  | .replace request =>
    ((engine.findOpen request.orderId).map (fun slot => (engine.pool.get slot).instrumentId)).getD 0

def retold (sym : Symmetry) : List Request → Engine → List Request
  | [], _ => []
  | request :: rest, engine =>
    sym.request (engine.subject request) request ::
      retold sym rest (call .calm request engine).engine

def ToldAlike (sym : Symmetry) : List Request → Engine → Engine → Prop
  | [], _, _ => True
  | request :: rest, one, two =>
    (call .calm (sym.request (one.subject request) request) two).events =
        (call .calm request one).events.map (sym.event (one.subject request)) ∧
      (∀ id, (call .calm (sym.request (one.subject request) request) two).engine.topOfBook
        (sym.instrument id) =
        sym.top id ((call .calm request one).engine.topOfBook id)) ∧
      ToldAlike sym rest (call .calm request one).engine
        (call .calm (sym.request (one.subject request) request) two).engine

section Sessions
variable {sym : Symmetry} {one two engine : Engine} {left right venue : Venue}

theorem simSubject (sim : Sim engine venue) (request : Request) :
    venue.subject request = engine.subject request := by
  cases request with
  | submit order => rfl
  | cancel request => rfl
  | replace request =>
    unfold Venue.subject subject
    cases found : engine.findOpen request.orderId with
    | some slot =>
      obtain ⟨b, book, place⟩ := located sim found
      simp only [found, place.found, Option.map_some, Option.getD_some, Venue.instrumentAt,
        place.here, place.instrument]
    | none =>
      obtain ⟨queues, rep, _, view⟩ := sim
      simp only [found, venueFindNone rep view (findOpenNone rep found), Option.map_none,
        Option.getD_none]

/- A way to judge fill-or-kill orders that two venues agree on at every point of the session. -/
structure Judging (sym : Symmetry) (feasible : Feasible) (requests : List Request) (one : Engine) :
    Prop where
  carries : ∀ frames frames', sym.Lawful frames frames' → sym.Carries frames feasible
  judged : ∀ k left right, Sim (session (requests.take k) one) left → Venue.Retold sym left right →
    right.Proper → ∀ request,
    Venue.perform wrappedFill request left = Venue.perform feasible request left ∧
      Venue.perform wrappedFill request right = Venue.perform feasible request right

theorem judgingNext {feasible : Feasible} {request : Request} {rest : List Request}
    (judging : Judging sym feasible (request :: rest) one) :
    Judging sym feasible rest (call .calm request one).engine :=
  ⟨judging.carries, fun k left right => judging.judged (k + 1) left right⟩

theorem toldAlike {feasible : Feasible} (requests : List Request) :
    ∀ (one two : Engine) (left right : Venue),
    Sim one left → Sim two right → Venue.Retold sym left right → Judging sym feasible requests one →
    (∀ request ∈ requests, sym.Fits request) → Roomy (session requests one) →
    Roomy (session (retold sym requests one) two) → ToldAlike sym requests one two := by
  induction requests with
  | nil => exact fun _ _ _ _ _ _ _ _ _ _ _ => trivial
  | cons request rest ih =>
    intro one two left right simOne simTwo like judging fits roomyOne roomyTwo
    have roomOne := (roomyBefore (callsGrown (request :: rest) one) roomyOne).slots
    have roomTwo := (roomyBefore (callsGrown (retold sym (request :: rest) one) two) roomyTwo).slots
    have exact := judging.judged 0 left right simOne like (simProper simTwo)
    have alike := Venue.retoldPerform like (simProper simOne) (simProper simTwo)
        (judging.carries _ _ like.lawful)
      (fits request List.mem_cons_self)
    rw [← (exact _).1, ← (exact _).2, simSubject simOne] at alike
    obtain ⟨_, simOne'⟩ := calmCall simOne roomOne request
    obtain ⟨_, simTwo'⟩ := calmCall simTwo roomTwo (sym.request (one.subject request) request)
    refine ⟨?_, fun id => ?_, ih _ _ _ _ simOne' simTwo' alike.venues (judgingNext judging)
      (fun later member => fits later (List.mem_cons_of_mem _ member)) roomyOne roomyTwo⟩
    · rw [calmEvents simOne roomOne, calmEvents simTwo roomTwo, alike.events, List.map_map]
      rfl
    · rw [simShown simOne', simShown simTwo', Venue.retoldShown alike.venues]

theorem openedRetold {instruments instruments' : List InstrumentConfig}
    (lawful : sym.Lawful ((Venue.opened instruments).books.map Book.frame)
      ((Venue.opened instruments').books.map Book.frame)) :
    Venue.Retold sym (Venue.opened instruments) (Venue.opened instruments') where
  lawful := lawful
  configured := rfl
  orders b side := by rw [Venue.openedOrders, Venue.openedOrders, List.map_nil]
  listed b side o member := by
    rw [Venue.openedOrders] at member
    contradiction
  spent id := by simp [Venue.opened]
  trades := rfl

theorem configuredSim {instruments : List InstrumentConfig} {start engine : Engine}
    (accepted : ({} : Engine).configure (fun _ => none) (some instruments) = some (.ok, start))
    (grown : Grown start engine) (roomy : Roomy engine) : Sim start (Venue.opened instruments) := by
  obtain ⟨list, same, installed⟩ := configureInstalls accepted
  cases Option.some.inj same
  exact openedSim installed rfl (roomyBefore grown roomy).levels

theorem unitJudging (unit : sym.lot = 1) (requests : List Request) (one : Engine) :
    Judging sym wrappedFill requests one :=
  ⟨fun _ _ lawful => Venue.wrappedCarries lawful unit, fun _ _ _ _ _ _ _ => ⟨rfl, rfl⟩⟩

theorem unitFits (unit : sym.lot = 1) (request : Request) : sym.Fits request := by
  cases request with
  | submit order => rw [Fits, unit, Nat.one_mul]; exact UInt32.toNat_lt _
  | cancel request => trivial
  | replace request => rw [Fits, unit, Nat.one_mul]; exact UInt32.toNat_lt _

def renamedConfig (instrument : InstrumentId → InstrumentId) (cfg : InstrumentConfig) :
    InstrumentConfig :=
  { cfg with instrumentId := instrument cfg.instrumentId }

theorem renamedLawful {order : OrderId → OrderId} {instrument : InstrumentId → InstrumentId}
    (orders : Function.Injective order) (names : Function.Injective instrument)
    (instruments : List InstrumentConfig) :
    (renamed order instrument).Lawful ((Venue.opened instruments).books.map Book.frame)
      ((Venue.opened (instruments.map (renamedConfig instrument))).books.map Book.frame) where
  order := orders
  instrument := names
  lot := Nat.one_pos
  named := by
    simp only [Venue.opened, List.map_map]
    rfl
  nothing _ := rfl
  aligned _ _ _ := rfl
  inside b frame frame' here there price := by
    simp only [Venue.opened, List.map_map, List.getElem?_map] at here there
    cases listed : instruments[b]? with
    | none =>
      rw [listed] at here
      contradiction
    | some cfg =>
      rw [listed] at here there
      obtain rfl := Option.some.inj here
      obtain rfl := Option.some.inj there
      exact Iff.rfl
  better _ _ _ _ _ _ _ := Iff.rfl

theorem namesDoNotMatter (order : OrderId → OrderId) (instrument : InstrumentId → InstrumentId)
    (orders : Function.Injective order)
    (names : Function.Injective instrument) (instruments : List InstrumentConfig) (one two : Engine)
    (accepted : ({} : Engine).configure (fun _ => none) (some instruments) = some (.ok, one))
    (accepted' : ({} : Engine).configure (fun _ => none)
      (some (instruments.map (renamedConfig instrument))) = some (.ok, two))
    (requests : List Request) (roomy : Roomy (session requests one))
    (roomy' : Roomy (session (retold (renamed order instrument) requests one) two)) :
    ToldAlike (renamed order instrument) requests one two :=
  toldAlike requests one two _ _ (configuredSim accepted (callsGrown _ _) roomy)
    (configuredSim accepted' (callsGrown _ _) roomy')
    (openedRetold (renamedLawful orders names instruments)) (unitJudging rfl requests one)
    (fun request _ => unitFits rfl request) roomy
    roomy'

theorem shiftedNames :
    ToldAlike (renamed (· + 16) (· + 5))
      [.submit ⟨1, 7, .sell, .limit, .day, 100000, 5⟩,
        .submit ⟨2, 7, .buy, .limit, .day, 100000, 3⟩, .replace ⟨1, 3, 100100, 4⟩]
      (after (calmRun [⟨7, 100000, 1000⟩] [])) (after (calmRun [⟨12, 100000, 1000⟩] [])) :=
  namesDoNotMatter (· + 16) (· + 5) (fun _ _ => (UInt64.add_left_inj 16).mp)
    (fun _ _ => (UInt32.add_left_inj 5).mp)
    [⟨7, 100000, 1000⟩] _ _ (configuredStart (by decide +kernel))
    (configuredStart (by decide +kernel)) _
    (roomyOf (by decide +kernel) (by decide +kernel))
    (roomyOf (by decide +kernel) (by decide +kernel))

structure Mirroring (book : OrderBook) : Prop where
  listed : ∀ p, InBand book.bandLo book.bandHi p → InBand book.bandLo book.bandHi (book.mirrored p)
  other : ∀ p, ¬InBand book.bandLo book.bandHi p → book.mirrored p = p
  descends : ∀ p q, InBand book.bandLo book.bandHi p → InBand book.bandLo book.bandHi q → p < q →
    book.mirrored q < book.mirrored p

theorem fittedMirroring {book : OrderBook} (fitted : Fitted book) : Mirroring book := by
  have numbered := fitted.numbered
  have sound := ladderSound fitted
  have place : ∀ p, InBand book.bandLo book.bandHi p →
      book.ladder.size.toNat - 1 - (book.priceToIndex p).toNat < book.ladder.size.toNat := by
    intro p inBand
    obtain ⟨low, high⟩ := sound.index p inBand
    omega
  have mirrored : ∀ p, InBand book.bandLo book.bandHi p →
      book.mirrored p = book.indexToPrice
      (UInt32.ofNat (book.ladder.size.toNat - 1 - (book.priceToIndex p).toNat)) :=
    fun p inBand => if_neg (Int.not_lt.mpr (sound.index p inBand).1)
  refine ⟨fun p inBand => ?_, fun p outside => ?_, fun p q inP inQ less => ?_⟩
  · rw [mirrored p inBand]
    obtain ⟨aligned, low, high, _⟩ := numbered.price _ (place p inBand)
    exact ⟨aligned, low, high⟩
  · have none : book.priceToIndex p = -1 := numbered.none p outside
    exact if_pos (by rw [none]; decide)
  · have ascends := sound.ascends p q inP inQ less
    obtain ⟨lowP, highP⟩ := sound.index p inP
    obtain ⟨lowQ, highQ⟩ := sound.index q inQ
    rw [mirrored p inP, mirrored q inQ]
    exact numbered.ascends _ _ (by omega) (place p inP)

theorem mirroredLess {book : OrderBook} (mirror : Mirroring book) {p q : Int}
    (inP : InBand book.bandLo book.bandHi p) (inQ : InBand book.bandLo book.bandHi q) :
    book.mirrored q < book.mirrored p ↔ p < q := by
  refine ⟨fun mirrored => ?_, mirror.descends p q inP inQ⟩
  by_contra notLess
  rcases Int.lt_or_eq_of_le (Int.not_lt.mp notLess) with more | same
  · exact absurd (mirror.descends q p inQ inP more) (Int.lt_asymm mirrored)
  · rw [same] at mirrored
    exact absurd mirrored (Int.lt_irrefl _)

theorem mirroredBetter {book : OrderBook} (mirror : Mirroring book) {p q : Int}
    (inP : InBand book.bandLo book.bandHi p) (inQ : InBand book.bandLo book.bandHi q)
    (side : Side) : side.opposite.better (book.mirrored p) (book.mirrored q) ↔ side.better p q := by
  cases side
  · exact mirroredLess mirror inQ inP
  · exact mirroredLess mirror inP inQ

theorem simFrame (sim : Sim engine venue) {frame : InstrumentId × Int × Int}
    (member : frame ∈ venue.books.map Book.frame) :
    ∃ b, engine.findBook frame.1 = some b ∧ Fitted (engine.books.read b) ∧
      frame.2.1 = (engine.books.read b).bandLo ∧
      frame.2.2 = (engine.books.read b).bandHi := by
  obtain ⟨queues, rep, _, view⟩ := sim
  rw [view.books, List.map_map] at member
  obtain ⟨b, listed, rfl⟩ := List.mem_map.mp member
  have inside := List.mem_range.mp listed
  exact ⟨b, findBookOf rep inside, rep.fitted b inside, rfl, rfl⟩

theorem mirroringLawful (sim : Sim engine venue) :
    engine.mirroring.Lawful (venue.books.map Book.frame) (venue.books.map Book.frame) := by
  have ladder : ∀ frame ∈ venue.books.map Book.frame, ∃ book, Mirroring book ∧
      frame.2.1 = book.bandLo ∧ frame.2.2 = book.bandHi ∧
      ∀ price, engine.mirroring.price frame.1 price = book.mirrored price := by
    intro frame member
    obtain ⟨b, found, fitted, low, high⟩ := simFrame sim member
    refine ⟨engine.books.read b, fittedMirroring fitted, low, high, fun price => ?_⟩
    simp only [mirroring, mirrored, found, Option.map_some, Option.getD_some]
  refine ⟨Function.injective_id, Function.injective_id, Nat.one_pos, rfl, fun instrument => ?_,
    fun frame member price => ?_, fun b frame frame' here there price => ?_,
    fun frame member p q inP inQ side => ?_⟩
  · change engine.mirrored instrument 0 = 0
    rw [mirrored]
    cases found : engine.findBook instrument with
    | none => rfl
    | some b =>
      have index := @simBook engine venue instrument sim
      rw [found] at index
      obtain ⟨inside, named, -⟩ := List.findIdx?_eq_some_iff_getElem.mp index
      have member : (venue.books[b]).frame ∈ venue.books.map Book.frame :=
        List.mem_map_of_mem (List.getElem_mem inside)
      obtain ⟨book, mirror, _, _, same⟩ := ladder _ member
      have still := (same 0).trans (mirror.other 0 (fun inBand => absurd inBand.1 (by decide)))
      have name : (venue.books[b]).frame.1 = instrument := of_decide_eq_true named
      rw [name] at still
      simpa only [mirroring, mirrored, found] using still
  · obtain ⟨book, mirror, low, high, same⟩ := ladder frame member
    rw [same]
    by_cases inBand : InBand book.bandLo book.bandHi price
    · rw [(mirror.listed price inBand).1, inBand.1]
    · rw [mirror.other price inBand]
  · obtain rfl : frame = frame' := Option.some.inj (here.symm.trans there)
    obtain ⟨book, mirror, low, high, same⟩ := ladder frame (List.mem_of_getElem? here)
    rw [same, low, high]
    by_cases inBand : InBand book.bandLo book.bandHi price
    · exact iff_of_true (mirror.listed price inBand).2 inBand.2
    · rw [mirror.other price inBand]
  · obtain ⟨book, mirror, low, high, same⟩ := ladder frame member
    rw [Symmetry.Listed, low, high] at inP inQ
    rw [same, same]
    exact mirroredBetter mirror inP inQ side

theorem sidesDoNotMatter (instruments : List InstrumentConfig) (start : Engine)
    (accepted : ({} : Engine).configure (fun _ => none) (some instruments) = some (.ok, start))
    (requests : List Request) (roomy : Roomy (session requests start))
    (roomy' : Roomy (session (retold start.mirroring requests start) start)) :
    ToldAlike start.mirroring requests start start := by
  have sim := configuredSim accepted (callsGrown _ _) roomy
  exact toldAlike requests start start _ _ sim sim (openedRetold (mirroringLawful sim))
    (unitJudging rfl requests start)
    (fun request _ => unitFits rfl request) roomy roomy'

theorem sellsMirrored :
    ToldAlike (after (calmRun [⟨7, 100000, 1000⟩] [])).mirroring
      [.submit ⟨1, 7, .sell, .limit, .day, 100000, 5⟩,
        .submit ⟨2, 7, .buy, .limit, .day, 100000, 3⟩, .replace ⟨1, 3, 100100, 4⟩]
      (after (calmRun [⟨7, 100000, 1000⟩] [])) (after (calmRun [⟨7, 100000, 1000⟩] [])) :=
  sidesDoNotMatter [⟨7, 100000, 1000⟩] _ (configuredStart (by decide +kernel)) _
    (roomyOf (by decide +kernel) (by decide +kernel))
    (roomyOf (by decide +kernel) (by decide +kernel))

theorem scalingLawful {lot : Nat} (positive : 0 < lot) (frames : List (InstrumentId × Int × Int)) :
    (scaling lot).Lawful frames frames where
  order := Function.injective_id
  instrument := Function.injective_id
  lot := positive
  named := rfl
  nothing _ := rfl
  aligned _ _ _ := rfl
  inside b frame frame' here there price := by
    obtain rfl : frame = frame' := Option.some.inj (here.symm.trans there)
    exact Iff.rfl
  better _ _ _ _ _ _ _ := Iff.rfl

theorem quantityBelow (sim : Sim engine venue) {bound : Nat → Prop} (none : bound 0)
    (below : ∀ id side, bound (restingQuantity engine id side)) (b : Nat) (side : Side) :
    bound (quantityOf (venue.orders b side)) := by
  obtain ⟨queues, rep, live, view⟩ := sim
  by_cases inside : b < engine.books.size
  · have found := findBookOf rep inside
    rw [← restingQuantityEqVenue ⟨queues, rep, live, view⟩ found side]
    exact below _ side
  · rw [ordersBeyond view (Nat.not_lt.mp inside)]
    exact none

theorem scalingJudging {lot : Nat} (positive : 0 < lot) {requests : List Request} {one : Engine}
    (small : ∀ k id side, lot * restingQuantity (session (requests.take k) one) id side < 2 ^ 32) :
    Judging (scaling lot) exactFill requests one := by
  refine ⟨fun _ _ lawful => Venue.exactCarries lawful,
    fun k left right sim like proper request => ?_⟩
  have lots : ∀ b side, lot * quantityOf (left.orders b side) < 2 ^ 32 :=
    fun b side => @quantityBelow _ _ sim (fun quantity => lot * quantity < 2 ^ 32)
      (by rw [Nat.mul_zero]; decide) (small k) b side
  refine ⟨Venue.performExact (simProper sim) (fun b side => ?_) request,
    Venue.performExact proper (fun b side => ?_) request⟩
  · exact Nat.lt_of_le_of_lt (Nat.le_mul_of_pos_left _ positive) (lots b side)
  · have orders : right.orders b side = _ := like.orders b side
    rw [orders, Venue.quantityLots]
    exact lots b side

theorem lotsDoNotMatter (lot : Nat) (positive : 0 < lot) (instruments : List InstrumentConfig)
    (start : Engine)
    (accepted : ({} : Engine).configure (fun _ => none) (some instruments) = some (.ok, start))
    (requests : List Request) (fits : ∀ request ∈ requests, (scaling lot).Fits request)
    (small : ∀ k id side, lot * restingQuantity (session (requests.take k) start) id side < 2 ^ 32)
    (roomy : Roomy (session requests start))
    (roomy' : Roomy (session (retold (scaling lot) requests start) start)) :
    ToldAlike (scaling lot) requests start start := by
  have sim := configuredSim accepted (callsGrown _ _) roomy
  exact toldAlike requests start start _ _ sim sim (openedRetold (scalingLawful positive _))
    (scalingJudging positive small) fits roomy roomy'

theorem smallLots {lot : Nat} {requests : List Request} {start : Engine}
    (small : ∀ k < requests.length + 1,
      lot * (session (requests.take k) start).pool.openIn
      (slotsUsed (session (requests.take k) start)) < 2 ^ 32) :
    ∀ k id side, lot * restingQuantity (session (requests.take k) start) id side < 2 ^ 32 := by
  intro k id side
  have rests := Nat.mul_le_mul_left lot (restingWithin (session (requests.take k) start) id side)
  refine Nat.lt_of_le_of_lt rests ?_
  rcases Nat.lt_or_ge k (requests.length + 1) with within | past
  · exact small k within
  · have whole := small requests.length (Nat.lt_succ_self _)
    rw [List.take_length] at whole
    rwa [List.take_of_length_le (by omega)]

theorem hundredLots :
    ToldAlike (scaling 100)
      [.submit ⟨1, 7, .sell, .limit, .day, 100000, 5⟩,
        .submit ⟨2, 7, .buy, .limit, .fok, 100000, 3⟩, .replace ⟨1, 3, 100100, 4⟩]
      (after (calmRun [⟨7, 100000, 1000⟩] [])) (after (calmRun [⟨7, 100000, 1000⟩] [])) :=
  lotsDoNotMatter 100 (by decide) [⟨7, 100000, 1000⟩] _ (configuredStart (by decide +kernel)) _
    (by decide) (smallLots (by decide +kernel))
    (roomyOf (by decide +kernel) (by decide +kernel))
    (roomyOf (by decide +kernel) (by decide +kernel))

end Sessions
end Engine
end Xmatch
