import Xmatch.FillOrKill
import Xmatch.TopOfBook

/-! The engine against the reference venue: with totals that fit 32 bits, every session is
the same, call by call. -/
namespace Xmatch

namespace Venue

section Exactness
variable {side : Side} {limit : Option Int} {orders : List Order} {venue : Venue}

theorem wrappedIsExact (sorted : Sorted side.opposite orders) (fits : quantityOf orders < 2 ^ 32)
    {qty : Nat} (positive : 0 < qty) :
    wrappedFill side limit qty orders = exactFill side limit qty orders := by
  have whole : quantityOf (eligible side limit orders) < 2 ^ 32 :=
    Nat.lt_of_le_of_lt (quantitySublist List.filter_sublist) fits
  rw [Bool.eq_iff_iff]
  constructor
  · intro enough
    exact decide_eq_true (wrappedExact enough)
  · intro enough
    have enough := of_decide_eq_true enough
    have ordered : Sorted side.opposite (eligible side limit orders) := sorted.filter _
    rcases List.eq_nil_or_concat (eligible side limit orders) with none | ⟨front, last, split⟩
    · rw [none] at enough
      exact absurd enough (Nat.not_le.mpr positive)
    · rw [List.concat_eq_append] at split
      have all : atLeastAsGood side.opposite last.price (eligible side limit orders) =
          eligible side limit orders := by
        refine List.filter_eq_self.mpr (fun o member => ?_)
        rw [split] at member ordered
        rw [Bool.not_eq_true', decide_eq_false_iff_not]
        rcases List.mem_append.mp member with before | same
        · exact (List.pairwise_append.mp ordered).2.2 o before last (List.mem_singleton_self _)
        · rw [List.mem_singleton.mp same]
          exact betterIrrefl _ _
      refine List.any_eq_true.mpr ⟨last, by rw [split]; simp, decide_eq_true ?_⟩
      rw [all, Nat.mod_eq_of_lt whole]
      exact enough

def Shallow (venue : Venue) : Prop := ∀ b side, quantityOf (venue.orders b side) < 2 ^ 32

theorem executeExact {b : Nat} {order : NewOrder}
    (sorted : Sorted order.side.opposite (venue.orders b order.side.opposite))
    (fits : quantityOf (venue.orders b order.side.opposite) < 2 ^ 32)
    (positive : order.quantity ≠ 0) :
    execute wrappedFill b order venue = execute exactFill b order venue := by
  have some : 0 < order.quantity.toNat :=
    Nat.pos_of_ne_zero (fun zero => positive (UInt32.toNat_inj.mp zero))
  simp only [execute, wrappedIsExact sorted fits some]

/- There the venue that adds in 32 bits is the reference. -/
theorem performExact (proper : venue.Proper) (shallow : venue.Shallow) (request : Request) :
    perform wrappedFill request venue = perform exactFill request venue := by
  cases request with
  | cancel request => rfl
  | replace request => rfl
  | submit order =>
    simp only [perform, submit]
    split
    · rfl
    split
    · rfl
    rename_i b found
    split
    · rfl
    split
    · rfl
    · rename_i valid
      have positive : order.quantity ≠ 0 := by
        obtain ⟨book, here⟩ := bookOfIndex found
        have spent : (venue.spend order.orderId 0).books[b]? = some book := here
        rw [spent, Option.bind_some] at valid
        intro zero
        rw [invalid, if_pos zero] at valid
        contradiction
      have same : execute wrappedFill b order (venue.spend order.orderId 0) =
          execute exactFill b order (venue.spend order.orderId 0) :=
        executeExact (proper.sorted b _) (shallow b _) positive
      rw [same]

theorem topFits (orders : List Order) : (Book.top orders).2 ≤ quantityOf orders := by
  cases orders with
  | nil => exact Nat.le_refl _
  | cons first rest =>
    have sub : List.Sublist ((first :: rest).filter (fun o => o.price = first.price))
        (first :: rest) := List.filter_sublist
    exact quantitySublist sub

end Exactness

/- What a session shows: after each request its events, and the top of every book. -/
def transcript (feasible : Feasible) : List Request → Venue →
    List (List Event × (InstrumentId → Int × Nat × Int × Nat))
  | [], _ => []
  | request :: rest, venue =>
    ((perform feasible request venue).1.map (·.event),
      (perform feasible request venue).2.topOfBook) ::
      transcript feasible rest (perform feasible request venue).2

end Venue

namespace Engine
open OrderBook

def report (engine : Engine) (id : InstrumentId) : Int × Nat × Int × Nat :=
  ((engine.topOfBook id).bidPrice, (engine.topOfBook id).bidQuantity.toNat,
    (engine.topOfBook id).askPrice,
    (engine.topOfBook id).askQuantity.toNat)

def transcript : List Request → Engine → List (List Event × (InstrumentId → Int × Nat × Int × Nat))
  | [], _ => []
  | request :: rest, engine =>
    ((call .calm request engine).events, (call .calm request engine).engine.report) ::
      transcript rest (call .calm request engine).engine

def Shallow (engine : Engine) : Prop := ∀ id side, restingQuantity engine id side < 2 ^ 32

section Agreement
variable {engine : Engine} {venue : Venue}

theorem simShallow (sim : Sim engine venue) (shallow : engine.Shallow) : venue.Shallow := by
  intro b side
  obtain ⟨queues, rep, live, view⟩ := sim
  by_cases inside : b < engine.books.size
  · have found := findBookOf rep inside
    rw [← restingQuantityEqVenue ⟨queues, rep, live, view⟩ found side]
    exact shallow _ side
  · rw [ordersBeyond view (Nat.not_lt.mp inside)]
    decide

theorem findOfIndex {α : Type} {p : α → Bool} {xs : List α} {i : Nat}
    (found : xs.findIdx? p = some i) : xs.find? p = xs[i]? := by
  obtain ⟨inside, here, earlier⟩ := List.findIdx?_eq_some_iff_getElem.mp found
  rw [List.getElem?_eq_getElem inside]
  refine List.find?_eq_some_iff_getElem.mpr ⟨here, i, inside, rfl, fun j below => ?_⟩
  simpa using earlier j below

theorem reportEqVenueTop (sim : Sim engine venue) (shallow : engine.Shallow) :
    engine.report = venue.topOfBook := by
  funext id
  have index := @simBook engine venue id sim
  cases found : engine.findBook id with
  | none =>
    rw [found] at index
    have missing : venue.books.find? (fun book => decide (book.instrumentId = id)) = none :=
      List.find?_eq_none.mpr
        (fun book member => by simpa using List.findIdx?_eq_none_iff.mp index book member)
    rw [report, topOfBook, found, Venue.topOfBook, missing]
    rfl
  | some b =>
    rw [found] at index
    obtain ⟨book, here⟩ := Venue.bookOfIndex index
    have orders : ∀ side, venue.orders b side = book.side side := by
      intro side
      rw [Venue.orders, here]
      rfl
    have exact : ∀ side, (UInt32.ofNat (Book.top (venue.orders b side)).2).toNat =
        (Book.top (venue.orders b side)).2 :=
      fun side => WordBits.toNatOfNat
        (Nat.lt_of_le_of_lt (Venue.topFits _) (simShallow sim shallow b side))
    have bid := simTop sim found .buy
    have ask := simTop sim found .sell
    rw [report, topOfBookFound found, topOfBookSides, Venue.topOfBook, findOfIndex index, here]
    simp only [orders] at exact bid ask
    simp only [bid, ask, exact]
    rfl

end Agreement

def session (requests : List Request) (start : Engine) : Engine :=
  requests.foldl (fun engine request => (call .calm request engine).engine) start

theorem callsGrown (requests : List Request) :
    ∀ engine : Engine, Grown engine (session requests engine) := by
  induction requests with
  | nil => exact fun engine => grownRefl engine
  | cons request rest ih => exact fun engine => grownTrans (callGrown .calm request engine) (ih _)

theorem restingWithin (engine : Engine) (id : InstrumentId) (side : Side) :
    restingQuantity engine id side ≤ engine.pool.openIn (slotsUsed engine) := by
  have sub : List.Sublist (restingSlots engine id side) (slotsUsed engine) := List.filter_sublist
  have orders : quantityOf (restingOrders engine id side) ≤
      quantityOf ((slotsUsed engine).map (fun slot => (engine.pool.get slot).order)) := by
    rw [restingOrders, resting, List.map_map]
    exact Venue.quantitySublist (sub.map _)
  have all : quantityOf ((slotsUsed engine).map (fun slot => (engine.pool.get slot).order)) =
      engine.pool.openIn (slotsUsed engine) := by
    rw [quantityOf, List.map_map]
    rfl
  rwa [all] at orders

theorem shallowOf {engine : Engine} (small : engine.pool.openIn (slotsUsed engine) < 2 ^ 32) :
    Shallow engine :=
  fun id side => Nat.lt_of_le_of_lt (restingWithin engine id side) small

theorem shallowThroughout {requests : List Request} {start : Engine}
    (small : ∀ k < requests.length + 1,
      (session (requests.take k) start).pool.openIn
      (slotsUsed (session (requests.take k) start)) < 2 ^ 32) :
    ∀ k, Shallow (session (requests.take k) start) := by
  intro k
  rcases Nat.lt_or_ge k (requests.length + 1) with within | past
  · exact shallowOf (small k within)
  · have whole := small requests.length (Nat.lt_succ_self _)
    rw [List.take_length] at whole
    rw [List.take_of_length_le (by omega)]
    exact shallowOf whole

theorem transcriptEqVenue (requests : List Request) :
    ∀ (engine : Engine) (venue : Venue), Sim engine venue →
    Roomy (session requests engine) → (∀ k, Shallow (session (requests.take k) engine)) →
    transcript requests engine = Venue.transcript exactFill requests venue := by
  induction requests with
  | nil => intro engine venue _ _ _; rfl
  | cons request rest ih =>
    intro engine venue sim roomy shallow
    have room := (roomyBefore (callsGrown (request :: rest) engine) roomy).slots
    have exact := Venue.performExact (simProper sim) (simShallow sim (shallow 0)) request
    obtain ⟨_, sim'⟩ := calmCall sim room request
    have events := calmEvents sim room request
    rw [exact] at sim' events
    have report := reportEqVenueTop sim' (shallow 1)
    have later := ih _ _ sim' roomy (fun k => shallow (k + 1))
    rw [transcript, Venue.transcript, events, report, later]

theorem engineIsReference (instruments : List InstrumentConfig) (start : Engine)
    (accepted : ({} : Engine).configure (fun _ => none) (some instruments) = some (.ok, start))
    (requests : List Request) (roomy : Roomy (session requests start))
    (shallow : ∀ k, Shallow (session (requests.take k) start)) :
    transcript requests start = Venue.transcript exactFill requests (Venue.opened instruments) := by
  obtain ⟨list, same, installed⟩ := configureInstalls accepted
  cases Option.some.inj same
  have levels := (roomyBefore (callsGrown requests start) roomy).levels
  exact transcriptEqVenue requests start _ (openedSim installed rfl levels) roomy shallow

theorem crossingPairIsReference :
    transcript [.submit ⟨1, 7, .sell, .limit, .day, 100000, 5⟩,
      .submit ⟨2, 7, .buy, .limit, .fok, 100000, 3⟩]
        (after (calmRun [⟨7, 100000, 1000⟩] [])) =
      Venue.transcript exactFill
        [.submit ⟨1, 7, .sell, .limit, .day, 100000, 5⟩,
          .submit ⟨2, 7, .buy, .limit, .fok, 100000, 3⟩]
        (Venue.opened [⟨7, 100000, 1000⟩]) :=
  engineIsReference [⟨7, 100000, 1000⟩] _ (configuredStart (by decide +kernel)) _
    (roomyOf (by decide +kernel) (by decide +kernel)) (shallowThroughout (by decide +kernel))

end Engine
end Xmatch
