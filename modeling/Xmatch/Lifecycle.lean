import Xmatch.Conservation
import Xmatch.Rejections

/-! The life of an id: it comes in once, rests under one record, and once it is done it is
never heard of again. -/
namespace Xmatch

def Event.acting : Event → List OrderId
  | .trade _ _ _ _ resting aggressive _ => [resting, aggressive]
  | .canceled id _ _ => [id]
  | .replaced old new _ _ => [old, new]
  | _ => []

def Event.brings : Event → Option OrderId
  | .accepted id => some id
  | .replaced old new _ _ => if new = old then none else some new
  | _ => none

def brought (history : List Entry) : List OrderId := history.filterMap (fun entry => entry.2.brings)

/- A submit of the id that was rejected after the id was consumed. -/
def Spoiled (id : OrderId) : Entry → Prop
  | (.submit _, .rejected rejected reason) => rejected = id ∧ Engine.Spoils reason
  | _ => False

/- The id was canceled, replaced away under another id, or filled in full. -/
def Finished (history : List Entry) (id : OrderId) : Prop :=
  (∃ request qty reason, (request, .canceled id qty reason) ∈ history) ∨
    (∃ request new price qty, new ≠ id ∧ (request, .replaced id new price qty) ∈ history) ∨
    ∃ account, Ledger.of history id = some account ∧ account.filled = account.requested

namespace Ledger

/- Nothing can rest under the id any more. -/
def Dead (ledger : Ledger) (id : OrderId) : Prop :=
  ∃ account, ledger id = some account ∧ account.left = 0

section Dying
variable {ledger : Ledger} {id other : OrderId} {entry : Entry}

theorem deadApart (dead : ledger.Dead id) {account : Account} (found : ledger other = some account)
    (left : 0 < account.left) : id ≠ other := by
  rintro rfl
  obtain ⟨account', found', none⟩ := dead
  cases Option.some.inj (found.symm.trans found')
  omega

theorem soundKeeps (sound : ledger.Sound entry) (dead : ledger.Dead id) :
    ledger.post entry id = ledger id ∧ id ∉ entry.2.acting ∧ entry.2.brings ≠ some id := by
  obtain ⟨request, event⟩ := entry
  have known : ledger id ≠ none := by
    obtain ⟨account, found, _⟩ := dead
    rw [found]
    exact Option.some_ne_none account
  cases event with
  | accepted entered =>
    cases request with
    | submit order =>
      have apart : id ≠ entered := fun same => known (same ▸ sound.2)
      exact ⟨putOther apart, List.not_mem_nil, fun same => apart (Option.some.inj same).symm⟩
    | cancel request => exact sound.elim
    | replace request => exact sound.elim
  | rejected rejected reason =>
    refine ⟨?_, List.not_mem_nil, nofun⟩
    cases request <;> rfl
  | canceled canceled qty reason =>
    obtain ⟨positive, account, found, left⟩ := soundCanceled.mp sound
    have apart := deadApart dead found (by omega)
    refine ⟨?_, by simpa [Event.acting] using apart, nofun⟩
    rw [postCanceled, changeOther apart]
  | replaced old new price qty =>
    cases request with
    | submit order => exact sound.elim
    | cancel request => exact sound.elim
    | replace request =>
      obtain ⟨⟨account, found, left, _⟩, _, fresh⟩ := sound
      have apart := deadApart dead found left
      have apart' : id ≠ new := by
        rintro rfl
        exact known (fresh apart)
      refine ⟨(putOther apart').trans (changeOther apart), by simp [Event.acting, apart, apart'],
        fun same => ?_⟩
      simp only [Event.brings] at same
      split at same
      · contradiction
      · exact apart' (Option.some.inj same).symm
  | trade tradeId instrumentId price qty resting aggressive side =>
    obtain ⟨positive, two, ⟨account, found, enough⟩, ⟨account', found', enough'⟩⟩ :=
      soundTrade.mp sound
    have apart := deadApart dead found (by omega)
    have apart' := deadApart dead found' (by omega)
    refine ⟨?_, by simp [Event.acting, apart, apart'], nofun⟩
    rw [postTrade two, if_neg (by simp [apart, apart'])]

theorem soundSilent (entries : List Entry) : ∀ ledger : Ledger, SoundFrom ledger entries →
    ledger.Dead id →
    (entries.foldl post ledger).Dead id ∧ ∀ entry ∈ entries, id ∉ entry.2.acting := by
  induction entries with
  | nil => exact fun ledger _ dead => ⟨dead, fun entry member => absurd member List.not_mem_nil⟩
  | cons entry rest ih =>
    intro ledger sound dead
    obtain ⟨kept, silent, _⟩ := soundKeeps sound.1 dead
    have still : (ledger.post entry).Dead id := by
      rw [Dead, kept]
      exact dead
    obtain ⟨dead', silent'⟩ := ih _ sound.2 still
    refine ⟨dead', fun entry' member => ?_⟩
    rcases List.mem_cons.mp member with rfl | later
    · exact silent
    · exact silent' entry' later

theorem soundEnds (sound : ledger.Sound entry)
    (ends : (∃ request qty reason, entry = (request, .canceled id qty reason)) ∨
      ∃ request new price qty, new ≠ id ∧
      entry = (request, .replaced id new price qty)) : (ledger.post entry).Dead id := by
  rcases ends with ⟨request, qty, reason, rfl⟩ | ⟨request, new, price, qty, other, rfl⟩
  · obtain ⟨_, account, found, left⟩ := soundCanceled.mp sound
    rw [postCanceled]
    refine ⟨_, by rw [changeSame, found]; rfl, ?_⟩
    simp only [Account.left] at left ⊢
    cases away : account.away with
    | true => rfl
    | false =>
      simp only [away, Bool.false_eq_true, if_false] at left ⊢
      omega
  · cases request with
    | submit order => exact sound.elim
    | cancel request => exact sound.elim
    | replace request =>
      obtain ⟨⟨account, found, _⟩, _⟩ := sound
      refine ⟨_, (putOther (Ne.symm other)).trans (by rw [changeSame, found]; rfl), rfl⟩

theorem finishedDead {history : List Entry} (sound : SoundFrom (fun _ => none) history)
    (finished : Finished history id) : (Ledger.of history).Dead id := by
  have ended : ∀ entry ∈ history,
      ((∃ request qty reason, entry = (request, .canceled id qty reason)) ∨
      ∃ request new price qty, new ≠ id ∧ entry = (request, .replaced id new price qty)) →
  (Ledger.of history).Dead id := by
    intro entry member ends
    obtain ⟨earlier, later, rfl⟩ := List.append_of_mem member
    rw [soundAppend] at sound
    have dead := soundEnds sound.2.1 ends
    rw [ofAppend, List.foldl_cons]
    exact (soundSilent later _ sound.2.2 dead).1
  rcases finished with ⟨request, qty, reason, member⟩ | ⟨request, new, price, qty, other,
    member⟩ | ⟨account, found, full⟩
  · exact ended _ member (.inl ⟨request, qty, reason, rfl⟩)
  · exact ended _ member (.inr ⟨request, new, price, qty, other, rfl⟩)
  · refine ⟨account, found, ?_⟩
    simp only [Account.left, full]
    split
    · rfl
    · omega

end Dying

end Ledger

/- What has come in or was spoiled is spent; so nothing comes in twice, or after it was spoiled. -/
structure Entered (history : List Entry) (venue : Venue) : Prop where
  spent : ∀ id ∈ brought history, id ∈ venue.spent
  spoiled : ∀ id, ∀ entry ∈ history, Spoiled id entry → id ∈ venue.spent
  once : (brought history).Nodup
  unspoiled : ∀ earlier entry later id, history = earlier ++ entry :: later → Spoiled id entry →
    id ∉ brought later

structure Enters (entries : List Entry) (before after : Venue) : Prop where
  kept : ∀ id ∈ before.spent, id ∈ after.spent
  fresh : ∀ id ∈ brought entries, id ∉ before.spent ∧ id ∈ after.spent
  once : (brought entries).Nodup
  spoiled : ∀ id, ∀ entry ∈ entries, Spoiled id entry → id ∈ after.spent ∧ brought entries = []

theorem broughtAppend (earlier later : List Entry) :
    brought (earlier ++ later) = brought earlier ++ brought later :=
  List.filterMap_append

theorem enteredNext {history entries : List Entry} {before after : Venue}
    (entered : Entered history before) (enters : Enters entries before after) :
    Entered (history ++ entries) after := by
  refine ⟨fun id member => ?_, fun id entry member spoiled => ?_, ?_, ?_⟩
  · rw [broughtAppend] at member
    rcases List.mem_append.mp member with old | new
    · exact enters.kept id (entered.spent id old)
    · exact (enters.fresh id new).2
  · rcases List.mem_append.mp member with old | new
    · exact enters.kept id (entered.spoiled id entry old spoiled)
    · exact (enters.spoiled id entry new spoiled).1
  · rw [broughtAppend, List.nodup_append]
    refine ⟨entered.once, enters.once, fun id old other new same => ?_⟩
    subst same
    exact (enters.fresh id new).1 (entered.spent id old)
  · intro earlier entry later id split spoiled
    -- whether it was spoiled before this request, or by it
    have byRequest : ∀ more, entries = more ++ entry :: later → id ∉ brought later := by
      intro more new member
      have none :=
        (enters.spoiled id entry (new ▸ List.mem_append_right _ List.mem_cons_self) spoiled).2
      have also : id ∈ brought entries := by
        rw [new, broughtAppend]
        obtain ⟨source, inside, brings⟩ := List.mem_filterMap.mp member
        exact List.mem_append_right _
          (List.mem_filterMap.mpr ⟨source, List.mem_cons_of_mem _ inside, brings⟩)
      rw [none] at also
      exact List.not_mem_nil also
    rcases List.append_eq_append_iff.mp split with ⟨more, _, new⟩ | ⟨more, old, rest⟩
    · exact byRequest more new
    · cases more with
      | nil => exact byRequest [] rest.symm
      | cons first more =>
        obtain ⟨rfl, later'⟩ := List.cons.inj rest
        rw [show later = more ++ entries from later', broughtAppend, List.mem_append]
        rintro (before | now)
        · exact entered.unspoiled earlier _ more id old spoiled before
        · exact (enters.fresh id now).1
            (entered.spoiled id _ (old ▸ List.mem_append_right _ List.mem_cons_self) spoiled)

namespace Venue

section Entering
variable {venue : Venue} {b : Nat} {side : Side} {request : Request}

theorem quietBrings {moments : List Moment}
    (quiet : ∀ moment ∈ moments, moment.event.brings = none) :
    brought (entries request moments) = [] := by
  refine List.filterMap_eq_nil_iff.mpr (fun entry member => ?_)
  obtain ⟨moment, inside, rfl⟩ := List.mem_map.mp member
  exact quiet moment inside

theorem sweepQuiet {instrumentId : InstrumentId} {limit : Option Int} (taker : Order) :
    ∀ moment ∈ (sweep b instrumentId side limit (venue.orders b side.opposite) venue taker).1,
      moment.event.brings = none ∧ ∀ id, ¬Spoiled id (request, moment.event) := by
  intro moment inside
  obtain ⟨_, _, _, _, _, _, _, _, same⟩ := (sweepSweeping venue taker).2 moment inside
  rw [same]
  exact ⟨rfl, fun id spoiled => by cases request <;> exact spoiled⟩

theorem quietEnters {moments : List Moment} {next : Venue}
    (kept : ∀ id ∈ venue.spent, id ∈ next.spent)
    (quiet : ∀ moment ∈ moments, moment.event.brings = none ∧ ∀ id,
      ¬Spoiled id (request, moment.event)) :
    Enters (entries request moments) venue next := by
  have none := @quietBrings request moments (fun moment inside => (quiet moment inside).1)
  refine ⟨kept, fun id member => ?_, ?_, fun id entry member spoiled => ?_⟩
  · rw [none] at member
    exact absurd member List.not_mem_nil
  · rw [none]
    exact List.nodup_nil
  · obtain ⟨moment, inside, rfl⟩ := List.mem_map.mp member
    exact absurd spoiled ((quiet moment inside).2 id)

theorem firstEnters {first : Moment} {moments : List Moment} {next : Venue} {id : OrderId}
    (kept : ∀ id ∈ venue.spent, id ∈ next.spent)
    (brings : first.event.brings = some id ∧ id ∉ venue.spent ∧ id ∈ next.spent ∨
      first.event.brings = none) (clean : ∀ id, ¬Spoiled id (request, first.event))
    (quiet : ∀ moment ∈ moments, moment.event.brings = none ∧ ∀ id,
      ¬Spoiled id (request, moment.event)) :
    Enters (entries request (first :: moments)) venue next := by
  rcases brings with ⟨brings, unused, used⟩ | none
  · have one : brought (entries request (first :: moments)) = [id] := by
      have rest := @quietBrings request moments (fun moment inside => (quiet moment inside).1)
      have head : brought ((request, first.event) :: entries request moments) =
          id :: brought (entries request moments) :=
        List.filterMap_cons_some brings
      rw [entries, List.map_cons, ← entries, head, rest]
    refine ⟨kept, fun other member => ?_, ?_, fun other entry member spoiled => ?_⟩
    · rw [one] at member
      cases List.mem_singleton.mp member
      exact ⟨unused, used⟩
    · rw [one]
      exact List.nodup_singleton id
    · obtain ⟨moment, inside, rfl⟩ := List.mem_map.mp member
      rcases List.mem_cons.mp inside with rfl | later
      · exact absurd spoiled (clean other)
      · exact absurd spoiled ((quiet moment later).2 other)
  · exact quietEnters kept (List.forall_mem_cons.mpr ⟨⟨none, clean⟩, quiet⟩)

theorem refusedClean {order : NewOrder} {id : OrderId} {reason : RejectReason}
    (refused : perform wrappedFill (.submit order) venue = reject id reason venue) :
    ¬Engine.Spoils reason := by
  have shows : ∀ {rejected : OrderId} {shown : RejectReason} {start : Venue},
      reject rejected shown start = reject id reason venue →
      shown = reason := by
    intro rejected shown start same
    have events := congrArg (fun result => result.1.map (·.event)) same
    simp only [reject, List.map_cons, List.map_nil, List.cons.injEq, Event.rejected.injEq,
      and_true] at events
    exact events.2
  simp only [perform, submit] at refused
  by_cases configured : venue.configured = true
  · simp only [configured, Bool.not_true, Bool.false_eq_true, if_false] at refused
    cases index : venue.books.findIdx? (fun book => book.instrumentId = order.instrumentId) with
    | none =>
      simp only [index] at refused
      exact shows refused ▸ fun impossible => impossible
    | some b =>
      simp only [index] at refused
      by_cases used : order.orderId ∈ venue.spent
      · simp only [used, if_true] at refused
        exact shows refused ▸ fun impossible => impossible
      · simp only [used, if_false] at refused
        cases flaw : ((venue.spend order.orderId 0).books[b]?).bind
          (fun book => invalid book order) with
        | some other =>
          simp only [flaw] at refused
          have spent := congrArg (fun result => result.2.spent.length) refused
          simp only [reject, spend, List.length_cons] at spent
          omega
        | none =>
          simp only [flaw] at refused
          have first := congrArg (fun result => (result.1.map (·.event)).head?) refused
          simp only [reject, List.map_cons, List.head?_cons, Option.some.injEq,
            reduceCtorEq] at first
  · simp only [configured, Bool.not_false, if_true] at refused
    exact shows refused ▸ fun impossible => impossible

theorem disposeQuiet {order : NewOrder} (start : Venue) :
    ∀ moment ∈ (dispose b order (work b order start)).1,
      moment.event.brings = none ∧ ∀ id, ¬Spoiled id (.submit order, moment.event) := by
  have traded := @sweepQuiet start b order.side (.submit order) order.instrumentId (limitOf order)
      (takerOf order)
  change ∀ moment ∈ (work b order start).1, _ at traded
  intro moment member
  simp only [dispose] at member
  by_cases left : 0 < (work b order start).2.taker.openQty
  · simp only [left, if_true] at member
    split at member
    · exact traded moment member
    · rcases List.mem_append.mp member with before | last
      · exact traded moment before
      · rw [List.mem_singleton.mp last]
        exact ⟨rfl, fun _ => id⟩
  · simp only [left, if_false] at member
    exact traded moment member

theorem disposeSpent (order : NewOrder) (start : Venue) :
    (dispose b order (work b order start)).2.spent = start.spent := by
  have swept :=
    (@sweepSweeping b order.instrumentId order.side (limitOf order) start (takerOf order)).1.spent
  change (work b order start).2.venue.spent = _ at swept
  simp only [dispose]
  split
  · split
    · exact swept
    · exact swept
  · exact swept

theorem requeueSpent (request : ReplaceOrder) (b : Nat) (side : Side) (old : Order)
    (venue : Venue) : (requeue request b side old venue).2.spent = venue.spent := by
  have swept : (requeueSweep request b side old (venue.withdraw b side old.id)).2.venue.spent =
      venue.spent := by
    rw [requeueSweep]
    split
    · exact (sweepSweeping (venue.withdraw b side old.id) (replacement request old)).1.spent
    · rfl
  rw [requeueEqSettle]
  simp only [settle]
  split
  · exact swept
  · exact swept

theorem replacedBrings {request : ReplaceOrder} {old : Order} {book : Book} {next : Venue}
    (replacing : Replacing venue request b side old book) {qty : Nat}
    (used : request.newOrderId ∈ next.spent) :
    (Event.replaced request.orderId request.newOrderId request.newPrice qty).brings =
      some request.newOrderId ∧
        request.newOrderId ∉ venue.spent ∧ request.newOrderId ∈ next.spent ∨
      (Event.replaced request.orderId request.newOrderId request.newPrice qty).brings = none := by
  by_cases same : request.newOrderId = request.orderId
  · exact .inr (if_pos same)
  · exact .inl ⟨if_neg same, replacing.unused same, used⟩

theorem performEnters (request : Request) (venue : Venue) :
    Enters (entries request (perform wrappedFill request venue).1) venue
      (perform wrappedFill request venue).2 := by
  have shape := performed wrappedFill request venue
  have refused := fun order id reason => @refusedClean venue order id reason
  generalize is : perform wrappedFill request venue = result at shape
  cases shape with
  | refused request id reason =>
    refine quietEnters (fun _ used => used) (fun moment member => ?_)
    rw [List.mem_singleton.mp member]
    refine ⟨rfl, fun id spoiled => ?_⟩
    cases request with
    | submit order => exact refused order _ reason is spoiled.2
    | cancel request => exact spoiled
    | replace request => exact spoiled
  | spoiled order b book reason fresh flaw =>
    refine ⟨fun _ used => List.mem_cons_of_mem _ used,
      fun id member => absurd member List.not_mem_nil, List.nodup_nil,
      fun id entry member spoiled => ⟨?_, rfl⟩⟩
    rw [List.mem_singleton.mp member] at spoiled
    exact spoiled.1 ▸ List.mem_cons_self
  | killed order b book fresh valid fok short =>
    refine @firstEnters venue (.submit order) _ _ _ order.orderId
      (fun _ used => List.mem_cons_of_mem _ used)
      (.inl ⟨rfl, fresh.unused, List.mem_cons_self⟩) (fun _ => id) (fun moment member => ?_)
    rw [List.mem_singleton.mp member]
    exact ⟨rfl, fun _ => id⟩
  | worked order b book fresh valid enough =>
    have spent := @disposeSpent b order (venue.spend order.orderId 0)
    exact @firstEnters venue (.submit order) _ _ _ order.orderId
      (fun _ used => spent ▸ List.mem_cons_of_mem _ used)
      (.inl ⟨rfl, fresh.unused, spent ▸ List.mem_cons_self⟩) (fun _ => id) (disposeQuiet _)
  | withdrawn request id b side old found leaves =>
    refine quietEnters (fun _ used => used) (fun moment member => ?_)
    rw [List.mem_singleton.mp member]
    exact ⟨rfl, fun _ spoiled => by cases request <;> exact spoiled⟩
  | requeued request b side old book replacing loses =>
    have spent := requeueSpent request b side old (venue.spend request.newOrderId old.filledQty)
    rw [requeueEqSettle] at spent ⊢
    refine @firstEnters venue (.replace request) _ _ _ request.newOrderId
      (fun _ used => spent ▸ List.mem_cons_of_mem _ used)
      (replacedBrings replacing (spent ▸ List.mem_cons_self)) (fun _ => id)
      (fun moment member => ?_)
    rw [requeueSweep] at member
    split at member
    · exact sweepQuiet _ moment member
    · exact absurd member List.not_mem_nil
  | amended request b side old book replacing samePrice fewer =>
    exact @firstEnters venue (.replace request) _ _ _ request.newOrderId
      (fun _ used => List.mem_cons_of_mem _ used)
      (replacedBrings replacing List.mem_cons_self) (fun _ => id) (fun moment member =>
        absurd member List.not_mem_nil)

end Entering

theorem tracedEntered :
    Engine.Traced (fun history venue => Audited history venue ∧ Entered history venue) where
  blank :=
    ⟨tracedAudited.blank, fun id member => absurd member List.not_mem_nil, fun id entry member =>
      absurd member List.not_mem_nil,
    List.nodup_nil, fun earlier entry later id split => absurd split.symm (by simp)⟩
  opened history venue instruments unspent holds := by
    refine ⟨tracedAudited.opened history venue instruments unspent holds.1, ?_, ?_, holds.2.once,
      holds.2.unspoiled⟩
    · exact fun id member => absurd (holds.2.spent id member) (unspent id)
    · exact fun id entry member spoiled =>
        absurd (holds.2.spoiled id entry member spoiled) (unspent id)
  step history venue request proper holds :=
    ⟨tracedAudited.step history venue request proper holds.1,
      enteredNext holds.2 (performEnters request venue)⟩

end Venue

namespace Engine
open OrderBook Effect

/- The open records and the ids that find them, one for one. -/
structure OpenIndexed (engine : Engine) : Prop where
  indexed : ∀ slot : Slot, slot.toNat < engine.pool.size → (engine.pool.get slot).isOpen = true →
    engine.orderIndex.find (engine.pool.get slot).id = some slot
  found : ∀ id slot, engine.findOpen id = some slot ↔
    slot.toNat < engine.pool.size ∧ (engine.pool.get slot).isOpen = true ∧
    (engine.pool.get slot).id = id
  single : ∀ slot : Slot, slot.toNat < engine.pool.size → (engine.pool.get slot).isOpen = true →
    ∃! id, engine.findOpen id = some slot

section Indexing
variable {engine : Engine} {venue : Venue} {id : OrderId} {ledger : Ledger}

theorem simOpenIndexed (sim : Sim engine venue) : OpenIndexed engine := by
  obtain ⟨queues, rep, _, _⟩ := sim
  have indexed : ∀ slot : Slot, slot.toNat < engine.pool.size →
      (engine.pool.get slot).isOpen = true →
      engine.orderIndex.find (engine.pool.get slot).id = some slot := by
    intro slot real isOpen
    obtain ⟨b, inside, side, level, queued⟩ := rep.housed slot real isOpen
    exact rep.indexed b inside side level slot queued
  have found : ∀ id slot, engine.findOpen id = some slot ↔
      slot.toNat < engine.pool.size ∧ (engine.pool.get slot).isOpen = true ∧
      (engine.pool.get slot).id = id := by
    intro id slot
    constructor
    · intro found
      obtain ⟨b, side, level, rests⟩ := findOpenSome rep found
      have home := (rep.shape b rests.inside).home side level slot rests.member
      exact ⟨home.inside, home.isOpen, rests.named⟩
    · rintro ⟨real, isOpen, rfl⟩
      simp only [findOpen, indexed slot real isOpen, isOpen, if_true]
  refine ⟨indexed, found,
    fun slot real isOpen => ⟨(engine.pool.get slot).id, ?_, fun other same => ?_⟩⟩
  · exact (found _ slot).mpr ⟨real, isOpen, rfl⟩
  · exact ((found other slot).mp same).2.2.symm

theorem deadNotFound (sim : Sim engine venue) (balanced : venue.Balanced ledger [])
    (dead : ledger.Dead id) : engine.findOpen id = none := by
  cases found : engine.findOpen id with
  | none => rfl
  | some slot =>
    obtain ⟨b, book, place⟩ := located sim found
    obtain ⟨_, rests, named⟩ := Venue.findOpenRests place.found
    obtain ⟨account, is, left⟩ := dead
    have own := balanced.active _ (.inr ⟨b, _, rests⟩)
    rw [named, is] at own
    cases Option.some.inj own
    have positive := (simProper sim).left b _ _ rests
    rw [Venue.accountLeft] at left
    omega

theorem emitOnly {env : Env} {event : Event} {s : Session} (empty : s.log = []) :
    wp (emit env event) (fun _ t => t.events = [event]) (fun _ t => t.events = [event]) s := by
  simp only [emit, wpBind, wpModify, wpGet, wpIte, wpThrow, wpPure, Session.events, empty]
  exact ⟨fun _ => rfl, fun _ => rfl⟩

theorem unknownCancel (configured : engine.configured = true) (missing : engine.findOpen id = none)
    (env : Env) : (call env (.cancel ⟨id⟩) engine).events = [.rejected id .unknownOrder] := by
  refine callEnds (P := fun t => t.events = [.rejected id .unknownOrder]) ?_
  simp only [perform, cancel, current, wpBind, wpGet, wpPure, configured, Bool.not_true,
    Bool.false_eq_true, if_false, missing]
  exact emitOnly rfl

theorem unknownReplace (configured : engine.configured = true) (request : ReplaceOrder)
    (missing : engine.findOpen request.orderId = none) (env : Env) :
    (call env (.replace request) engine).events = [.rejected request.newOrderId .unknownOrder] := by
  refine callEnds (P := fun t => t.events = [.rejected request.newOrderId .unknownOrder]) ?_
  simp only [perform, replace, current, wpBind, wpGet, wpPure, configured, Bool.not_true,
    Bool.false_eq_true, if_false, missing]
  exact emitOnly rfl

end Indexing

def AnsweredUnknown (engine : Engine) (id : OrderId) : Prop :=
  ∀ env, (call env (.cancel ⟨id⟩) engine).events = [.rejected id .unknownOrder] ∧
    ∀ request : ReplaceOrder, request.orderId = id →
      (call env (.replace request) engine).events = [.rejected request.newOrderId .unknownOrder]

structure IdsLiveOnce (actions : List Action) : Prop where
  index : OpenIndexed (after actions) ∧ ∀ env request,
    ∀ callback ∈ (call env request (after actions)).log, OpenIndexed callback.seen
  once : (brought (history actions)).Nodup
  unspoiled : ∀ earlier entry later id, history actions = earlier ++ entry :: later →
    Spoiled id entry → id ∉ brought later
  silent : ∀ earlier later id, history actions = earlier ++ later → Finished earlier id →
    ∀ entry ∈ later, id ∉ entry.2.acting
  unknown : ∀ earlier later id, history actions = earlier ++ later → Finished earlier id →
    AnsweredUnknown (after actions) id

theorem idsLiveOnce (actions : List Action) (returns : ∀ action ∈ actions, action.Returns)
    (roomy : Roomy (after actions)) : IdsLiveOnce actions := by
  obtain ⟨venue, sim, ⟨sound, balanced⟩, entered⟩ :=
    traced Venue.tracedEntered actions returns roomy
  have dies : ∀ earlier later id, history actions = earlier ++ later → Finished earlier id →
      (Ledger.of (history actions)).Dead id ∧ ∀ entry ∈ later, id ∉ entry.2.acting := by
    intro earlier later id split finished
    rw [split, Ledger.soundAppend] at sound
    rw [split, Ledger.ofAppend]
    exact Ledger.soundSilent later _ sound.2 (Ledger.finishedDead sound.1 finished)
  refine ⟨⟨simOpenIndexed sim, fun env request callback member => ?_⟩, entered.once,
    entered.unspoiled,
    fun earlier later id split finished => (dies earlier later id split finished).2,
    fun earlier later id split finished env => ?_⟩
  · obtain ⟨_, outcome⟩ := callOutcome sim roomy.slots env request
    obtain ⟨moment, _, follows⟩ := outcomeSeen outcome callback member
    exact simOpenIndexed follows.sim
  · have dead := (dies earlier later id split finished).1
    have missing := deadNotFound sim balanced dead
    have configured : (after actions).configured = true := by
      by_contra unconfigured
      have blank := blankUntilConfigured actions (by simpa using unconfigured)
      rw [blank] at sim
      obtain ⟨account, found, _⟩ := dead
      exact blankSpent sim id (balanced.known id account found)
    exact ⟨unknownCancel configured missing env,
      fun request same => unknownReplace configured request (same ▸ missing) env⟩

theorem busyIdsLiveOnce :
    IdsLiveOnce (calmRun [⟨7, 100000, 1000⟩] [.submit ⟨1, 7, .sell, .limit, .day, 100100, 5⟩,
    .submit ⟨2, 7, .buy, .limit, .ioc, 100100, 2⟩, .submit ⟨4, 7, .buy, .limit, .day, 100100, 0⟩,
      .replace ⟨1, 3, 100200, 4⟩,
    .cancel ⟨3⟩]) :=
  idsLiveOnce _ (by simp [calmRun, Action.Returns, Env.calm, Env.Quiet])
    (roomyOf (by decide +kernel) (by decide +kernel))

end Engine
end Xmatch
