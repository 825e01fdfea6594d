import Xmatch.History
import Xmatch.Uncrossed

/-! An account for every id, kept from what is reported alone: what was asked for, what was
filled and what was canceled. A replace closes the old account and carries its fills over. -/
namespace Xmatch

structure Account where
  requested : Nat
  filled : Nat
  canceled : Nat := 0
  away : Bool := false
  deriving DecidableEq, Repr

def Account.fill (account : Account) (qty : Nat) : Account :=
  { account with filled := account.filled + qty }

def Account.left (account : Account) : Nat :=
  if account.away then 0 else account.requested - (account.filled + account.canceled)

abbrev Ledger := OrderId → Option Account

namespace Ledger

def put (ledger : Ledger) (id : OrderId) (account : Account) : Ledger :=
  fun other => if other = id then some account else ledger other

def change (ledger : Ledger) (id : OrderId) (f : Account → Account) : Ledger :=
  fun other => if other = id then (ledger other).map f else ledger other

def post (ledger : Ledger) : Entry → Ledger
  | (.submit order, .accepted id) =>
    ledger.put id { requested := order.quantity.toNat, filled := 0 }
  | (.replace request, .replaced old new _ _) =>
    (ledger.change old (fun account => { account with away := true })).put new
      { requested := request.newQuantity.toNat, filled := ((ledger old).map Account.filled).getD 0 }
  | (_, .trade _ _ _ qty resting aggressive _) =>
    (ledger.change resting (·.fill qty)).change aggressive (·.fill qty)
  | (_, .canceled id qty _) =>
    ledger.change id (fun account => { account with canceled := account.canceled + qty })
  | _ => ledger

def of (history : List Entry) : Ledger := history.foldl post (fun _ => none)

def Affords (ledger : Ledger) (id : OrderId) (qty : Nat) : Prop :=
  ∃ account, ledger id = some account ∧ qty ≤ account.left

/- The event is about accounts that can bear it. -/
def Sound (ledger : Ledger) : Entry → Prop
  | (.submit order, .accepted id) => id = order.orderId ∧ ledger id = none
  | (_, .accepted _) => False
  | (.replace request, .replaced old new _ qty) =>
    (∃ account, ledger old = some account ∧ 0 < account.left ∧
      qty + account.filled = request.newQuantity.toNat) ∧
      0 < qty ∧ (new ≠ old → ledger new = none)
  | (_, .replaced _ _ _ _) => False
  | (_, .trade _ _ _ qty resting aggressive _) =>
    0 < qty ∧ resting ≠ aggressive ∧ ledger.Affords resting qty ∧ ledger.Affords aggressive qty
  | (_, .canceled id qty _) => 0 < qty ∧ ∃ account, ledger id = some account ∧ account.left = qty
  | (_, .rejected _ _) => True

def SoundFrom : Ledger → List Entry → Prop
  | _, [] => True
  | ledger, entry :: rest => ledger.Sound entry ∧ SoundFrom (ledger.post entry) rest

section Posting
variable {ledger : Ledger} {id other : OrderId} {account : Account} {f : Account → Account}

@[simp] theorem putSame : ledger.put id account id = some account := if_pos rfl

theorem putOther (ne : other ≠ id) : ledger.put id account other = ledger other := if_neg ne

theorem changeSame : ledger.change id f id = (ledger id).map f := if_pos rfl

theorem changeOther (ne : other ≠ id) : ledger.change id f other = ledger other := if_neg ne

theorem postTrade {request : Request} {tradeId : Nat} {instrumentId : InstrumentId} {price : Int}
    {qty : Nat} {resting aggressive : OrderId} {side : Side} (two : resting ≠ aggressive)
    (id : OrderId) :
    ledger.post (request, .trade tradeId instrumentId price qty resting aggressive side) id =
      if id = resting ∨ id = aggressive then (ledger id).map (·.fill qty) else ledger id := by
  have posted : ledger.post (request,
    .trade tradeId instrumentId price qty resting aggressive side) =
      (ledger.change resting (·.fill qty)).change aggressive (·.fill qty) := by
        cases request <;> rfl
  rw [posted]
  by_cases taker : id = aggressive
  · subst taker
    rw [changeSame, changeOther (Ne.symm two), if_pos (.inr rfl)]
  · rw [changeOther taker]
    by_cases maker : id = resting
    · subst maker
      rw [changeSame, if_pos (.inl rfl)]
    · rw [changeOther maker, if_neg (by simp [maker, taker])]

theorem postCanceled {request : Request} {qty : Nat} {reason : CancelReason} :
    ledger.post (request, .canceled id qty reason) =
      ledger.change id (fun account => { account with canceled := account.canceled + qty }) := by
  cases request <;> rfl

theorem soundCanceled {request : Request} {qty : Nat} {reason : CancelReason} :
    ledger.Sound (request, .canceled id qty reason) ↔ 0 < qty ∧ ∃ account,
      ledger id = some account ∧ account.left = qty := by
  cases request <;> exact Iff.rfl

theorem soundTrade {request : Request} {tradeId : Nat} {instrumentId : InstrumentId} {price : Int}
    {qty : Nat} {resting aggressive : OrderId} {side : Side} :
    ledger.Sound (request, .trade tradeId instrumentId price qty resting aggressive side) ↔
      0 < qty ∧ resting ≠ aggressive ∧ ledger.Affords resting qty ∧
        ledger.Affords aggressive qty := by
  cases request <;> exact Iff.rfl

theorem soundAppend (earlier later : List Entry) : ∀ ledger : Ledger,
    SoundFrom ledger (earlier ++ later) ↔
    SoundFrom ledger earlier ∧ SoundFrom (earlier.foldl post ledger) later := by
  induction earlier with
  | nil => exact fun ledger => ⟨fun sound => ⟨trivial, sound⟩, fun sound => sound.2⟩
  | cons entry rest ih =>
    intro ledger
    simp only [List.cons_append, SoundFrom, List.foldl_cons, ih, and_assoc]

theorem ofAppend (earlier later : List Entry) : of (earlier ++ later) =
    later.foldl post (of earlier) := List.foldl_append ..

end Posting

end Ledger

namespace Venue

/- An order that rests, or that is in hand: taken off the book, or not on it yet. -/
def Has (venue : Venue) (hand : List Order) (order : Order) : Prop :=
  order ∈ hand ∨ ∃ b side, order ∈ venue.orders b side

def accountOf (order : Order) : Account :=
  { requested := order.filledQty + order.openQty, filled := order.filledQty }

theorem accountLeft (order : Order) : (accountOf order).left = order.openQty := by
  simp [Account.left, accountOf]

theorem accountFill {order : Order} {qty : Nat} (enough : qty ≤ order.openQty) :
    (accountOf order).fill qty = accountOf (order.fill qty) := by
  simp only [accountOf, Account.fill, Order.fill, Account.mk.injEq, and_true]
  omega

structure Balanced (ledger : Ledger) (venue : Venue) (hand : List Order) : Prop where
  active : ∀ order, venue.Has hand order → ledger order.id = some (accountOf order)
  closed : ∀ id account, ledger id = some account →
    (∀ order, venue.Has hand order → order.id ≠ id) →
    account.away = true ∨ account.filled + account.canceled = account.requested
  known : ∀ id account, ledger id = some account → id ∈ venue.spent
  traded : ∀ id account, ledger id = some account → venue.traded id = account.filled

section Trading
variable {ledger : Ledger} {base venue : Venue} {b : Nat} {instrumentId : InstrumentId}
  {side : Side} {maker taker : Order} {rest : List Order} {request : Request}

theorem frontApart (proper : base.Proper) (sweeping : Sweeping b side base venue (maker :: rest)) :
    (∀ o ∈ rest, o.id ≠ maker.id) ∧
      ∀ c s, ¬(c = b ∧ s = side.opposite) → ∀ o ∈ venue.orders c s, o.id ≠ maker.id := by
  constructor
  · have nodup : ((maker :: rest).map (·.id)).Nodup := by
      have keys : (maker :: rest).map (·.id) <:+ (base.orders b side.opposite).map (·.id) := by
        have ids := sweeping.suffix.map Prod.fst
        simpa only [List.map_map, Function.comp_def, Order.key] using ids
      exact List.Nodup.sublist keys.sublist (proper.nodup b side.opposite)
    rw [List.map_cons, List.nodup_cons] at nodup
    exact fun o member same => nodup.1 (same ▸ List.mem_map_of_mem member)
  · intro c s elsewhere o member same
    rw [sweeping.others c s elsewhere] at member
    obtain ⟨o', here, named, _⟩ := keyMember sweeping.suffix List.mem_cons_self
    exact elsewhere (proper.once c b s side.opposite o member o' here (same.trans named.symm))

structure TradeLeaves (maker taker : Order) (venue next : Venue) : Prop where
  after : ∀ o, next.Has [taker.fill (min taker.openQty maker.openQty)] o →
    o = taker.fill (min taker.openQty maker.openQty) ∨
    o = maker.fill (min taker.openQty maker.openQty) ∨
    o.id ≠ maker.id ∧ o.id ≠ taker.id ∧ venue.Has [taker] o
  before : ∀ o, venue.Has [taker] o → o.id ≠ maker.id → o.id ≠ taker.id →
    next.Has [taker.fill (min taker.openQty maker.openQty)] o
  rests : ¬maker.openQty ≤ taker.openQty →
    next.Has [taker.fill (min taker.openQty maker.openQty)]
      (maker.fill (min taker.openQty maker.openQty))

theorem tradeLeaves (proper : base.Proper) (sweeping : Sweeping b side base venue (maker :: rest))
    (outside : ∀ c s, ∀ o ∈ venue.orders c s, o.id ≠ taker.id) :
    TradeLeaves maker taker venue (tradeStep b side maker rest venue taker).venue := by
  obtain ⟨apart, elsewhere⟩ := frontApart proper sweeping
  have moved : Sweeping b side base (tradeStep b side maker rest venue taker).venue
      (tradeStep b side maker rest venue taker).opposite := sweepingStep sweeping
  have queue : (tradeStep b side maker rest venue taker).venue.orders b side.opposite =
      if maker.openQty ≤ taker.openQty then rest
      else maker.fill (min taker.openQty maker.openQty) :: rest := moved.here
  have others : ∀ c s, ¬(c = b ∧ s = side.opposite) →
      (tradeStep b side maker rest venue taker).venue.orders c s = venue.orders c s :=
    fun c s other => (moved.others c s other).trans (sweeping.others c s other).symm
  have inRest : ∀ o ∈ rest, o ∈ venue.orders b side.opposite := fun o member => by
    rw [sweeping.here]
    exact List.mem_cons_of_mem _ member
  refine ⟨?_, ?_, ?_⟩
  · rintro o (hand | ⟨c, s, member⟩)
    · exact .inl (List.mem_singleton.mp hand)
    · by_cases here : c = b ∧ s = side.opposite
      · obtain ⟨rfl, rfl⟩ := here
        have kept : o ∈ rest → o.id ≠ maker.id ∧ o.id ≠ taker.id ∧ venue.Has [taker] o :=
          fun inside => ⟨apart o inside, outside _ _ o (inRest o inside),
            .inr ⟨_, _, inRest o inside⟩⟩
        rw [queue] at member
        split at member
        · exact .inr (.inr (kept member))
        · rcases List.mem_cons.mp member with rfl | inside
          · exact .inr (.inl rfl)
          · exact .inr (.inr (kept inside))
      · rw [others c s here] at member
        exact .inr (.inr ⟨elsewhere c s here o member, outside c s o member, .inr ⟨c, s, member⟩⟩)
  · rintro o (hand | ⟨c, s, member⟩) notMaker notTaker
    · exact absurd (congrArg (·.id) (List.mem_singleton.mp hand)) notTaker
    · refine .inr ⟨c, s, ?_⟩
      by_cases here : c = b ∧ s = side.opposite
      · obtain ⟨rfl, rfl⟩ := here
        rw [sweeping.here] at member
        have inside : o ∈ rest :=
          (List.mem_cons.mp member).resolve_left (fun same => notMaker (congrArg (·.id) same))
        rw [queue]
        split
        · exact inside
        · exact List.mem_cons_of_mem _ inside
      · rw [others c s here]
        exact member
  · intro more
    refine .inr ⟨b, side.opposite, ?_⟩
    rw [queue, if_neg more]
    exact List.mem_cons_self

theorem tradeTraded (b : Nat) (side : Side) (rest : List Order) (venue : Venue)
    (two : maker.id ≠ taker.id) (id : OrderId) :
    (tradeStep b side maker rest venue taker).venue.traded id =
      if id = maker.id ∨ id = taker.id then venue.traded id + min taker.openQty maker.openQty
      else venue.traded id := by
  simp only [tradeStep, bump, putSide]
  by_cases taken : id = taker.id
  · simp [taken, Ne.symm two]
  · by_cases made : id = maker.id
    · simp [made, two]
    · simp [taken, made]

theorem tradeBalanced (proper : base.Proper) (sweeping : Sweeping b side base venue (maker :: rest))
    (outside : ∀ c s, ∀ o ∈ venue.orders c s, o.id ≠ taker.id)
    (balanced : Balanced ledger venue [taker]) (active : 0 < taker.openQty)
    (positive : 0 < maker.openQty) :
    ledger.Sound (request, (tradeMoment instrumentId side maker venue taker).event) ∧
      Balanced (ledger.post (request, (tradeMoment instrumentId side maker venue taker).event))
        (tradeStep b side maker rest venue taker).venue
          [(tradeStep b side maker rest venue taker).taker] := by
  have here : maker ∈ venue.orders b side.opposite := by
    rw [sweeping.here]
    exact List.mem_cons_self
  have two : maker.id ≠ taker.id := outside _ _ _ here
  have own := balanced.active maker (.inr ⟨b, side.opposite, here⟩)
  have mine := balanced.active taker (.inl List.mem_cons_self)
  have posted := @Ledger.postTrade ledger request venue.nextTradeId instrumentId maker.price
      (min taker.openQty maker.openQty)
    maker.id taker.id side two
  have leaves := tradeLeaves proper sweeping outside
  have traded := tradeTraded b side rest venue two
  have most : min taker.openQty maker.openQty ≤ maker.openQty := Nat.min_le_right ..
  have most' : min taker.openQty maker.openQty ≤ taker.openQty := Nat.min_le_left ..
  refine ⟨Ledger.soundTrade.mpr ⟨by omega, two, ⟨_, own, ?_⟩, ⟨_, mine, ?_⟩⟩, ?_, ?_, ?_, ?_⟩
  · rw [accountLeft]
    exact most
  · rw [accountLeft]
    exact most'
  · intro o has
    rw [tradeMoment, posted]
    rcases leaves.after o has with rfl | rfl | ⟨notMaker, notTaker, had⟩
    · change (if taker.id = maker.id ∨ taker.id = taker.id then (ledger taker.id).map _ else _) = _
      rw [if_pos (.inr rfl), mine, Option.map_some, accountFill most']
    · change (if maker.id = maker.id ∨ maker.id = taker.id then (ledger maker.id).map _ else _) = _
      rw [if_pos (.inl rfl), own, Option.map_some, accountFill most]
    · rw [if_neg (by simp [notMaker, notTaker])]
      exact balanced.active o had
  · intro id account found none
    rw [tradeMoment, posted] at found
    have notTaker : id ≠ taker.id := fun same => none _ (.inl List.mem_cons_self) same.symm
    by_cases isMaker : id = maker.id
    · subst isMaker
      rw [if_pos (.inl rfl), own, Option.map_some] at found
      cases Option.some.inj found
      have gone : maker.openQty ≤ taker.openQty := by
        by_contra more
        exact none _ (leaves.rests more) rfl
      refine .inr ?_
      simp only [Account.fill, accountOf]
      omega
    · rw [if_neg (by simp [isMaker, notTaker])] at found
      refine balanced.closed id account found (fun o had same => ?_)
      exact none o (leaves.before o had (same ▸ isMaker) (same ▸ notTaker)) same
  · intro id account found
    rw [tradeMoment, posted] at found
    change id ∈ venue.spent
    split at found
    · obtain ⟨account', was, _⟩ := Option.map_eq_some_iff.mp found
      exact balanced.known id account' was
    · exact balanced.known id account found
  · intro id account found
    rw [tradeMoment, posted] at found
    rw [traded]
    split at found
    · rename_i named
      obtain ⟨account', was, rfl⟩ := Option.map_eq_some_iff.mp found
      rw [if_pos named, balanced.traded id account' was]
      rfl
    · rename_i other
      rw [if_neg other]
      exact balanced.traded id account found

theorem sweepBalanced (limit : Option Int) (proper : base.Proper)
    (outside : ∀ c s, ∀ o ∈ base.orders c s, o.id ≠ taker.id)
    (balanced : Balanced ledger base [taker]) :
    Ledger.SoundFrom ledger
      (entries request (sweep b instrumentId side limit (base.orders b side.opposite)
        base taker).1) ∧
      Balanced ((entries request
        (sweep b instrumentId side limit (base.orders b side.opposite) base taker).1).foldl
      Ledger.post ledger)
        (sweep b instrumentId side limit (base.orders b side.opposite) base taker).2.venue
        [(sweep b instrumentId side limit (base.orders b side.opposite) base taker).2.taker] := by
  have swept := @sweepInduct b instrumentId side limit
    (fun seen venue left opposite => Sweeping b side base venue opposite ∧ left.id = taker.id ∧
      (∀ o ∈ opposite, 0 < o.openQty) ∧ Ledger.SoundFrom ledger (entries request seen) ∧
      Balanced ((entries request seen).foldl Ledger.post ledger) venue [left])
    (by
      rintro seen venue left maker rest ⟨sweeping, named, positive, sound, holds⟩ active _
      have apart : ∀ c s, ∀ o ∈ venue.orders c s, o.id ≠ left.id := by
        intro c s o member
        obtain ⟨o', member', same, _⟩ := sweepingWithin sweeping c s o member
        rw [← same, named]
        exact outside c s o' member'
      obtain ⟨fits, posted⟩ :=
        @tradeBalanced _ _ venue b instrumentId side maker left rest request proper sweeping
          apart holds active
        (positive maker List.mem_cons_self)
      refine ⟨sweepingStep sweeping, named, ?_, ?_, ?_⟩
      · intro o member
        simp only [tradeStep] at member
        split at member
        · exact positive o (List.mem_cons_of_mem _ member)
        · rcases List.mem_cons.mp member with rfl | later
          · simp only [Order.fill]
            omega
          · exact positive o (List.mem_cons_of_mem _ later)
      · rw [entries, List.map_append, Ledger.soundAppend]
        exact ⟨sound, fits, trivial⟩
      · rw [entries, List.map_append, List.foldl_append]
        exact posted)
    (base.orders b side.opposite) [] base taker
    ⟨sweepingStart base b side, rfl, fun o member => proper.left b side.opposite o member,
      trivial, balanced⟩
  exact ⟨swept.1.2.2.2.1, swept.1.2.2.2.2⟩

end Trading

section Moving
variable {ledger : Ledger} {venue : Venue} {b : Nat} {side : Side} {order : Order}
  {f : Account → Account}

theorem enterBalanced (balanced : Balanced ledger venue [])
    (outside : ∀ c s, ∀ o ∈ venue.orders c s, o.id ≠ order.id) :
    Balanced (ledger.put order.id (accountOf order))
      (venue.spend order.id order.filledQty) [order] := by
  refine ⟨?_, ?_, ?_, ?_⟩
  · rintro o (hand | ⟨c, s, member⟩)
    · rw [List.mem_singleton.mp hand, Ledger.putSame]
    · rw [Ledger.putOther (outside c s o member)]
      exact balanced.active o (.inr ⟨c, s, member⟩)
  · intro id account found none
    have other : id ≠ order.id := fun same => none order (.inl List.mem_cons_self) same.symm
    rw [Ledger.putOther other] at found
    refine balanced.closed id account found (fun o had => none o ?_)
    exact had.imp_left (fun impossible => absurd impossible List.not_mem_nil)
  · intro id account found
    by_cases same : id = order.id
    · exact same ▸ List.mem_cons_self
    · rw [Ledger.putOther same] at found
      exact List.mem_cons_of_mem _ (balanced.known id account found)
  · intro id account found
    simp only [spend]
    split
    · rename_i same
      subst same
      rw [Ledger.putSame] at found
      cases Option.some.inj found
      rfl
    · rename_i other
      rw [Ledger.putOther other] at found
      exact balanced.traded id account found

theorem dropBalanced (balanced : Balanced ledger venue [order]) (spent : order.openQty = 0) :
    Balanced ledger venue [] := by
  refine ⟨fun o has => ?_, fun id account found none => ?_, balanced.known, balanced.traded⟩
  · exact balanced.active o (has.imp_left (fun impossible => absurd impossible List.not_mem_nil))
  · by_cases same : id = order.id
    · subst same
      cases Option.some.inj (found.symm.trans (balanced.active order (.inl List.mem_cons_self)))
      exact .inr (by simp [accountOf, spent])
    · refine balanced.closed id account found (fun o had => ?_)
      rcases had with hand | rests
      · rw [List.mem_singleton.mp hand]
        exact Ne.symm same
      · exact none o (.inr rests)

theorem rehouse {hand : List Order} {next : Venue} (balanced : Balanced ledger venue hand)
    (spent : next.spent = venue.spent) (traded : next.traded = venue.traded)
    (has : ∀ o, next.Has [] o ↔ venue.Has hand o) : Balanced ledger next [] := by
  refine ⟨fun o had => balanced.active o ((has o).mp had), fun id account found none => ?_, ?_, ?_⟩
  · exact balanced.closed id account found (fun o had => none o ((has o).mpr had))
  · rw [spent]
    exact balanced.known
  · rw [traded]
    exact balanced.traded

theorem restBalanced (balanced : Balanced ledger venue [order]) (inside : b < venue.books.length) :
    Balanced ledger (venue.putSide b side (enqueue side order (venue.orders b side))) [] := by
  refine rehouse balanced rfl rfl (fun o => ⟨?_, ?_⟩)
  · rintro (impossible | ⟨c, s, member⟩)
    · exact absurd impossible List.not_mem_nil
    · rw [ordersPutSide] at member
      split at member
      · rename_i here
        obtain ⟨rfl, rfl, _⟩ := here
        rcases memEnqueue.mp member with rfl | rested
        · exact .inl List.mem_cons_self
        · exact .inr ⟨_, _, rested⟩
      · exact .inr ⟨c, s, member⟩
  · rintro (hand | ⟨c, s, member⟩)
    · rw [List.mem_singleton.mp hand]
      refine .inr ⟨b, side, ?_⟩
      rw [ordersPutSide, if_pos ⟨rfl, rfl, inside⟩]
      exact memEnqueue.mpr (.inl rfl)
    · refine .inr ⟨c, s, ?_⟩
      rw [ordersPutSide]
      split
      · rename_i here
        obtain ⟨rfl, rfl, _⟩ := here
        exact memEnqueue.mpr (.inr member)
      · exact member

structure Closes (order : Order) (f : Account → Account) : Prop where
  closed : (f (accountOf order)).away = true ∨
    (f (accountOf order)).filled + (f (accountOf order)).canceled = (f (accountOf order)).requested
  filled : (f (accountOf order)).filled = order.filledQty

theorem changeKnown {id : OrderId} {account : Account}
    (found : ledger.change order.id f id = some account) :
    ∃ account', ledger id = some account' := by
  by_cases same : id = order.id
  · subst same
    rw [Ledger.changeSame] at found
    obtain ⟨account', was, _⟩ := Option.map_eq_some_iff.mp found
    exact ⟨account', was⟩
  · rw [Ledger.changeOther same] at found
    exact ⟨account, found⟩

theorem closeBalanced (closes : Closes order f) {hand : List Order} {next : Venue}
    (own : ledger order.id = some (accountOf order)) (balanced : Balanced ledger venue hand)
    (spent : next.spent = venue.spent) (traded : next.traded = venue.traded)
    (has : ∀ o, next.Has [] o ↔ venue.Has hand o ∧ o.id ≠ order.id) :
    Balanced (ledger.change order.id f) next [] := by
  refine ⟨?_, ?_, ?_, ?_⟩
  · intro o had
    obtain ⟨before, other⟩ := (has o).mp had
    rw [Ledger.changeOther other]
    exact balanced.active o before
  · intro id account found none
    by_cases same : id = order.id
    · subst same
      rw [Ledger.changeSame, own, Option.map_some] at found
      cases Option.some.inj found
      exact closes.closed
    · rw [Ledger.changeOther same] at found
      refine balanced.closed id account found (fun o had named => ?_)
      exact none o ((has o).mpr ⟨had, named ▸ same⟩) named
  · intro id account found
    obtain ⟨account', was⟩ := changeKnown found
    rw [spent]
    exact balanced.known id account' was
  · intro id account found
    rw [traded]
    by_cases same : id = order.id
    · subst same
      rw [Ledger.changeSame, own, Option.map_some] at found
      cases Option.some.inj found
      rw [closes.filled]
      exact balanced.traded _ _ own
    · rw [Ledger.changeOther same] at found
      exact balanced.traded id account found

end Moving

section Performing
variable {ledger : Ledger} {venue : Venue} {b : Nat} {side : Side} {order old : Order}
  {request : Request}

theorem cancelCloses (order : Order) :
    Closes order (fun account => { account with canceled := account.canceled + order.openQty }) :=
  ⟨.inr (by simp [accountOf]), rfl⟩

theorem awayCloses (order : Order) : Closes order (fun account => { account with away := true }) :=
  ⟨.inl rfl, rfl⟩

theorem withdrawHas (proper : venue.Proper) (rests : old ∈ venue.orders b side) (o : Order) :
    (venue.withdraw b side old.id).Has [] o ↔ venue.Has [] o ∧ o.id ≠ old.id := by
  have inside := ordersInside rests
  simp only [Has, List.not_mem_nil, false_or]
  constructor
  · rintro ⟨c, s, member⟩
    rw [withdraw, ordersPutSide] at member
    split at member
    · rename_i here
      obtain ⟨rfl, rfl, _⟩ := here
      exact ⟨⟨_, _, (memWithout.mp member).1⟩, (memWithout.mp member).2⟩
    · rename_i elsewhere
      refine ⟨⟨c, s, member⟩, fun same => elsewhere ?_⟩
      obtain ⟨rfl, rfl⟩ := proper.once c b s side o member old rests same
      exact ⟨rfl, rfl, inside⟩
  · rintro ⟨⟨c, s, member⟩, other⟩
    refine ⟨c, s, ?_⟩
    rw [withdraw, ordersPutSide]
    split
    · rename_i here
      obtain ⟨rfl, rfl, _⟩ := here
      exact memWithout.mpr ⟨member, other⟩
    · exact member

theorem postRejected (id : OrderId) (reason : RejectReason) :
    ledger.post (request, .rejected id reason) = ledger := by
  cases request <;> rfl

theorem rejectBalanced (id : OrderId) (reason : RejectReason)
    (balanced : Balanced ledger venue []) :
    Ledger.SoundFrom ledger (entries request (reject id reason venue).1) ∧
      Balanced ((entries request (reject id reason venue).1).foldl Ledger.post ledger)
        (reject id reason venue).2 [] := by
  refine ⟨⟨by cases request <;> trivial, trivial⟩, ?_⟩
  simp only [reject, entries, List.map_cons, List.map_nil, List.foldl_cons, List.foldl_nil,
    postRejected]
  exact balanced

theorem spoilBalanced {id : OrderId} (balanced : Balanced ledger venue [])
    (unused : id ∉ venue.spent) : Balanced ledger (venue.spend id 0) [] := by
  refine ⟨balanced.active, balanced.closed, fun other account found => ?_,
    fun other account found => ?_⟩
  · exact List.mem_cons_of_mem _ (balanced.known other account found)
  · have used := balanced.known other account found
    have ne : other ≠ id := fun same => unused (same ▸ used)
    simp only [spend, ne, if_false]
    exact balanced.traded other account found

theorem unusedOutside {id : OrderId} (proper : venue.Proper) (unused : id ∉ venue.spent) :
    ∀ c s, ∀ o ∈ venue.orders c s, o.id ≠ id :=
  fun c s o member same => unused (same ▸ proper.known c s o member)

theorem cancelHand (reason : CancelReason)
    (outside : ∀ c s, ∀ o ∈ venue.orders c s, o.id ≠ order.id)
    (balanced : Balanced ledger venue [order]) (left : 0 < order.openQty) :
    ledger.Sound (request, .canceled order.id order.openQty reason) ∧
      Balanced (ledger.post (request, .canceled order.id order.openQty reason)) venue [] := by
  have own := balanced.active order (.inl List.mem_cons_self)
  refine ⟨Ledger.soundCanceled.mpr ⟨left, _, own, accountLeft order⟩, ?_⟩
  rw [Ledger.postCanceled]
  refine closeBalanced (cancelCloses order) own balanced rfl rfl (fun o => ?_)
  constructor
  · rintro (impossible | ⟨c, s, member⟩)
    · exact absurd impossible List.not_mem_nil
    · exact ⟨.inr ⟨c, s, member⟩, outside c s o member⟩
  · rintro ⟨hand | rests, other⟩
    · exact absurd (congrArg (·.id) (List.mem_singleton.mp hand)) other
    · exact .inr rests

theorem withdrawBalanced (proper : venue.Proper) (balanced : Balanced ledger venue [])
    (rests : old ∈ venue.orders b side) :
    Ledger.SoundFrom ledger (entries request (cancelOrder b side old venue).1) ∧
      Balanced ((entries request (cancelOrder b side old venue).1).foldl Ledger.post ledger)
        (cancelOrder b side old venue).2 [] := by
  have own := balanced.active old (.inr ⟨b, side, rests⟩)
  refine ⟨⟨Ledger.soundCanceled.mpr ⟨proper.left b side old rests, _, own,
    accountLeft old⟩, trivial⟩, ?_⟩
  simp only [cancelOrder, entries, List.map_cons, List.map_nil, List.foldl_cons, List.foldl_nil,
    Ledger.postCanceled]
  exact closeBalanced (cancelCloses old) own balanced rfl rfl (withdrawHas proper rests)

theorem spendProper {id : OrderId} {filled : Nat} (proper : venue.Proper)
    (outside : ∀ c s, ∀ o ∈ venue.orders c s, o.id ≠ id) :
    (venue.spend id filled).Proper where
  sorted := proper.sorted
  nodup := proper.nodup
  once := proper.once
  known c s o member := List.mem_cons_of_mem _ (proper.known c s o member)
  left := proper.left
  fits := proper.fits
  traded c s o member := (if_neg (outside c s o member)).trans (proper.traded c s o member)

theorem withdrawSubset (venue : Venue) (b : Nat) (side : Side) (id : OrderId) (c : Nat) (s : Side) :
    ((venue.withdraw b side id).orders c s).Sublist (venue.orders c s) := by
  rw [withdraw, ordersPutSide]
  split
  · rename_i here
    obtain ⟨rfl, rfl, _⟩ := here
    exact List.filter_sublist
  · exact List.Sublist.refl _

theorem withdrawProper (proper : venue.Proper) (b : Nat) (side : Side) (id : OrderId) :
    (venue.withdraw b side id).Proper where
  sorted c s := (proper.sorted c s).sublist (withdrawSubset venue b side id c s)
  nodup c s := (proper.nodup c s).sublist ((withdrawSubset venue b side id c s).map _)
  once c d s s' o member o' member' same :=
    proper.once c d s s' o ((withdrawSubset ..).subset member) o'
      ((withdrawSubset ..).subset member') same
  known c s o member := proper.known c s o ((withdrawSubset ..).subset member)
  left c s o member := proper.left c s o ((withdrawSubset ..).subset member)
  fits c s o member := proper.fits c s o ((withdrawSubset ..).subset member)
  traded c s o member := proper.traded c s o ((withdrawSubset ..).subset member)

def Settles (ledger : Ledger) (request : Request) (result : List Moment × Venue) : Prop :=
  Ledger.SoundFrom ledger (entries request result.1) ∧
    Balanced ((entries request result.1).foldl Ledger.post ledger) result.2 []

theorem settlesFirst {event : Event} {moments : List Moment} {next : Venue} {first : Moment}
    (is : first.event = event) (sound : ledger.Sound (request, event))
    (later : Settles (ledger.post (request, event)) request (moments, next)) :
    Settles ledger request (first :: moments, next) := by
  subst is
  exact ⟨⟨sound, later.1⟩, later.2⟩

theorem disposeBalanced {order : NewOrder} {swept : List Moment × Sweep}
    (named : swept.2.taker.id = order.orderId)
    (outside : ∀ c s, ∀ o ∈ swept.2.venue.orders c s, o.id ≠ swept.2.taker.id)
    (inside : b < swept.2.venue.books.length)
    (sound : Ledger.SoundFrom ledger (entries request swept.1))
    (balanced : Balanced ((entries request swept.1).foldl Ledger.post ledger) swept.2.venue
      [swept.2.taker]) :
    Settles ledger request (dispose b order swept) := by
  unfold dispose
  by_cases left : 0 < swept.2.taker.openQty
  · simp only [left, if_true]
    by_cases day : order.tif = .day
    · simp only [day, if_true]
      exact ⟨sound, restBalanced balanced inside⟩
    · simp only [day, if_false]
      have canceled :=
        @cancelHand _ swept.2.venue swept.2.taker request (remainderReason order)
          outside balanced left
      rw [named] at canceled
      refine ⟨?_, ?_⟩
      · rw [entries, List.map_append, Ledger.soundAppend]
        exact ⟨sound, canceled.1, trivial⟩
      · rw [entries, List.map_append, List.foldl_append]
        exact canceled.2
  · simp only [left, if_false]
    exact ⟨sound, dropBalanced balanced (Nat.eq_zero_of_not_pos left)⟩

theorem settleBalanced {swept : List Moment × Sweep} (inside : b < swept.2.venue.books.length)
    (sound : Ledger.SoundFrom ledger (entries request swept.1))
    (balanced : Balanced ((entries request swept.1).foldl Ledger.post ledger) swept.2.venue
      [swept.2.taker]) :
    Settles ledger request (swept.1, settle b side swept.2) := by
  rw [settle]
  split
  · exact ⟨sound, restBalanced balanced inside⟩
  · rename_i none
    exact ⟨sound, dropBalanced balanced (Nat.eq_zero_of_not_pos none)⟩

theorem workedBalanced {order : NewOrder} {book : Book} (proper : venue.Proper)
    (balanced : Balanced ledger venue []) (fresh : Fresh venue order b book) {moments : List Moment}
    {next : Venue}
    (later : ∀ ledger : Ledger, Balanced ledger (venue.spend order.orderId 0) [takerOf order] →
      Settles ledger (.submit order) (moments, next)) :
    Settles ledger (.submit order)
    (acceptedMoment order (venue.spend order.orderId 0) :: moments, next) := by
  have entered :=
    @enterBalanced ledger venue (takerOf order) balanced (unusedOutside proper fresh.unused)
  have unknown : ledger order.orderId = none := by
    by_contra some
    obtain ⟨account, found⟩ := Option.ne_none_iff_exists'.mp some
    exact fresh.unused (balanced.known _ account found)
  have account : accountOf (takerOf order) =
      { requested := order.quantity.toNat, filled := 0 } := by
    simp [accountOf, takerOf]
  rw [account] at entered
  exact settlesFirst rfl ⟨rfl, unknown⟩ (later _ entered)

theorem replacedOutside {request : ReplaceOrder} {book : Book} (proper : venue.Proper)
    (replacing : Replacing venue request b side old book) :
    ∀ c s, ∀ o ∈ (venue.withdraw b side old.id).orders c s, o.id ≠ request.newOrderId := by
  obtain ⟨_, rests, named⟩ := findOpenRests replacing.found
  intro c s o member same
  by_cases renamed : request.newOrderId = request.orderId
  · exact ((withdrawHas proper rests o).mp (.inr ⟨c, s, member⟩)).2
      (same.trans (renamed.trans named.symm))
  · exact unusedOutside proper (replacing.unused renamed) c s o
      ((withdrawSubset ..).subset member) same

theorem replacedBalanced {request : ReplaceOrder} {book : Book} (proper : venue.Proper)
    (balanced : Balanced ledger venue []) (replacing : Replacing venue request b side old book) :
    ledger.Sound (.replace request, .replaced request.orderId request.newOrderId request.newPrice
      (replacement request old).openQty) ∧
      Balanced (ledger.post
          (.replace request, .replaced request.orderId request.newOrderId request.newPrice
            (replacement request old).openQty))
        ((venue.withdraw b side old.id).spend request.newOrderId old.filledQty)
          [replacement request old] := by
  obtain ⟨_, rests, named⟩ := findOpenRests replacing.found
  have own := balanced.active old (.inr ⟨b, side, rests⟩)
  have has := withdrawHas proper rests
  have positive := replacing.positive
  have sum : (replacement request old).openQty + old.filledQty = request.newQuantity.toNat := by
    simp only [replacement] at positive ⊢
    omega
  have outside := replacedOutside proper replacing
  have withdrawn :=
    @closeBalanced ledger venue old _ (awayCloses old) [] (venue.withdraw b side old.id) own
      balanced rfl rfl has
  have entered := @enterBalanced _ _ (replacement request old) withdrawn outside
  refine ⟨⟨⟨_, named ▸ own, ?_, sum⟩, positive, fun renamed => ?_⟩, ?_⟩
  · rw [accountLeft]
    exact proper.left b side old rests
  · by_contra some
    obtain ⟨account, found⟩ := Option.ne_none_iff_exists'.mp some
    exact replacing.unused renamed (balanced.known _ account found)
  · have account : accountOf (replacement request old) =
        { requested := request.newQuantity.toNat,
          filled := ((ledger old.id).map Account.filled).getD 0 } := by
      rw [own]
      simp only [accountOf, replacement, Option.map_some, Option.getD_some, Account.mk.injEq,
        and_true] at sum ⊢
      omega
    rw [account] at entered
    rw [← named]
    exact entered

theorem handBalanced {instrumentId : InstrumentId} (limit : Option Int)
    (inside : b < venue.books.length) (proper : venue.Proper)
    (outside : ∀ c s, ∀ o ∈ venue.orders c s, o.id ≠ order.id)
    (balanced : Balanced ledger venue [order]) {swept : List Moment × Sweep}
    (is : swept = sweep b instrumentId side limit (venue.orders b side.opposite) venue order) :
    Ledger.SoundFrom ledger (entries request swept.1) ∧
      Balanced ((entries request swept.1).foldl Ledger.post ledger) swept.2.venue [swept.2.taker] ∧
      swept.2.taker.id = order.id ∧ b < swept.2.venue.books.length ∧
      ∀ c s, ∀ o ∈ swept.2.venue.orders c s, o.id ≠ swept.2.taker.id := by
  subst is
  obtain ⟨sound, settled⟩ :=
    @sweepBalanced ledger venue b instrumentId side order request limit proper outside balanced
  have sweeping := (@sweepSweeping b instrumentId side limit venue order).1
  have named := (@sweepTaker b instrumentId side limit (venue.orders b side.opposite) venue order).1
  refine ⟨sound, settled, named, by rw [sweeping.length]; exact inside, ?_⟩
  intro c s o member
  obtain ⟨o', member', same, _⟩ := sweepingWithin sweeping c s o member
  rw [named, ← same]
  exact outside c s o' member'

theorem insteadHas (proper : venue.Proper) (rests : old ∈ venue.orders b side) (fresh : Order)
    (filled : Nat) (o : Order) :
    ((venue.spend fresh.id filled).putSide b side (instead old.id fresh (venue.orders b side))).Has
      [] o ↔
      ((venue.withdraw b side old.id).spend fresh.id filled).Has [fresh] o := by
  have inside := ordersInside rests
  have withdrawn : ((venue.withdraw b side old.id).spend fresh.id filled).Has [fresh] o ↔
      o = fresh ∨ (∃ c s, o ∈ venue.orders c s) ∧ o.id ≠ old.id := by
    have has := withdrawHas proper rests o
    simp only [Has, List.not_mem_nil, false_or] at has
    exact or_congr List.mem_singleton has
  have placed : ∀ c s, o ∈
      ((venue.spend fresh.id filled).putSide b side (instead old.id fresh
        (venue.orders b side))).orders c s ↔
      if c = b ∧ s = side then ∃ o' ∈ venue.orders b side,
      (if o'.id = old.id then fresh else o') = o else o ∈ venue.orders c s := by
    intro c s
    rw [ordersPutSide]
    change o ∈ (if c = b ∧ s = side ∧ b < venue.books.length then _ else venue.orders c s) ↔ _
    simp only [inside, and_true]
    split
    · exact List.mem_map
    · exact Iff.rfl
  rw [withdrawn, Has]
  simp only [List.not_mem_nil, false_or, placed]
  constructor
  · rintro ⟨c, s, member⟩
    split at member
    · obtain ⟨o', member', is⟩ := member
      split at is
      · exact .inl is.symm
      · rename_i other
        subst is
        exact .inr ⟨⟨_, _, member'⟩, other⟩
    · rename_i elsewhere
      refine .inr ⟨⟨c, s, member⟩, fun same => elsewhere ?_⟩
      exact proper.once c b s side o member old rests same
  · rintro (rfl | ⟨⟨c, s, member⟩, other⟩)
    · exact ⟨b, side, by rw [if_pos ⟨rfl, rfl⟩]; exact ⟨old, rests, if_pos rfl⟩⟩
    · refine ⟨c, s, ?_⟩
      split
      · rename_i here
        obtain ⟨rfl, rfl⟩ := here
        exact ⟨o, member, if_neg other⟩
      · exact member

theorem performBalanced (request : Request) (proper : venue.Proper)
    (balanced : Balanced ledger venue []) :
    Settles ledger request (perform wrappedFill request venue) := by
  have shape := performed wrappedFill request venue
  generalize perform wrappedFill request venue = result at shape
  cases shape with
  | refused request id reason => exact rejectBalanced id reason balanced
  | spoiled order b book reason fresh flaw =>
    exact rejectBalanced _ reason (spoilBalanced balanced fresh.unused)
  | killed order b book fresh valid fok short =>
    refine workedBalanced proper balanced fresh (fun ledger entered => ?_)
    have outside := unusedOutside proper fresh.unused
    have positive : 0 < (takerOf order).openQty := validPositive valid
    exact settlesFirst rfl (cancelHand .fokUnfillable outside entered positive).1
      ⟨trivial, (cancelHand .fokUnfillable outside entered positive).2⟩
  | worked order b book fresh valid enough =>
    refine workedBalanced proper balanced fresh (fun ledger entered => ?_)
    have outside := unusedOutside proper fresh.unused
    have inside : b < (venue.spend order.orderId 0).books.length :=
      (List.getElem?_eq_some_iff.mp fresh.here).1
    obtain ⟨sound, settled, named, inside', outside'⟩ :=
      @handBalanced ledger (venue.spend order.orderId 0) b order.side
      (takerOf order) (.submit order) order.instrumentId (limitOf order) inside
      (spendProper proper outside) outside entered
      (work b order (venue.spend order.orderId 0)) rfl
    exact disposeBalanced named outside' inside' sound settled
  | withdrawn request id b side old found leaves =>
    exact withdrawBalanced proper balanced (findOpenRests found).2.1
  | requeued request b side old book replacing loses =>
    obtain ⟨sound, entered⟩ := replacedBalanced proper balanced replacing
    have outside := replacedOutside proper replacing
    have inside : b < ((venue.withdraw b side old.id).spend request.newOrderId
      old.filledQty).books.length := by
      rw [show ((venue.withdraw b side old.id).spend request.newOrderId
        old.filledQty).books.length = venue.books.length from
        List.length_modify ..]
      exact (List.getElem?_eq_some_iff.mp replacing.here).1
    rw [requeueEqSettle]
    refine settlesFirst rfl sound ?_
    change Settles _ _ ((requeueSweep request b side old
      ((venue.withdraw b side old.id).spend request.newOrderId old.filledQty)).1,
      settle b side (requeueSweep request b side old
        ((venue.withdraw b side old.id).spend request.newOrderId old.filledQty)).2)
    rw [requeueSweep]
    split
    · obtain ⟨sound', settled, _, inside', _⟩ := @handBalanced _
        ((venue.withdraw b side old.id).spend request.newOrderId old.filledQty) b side
        (replacement request old)
        (.replace request) _ (some request.newPrice) inside
        (spendProper (withdrawProper proper b side old.id) outside) outside entered _ rfl
      exact settleBalanced inside' sound' settled
    · exact settleBalanced inside trivial entered
  | amended request b side old book replacing samePrice fewer =>
    obtain ⟨sound, entered⟩ := replacedBalanced proper balanced replacing
    obtain ⟨_, rests, named⟩ := findOpenRests replacing.found
    exact settlesFirst rfl sound ⟨trivial, rehouse entered rfl rfl (insteadHas proper rests _ _)⟩

end Performing

theorem blankBalanced (ledger : Ledger) (none : ∀ id, ledger id = none) (venue : Venue)
    (empty : ∀ b side, venue.orders b side = []) :
    Balanced ledger venue [] where
  active order has := by
    rcases has with impossible | ⟨b, side, member⟩
    · exact absurd impossible List.not_mem_nil
    · rw [empty b side] at member
      exact absurd member List.not_mem_nil
  closed id account found := by
    rw [none id] at found
    contradiction
  known id account found := by
    rw [none id] at found
    contradiction
  traded id account found := by
    rw [none id] at found
    contradiction

/- Over a run every event is sound, and after every call the accounts are in balance. -/
def Audited (history : List Entry) (venue : Venue) : Prop :=
  Ledger.SoundFrom (fun _ => none) history ∧ Balanced (Ledger.of history) venue []

theorem tracedAudited : Engine.Traced Audited where
  blank := ⟨trivial, blankBalanced _ (fun _ => rfl) _ blankOrders⟩
  opened history venue instruments unspent audited := by
    refine ⟨audited.1, blankBalanced _ (fun id => ?_) _ (openedOrders instruments)⟩
    by_contra some
    obtain ⟨account, found⟩ := Option.ne_none_iff_exists'.mp some
    exact unspent id (audited.2.known id account found)
  step history venue request proper audited := by
    obtain ⟨sound, balanced⟩ := performBalanced request proper audited.2
    rw [Audited, Ledger.soundAppend, Ledger.ofAppend]
    exact ⟨⟨audited.1, sound⟩, balanced⟩

end Venue
end Xmatch
