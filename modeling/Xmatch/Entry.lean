import Xmatch.Feasibility

/-! How an order enters: a new slot, its record, and its id in the index. Until the id is
in the index the engine stands for the same venue. -/
namespace Xmatch
namespace Engine
open OrderBook Effect

/- A slot handed out beyond those of `before`, which no queue and no index knows. -/
structure Spare (before : Engine) (slot : Slot) (record : OrderRecord) (engine : Engine) :
    Prop where
  rest : engine = { before with pool := engine.pool }
  size : engine.pool.size = before.pool.size + 1
  stored : engine.pool.Stored
  named : slot.toNat = before.pool.size
  holds : engine.pool.get slot = record
  kept : ∀ other : Slot, other.toNat < before.pool.size →
    engine.pool.get other = before.pool.get other

section Sparing
variable {before engine : Engine} {slot : Slot} {record : OrderRecord} {queues : Nat → Queues}
  {venue : Venue} {credit b : Nat}

theorem spareAllocate (stored : before.pool.Stored) (room : before.pool.size < kInvalidSlot.toNat)
    {memory : Bool} {pool : OrderPool} (ok : before.pool.allocate memory = some (slot, pool)) :
    Spare before slot {} { before with pool := pool } := by
  have allocated := OrderPool.allocateAllocated stored ok
  have narrow : before.pool.size < 2 ^ 32 := Nat.lt_trans room (by decide)
  refine ⟨rfl, allocated.size, allocated.stored, ?_, allocated.fresh narrow, allocated.kept⟩
  rw [allocated.named]
  exact WordBits.toNatOfNat narrow

theorem spareRecord (spare : Spare before slot record engine) (f : OrderRecord → OrderRecord) :
    Spare before slot (f record) (engine.putRecord slot f) := by
  have holds : (engine.pool.modify slot f).get slot = f record := by
    rw [OrderPool.getModifySame, spare.holds]
  refine ⟨?_, spare.size, spare.stored, spare.named, holds, fun other below => ?_⟩
  · have rest := spare.rest
    rw [rest]
    rfl
  · have apart : other ≠ slot := by
      rintro rfl
      have := spare.named
      omega
    exact (OrderPool.getModifyOther _ _ apart).trans (spare.kept other below)

theorem spareRep (spare : Spare before slot record engine) (idle : record.isOpen = false)
    (rep : Rep before queues) (room : before.pool.size < kInvalidSlot.toNat) :
    Rep engine queues := by
  have queued : ∀ b < before.books.size, ∀ s l, ∀ other ∈ queues b s l, engine.pool.get other =
      before.pool.get other := by
    intro b inside s l other member
    exact spare.kept other ((rep.shape b inside).home s l other member).inside
  have size := spare.size
  obtain ⟨pool, poolIs⟩ : ∃ pool, engine.pool = pool := ⟨_, rfl⟩
  have rest := spare.rest
  have stored := spare.stored
  have holds := spare.holds
  have kept := spare.kept
  rw [poolIs] at rest size queued stored holds kept
  subst rest
  refine ⟨⟨rep.index, ?_, stored, rep.few, rep.fitted, fun b inside => ?_, rep.named, rep.filed,
    fun other inside isOpen => ?_, fun id other found => ?_⟩, fun b inside s l other member => ?_⟩
  · change pool.size ≤ _
    omega
  · have grown : before.pool.size ≤ pool.size := by omega
    exact shapeCongr (rep.shape b inside) grown (queued b inside)
  · change other.toNat < pool.size at inside
    change (pool.get other).isOpen = true at isOpen
    have old : other.toNat < before.pool.size := by
      by_contra past
      have same : other = slot := by
        rw [← UInt32.toNat_inj, spare.named]
        omega
      rw [same, holds, idle] at isOpen
      contradiction
    rw [kept other old] at isOpen
    exact rep.housed other old isOpen
  · obtain ⟨inside, named⟩ := rep.found id other found
    refine ⟨?_, (congrArg OrderRecord.id (kept other inside)).trans named⟩
    change other.toNat < pool.size
    omega
  · have same := rep.indexed b inside s l other member
    change before.orderIndex.find (pool.get other).id = some other
    rw [queued b inside s l other member]
    exact same

theorem spareLive (spare : Spare before slot record engine) (rep : Rep before queues)
    (live : Live before queues) : Live engine queues := by
  intro b inside s l other member
  rw [spare.rest] at inside
  rw [spare.kept other ((rep.shape b inside).home s l other member).inside]
  exact live b inside s l other member

/- A new slot pays for two trades. -/
theorem spareView (spare : Spare before slot record engine) (rep : Rep before queues)
    (view : View before queues venue credit) : View engine queues venue (credit + 2) := by
  have same : ∀ b < before.books.size, viewBook engine.pool (before.books.read b) (queues b) =
      viewBook before.pool (before.books.read b) (queues b) := by
    intro b inside
    have sides : ∀ s, viewSide engine.pool (before.books.read b) (queues b) s =
        viewSide before.pool (before.books.read b) (queues b) s := by
      intro s
      refine viewCongr (sameFrameRefl _) rfl (fun other listed => ?_)
      obtain ⟨l, member⟩ := (memSlotsOf (rep.shape b inside)).mp listed
      have kept := spare.kept other ((rep.shape b inside).home s l other member).inside
      exact viewOrderCore (by rw [kept])
    simp only [viewBook, sides]
  have rest : engine.orderIndex = before.orderIndex ∧ engine.books = before.books ∧
      engine.configured = before.configured ∧ engine.nextTradeId = before.nextTradeId := by
    rw [spare.rest]
    exact ⟨rfl, rfl, rfl, rfl⟩
  obtain ⟨index, books, configured, nextTradeId⟩ := rest
  refine ⟨?_, ?_, ?_, ?_, ?_, ?_⟩
  · rw [configured]
    exact view.configured
  · rw [view.books, books]
    refine List.map_congr_left (fun b listed => (same b (List.mem_range.mp listed)).symm)
  · rw [index]
    exact view.spent
  · intro id other found
    rw [index] at found
    rw [spare.kept other (rep.found id other found).1]
    exact view.traded id other found
  · rw [nextTradeId]
    exact view.tradeId
  · have := view.budget
    have := spare.size
    omega

end Sparing

section Recording
variable {engine : Engine} {slot : Slot} {queues : Nat → Queues} {venue : Venue} {credit : Nat}
  {f : OrderRecord → OrderRecord}

structure Retouch (engine : Engine) (slot : Slot) (f : OrderRecord → OrderRecord) : Prop where
  idle : (engine.pool.get slot).isOpen = false
  still : (f (engine.pool.get slot)).isOpen = false
  id : (f (engine.pool.get slot)).id = (engine.pool.get slot).id
  filledQty : (f (engine.pool.get slot)).filledQty = (engine.pool.get slot).filledQty

theorem retouchOther (rep : Rep engine queues) (retouch : Retouch engine slot f) :
    ∀ b < engine.books.size, ∀ s l, ∀ other ∈ queues b s l,
      (engine.putRecord slot f).pool.get other = engine.pool.get other := by
  intro b inside s l other member
  refine OrderPool.getModifyOther _ _ ?_
  rintro rfl
  exact notQueued rep retouch.idle b inside s l member

theorem retouchRep (rep : Rep engine queues) (retouch : Retouch engine slot f) :
    Rep (engine.putRecord slot f) queues := by
  have queued := retouchOther rep retouch
  have id : ∀ other, ((engine.putRecord slot f).pool.get other).id =
      (engine.pool.get other).id := by
    intro other
    rw [putRecord, OrderPool.getModify]
    split
    · rename_i same
      rw [same]
      exact retouch.id
    · rfl
  refine ⟨⟨rep.index, rep.narrow, rep.stored, rep.few, rep.fitted,
    fun b inside => shapeCongr (rep.shape b inside) (Nat.le_refl _) (queued b inside),
    rep.named, rep.filed,
    fun other inside isOpen => ?_, fun key other found => ?_⟩, fun b inside s l other member => ?_⟩
  · rw [putRecord, OrderPool.getModify] at isOpen
    split at isOpen
    · rw [retouch.still] at isOpen
      contradiction
    · exact rep.housed other inside isOpen
  · obtain ⟨inside, named⟩ := rep.found key other found
    exact ⟨inside, (id other).trans named⟩
  · rw [id]
    exact rep.indexed b inside s l other member

theorem retouchLive (rep : Rep engine queues) (live : Live engine queues)
    (retouch : Retouch engine slot f) : Live (engine.putRecord slot f) queues := by
  intro b inside s l other member
  rw [retouchOther rep retouch b inside s l other member]
  exact live b inside s l other member

theorem retouchView (rep : Rep engine queues) (view : View engine queues venue credit)
    (retouch : Retouch engine slot f) : View (engine.putRecord slot f) queues venue credit := by
  have queued := retouchOther rep retouch
  refine ⟨view.configured, ?_, view.spent, fun id other found => ?_, view.tradeId, view.budget⟩
  · rw [view.books]
    refine List.map_congr_left (fun b listed => ?_)
    have inside := List.mem_range.mp listed
    have sides : ∀ s, viewSide (engine.putRecord slot f).pool (engine.books.read b) (queues b) s =
        viewSide engine.pool (engine.books.read b) (queues b) s := by
      intro s
      refine viewCongr (sameFrameRefl _) rfl (fun other listed => ?_)
      obtain ⟨l, member⟩ := (memSlotsOf (rep.shape b inside)).mp listed
      exact viewOrderCore (by rw [queued b inside s l other member])
    have books : (engine.putRecord slot f).books = engine.books := rfl
    simp only [viewBook, books, sides]
  · rw [putRecord, OrderPool.getModify]
    split
    · rename_i same
      rw [retouch.filledQty, ← same]
      exact view.traded id other found
    · exact view.traded id other found

end Recording

section Indexing
variable {engine : Engine} {slot : Slot} {queues : Nat → Queues} {venue : Venue} {credit : Nat}
  {id : OrderId}
  {named : FlatHashMap}

structure Renamed (engine : Engine) (id : OrderId) (slot : Slot) (named : FlatHashMap) : Prop where
  valid : named.Valid
  reads : ∀ key, named.find key = if key = id then some slot else engine.orderIndex.find key
  inside : slot.toNat < engine.pool.size
  own : (engine.pool.get slot).id = id

def Entered (before : Engine) (slot : Slot) (record : OrderRecord) (engine : Engine) : Prop :=
  ∃ spared named, Spare before slot record spared ∧ engine = { spared with orderIndex := named } ∧
    Renamed spared record.id slot named

theorem renamedStocked (rep : Rep engine queues) (renamed : Renamed engine id slot named) :
    Stocked { engine with orderIndex := named } queues := by
  refine ⟨renamed.valid, rep.narrow, rep.stored, rep.few, rep.fitted, rep.shape, rep.named,
    rep.filed, rep.housed, fun key other found => ?_⟩
  change named.find key = some other at found
  rw [renamed.reads] at found
  split at found
  · rename_i same
    cases Option.some.inj found
    exact ⟨renamed.inside, renamed.own.trans same.symm⟩
  · exact rep.found key other found

theorem renamedOther (rep : Rep engine queues) (renamed : Renamed engine id slot named) {b : Nat}
    (inside : b < engine.books.size) {s : Side} {l : Nat} {other : Slot}
    (member : other ∈ queues b s l) (apart : (engine.pool.get other).id ≠ id) :
    named.find (engine.pool.get other).id = some other := by
  rw [renamed.reads, if_neg apart]
  exact rep.indexed b inside s l other member

theorem renamedRep (rep : Rep engine queues) (renamed : Renamed engine id slot named)
    (unused : ∀ b < engine.books.size, ∀ s l, ∀ other ∈ queues b s l,
      (engine.pool.get other).id ≠ id) :
    Rep { engine with orderIndex := named } queues :=
  ⟨renamedStocked rep renamed, fun b inside s l other member =>
    renamedOther rep renamed inside member (unused b inside s l other member)⟩

theorem renamedView (view : View engine queues venue credit)
    (renamed : Renamed engine id slot named) {filled : Nat}
    (filledIs : (engine.pool.get slot).filledQty.toNat = filled) :
    View { engine with orderIndex := named } queues (venue.spend id filled) credit := by
  refine ⟨view.configured, view.books, fun key => ?_, fun key other found => ?_, view.tradeId,
    view.budget⟩
  · change key ∈ id :: venue.spent ↔ ∃ other, named.find key = some other
    rw [List.mem_cons, view.spent, renamed.reads]
    split
    · rename_i same
      exact ⟨fun _ => ⟨slot, rfl⟩, fun _ => .inl same⟩
    · rename_i other
      simp [other]
  · change named.find key = some other at found
    rw [renamed.reads] at found
    change (engine.pool.get other).filledQty.toNat = if key = id then filled else venue.traded key
    split at found
    · rename_i same
      cases Option.some.inj found
      rw [if_pos same]
      exact filledIs
    · rename_i apart
      rw [if_neg apart]
      exact view.traded key other found

end Indexing

section Memory
variable {env : Env} {before : Session} {queues : Nat → Queues} {venue : Venue} {credit : Nat}
  {slot : Slot} {id : OrderId}

theorem allocateRefines (rep : Rep before.engine queues) (live : Live before.engine queues)
    (view : View before.engine queues venue 0)
    (room : before.engine.pool.size < kInvalidSlot.toNat) :
    Refines env (some venue) (allocate env) before [] (fun slot engine =>
      Spare before.engine slot {} engine) := by
  refine refinesRead ?_
  cases allocated : before.engine.pool.allocate env.chunk with
  | none =>
    refine (wpThrow _).mpr (.inr ⟨rfl, .inl (OrderPool.allocateFails allocated), rfl, venue, rfl,
      queues, rep, live, view⟩)
  | some result =>
    obtain ⟨slot, pool⟩ := result
    exact refinesAfter (refinesPure slot (spareAllocate rep.stored room allocated))

theorem insertOrderRefines (rep : Rep before.engine queues) (live : Live before.engine queues)
    (view : View before.engine queues venue credit)
    (absent : before.engine.orderIndex.find id = none)
    (inside : slot.toNat < before.engine.pool.size) (own : (before.engine.pool.get slot).id = id) :
    Refines env (some venue) (insertOrder env id slot) before [] (fun _ engine =>
      ∃ named, engine = { before.engine with orderIndex := named } ∧
        Renamed before.engine id slot named) := by
  refine refinesRead ?_
  cases inserted : before.engine.orderIndex.insert env.slots id slot with
  | none =>
    have sim : Sim before.engine venue := ⟨queues, rep, live, viewCredit view (Nat.zero_le _)⟩
    exact (wpThrow _).mpr (.inr ⟨rfl, .inr (FlatHashMap.insertFails inserted), rfl,
      venue, rfl, sim⟩)
  | some named =>
    obtain ⟨valid, reads⟩ := FlatHashMap.insertValid rep.index absent inserted
    exact refinesUpdate _ ⟨named, rfl, valid, reads, inside, own⟩

end Memory
end Engine
end Xmatch
