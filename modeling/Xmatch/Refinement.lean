import Xmatch.TradeStep

/-! A program of the engine refines a list of moments of the venue: the callbacks follow
the moments one by one, and if the program is cut short they follow a first part of them. -/
namespace Xmatch
namespace Engine
open Effect

/- A callback follows a moment: the same event, from an engine that stands for the venue. -/
structure Follows (callback : Callback) (moment : Moment) : Prop where
  event : callback.event = moment.event
  sim : Sim callback.seen moment.venue
  working : ∀ order, moment.working = some order → ∃ slot instrumentId,
    Waiting callback.seen slot instrumentId order

/- The listener threw out of a callback, and nothing was undone; or there was no memory
before anything was reported. -/
def Interrupted (env : Env) (fallback : Option Venue) (before : Session) (moments : List Moment)
    (why : Abort) (after : Session) : Prop :=
  (why = .listener ∧ env.throws after.events = true ∧ ∃ n moment callbacks,
    moments[n]? = some moment ∧
    after.log = before.log ++ callbacks ∧ List.Forall₂ Follows callbacks (moments.take (n + 1)) ∧
    Sim after.engine moment.venue) ∨
  (why = .memory ∧ (env.chunk = false ∨ env.slots = false) ∧ after.log = before.log ∧
    ∃ venue, fallback = some venue ∧ Sim after.engine venue)

def Refines {α : Type} (env : Env) (fallback : Option Venue) (program : Op α) (before : Session)
    (moments : List Moment) (done : α → Engine → Prop) : Prop :=
  wp program
    (fun a after => ∃ callbacks, after.log = before.log ++ callbacks ∧
      List.Forall₂ Follows callbacks moments ∧
      done a after.engine)
    (Interrupted env fallback before moments) before

section Rules
variable {α β : Type} {env : Env} {fallback : Option Venue} {before : Session}
  {moments moments' : List Moment} {program : Op α}

theorem refinesPure {done : α → Engine → Prop} (a : α) (ends : done a before.engine) :
    Refines env fallback (pure a) before [] done :=
  (wpPure a).mpr ⟨[], by simp, .nil, ends⟩

theorem refinesUpdate {done : Unit → Engine → Prop} (f : Engine → Engine)
    (ends : done () (f before.engine)) : Refines env fallback (update f) before [] done :=
  (wpModify _).mpr ⟨[], by simp, .nil, ends⟩

theorem refinesEmit {done : Unit → Engine → Prop} {event : Event} {moment : Moment}
    (follows : Follows ⟨event, before.engine⟩ moment) (ends : done () before.engine) :
    Refines env fallback (emit env event) before [moment] done := by
  simp only [Refines, emit, wpBind, wpModify, wpGet, wpIte, wpThrow, wpPure]
  refine ⟨fun throws => .inl ⟨rfl, throws, 0, moment, [_], rfl, rfl, .cons follows .nil,
    follows.sim⟩, fun _ => ?_⟩
  exact ⟨[_], rfl, .cons follows .nil, ends⟩

theorem refinesDone {done done' : α → Engine → Prop}
    (refines : Refines env fallback program before moments done)
    (ends : ∀ a engine, done a engine → done' a engine) :
    Refines env fallback program before moments done' :=
  wpMono refines (fun a _ ⟨callbacks, log, follow, h⟩ => ⟨callbacks, log, follow, ends a _ h⟩)
    (fun _ _ h => h)

theorem refinesAny {done : α → Engine → Prop}
    (refines : Refines env none program before moments done) :
    Refines env fallback program before moments done :=
  wpMono refines (fun _ _ h => h) (fun why after h => by
    rcases h with listener | ⟨_, _, _, venue, impossible, _⟩
    · exact .inl listener
    · contradiction)

/- In sequence; only a first part that reports nothing may be followed by a shortage of memory. -/
theorem refinesThen {f : α → Op β} {done : α → Engine → Prop} {done' : β → Engine → Prop}
    (first : Refines env fallback program before [] done)
    (second : ∀ a after, done a after.engine → after.log = before.log →
      Refines env fallback (f a) after moments done') :
    Refines env fallback (program >>= f) before moments done' := by
  simp only [Refines, wpBind]
  refine wpMono first (fun a middle ends => ?_) (fun why after h => ?_)
  · obtain ⟨callbacks, log, follow, h⟩ := ends
    cases follow
    rw [List.append_nil] at log
    have rest := second a middle h log
    simp only [Refines, log] at rest
    refine wpMono rest (fun _ _ h => h) (fun why after h => ?_)
    unfold Interrupted at h ⊢
    rwa [log] at h
  · rcases h with ⟨_, _, n, moment, _, impossible, _⟩ | memory
    · simp at impossible
    · exact .inr memory

theorem refinesBind {f : α → Op β} {done : α → Engine → Prop} {done' : β → Engine → Prop}
    (first : Refines env fallback program before moments done)
    (second : ∀ a after, done a after.engine → Refines env none (f a) after moments' done') :
    Refines env fallback (program >>= f) before (moments ++ moments') done' := by
  simp only [Refines, wpBind]
  refine wpMono first (fun a middle ends => ?_) (fun why after h => ?_)
  · obtain ⟨callbacks, log, follow, h⟩ := ends
    refine wpMono (second a middle h) (fun b after ends' => ?_) (fun why after h' => ?_)
    · obtain ⟨callbacks', log', follow', h'⟩ := ends'
      exact ⟨callbacks ++ callbacks', by rw [log', log, List.append_assoc], List.rel_append follow follow', h'⟩
    · rcases h' with ⟨listener, throws, n, moment, callbacks', here, log', follow', sim⟩ | ⟨_, _, _,
        venue, impossible, _⟩
      · refine .inl ⟨listener, throws, moments.length + n, moment, callbacks ++ callbacks',
          ?_, ?_, ?_, sim⟩
        · rw [List.getElem?_append_right (by omega)]
          simpa using here
        · rw [log', log, List.append_assoc]
        · rw [Nat.add_assoc, List.take_length_add_append]
          exact List.rel_append follow follow'
      · contradiction
  · rcases h with ⟨listener, throws, n, moment, callbacks, here, log, follow, sim⟩ | memory
    · have short := (List.getElem?_eq_some_iff.mp here).1
      refine .inl ⟨listener, throws, n, moment, callbacks, ?_, log, ?_, sim⟩
      · rw [List.getElem?_append_left short]
        exact here
      · rw [List.take_append_of_le_length short]
        exact follow
    · exact .inr memory

theorem refinesRead {f : Engine → Op β} {done : β → Engine → Prop}
    (rest : Refines env fallback (f before.engine) before moments done) :
    Refines env fallback (current >>= f) before moments done := by
  simpa only [Refines, current, wpBind, wpGet, wpPure] using rest

theorem refinesAfter {change : Engine → Engine} {f : Unit → Op β} {done : β → Engine → Prop}
    (rest : Refines env fallback (f
    ()) { before with engine := change before.engine } moments done) :
    Refines env fallback (update change >>= f) before moments done := by
  simp only [Refines, update, wpBind, wpModify]
  exact rest

theorem refinesIte {p : Prop} [Decidable p] {other : Op α} {done : α → Engine → Prop}
    (yes : p → Refines env fallback program before moments done)
    (no : ¬p → Refines env fallback other before moments done) :
    Refines env fallback (if p then program else other) before moments done := by
  by_cases h : p
  · rw [if_pos h]
    exact yes h
  · rw [if_neg h]
    exact no h

end Rules
end Engine
end Xmatch
