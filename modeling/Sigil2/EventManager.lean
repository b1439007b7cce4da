import Sigil2.Basic

/-! `EventManager`: the frontend's event buffer. Its header is not among the sources, so the
buffer is modelled from its uses in EventManager.cpp; reading another union member or writing
past `ev_buf` is undefined and gives `none`. -/
namespace Sgl

/-- The four `notify*Observers` functions a buffered event can point to. -/
inductive NotifyFn where
  | mem | comp | sync | cxt
  deriving DecidableEq, Repr

/-- The four observer lists a buffered event's `observers` pointer can point to. -/
inductive ObserverList where
  | mem | comp | sync | cxt
  deriving DecidableEq, Repr

/-- `EventManager::BufferedEvent`: the notify function, the observer list, and the member of
the event union that was written. -/
structure BufferedEvent where
  notify : NotifyFn
  observers : ObserverList
  ev : SglEv
  deriving DecidableEq, Repr

/-- One call of an observer: its id in its list, and the value passed to it. -/
inductive Call where
  | mem (obs : Nat) (ev : SglMemEv)
  | comp (obs : Nat) (ev : SglCompEv)
  | sync (obs : Nat) (ev : SglSyncEv)
  | cxt (obs : Nat) (ev : SglCxtEv)
  | cleanup (obs : Nat)
  deriving DecidableEq, Repr

structure EventManager where
  ev_buf : List BufferedEvent
  used : Nat
  mem_observers : List Nat
  comp_observers : List Nat
  sync_observers : List Nat
  cxt_observers : List Nat
  cleanup_observers : List Nat
  deriving DecidableEq, Repr

namespace EventManager

/-- The list an `observers` pointer points to. -/
def observersOf (em : EventManager) : ObserverList → List Nat
  | .mem => em.mem_observers
  | .comp => em.comp_observers
  | .sync => em.sync_observers
  | .cxt => em.cxt_observers

/-- The body shared by the four `notify*Observers`: the pointer, cast to the list of kind
`list`, and the union, read as its member `member`, give one call per observer. -/
def notifyObservers {α : Type} (list : ObserverList) (member : SglEv → Option α)
    (call : Nat → α → Call) (em : EventManager) (be : BufferedEvent) : Option (List Call) :=
  if be.observers = list then (member be.ev).map fun ev => (em.observersOf list).map (call · ev)
  else none

def notifyMemObservers : EventManager → BufferedEvent → Option (List Call) :=
  notifyObservers .mem (fun | .mem ev => some ev | _ => none) Call.mem

def notifyCompObservers : EventManager → BufferedEvent → Option (List Call) :=
  notifyObservers .comp (fun | .comp ev => some ev | _ => none) Call.comp

def notifySyncObservers : EventManager → BufferedEvent → Option (List Call) :=
  notifyObservers .sync (fun | .sync ev => some ev | _ => none) Call.sync

def notifyCxtObservers : EventManager → BufferedEvent → Option (List Call) :=
  notifyObservers .cxt (fun | .cxt ev => some ev | _ => none) Call.cxt

/-- `ev_buf[i].notify(ev_buf[i])`: a call through the stored function pointer. -/
def notify (em : EventManager) (be : BufferedEvent) : Option (List Call) :=
  match be.notify with
  | .mem => em.notifyMemObservers be
  | .comp => em.notifyCompObservers be
  | .sync => em.notifySyncObservers be
  | .cxt => em.notifyCxtObservers be

/-- The body shared by the four `bufferEvent` overloads: fill slot `used`, then count it. -/
def bufferSlot (em : EventManager) (notify : NotifyFn) (observers : ObserverList) (ev : SglEv) :
    Option EventManager :=
  if em.used < em.ev_buf.length then
    some { em with ev_buf := em.ev_buf.set em.used ⟨notify, observers, ev⟩, used := em.used + 1 }
  else none

/-- `bufferEvent`, one overload per event kind. -/
def bufferEvent (em : EventManager) : SglEv → Option EventManager
  | .mem ev => em.bufferSlot .mem .mem (.mem ev)
  | .comp ev => em.bufferSlot .comp .comp (.comp ev)
  | .sync ev => em.bufferSlot .sync .sync (.sync ev)
  | .cxt ev => em.bufferSlot .cxt .cxt (.cxt ev)

def flushEvents (em : EventManager) : Option (EventManager × List Call) := do
  let calls ← (List.range em.used).foldlM (fun calls i => do
    let be ← em.ev_buf[i]?
    let cs ← em.notify be
    pure (calls ++ cs)) []
  pure ({ em with used := 0 }, calls)

def finish (em : EventManager) : Option (EventManager × List Call) := do
  let (em, calls) ← em.flushEvents
  pure (em, calls ++ em.cleanup_observers.map Call.cleanup)

/-- What delivering one event means: every observer of its kind, in registration order,
called with it. -/
def deliver (em : EventManager) : SglEv → List Call
  | .mem ev => em.mem_observers.map (Call.mem · ev)
  | .comp ev => em.comp_observers.map (Call.comp · ev)
  | .sync ev => em.sync_observers.map (Call.sync · ev)
  | .cxt ev => em.cxt_observers.map (Call.cxt · ev)

/-- The slot `bufferEvent` writes for an event. -/
def slotOf : SglEv → BufferedEvent
  | .mem ev => ⟨.mem, .mem, .mem ev⟩
  | .comp ev => ⟨.comp, .comp, .comp ev⟩
  | .sync ev => ⟨.sync, .sync, .sync ev⟩
  | .cxt ev => ⟨.cxt, .cxt, .cxt ev⟩

theorem notify_slotOf (em : EventManager) (ev : SglEv) : em.notify (slotOf ev) = some (em.deliver ev) := by
  cases ev <;> rfl

theorem bufferEvent_eq (em : EventManager) (ev : SglEv) :
    em.bufferEvent ev = if em.used < em.ev_buf.length then
      some { em with ev_buf := em.ev_buf.set em.used (slotOf ev), used := em.used + 1 }
    else none := by
  cases ev <;> rfl

theorem buffer_fills (evs : List SglEv) :
    ∀ em : EventManager, em.used + evs.length ≤ em.ev_buf.length →
      ∃ em', evs.foldlM bufferEvent em = some em' ∧ em'.used = em.used + evs.length ∧
        em'.ev_buf.length = em.ev_buf.length ∧
        (∀ i < em.used, em'.ev_buf[i]? = em.ev_buf[i]?) ∧
        (∀ j < evs.length, em'.ev_buf[em.used + j]? = evs[j]?.map slotOf) ∧
        em'.observersOf = em.observersOf ∧ em'.deliver = em.deliver ∧
        em'.cleanup_observers = em.cleanup_observers := by
  induction evs with
  | nil => exact fun em _ => ⟨em, rfl, rfl, rfl, fun _ _ => rfl, fun _ h => (nomatch h), rfl, rfl, rfl⟩
  | cons ev evs ih =>
    intro em hcap
    simp only [List.length_cons] at hcap
    have hlt : em.used < em.ev_buf.length := by omega
    obtain ⟨em', hf, hu, hl, hkeep, hnew, ho, hd, hc⟩ :=
      ih { em with ev_buf := em.ev_buf.set em.used (slotOf ev), used := em.used + 1 }
        (by simp only [List.length_set]; omega)
    simp only [List.length_set] at hu hl hkeep hnew
    refine ⟨em', by rw [List.foldlM_cons, bufferEvent_eq, if_pos hlt]; exact hf, by simp [hu]; omega,
      hl, fun i hi => ?_, fun j hj => ?_, ho, hd, hc⟩
    · rw [hkeep i (by omega), List.getElem?_set_ne (by omega)]
    · cases j with
      | zero =>
        rw [Nat.add_zero, hkeep em.used (by omega), List.getElem?_set_self hlt]
        simp
      | succ j =>
        rw [show em.used + (j + 1) = em.used + 1 + j by omega, hnew j (by simpa using hj),
          List.getElem?_cons_succ]

theorem flush_prefix (em : EventManager) (evs : List SglEv)
    (slots : ∀ j < evs.length, em.ev_buf[j]? = evs[j]?.map slotOf) :
    ∀ k ≤ evs.length, (List.range k).foldlM (fun calls i => do
        let be ← em.ev_buf[i]?
        let cs ← em.notify be
        pure (calls ++ cs)) [] = some ((evs.take k).flatMap em.deliver) := by
  intro k hk
  induction k with
  | zero => rfl
  | succ k ih =>
    have hj : k < evs.length := by omega
    obtain ⟨ev, hev⟩ : ∃ ev, evs[k]? = some ev := ⟨evs[k], List.getElem?_eq_getElem hj⟩
    rw [List.range_succ, List.foldlM_append, ih (by omega)]
    simp only [List.foldlM_cons, List.foldlM_nil, slots k hj, hev, Option.map_some',
      Option.bind_eq_bind, Option.some_bind, notify_slotOf]
    rw [List.take_succ, hev]
    simp

theorem flushEvents_eq {em : EventManager} {evs : List SglEv} (filled : em.used = evs.length)
    (slots : ∀ j < evs.length, em.ev_buf[j]? = evs[j]?.map slotOf) :
    em.flushEvents = some ({ em with used := 0 }, evs.flatMap em.deliver) := by
  unfold flushEvents
  rw [filled, flush_prefix em evs slots evs.length le_rfl, List.take_length]
  rfl

/-- Buffering any events within capacity and then finishing calls every observer of each
event's kind once per event, in buffering order and then registration order, with that
event, and no observer with an event of another kind; `used` is back to zero, and the
cleanup callbacks run after every buffered event has been delivered. -/
theorem finish_delivers_in_order (em : EventManager) (evs : List SglEv) (empty : em.used = 0)
    (fits : evs.length ≤ em.ev_buf.length) :
    ∃ em', evs.foldlM bufferEvent em = some em' ∧
      em'.flushEvents = some ({ em' with used := 0 }, evs.flatMap em.deliver) ∧
      em'.finish = some ({ em' with used := 0 },
        evs.flatMap em.deliver ++ em.cleanup_observers.map Call.cleanup) := by
  obtain ⟨em', hf, hu, -, -, hnew, -, hd, hc⟩ := buffer_fills evs em (by omega)
  rw [empty, Nat.zero_add] at hu
  have hslots : ∀ j < evs.length, em'.ev_buf[j]? = evs[j]?.map slotOf := fun j hj => by
    simpa [empty] using hnew j hj
  have hflush : em'.flushEvents = some ({ em' with used := 0 }, evs.flatMap em.deliver) := by
    rw [flushEvents_eq hu hslots, hd]
  refine ⟨em', hf, hflush, ?_⟩
  simp only [finish, hflush, Option.bind_eq_bind, Option.some_bind, hc]
  rfl

theorem finish_delivers_mixed_kinds :
    ∃ em', [SglEv.mem ⟨.load, 0x10, 4⟩, .sync ⟨.lock, 0x20⟩].foldlM bufferEvent
        ⟨List.replicate 2 ⟨.cxt, .cxt, .cxt ⟨.instr⟩⟩, 0, [7], [], [8, 9], [], [5]⟩ = some em' ∧
      em'.flushEvents = some ({ em' with used := 0 },
        [.mem 7 ⟨.load, 0x10, 4⟩, .sync 8 ⟨.lock, 0x20⟩, .sync 9 ⟨.lock, 0x20⟩]) ∧
      em'.finish = some ({ em' with used := 0 },
        [.mem 7 ⟨.load, 0x10, 4⟩, .sync 8 ⟨.lock, 0x20⟩, .sync 9 ⟨.lock, 0x20⟩, .cleanup 5]) :=
  finish_delivers_in_order _ _ rfl (by decide)

end EventManager

end Sgl
