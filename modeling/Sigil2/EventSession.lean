import Sigil2.EventManager

/-! Sessions of the frontend with `EventManager`, and the delivery the buffer is for. -/
namespace Sgl

namespace EventManager

/-- `addObserver`, one overload per event kind: the observer is appended to its list. -/
def addObserver (em : EventManager) : ObserverList → Nat → EventManager
  | .mem, obs => { em with mem_observers := em.mem_observers ++ [obs] }
  | .comp, obs => { em with comp_observers := em.comp_observers ++ [obs] }
  | .sync, obs => { em with sync_observers := em.sync_observers ++ [obs] }
  | .cxt, obs => { em with cxt_observers := em.cxt_observers ++ [obs] }

def addCleanup (em : EventManager) (obs : Nat) : EventManager :=
  { em with cleanup_observers := em.cleanup_observers ++ [obs] }

/-- A call of the front end on the event manager. -/
inductive Op where
  | addObserver (kind : ObserverList) (obs : Nat)
  | addCleanup (obs : Nat)
  | bufferEvent (ev : SglEv)
  | flushEvents
  deriving DecidableEq, Repr

def apply (em : EventManager) : Op → Option (EventManager × List Call)
  | .addObserver kind obs => some (em.addObserver kind obs, [])
  | .addCleanup obs => some (em.addCleanup obs, [])
  | .bufferEvent ev => (em.bufferEvent ev).map fun em => (em, [])
  | .flushEvents => em.flushEvents

/-- A session: the calls in order, and the observer calls they make. -/
def session (em : EventManager) : List Op → Option (EventManager × List Call)
  | [] => some (em, [])
  | op :: ops => do
    let (em, calls) ← em.apply op
    let (em, calls') ← em.session ops
    pure (em, calls ++ calls')

/-- Every batch of `bufferEvent` calls between two flushes fits a buffer of `capacity` slots,
`used` of them filled at the start. -/
def fits (capacity : Nat) : Nat → List Op → Bool
  | _, [] => true
  | used, .bufferEvent _ :: ops => used < capacity && fits capacity (used + 1) ops
  | _, .flushEvents :: ops => fits capacity 0 ops
  | used, _ :: ops => fits capacity used ops

/-- Delivering one event to the observers `obs` lists for each kind. -/
def deliverTo (obs : ObserverList → List Nat) : SglEv → List Call
  | .mem ev => (obs .mem).map (Call.mem · ev)
  | .comp ev => (obs .comp).map (Call.comp · ev)
  | .sync ev => (obs .sync).map (Call.sync · ev)
  | .cxt ev => (obs .cxt).map (Call.cxt · ev)

theorem deliver_eq (em : EventManager) : em.deliver = deliverTo em.observersOf := by
  funext ev
  cases ev <;> rfl

theorem observersOf_addObserver (em : EventManager) (kind : ObserverList) (obs : Nat) :
    (em.addObserver kind obs).observersOf =
      Function.update em.observersOf kind (em.observersOf kind ++ [obs]) := by
  funext k
  cases kind <;> cases k <;> rfl

end EventManager

open EventManager

/-- What the buffer is for: the registered observers and cleanups, and the events buffered
since the last flush. -/
structure Intent where
  observers : ObserverList → List Nat
  cleanups : List Nat
  pending : List SglEv

namespace Intent

def apply (s : Intent) : Op → Intent × List Call
  | .addObserver kind obs =>
    ({ s with observers := Function.update s.observers kind (s.observers kind ++ [obs]) }, [])
  | .addCleanup obs => ({ s with cleanups := s.cleanups ++ [obs] }, [])
  | .bufferEvent ev => ({ s with pending := s.pending ++ [ev] }, [])
  | .flushEvents => ({ s with pending := [] }, s.pending.flatMap (deliverTo s.observers))

def session (s : Intent) : List Op → Intent × List Call
  | [] => (s, [])
  | op :: ops =>
    let r := s.apply op
    let r' := r.1.session ops
    (r'.1, r.2 ++ r'.2)

end Intent

/-- The event manager `em` holds the intent `s`: the same observers and cleanups, `used`
slots, and the pending events in them in order. -/
structure Refines (em : EventManager) (s : Intent) : Prop where
  observers : em.observersOf = s.observers
  cleanups : em.cleanup_observers = s.cleanups
  used : em.used = s.pending.length
  slots : ∀ j < s.pending.length, em.ev_buf[j]? = s.pending[j]?.map slotOf

namespace Refines

variable {em : EventManager} {s : Intent}

theorem apply (refines : Refines em s) (op : Op)
    (room : ∀ ev, op = .bufferEvent ev → s.pending.length < em.ev_buf.length) :
    ∃ em', em.apply op = some (em', (s.apply op).2) ∧ Refines em' (s.apply op).1 ∧
      em'.ev_buf.length = em.ev_buf.length := by
  cases op with
  | addObserver kind obs =>
    refine ⟨em.addObserver kind obs, rfl, ⟨?_, ?_, ?_, ?_⟩, ?_⟩
    · rw [observersOf_addObserver, refines.observers]
      rfl
    all_goals cases kind
    all_goals first | exact refines.cleanups | exact refines.used | exact refines.slots | rfl
  | addCleanup obs =>
    exact ⟨em.addCleanup obs, rfl, ⟨refines.observers, congrArg (· ++ [obs]) refines.cleanups, refines.used, refines.slots⟩,
      rfl⟩
  | bufferEvent ev =>
    have hlt := room ev rfl
    refine ⟨{ em with ev_buf := em.ev_buf.set em.used (slotOf ev), used := em.used + 1 },
      by rw [EventManager.apply, bufferEvent_eq, if_pos (refines.used ▸ hlt)]; rfl,
      ⟨refines.observers, refines.cleanups, ?_, ?_⟩, List.length_set _ _ _⟩
    · show em.used + 1 = (s.pending ++ [ev]).length
      rw [refines.used, List.length_append, List.length_singleton]
    · show ∀ j < (s.pending ++ [ev]).length,
        (em.ev_buf.set em.used (slotOf ev))[j]? = (s.pending ++ [ev])[j]?.map slotOf
      intro j hj
      rw [List.length_append, List.length_singleton] at hj
      rw [refines.used]
      rcases Nat.lt_succ_iff_lt_or_eq.mp hj with hj | rfl
      · rw [List.getElem?_set_ne (by omega), refines.slots j hj, List.getElem?_append_left hj]
      · rw [List.getElem?_set_self hlt, List.getElem?_append_right le_rfl, Nat.sub_self]
        rfl
  | flushEvents =>
    refine ⟨{ em with used := 0 }, ?_, ⟨refines.observers, refines.cleanups, rfl, fun _ hj => ?_⟩, rfl⟩
    · rw [EventManager.apply, flushEvents_eq refines.used refines.slots, deliver_eq, refines.observers]
      rfl
    · exact absurd hj (Nat.not_lt_zero _)

end Refines

/-- Over every session whose batches fit the buffer, the event manager makes exactly the
observer calls of the intent and ends holding the intent's state: every buffered event is
delivered once, at the next `flushEvents`, in buffering order, to the observers of its kind
registered at that flush, and to no other observer. -/
theorem session_refines_intent (em : EventManager) (s : Intent) (ops : List Op)
    (refines : Refines em s) (fitting : fits em.ev_buf.length s.pending.length ops = true) :
    ∃ em', em.session ops = some (em', (s.session ops).2) ∧ Refines em' (s.session ops).1 := by
  induction ops generalizing em s with
  | nil => exact ⟨em, rfl, refines⟩
  | cons op ops ih =>
    have hroom : ∀ ev, op = .bufferEvent ev → s.pending.length < em.ev_buf.length := by
      rintro ev rfl
      simp only [fits, Bool.and_eq_true, decide_eq_true_eq] at fitting
      exact fitting.1
    have hrest : fits em.ev_buf.length (s.apply op).1.pending.length ops = true := by
      cases op <;> simp_all [fits, Intent.apply]
    obtain ⟨em₁, hem₁, h₁, hcap⟩ := refines.apply op hroom
    obtain ⟨em₂, hem₂, h₂⟩ := ih em₁ _ h₁ (hcap ▸ hrest)
    refine ⟨em₂, ?_, h₂⟩
    simp only [session, hem₁, hem₂, Option.bind_eq_bind, Option.some_bind, Intent.session]
    rfl

theorem late_observer_session :
    Refines ⟨List.replicate 2 ⟨.cxt, .cxt, .cxt ⟨.instr⟩⟩, 0, [7], [], [], [], []⟩
        ⟨fun | .mem => [7] | _ => [], [], []⟩ ∧
      fits 2 0 [.bufferEvent (.mem ⟨.load, 0x10, 4⟩), .addObserver .mem 8, .flushEvents,
        .bufferEvent (.sync ⟨.lock, 0x20⟩), .flushEvents] = true ∧
      ∃ em', EventManager.session ⟨List.replicate 2 ⟨.cxt, .cxt, .cxt ⟨.instr⟩⟩, 0, [7], [], [], [], []⟩
          [.bufferEvent (.mem ⟨.load, 0x10, 4⟩), .addObserver .mem 8, .flushEvents,
            .bufferEvent (.sync ⟨.lock, 0x20⟩), .flushEvents] =
        some (em', (Intent.session ⟨fun | .mem => [7] | _ => [], [], []⟩
          [.bufferEvent (.mem ⟨.load, 0x10, 4⟩), .addObserver .mem 8, .flushEvents,
            .bufferEvent (.sync ⟨.lock, 0x20⟩), .flushEvents]).2) := by
  have h : Refines ⟨List.replicate 2 ⟨.cxt, .cxt, .cxt ⟨.instr⟩⟩, 0, [7], [], [], [], []⟩
      ⟨fun | .mem => [7] | _ => [], [], []⟩ :=
    ⟨by funext k; cases k <;> rfl, rfl, rfl, fun _ hj => absurd hj (Nat.not_lt_zero _)⟩
  obtain ⟨em', hs, -⟩ := session_refines_intent _ _ [.bufferEvent (.mem ⟨.load, 0x10, 4⟩),
    .addObserver .mem 8, .flushEvents, .bufferEvent (.sync ⟨.lock, 0x20⟩), .flushEvents] h
    (by decide)
  exact ⟨h, by decide, em', hs⟩

/-- In that session the observer registered after the load was buffered receives it, and the
sync event, which has no observer, reaches nobody. -/
example : (Intent.session ⟨fun | .mem => [7] | _ => [], [], []⟩
    [.bufferEvent (.mem ⟨.load, 0x10, 4⟩), .addObserver .mem 8, .flushEvents,
      .bufferEvent (.sync ⟨.lock, 0x20⟩), .flushEvents]).2 =
    [.mem 7 ⟨.load, 0x10, 4⟩, .mem 8 ⟨.load, 0x10, 4⟩] := by
  decide

end Sgl
