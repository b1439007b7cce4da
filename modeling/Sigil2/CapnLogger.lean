import Sigil2.ThreadRuns

/-! `CapnLogger`: a thread's events written as Cap'n Proto messages of `eventsPerMessage`
events. The schema and `CapnLogger.hpp` are not among the sources: an `Event` is what its
builders set, the counters are `Nat`s, and the gz file itself is not modelled. -/
namespace STGen

/-- `Event::SyncType`. -/
inductive Event.SyncType where
  | lock | unlock | spawn | join | barrier
  | condWait | condSignal | condBroadcast | spinLock | spinUnlock
  deriving DecidableEq, Repr

/-- A communication edge as `flush(const STCommEvent&)` sets it. -/
structure Event.Edge where
  producerThread : Nat
  producerEvent : Nat
  addrs : List AddrRange
  deriving DecidableEq, Repr

/-- The `Event` union, with the fields its builders set. -/
inductive Event where
  | comp (iops flops reads writes : Nat) (writeAddrs readAddrs : List AddrRange)
  | comm (edges : List Event.Edge)
  | sync (type : Event.SyncType) (id : Addr)
  | marker (count : Nat)
  deriving DecidableEq, Repr

namespace Event

/-- The body of `flush(const STCompEvent&, eid, tid)`. As in the source, the read ranges are
copied from `uniqueWriteAddrs`. -/
def ofComp (ev : STCompEvent) : Event :=
  .comp ev.iops ev.flops ev.reads ev.writes ev.uniqueWriteAddrs.get ev.uniqueWriteAddrs.get

/-- The body of `flush(const STCommEvent&, eid, tid)`. -/
def ofComm (ev : STCommEvent) : Event :=
  .comm (ev.comms.map fun e => ⟨e.1, e.2.1, e.2.2.get⟩)

/-- The `switch` of `flush(syncType, syncAddr, eid, tid)`. -/
def ofSync (syncType : Nat) (syncAddr : Addr) : Except Halt Event :=
  match syncType with
  | 1 => .ok (.sync .lock syncAddr)
  | 2 => .ok (.sync .unlock syncAddr)
  | 3 => .ok (.sync .spawn syncAddr)
  | 4 => .ok (.sync .join syncAddr)
  | 5 => .ok (.sync .barrier syncAddr)
  | 6 => .ok (.sync .condWait syncAddr)
  | 7 => .ok (.sync .condSignal syncAddr)
  | 8 => .ok (.sync .condBroadcast syncAddr)
  | 9 => .ok (.sync .spinLock syncAddr)
  | 10 => .ok (.sync .spinUnlock syncAddr)
  | _ => .error (.fatal "capnlogger encountered unhandled sync event")

/-- The `Event` the call for a record builds. -/
def of : Record → Except Halt Event
  | .comp ev _ _ => .ok (ofComp ev)
  | .comm ev _ _ => .ok (ofComm ev)
  | .sync syncType syncAddr _ _ => ofSync syncType syncAddr
  | .instrMarker limit => .ok (.marker limit)

end Event

/-- A record `CapnLogger` encodes without stopping: a sync record's type is one of the ten
its `switch` translates. -/
def Record.Encodable : Record → Prop
  | .sync syncType _ _ _ => 1 ≤ syncType ∧ syncType ≤ 10
  | _ => True

namespace Event

theorem of_ok_of_encodable {r : Record} (encodable : r.Encodable) : ∃ e, of r = .ok e := by
  cases r with
  | sync syncType syncAddr _ _ =>
    match syncType, encodable with
    | 1, _ | 2, _ | 3, _ | 4, _ | 5, _ | 6, _ | 7, _ | 8, _ | 9, _ | 10, _ => exact ⟨_, rfl⟩
    | 0, h => exact absurd h.1 (by decide)
    | n + 11, h => exact absurd h.2 (by omega)
  | _ => exact ⟨_, rfl⟩

theorem mapM_of_ok {rs : List Record} (encodable : ∀ r ∈ rs, r.Encodable) :
    ∃ es, rs.mapM of = .ok es := by
  induction rs with
  | nil => exact ⟨[], rfl⟩
  | cons r rs ih =>
    obtain ⟨e, he⟩ := of_ok_of_encodable (encodable r (.head _))
    obtain ⟨es, hes⟩ := ih fun r' h => encodable r' (.tail _ h)
    exact ⟨e :: es, by rw [List.mapM_cons, he, hes]; rfl⟩

end Event

/-- One thread's logger: the orphans built since the last message, the counter `events`, and
the `EventStream` messages written to the gz stream so far, oldest first. -/
structure CapnLogger where
  eventsPerMessage : Nat
  orphans : List Event
  events : Nat
  stream : List (List Event)
  deriving DecidableEq, Repr

namespace CapnLogger

def create (eventsPerMessage : Nat) : CapnLogger := ⟨eventsPerMessage, [], 0, []⟩

/-- `flushOrphans`: a message of `events` events, the orphans at `0 .. events - 1`, is
written and the orphans are released. The caller resets `events`. -/
def flushOrphans (lg : CapnLogger) : CapnLogger :=
  { lg with stream := lg.stream ++ [lg.orphans.take lg.events], orphans := [] }

/-- The tail every call shares: the orphan is kept, and a message is written once
`eventsPerMessage` are held. -/
def addOrphan (lg : CapnLogger) (ev : Event) : CapnLogger :=
  let lg := { lg with orphans := lg.orphans ++ [ev], events := lg.events + 1 }
  if lg.events = lg.eventsPerMessage then { lg.flushOrphans with events := 0 } else lg

/-- `flush(const STCompEvent&, eid, tid)`. -/
def flushComp (lg : CapnLogger) (ev : STCompEvent) : CapnLogger := lg.addOrphan (.ofComp ev)

/-- `flush(const STCommEvent&, eid, tid)`. -/
def flushComm (lg : CapnLogger) (ev : STCommEvent) : CapnLogger := lg.addOrphan (.ofComm ev)

/-- `flush(syncType, syncAddr, eid, tid)`: `fatal` on a type outside `1 .. 10`. -/
def flushSync (lg : CapnLogger) (syncType : Nat) (syncAddr : Addr) : Except Halt CapnLogger :=
  (Event.ofSync syncType syncAddr).map lg.addOrphan

def instrMarker (lg : CapnLogger) (limit : Nat) : CapnLogger := lg.addOrphan (.marker limit)

/-- The call a `ThreadContext` makes for a record. -/
def log (lg : CapnLogger) : Record → Except Halt CapnLogger
  | .comp ev _ _ => .ok (lg.flushComp ev)
  | .comm ev _ _ => .ok (lg.flushComm ev)
  | .sync syncType syncAddr _ _ => lg.flushSync syncType syncAddr
  | .instrMarker limit => .ok (lg.instrMarker limit)

/-- Calls in order, stopping at the first `fatal`. -/
def logAll (lg : CapnLogger) : List Record → Except Halt CapnLogger
  | [] => .ok lg
  | r :: rs => do
    let lg ← lg.log r
    logAll lg rs

/-- `~CapnLogger`: the orphans left, if any, are written. -/
def destroy (lg : CapnLogger) : CapnLogger := if lg.events > 0 then lg.flushOrphans else lg

theorem log_eq (lg : CapnLogger) (r : Record) : lg.log r = (Event.of r).map lg.addOrphan := by
  cases r <;> rfl

/-- The logger holds the events `es` logged so far: the messages written, then the orphans.
Every message written is a full batch, and `events` counts the orphans. -/
structure Batched (es : List Event) (lg : CapnLogger) : Prop where
  content : lg.stream.flatten ++ lg.orphans = es
  full : ∀ m ∈ lg.stream, m.length = lg.eventsPerMessage ∧ m ≠ []
  counted : lg.orphans.length = lg.events

variable {es : List Event} {lg : CapnLogger}

theorem Batched.create (n : Nat) : Batched [] (create n) :=
  ⟨rfl, List.forall_mem_nil _, rfl⟩

theorem eventsPerMessage_addOrphan (lg : CapnLogger) (ev : Event) :
    (lg.addOrphan ev).eventsPerMessage = lg.eventsPerMessage := by
  unfold addOrphan
  dsimp only
  split <;> rfl

theorem Batched.addOrphan (batched : Batched es lg) (ev : Event) :
    Batched (es ++ [ev]) (lg.addOrphan ev) := by
  have hlen : (lg.orphans ++ [ev]).length = lg.events + 1 := by
    rw [List.length_append, batched.counted, List.length_singleton]
  unfold CapnLogger.addOrphan
  dsimp only
  split
  · next hfull =>
    refine ⟨?_, fun m hm => ?_, rfl⟩
    · simp only [flushOrphans, List.take_of_length_le hlen.le, List.flatten_append,
        List.flatten_singleton, List.append_nil, ← batched.content, List.append_assoc]
    · rcases List.mem_append.mp hm with hm | hm
      · exact batched.full m hm
      · rw [List.mem_singleton.mp hm, List.take_of_length_le hlen.le, hlen]
        exact ⟨hfull, List.append_ne_nil_of_right_ne_nil _ (List.cons_ne_nil _ _)⟩
  · exact ⟨by rw [← List.append_assoc, batched.content], batched.full, hlen⟩

theorem Batched.destroy (batched : Batched es lg) :
    lg.destroy.stream.flatten = es ∧
      (∀ m ∈ lg.destroy.stream.dropLast, m.length = lg.eventsPerMessage) ∧
      ∀ m ∈ lg.destroy.stream, m ≠ [] := by
  unfold CapnLogger.destroy
  split
  · next hpos =>
    have htake : lg.orphans.take lg.events = lg.orphans :=
      List.take_of_length_le batched.counted.le
    refine ⟨?_, fun m hm => ?_, fun m hm => ?_⟩
    · rw [flushOrphans, htake, List.flatten_append, List.flatten_singleton, batched.content]
    · rw [flushOrphans, List.dropLast_concat] at hm
      exact (batched.full m hm).1
    · rcases List.mem_append.mp hm with hm | hm
      · exact (batched.full m hm).2
      · rw [List.mem_singleton.mp hm, htake]
        exact List.ne_nil_of_length_pos (batched.counted ▸ hpos)
  · next hzero =>
    have hnil : lg.orphans = [] := List.eq_nil_of_length_eq_zero (by rw [batched.counted]; omega)
    refine ⟨by rw [← batched.content, hnil, List.append_nil], fun m hm => ?_,
      fun m hm => (batched.full m hm).2⟩
    exact (batched.full m (List.dropLast_subset _ hm)).1

theorem logAll_batched {rs : List Record} {es' : List Event} (batched : Batched es lg)
    (converted : rs.mapM Event.of = .ok es') :
    ∃ lg', lg.logAll rs = .ok lg' ∧ Batched (es ++ es') lg' ∧
      lg'.eventsPerMessage = lg.eventsPerMessage := by
  induction rs generalizing es es' lg with
  | nil =>
    cases converted
    exact ⟨lg, rfl, (List.append_nil es).symm ▸ batched, rfl⟩
  | cons r rs ih =>
    rw [List.mapM_cons] at converted
    obtain ⟨e, he, hrest⟩ := bind_eq_ok.mp converted
    obtain ⟨es'', hes'', hq⟩ := bind_eq_ok.mp hrest
    cases hq
    obtain ⟨lg', hrun, hB', hN⟩ := ih (batched.addOrphan e) hes''
    refine ⟨lg', ?_, by rwa [List.append_assoc] at hB',
      hN.trans (eventsPerMessage_addOrphan lg e)⟩
    rw [logAll, log_eq, he]
    exact hrun

/-- Any calls the strategy receives, then the destructor: every call returns, the messages
written hold the events the calls build, in call order; every message but the last is a full
batch of `eventsPerMessage` events; none is empty; and after the calls `events` counts the
orphans held. -/
theorem logAll_destroy_batches {n : Nat} {rs : List Record} {es : List Event}
    (converted : rs.mapM Event.of = .ok es) :
    ∃ lg, (create n).logAll rs = .ok lg ∧ lg.orphans.length = lg.events ∧
      lg.destroy.stream.flatten = es ∧ (∀ m ∈ lg.destroy.stream.dropLast, m.length = n) ∧
      ∀ m ∈ lg.destroy.stream, m ≠ [] := by
  obtain ⟨lg, hrun, hB, hN⟩ := logAll_batched (Batched.create n) converted
  rw [List.nil_append] at hB
  obtain ⟨hflat, hfull, hne⟩ := hB.destroy
  exact ⟨lg, hrun, hB.counted, hflat, fun m hm => (hfull m hm).trans hN, hne⟩

theorem five_events_two_per_message :
    [Record.instrMarker 4096, .sync 1 0x40 0 1, .sync 2 0x40 0 1, .instrMarker 4096,
        .sync 5 0x80 1 1].mapM Event.of =
      .ok [.marker 4096, .sync .lock 0x40, .sync .unlock 0x40, .marker 4096,
        .sync .barrier 0x80] ∧
    ∃ lg, (create 2).logAll [.instrMarker 4096, .sync 1 0x40 0 1, .sync 2 0x40 0 1,
        .instrMarker 4096, .sync 5 0x80 1 1] = .ok lg ∧ lg.orphans.length = lg.events ∧
      lg.destroy.stream.flatten = [.marker 4096, .sync .lock 0x40, .sync .unlock 0x40,
        .marker 4096, .sync .barrier 0x80] ∧
      (∀ m ∈ lg.destroy.stream.dropLast, m.length = 2) ∧ ∀ m ∈ lg.destroy.stream, m ≠ [] :=
  ⟨rfl, logAll_destroy_batches rfl⟩

/-- Those five events go out as two full messages and a last one of one event. -/
example : (do
      let lg ← (create 2).logAll [.instrMarker 4096, .sync 1 0x40 0 1, .sync 2 0x40 0 1,
        .instrMarker 4096, .sync 5 0x80 1 1]
      pure lg.destroy.stream) =
    .ok [[.marker 4096, .sync .lock 0x40], [.sync .unlock 0x40, .marker 4096],
      [.sync .barrier 0x80]] :=
  rfl

/-- The compute event of a thread's one local load, at `0x10`, has the read range
`(0x10, 0x10)` and no write range; its `Event` is written with no read range, since
`flush(const STCompEvent&)` copies the read ranges from `uniqueWriteAddrs`. -/
theorem local_load_written_without_read_range :
    (do
      let (tc, _, _) ← (ThreadContext.create 1 100).onRead .empty 0x10 1
      let (_, recs) ← tc.destroy
      let evs ← recs.mapM Event.of
      pure (recs, evs)) =
    .ok ([.comp ⟨0, 0, 1, 0, ⟨[]⟩, ⟨[(0x10, 0x10)]⟩, true⟩ 0 1], [.comp 0 0 1 0 [] []]) := by
  rw [← AddrSet.insert_empty]
  rfl

end CapnLogger

end STGen
