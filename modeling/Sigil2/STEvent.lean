import Sigil2.AddrSet

/-! The two aggregators a `ThreadContext` keeps, with the method bodies of `STEvent.cpp`, and
the records it hands its logger. -/
namespace STGen

structure STCompEvent where
  iops : Nat
  flops : Nat
  reads : Nat
  writes : Nat
  uniqueWriteAddrs : AddrSet
  uniqueReadAddrs : AddrSet
  isActive : Bool
  deriving DecidableEq, Repr

namespace STCompEvent

/-- The state the constructor's `reset()` leaves. -/
def init : STCompEvent := ⟨0, 0, 0, 0, ⟨[]⟩, ⟨[]⟩, false⟩

def reset (ev : STCompEvent) : STCompEvent :=
  { ev with iops := 0, flops := 0, reads := 0, writes := 0,
            uniqueWriteAddrs := ev.uniqueWriteAddrs.clear,
            uniqueReadAddrs := ev.uniqueReadAddrs.clear, isActive := false }

def incIOP (ev : STCompEvent) : STCompEvent := { ev with isActive := true, iops := ev.iops + 1 }

def incFLOP (ev : STCompEvent) : STCompEvent := { ev with isActive := true, flops := ev.flops + 1 }

def incReads (ev : STCompEvent) : STCompEvent := { ev with isActive := true, reads := ev.reads + 1 }

def incWrites (ev : STCompEvent) : STCompEvent :=
  { ev with isActive := true, writes := ev.writes + 1 }

def updateWrites (ev : STCompEvent) (begin size : Addr) : STCompEvent :=
  { ev with uniqueWriteAddrs := ev.uniqueWriteAddrs.insert (begin, begin + size - 1) }

def updateReads (ev : STCompEvent) (begin size : Addr) : STCompEvent :=
  { ev with uniqueReadAddrs := ev.uniqueReadAddrs.insert (begin, begin + size - 1) }

@[simp] theorem reset_isActive (ev : STCompEvent) : ev.reset.isActive = false := rfl

@[simp] theorem updateReads_isActive (ev : STCompEvent) (b n : Addr) :
    (ev.updateReads b n).isActive = ev.isActive := rfl

@[simp] theorem updateWrites_isActive (ev : STCompEvent) (b n : Addr) :
    (ev.updateWrites b n).isActive = ev.isActive := rfl

end STCompEvent

/-- A producer edge: the writer thread, the writer's event id, and the addresses read. -/
abbrev CommEdge := Nat × Nat × AddrSet

structure STCommEvent where
  comms : List CommEdge
  isActive : Bool
  deriving DecidableEq, Repr

namespace STCommEvent

/-- The state the constructor's `reset()` leaves. -/
def init : STCommEvent := ⟨[], false⟩

def reset (ev : STCommEvent) : STCommEvent := { ev with comms := [], isActive := false }

/-- The loop of `addEdge`: add `addr` to the first edge of `writer` and `writer_event`, or
`none` when there is no such edge. -/
def extendEdge (writer : Nat) (writer_event : Nat) (addr : Addr) :
    List CommEdge → Option (List CommEdge)
  | [] => none
  | e :: es =>
    if e.1 = writer ∧ e.2.1 = writer_event then some ((e.1, e.2.1, e.2.2.insert (addr, addr)) :: es)
    else (extendEdge writer writer_event addr es).map (e :: ·)

def addEdge (ev : STCommEvent) (writer : Nat) (writer_event : Nat) (addr : Addr) : STCommEvent :=
  { isActive := true,
    comms :=
      if ev.comms.isEmpty then [(writer, writer_event, ⟨[(addr, addr)]⟩)]
      else (extendEdge writer writer_event addr ev.comms).getD
        (ev.comms ++ [(writer, writer_event, ⟨[(addr, addr)]⟩)]) }

@[simp] theorem reset_isActive (ev : STCommEvent) : ev.reset.isActive = false := rfl

@[simp] theorem addEdge_isActive (ev : STCommEvent) (w : Nat) (e : Nat) (a : Addr) :
    (ev.addEdge w e a).isActive = true := rfl

theorem producers_extendEdge {w : Nat} {e : Nat} {a : Addr} :
    ∀ {es es' : List CommEdge}, extendEdge w e a es = some es' →
      ∀ x ∈ es', ∃ y ∈ es, x.1 = y.1 ∧ x.2.1 = y.2.1
  | [], _, h => by cases h
  | f :: fs, es', h => by
    unfold extendEdge at h
    split at h
    · cases h
      intro x hx
      rcases List.mem_cons.mp hx with rfl | hx
      · exact ⟨f, .head _, rfl, rfl⟩
      · exact ⟨x, .tail _ hx, rfl, rfl⟩
    · obtain ⟨gs, hgs, rfl⟩ := Option.map_eq_some'.mp h
      intro x hx
      rcases List.mem_cons.mp hx with rfl | hx
      · exact ⟨x, .head _, rfl, rfl⟩
      · obtain ⟨y, hy, h1, h2⟩ := producers_extendEdge hgs x hx
        exact ⟨y, .tail _ hy, h1, h2⟩

theorem producers_addEdge (ev : STCommEvent) (w : Nat) (e : Nat) (a : Addr) :
    ∀ x ∈ (ev.addEdge w e a).comms, (∃ y ∈ ev.comms, x.1 = y.1 ∧ x.2.1 = y.2.1) ∨
      (x.1 = w ∧ x.2.1 = e) := by
  intro x hx
  simp only [addEdge] at hx
  split at hx
  · simp only [List.mem_singleton] at hx
    exact .inr (by rw [hx]; exact ⟨rfl, rfl⟩)
  · cases h : extendEdge w e a ev.comms with
    | none =>
      rw [h, Option.getD_none] at hx
      rcases List.mem_append.mp hx with hx | hx
      · exact .inl ⟨x, hx, rfl, rfl⟩
      · exact .inr (by rw [List.mem_singleton.mp hx]; exact ⟨rfl, rfl⟩)
    | some es' =>
      rw [h, Option.getD_some] at hx
      exact .inl (producers_extendEdge h x hx)

end STCommEvent

/-- One call of the logger strategy: `flush(stComp, events, tid)`, `flush(stComm, events, tid)`,
`flush(syncType, syncAddr, events, tid)` or `instrMarker(limit)`. -/
inductive Record where
  | comp (ev : STCompEvent) (eid : Nat) (tid : Nat)
  | comm (ev : STCommEvent) (eid : Nat) (tid : Nat)
  | sync (syncType : Nat) (syncAddr : Addr) (eid : Nat) (tid : Nat)
  | instrMarker (limit : Nat)
  deriving DecidableEq, Repr

namespace Record

/-- The event id a record is logged under; instruction markers have none. -/
def eid? : Record → Option Nat
  | comp _ e _ => some e
  | comm _ e _ => some e
  | sync _ _ e _ => some e
  | instrMarker _ => none

/-- Whether a record is an instruction marker. -/
def isMarker : Record → Bool
  | instrMarker _ => true
  | _ => false

end Record

end STGen
