import Sigil2.STEvent
import Sigil2.ShadowMemory

/-! `ThreadContext`: one thread's aggregators, counter and statistics, and its handlers, which
return the records they log. Assertions are compiled out; `INCR_EID_OVERFLOW` is `fatal`.
`PerBarrierStats` is not among the sources and is left out. -/
namespace STGen

/-- The `Stats` tuple, indexed by `IOP`, `FLOP`, `READ`, `WRITE` and `INSTR`. -/
structure Stats where
  iop : Nat
  flop : Nat
  read : Nat
  write : Nat
  instr : Nat
  deriving DecidableEq, Repr

structure ThreadContext where
  stComp : STCompEvent
  stComm : STCommEvent
  tid : Nat
  primsPerStCompEv : Nat
  stats : Stats
  events : Nat
  deriving DecidableEq, Repr

/-- `INCR_EID_OVERFLOW`: the incremented 64-bit event counter, or `none` when it would wrap. -/
def incrEid (e : Nat) : Option Nat := if e + 1 < 2 ^ 64 then some (e + 1) else none

/-- The state `onRead`'s byte loop carries from one byte to the next. -/
structure ReadLoop where
  stComp : STCompEvent
  stComm : STCommEvent
  shadow : STShadowMemory
  isCommEdge : Bool

/-- The bytes `onRead` visits, in order: `start + i` for `i < bytes`, wrapping. -/
def loadAddrs (start bytes : Addr) : List Addr :=
  (List.range bytes.toNat).map fun i => start + UInt64.ofNat i

/-- `onRead`'s test: the writer of `addr` when a load of it by `tid` forms a communication
edge, that is when `tid` has not read it since the last write and the writer is defined
and another thread. -/
def commEdgeWriter (shadow : STShadowMemory) (tid : Nat) (addr : Addr) : Option Nat :=
  match shadow.getWriterTID addr with
  | some writer => if shadow.isReaderTID addr tid = false ∧ writer ≠ tid then some writer else none
  | none => none

/-- One iteration of `onRead`'s byte loop. -/
def readByte (tid : Nat) (st : ReadLoop) (addr : Addr) : ReadLoop :=
  let shadow := if st.shadow.isReaderTID addr tid = false then st.shadow.updateReader addr 1 tid
    else st.shadow
  match commEdgeWriter st.shadow tid addr with
  | some writer =>
    { st with shadow, isCommEdge := true,
              stComm := st.stComm.addEdge writer (shadow.getWriterEID addr) addr }
  | none => { st with shadow, stComp := st.stComp.updateReads addr 1 }

namespace ThreadContext

/-- The constructor, with its assertions on `tid` and `primsPerStCompEv` compiled out. -/
def create (tid : Nat) (primsPerStCompEv : Nat) : ThreadContext :=
  ⟨STCompEvent.init, STCommEvent.init, tid, primsPerStCompEv, ⟨0, 0, 0, 0, 0⟩, 0⟩

def compFlushIfActive (tc : ThreadContext) : Except Halt (ThreadContext × List Record) :=
  if tc.stComp.isActive then
    match incrEid tc.events with
    | some e => .ok ({ tc with stComp := tc.stComp.reset, events := e },
        [.comp tc.stComp tc.events tc.tid])
    | none => .error (.fatal ("Event ID overflow detected in thread: " ++ toString tc.tid))
  else .ok (tc, [])

def commFlushIfActive (tc : ThreadContext) : Except Halt (ThreadContext × List Record) :=
  if tc.stComm.isActive then
    match incrEid tc.events with
    | some e => .ok ({ tc with stComm := tc.stComm.reset, events := e },
        [.comm tc.stComm tc.events tc.tid])
    | none => .error (.fatal ("Event ID overflow detected in thread: " ++ toString tc.tid))
  else .ok (tc, [])

def checkCompFlushLimit (tc : ThreadContext) : Except Halt (ThreadContext × List Record) :=
  if tc.stComp.writes ≥ tc.primsPerStCompEv ∨ tc.stComp.reads ≥ tc.primsPerStCompEv then
    tc.compFlushIfActive
  else .ok (tc, [])

def onIop (tc : ThreadContext) : Except Halt (ThreadContext × List Record) := do
  let (tc, out) ← tc.commFlushIfActive
  pure ({ tc with stComp := tc.stComp.incIOP, stats := { tc.stats with iop := tc.stats.iop + 1 } },
    out)

def onFlop (tc : ThreadContext) : Except Halt (ThreadContext × List Record) := do
  let (tc, out) ← tc.commFlushIfActive
  pure ({ tc with stComp := tc.stComp.incFLOP,
                  stats := { tc.stats with flop := tc.stats.flop + 1 } }, out)

def onRead (tc : ThreadContext) (shadow : STShadowMemory) (start bytes : Addr) :
    Except Halt (ThreadContext × STShadowMemory × List Record) := do
  let st := (loadAddrs start bytes).foldl (readByte tc.tid) ⟨tc.stComp, tc.stComm, shadow, false⟩
  let tc := { tc with stComp := st.stComp, stComm := st.stComm }
  let (tc, out) ← if st.isCommEdge = false then do
      let (tc, out) ← tc.commFlushIfActive
      pure ({ tc with stComp := tc.stComp.incReads }, out)
    else tc.compFlushIfActive
  let (tc, out') ← tc.checkCompFlushLimit
  pure ({ tc with stats := { tc.stats with read := tc.stats.read + 1 } }, st.shadow, out ++ out')

def onWrite (tc : ThreadContext) (shadow : STShadowMemory) (start bytes : Addr) :
    Except Halt (ThreadContext × STShadowMemory × List Record) := do
  let tc := { tc with stComp := tc.stComp.incWrites.updateWrites start bytes }
  let shadow := shadow.updateWriter start bytes tc.tid tc.events
  let (tc, out) ← tc.checkCompFlushLimit
  pure ({ tc with stats := { tc.stats with write := tc.stats.write + 1 } }, shadow, out)

def onSync (tc : ThreadContext) (syncType : Nat) (syncAddr : Addr) :
    Except Halt (ThreadContext × List Record) := do
  let (tc, out) ← tc.compFlushIfActive
  let (tc, out') ← tc.commFlushIfActive
  pure (tc, out ++ out' ++ [.sync syncType syncAddr tc.events tc.tid])

def onInstr (tc : ThreadContext) : ThreadContext × List Record :=
  let tc := { tc with stats := { tc.stats with instr := tc.stats.instr + 1 } }
  let limit := 1 <<< 12
  (tc, if (limit - 1) &&& tc.stats.instr = 0 then [.instrMarker limit] else [])

/-- `~ThreadContext`: both aggregators are flushed. -/
def destroy (tc : ThreadContext) : Except Halt (ThreadContext × List Record) := do
  let (tc, out) ← tc.compFlushIfActive
  let (tc, out') ← tc.commFlushIfActive
  pure (tc, out ++ out')

end ThreadContext

end STGen
