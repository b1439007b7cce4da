import Sigil2.Dispatcher
import Sigil2.Loads

/-! When a load forms a communication edge, against the history of loads and stores. -/
namespace STGen

open STShadowMemory AddrSet

section History

/-- A memory access as the shadow memory sees it: the thread and the bytes. -/
inductive Access where
  | load (tid : Nat) (start bytes : Addr)
  | store (tid : Nat) (start bytes : Addr)
  deriving DecidableEq, Repr

/-- The thread of the last store to byte `a`. -/
def lastWriter (hist : List Access) (a : Addr) : Option Nat :=
  hist.foldl (fun w acc => match acc with
    | .store t start bytes => if inAccess start bytes a then some t else w
    | .load .. => w) none

/-- Thread `r` has loaded byte `a` since the last store to it. -/
def loadedSince (hist : List Access) (r : Nat) (a : Addr) : Bool :=
  hist.foldl (fun b acc => match acc with
    | .store _ start bytes => if inAccess start bytes a then false else b
    | .load t start bytes => b || (inAccess start bytes a && decide (r = t))) false

/-- A load of byte `a` by `r` forms a communication edge with producer `w` exactly when the
last store to `a` was `w`'s, `w` is another thread, and `r` has not loaded `a` since. -/
def commEdge (hist : List Access) (r : Nat) (a : Addr) : Option Nat :=
  match lastWriter hist a with
  | some w => if loadedSince hist r a = false ∧ w ≠ r then some w else none
  | none => none

end History

namespace EventHandlers

/-- The shadow memory holds the history's summary: each byte's writer is its last writer,
and its readers are the threads that have loaded it since. The current thread is the
history's, and `cachedTCxt` points to it. -/
structure Matches (g : Globals) (h : EventHandlers) (s : Nat × List Access) : Prop where
  current : h.currentTID = s.1
  cached : ∀ t, h.cachedTCxt = some t → t = s.1
  writer : ∀ a, g.shadow.getWriterTID a = lastWriter s.2 a
  reader : ∀ a r, g.shadow.isReaderTID a r = loadedSince s.2 r a

theorem Matches.of_globals {g g' : Globals} {h : EventHandlers} {s : Nat × List Access}
    (summary : Matches g h s) (sameShadow : g'.shadow = g.shadow) : Matches g' h s :=
  ⟨summary.current, summary.cached, sameShadow ▸ summary.writer, sameShadow ▸ summary.reader⟩

theorem Matches.commEdgeWriter {g : Globals} {h : EventHandlers} {s : Nat × List Access}
    (summary : Matches g h s) (r : Nat) (a : Addr) :
    commEdgeWriter g.shadow r a = commEdge s.2 r a := by
  cases hw : lastWriter s.2 a <;> simp only [STGen.commEdgeWriter, commEdge, summary.writer, summary.reader, hw]

variable {g g' : Globals} {h h' : EventHandlers} {s : Nat × List Access}

end EventHandlers

end STGen
