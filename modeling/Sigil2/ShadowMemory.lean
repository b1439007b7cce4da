import Sigil2.Basic

/-! The shared shadow memory. `STShadowMemory.hpp` is not among the sources, so it is modelled
from the spec: per byte, the last writer, its event id, and the readers since. It is
included under `ALLOW_ADDRESS_OVERFLOW`, so no access throws. -/
namespace STGen

/-- Modelled from the spec: one byte's shadow cell. -/
structure ShadowCell where
  writer : Option Nat
  writerEid : Nat
  readers : List Nat
  deriving DecidableEq, Repr

/-- Modelled from the spec: `STShadowMemory`, a cell for every byte address. -/
structure STShadowMemory where
  cell : Addr → ShadowCell

namespace STShadowMemory

/-- Modelled from the spec: the shadow memory before the first primitive. -/
def empty : STShadowMemory := ⟨fun _ => ⟨none, 0, []⟩⟩

/-- Modelled from the spec: `addr` is one of the bytes `[start, start + size)`, which wrap at
the top of the address space. -/
def inAccess (start size addr : Addr) : Bool := addr - start < size

/-- Modelled from the spec: `getWriterTID`. -/
def getWriterTID (sm : STShadowMemory) (addr : Addr) : Option Nat := (sm.cell addr).writer

/-- Modelled from the spec: `getWriterEID`. -/
def getWriterEID (sm : STShadowMemory) (addr : Addr) : Nat := (sm.cell addr).writerEid

/-- Modelled from the spec: `isReaderTID`. -/
def isReaderTID (sm : STShadowMemory) (addr : Addr) (tid : Nat) : Bool :=
  (sm.cell addr).readers.elem tid

/-- Modelled from the spec: `updateReader` adds `tid` to the readers of every byte. -/
def updateReader (sm : STShadowMemory) (addr size : Addr) (tid : Nat) : STShadowMemory :=
  ⟨fun a => if inAccess addr size a then { sm.cell a with readers := (sm.cell a).readers.insert tid }
    else sm.cell a⟩

/-- Modelled from the spec: `updateWriter` records the writer and its event id for every
byte and clears its readers. -/
def updateWriter (sm : STShadowMemory) (start size : Addr) (tid : Nat) (eid : Nat) :
    STShadowMemory :=
  ⟨fun a => if inAccess start size a then ⟨some tid, eid, []⟩ else sm.cell a⟩

@[simp] theorem getWriterTID_updateReader (sm : STShadowMemory) (addr size a : Addr) (tid : Nat) :
    (sm.updateReader addr size tid).getWriterTID a = sm.getWriterTID a := by
  simp only [updateReader, getWriterTID]
  split <;> rfl

@[simp] theorem getWriterEID_updateReader (sm : STShadowMemory) (addr size a : Addr) (tid : Nat) :
    (sm.updateReader addr size tid).getWriterEID a = sm.getWriterEID a := by
  simp only [updateReader, getWriterEID]
  split <;> rfl

theorem getWriterTID_updateWriter (sm : STShadowMemory) (start size a : Addr) (tid : Nat)
    (eid : Nat) : (sm.updateWriter start size tid eid).getWriterTID a =
      if inAccess start size a then some tid else sm.getWriterTID a := by
  simp only [updateWriter, getWriterTID]
  split <;> rfl

theorem getWriterEID_updateWriter (sm : STShadowMemory) (start size a : Addr) (tid : Nat)
    (eid : Nat) : (sm.updateWriter start size tid eid).getWriterEID a =
      if inAccess start size a then eid else sm.getWriterEID a := by
  simp only [updateWriter, getWriterEID]
  split <;> rfl

end STShadowMemory

end STGen
