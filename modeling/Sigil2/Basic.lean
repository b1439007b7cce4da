import Mathlib.Data.List.Basic
import Mathlib.Algebra.Group.Nat.Basic

/-! The frontend's primitive records and the backend's scalar types; `Addr` wraps at `2 ^ 64`. -/

/-- `MemTypeEnum`: loads, stores, and any other memory primitive, which is ignored. -/
inductive MemTypeEnum where
  | load | store | other
  deriving DecidableEq, Repr

/-- `CompCostTypeEnum`: integer and floating-point operations; others are ignored. -/
inductive CompCostTypeEnum where
  | iop | flop | other
  deriving DecidableEq, Repr

/-- `SyncTypeEnum`, with `other` for every code that `convertAndFlush` does not name. -/
inductive SyncTypeEnum where
  | swap | create | join | barrier | lock | unlock
  | condWait | condSig | condBroad | spinLock | spinUnlock | other
  deriving DecidableEq, Repr

/-- `CxtTypeEnum`: instruction boundaries, and other context markers. -/
inductive CxtTypeEnum where
  | instr | other
  deriving DecidableEq, Repr

structure SglMemEv where
  type : MemTypeEnum
  begin_addr : UInt64
  size : UInt64
  deriving DecidableEq, Repr

structure SglCompEv where
  type : CompCostTypeEnum
  deriving DecidableEq, Repr

structure SglSyncEv where
  type : SyncTypeEnum
  id : UInt64
  deriving DecidableEq, Repr

structure SglCxtEv where
  type : CxtTypeEnum
  deriving DecidableEq, Repr

/-- A primitive as delivered to one of the backend's four entry points. -/
inductive SglEv where
  | mem (ev : SglMemEv)
  | comp (ev : SglCompEv)
  | sync (ev : SglSyncEv)
  | cxt (ev : SglCxtEv)
  deriving DecidableEq, Repr

namespace STGen

abbrev Addr := UInt64
abbrev AddrRange := Addr × Addr

/-- The highest address: `addrMax + 1 = 0`. -/
def addrMax : Addr := 18446744073709551615

/-- How a run of the backend stops early. -/
inductive Halt where
  /-- `SigiLog::fatal`: a diagnostic, then process exit. -/
  | fatal (msg : String)
  /-- An uncaught `std::out_of_range`, as thrown by `std::map::at`. -/
  | outOfRange
  /-- A handler called through `cachedTCxt` while it is still `nullptr`. -/
  | nullTCxt
  deriving DecidableEq, Repr

/- Address comparisons and `+ 1` read as arithmetic on the values. -/

theorem addr_le_iff (a b : Addr) : a ≤ b ↔ a.toNat ≤ b.toNat := Iff.rfl

theorem addr_lt_iff (a b : Addr) : a < b ↔ a.toNat < b.toNat := Iff.rfl

theorem addr_eq_iff (a b : Addr) : a = b ↔ a.toNat = b.toNat :=
  ⟨fun h => h ▸ rfl, UInt64.toNat.inj⟩

theorem addr_toNat_lt (a : Addr) : a.toNat < 2 ^ 64 := a.toNat_lt_size

theorem addr_toNat_add (a b : Addr) : (a + b).toNat = (a.toNat + b.toNat) % 2 ^ 64 := rfl

@[simp] theorem addr_toNat_one : (1 : Addr).toNat = 1 := rfl

@[simp] theorem addrMax_toNat : addrMax.toNat = 2 ^ 64 - 1 := rfl

theorem addr_toNat_succ {a : Addr} (belowTop : a.toNat < 2 ^ 64 - 1) : (a + 1).toNat = a.toNat + 1 := by
  rw [addr_toNat_add, addr_toNat_one]
  omega

theorem bind_eq_ok {ε α β : Type} {x : Except ε α} {f : α → Except ε β} {b : β} :
    x >>= f = .ok b ↔ ∃ a, x = .ok a ∧ f a = .ok b := by
  cases x <;> simp [bind, Except.bind]

theorem map_eq_ok {ε α β : Type} {x : Except ε α} {f : α → β} {b : β} :
    x.map f = .ok b ↔ ∃ a, x = .ok a ∧ f a = b := by
  cases x <;> simp [Except.map]

end STGen
