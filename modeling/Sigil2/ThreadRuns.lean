import Sigil2.ThreadContextSpec

/-! Runs of one `ThreadContext`, and where its bookkeeping departs from its intent. -/
namespace STGen

/-- A primitive as `EventHandlers` passes it to the current context. -/
inductive Prim where
  | iop
  | flop
  | read (start bytes : Addr)
  | write (start bytes : Addr)
  | sync (syncType : Nat) (syncAddr : Addr)
  | instr
  deriving DecidableEq, Repr

namespace ThreadContext

/-- One primitive, against the shadow memory `sm`. -/
def handle (tc : ThreadContext) (sm : STShadowMemory) :
    Prim → Except Halt (ThreadContext × STShadowMemory × List Record)
  | .iop => tc.onIop.map fun r => (r.1, sm, r.2)
  | .flop => tc.onFlop.map fun r => (r.1, sm, r.2)
  | .read start bytes => tc.onRead sm start bytes
  | .write start bytes => tc.onWrite sm start bytes
  | .sync syncType syncAddr => (tc.onSync syncType syncAddr).map fun r => (r.1, sm, r.2)
  | .instr => .ok (tc.onInstr.1, sm, tc.onInstr.2)

/-- A run of one context. Each primitive meets the shadow memory given with it: the other
threads may have stored in between. -/
def runPrims : ThreadContext → List (STShadowMemory × Prim) →
    Except Halt (ThreadContext × List Record)
  | tc, [] => .ok (tc, [])
  | tc, (sm, p) :: ps => do
    let (tc, _, out) ← tc.handle sm p
    let (tc, out') ← runPrims tc ps
    pure (tc, out ++ out')

variable {tc tc' : ThreadContext} {sm sm' : STShadowMemory} {recs : List Record}

theorem handle_effect {p : Prim} (handled : tc.handle sm p = .ok (tc', sm', recs)) :
    Effect tc sm tc' sm' recs := by
  cases p with
  | iop =>
    obtain ⟨⟨tc₁, r₁⟩, h₁, h₂⟩ := map_eq_ok.mp handled
    cases h₂
    exact onIop_effect sm h₁
  | flop =>
    obtain ⟨⟨tc₁, r₁⟩, h₁, h₂⟩ := map_eq_ok.mp handled
    cases h₂
    exact onFlop_effect sm h₁
  | read start bytes => exact onRead_effect handled
  | write start bytes => exact onWrite_effect handled
  | sync syncType syncAddr =>
    obtain ⟨⟨tc₁, r₁⟩, h₁, h₂⟩ := map_eq_ok.mp handled
    cases h₂
    exact onSync_effect sm h₁
  | instr =>
    cases handled
    exact onInstr_effect tc sm

theorem runPrims_counted {ps : List (STShadowMemory × Prim)}
    (ran : tc.runPrims ps = .ok (tc', recs)) : Counted tc.events tc'.events recs := by
  induction ps generalizing tc recs with
  | nil => cases ran; rfl
  | cons p ps ih =>
    obtain ⟨⟨tc₁, sm₁, r₁⟩, h₁, h₂⟩ := bind_eq_ok.mp ran
    obtain ⟨⟨tc₂, r₂⟩, h₃, h₄⟩ := bind_eq_ok.mp h₂
    cases h₄
    exact counted_append (handle_effect h₁).counted (ih h₃)

/-- The event ids a context hands its logger over any run and its destruction follow one
counter from the context's start: compute and communication records each take the next
value, sync records take the current one without advancing it. -/
theorem runPrims_destroy_counted {ps : List (STShadowMemory × Prim)} {tc₁ tc₂ : ThreadContext}
    {recs' : List Record} (ran : tc.runPrims ps = .ok (tc₁, recs))
    (destroyed : tc₁.destroy = .ok (tc₂, recs')) : Counted tc.events tc₂.events (recs ++ recs') :=
  counted_append (runPrims_counted ran) (destroy_effect .empty destroyed).counted

theorem sync_iop_comm_load_counted :
    ∃ tc₁ tc₂ recs recs', (create 2 100).runPrims [(.empty, .sync 1 0), (.empty, .iop),
        (STShadowMemory.empty.updateWriter 0x10 1 1 0, .read 0x10 1)] = .ok (tc₁, recs) ∧
      tc₁.destroy = .ok (tc₂, recs') ∧ Counted (create 2 100).events tc₂.events (recs ++ recs') := by
  obtain ⟨tc₁, recs, tc₂, recs', h₁, h₂⟩ : ∃ tc₁ recs tc₂ recs',
      (create 2 100).runPrims [(.empty, .sync 1 0), (.empty, .iop),
        (STShadowMemory.empty.updateWriter 0x10 1 1 0, .read 0x10 1)] = .ok (tc₁, recs) ∧
      tc₁.destroy = .ok (tc₂, recs') := ⟨_, _, _, _, rfl, rfl⟩
  exact ⟨tc₁, tc₂, recs, recs', h₁, h₂, runPrims_destroy_counted h₁ h₂⟩

/-- `onSync` hands the logger the counter without advancing it, so the compute record that
follows a sync record is logged under the same event id. -/
theorem onSync_shares_eid_with_next :
    (do
      let (tc, recs) ← (create 1 100).onSync 1 0
      let (tc, recs') ← tc.onIop
      let (_, recs'') ← tc.destroy
      pure (recs ++ recs' ++ recs'')) =
    .ok [.sync 1 0 0 1, .comp { STCompEvent.init with iops := 1, isActive := true } 0 1] :=
  rfl

/-- `onWrite` activates the compute aggregator without flushing an active communication
aggregator: after a load that forms a communication edge and a store, both are active. -/
theorem store_after_comm_load_both_active :
    (do
      let (tc, sm, _) ← (create 2 100).onRead (STShadowMemory.empty.updateWriter 0x10 1 1 0) 0x10 1
      let (tc, _, _) ← tc.onWrite sm 0x20 1
      pure (tc.stComp.isActive, tc.stComm.isActive)) = .ok (true, true) :=
  rfl

/-- A load whose first byte forms a communication edge and whose second byte is local adds
the local byte to the inactive compute aggregator; the compute record that follows carries
that read range with a read count of zero. -/
theorem mixed_load_keeps_local_bytes :
    (do
      let (tc, _, _) ← (create 2 100).onRead (STShadowMemory.empty.updateWriter 0x10 1 1 0) 0x10 2
      let idle := (tc.stComp.isActive, tc.stComp.uniqueReadAddrs)
      let (tc, _) ← tc.onIop
      let (_, recs) ← tc.destroy
      pure (idle, recs)) =
    .ok ((false, ⟨[(0x11, 0x11)]⟩),
      [.comp ⟨1, 0, 0, 0, ⟨[]⟩, ⟨[(0x11, 0x11)]⟩, true⟩ 1 2]) := by
  rw [← AddrSet.insert_empty]
  rfl

/-- `updateWrites` hands `AddrSet::insert` the range `(start, start + size - 1)` in 64-bit
arithmetic. A store of size 0 at `0x10` counts as a write and records the inverted range
`(0x10, 0x0f)`; at address 0 it records `(0, addrMax)`, every byte; a 2-byte store at the top
address records the inverted range `(addrMax, 0)`. -/
theorem empty_store_records_inverted_range :
    (do
      let (tc, _, _) ← (create 1 100).onWrite .empty 0x10 0
      let (tc₀, _, _) ← (create 1 100).onWrite .empty 0 0
      let (tcTop, _, _) ← (create 1 100).onWrite .empty addrMax 2
      pure (tc.stComp.writes, tc.stComp.uniqueWriteAddrs, tc₀.stComp.uniqueWriteAddrs,
        tcTop.stComp.uniqueWriteAddrs)) =
    .ok (1, ⟨[(0x10, 0x0f)]⟩, ⟨[(0, addrMax)]⟩, ⟨[(addrMax, 0)]⟩) := by
  rw [← AddrSet.insert_empty (0x10, 0x0f), ← AddrSet.insert_empty (0, addrMax),
    ← AddrSet.insert_empty (addrMax, 0)]
  rfl

end ThreadContext

/-- An inactive compute aggregator holds no counts and no write ranges. -/
def CompIdle (c : STCompEvent) : Prop :=
  c.isActive = false →
    c.iops = 0 ∧ c.flops = 0 ∧ c.reads = 0 ∧ c.writes = 0 ∧ c.uniqueWriteAddrs = ⟨[]⟩

theorem compIdle_of_active {c : STCompEvent} (active : c.isActive = true) : CompIdle c :=
  fun h' => absurd (active.symm.trans h') (by decide)

theorem compIdle_reset (c : STCompEvent) : CompIdle c.reset :=
  fun _ => ⟨rfl, rfl, rfl, rfl, rfl⟩

theorem compIdle_updateReads {c : STCompEvent} (idle : CompIdle c) (b n : Addr) :
    CompIdle (c.updateReads b n) :=
  idle

namespace ThreadContext

variable {tc tc' : ThreadContext} {sm sm' : STShadowMemory} {recs : List Record}

theorem compFlushIfActive_compIdle (idle : CompIdle tc.stComp)
    (flushed : tc.compFlushIfActive = .ok (tc', recs)) : CompIdle tc'.stComp := by
  rcases compFlushIfActive_ok flushed with ⟨-, rfl, -⟩ | ⟨-, rfl, -⟩
  · exact compIdle_reset _
  · exact idle

theorem checkCompFlushLimit_compIdle (idle : CompIdle tc.stComp)
    (checked : tc.checkCompFlushLimit = .ok (tc', recs)) : CompIdle tc'.stComp := by
  unfold checkCompFlushLimit at checked
  split at checked
  · exact compFlushIfActive_compIdle idle checked
  · cases checked
    exact idle

theorem readLoop_compIdle (tid : Nat) (addrs : List Addr) :
    ∀ st : ReadLoop, CompIdle st.stComp → CompIdle (addrs.foldl (readByte tid) st).stComp := by
  induction addrs with
  | nil => exact fun _ h => h
  | cons a as ih =>
    intro st h
    apply ih
    rw [readByte_stComp]
    split
    · exact h
    · exact compIdle_updateReads h _ _

theorem handle_compIdle {p : Prim} (idle : CompIdle tc.stComp)
    (handled : tc.handle sm p = .ok (tc', sm', recs)) : CompIdle tc'.stComp := by
  cases p with
  | iop | flop =>
    obtain ⟨⟨tc₁, r₁⟩, h₁, h₂⟩ := map_eq_ok.mp handled
    obtain ⟨⟨tc₂, r₂⟩, -, h₃⟩ := bind_eq_ok.mp h₁
    cases h₃; cases h₂
    exact compIdle_of_active rfl
  | read start bytes =>
    have hl := readLoop_compIdle tc.tid (loadAddrs start bytes) ⟨tc.stComp, tc.stComm, sm, false⟩ idle
    obtain ⟨tc₁, r₁, tc₂, r₂, hflush, h₃, rfl, -, rfl⟩ := onRead_ok handled
    rcases hflush with ⟨-, tc₀, -, rfl⟩ | ⟨-, h₁⟩
    · exact (checkCompFlushLimit_compIdle (compIdle_of_active rfl) h₃ :)
    · exact (checkCompFlushLimit_compIdle (compFlushIfActive_compIdle hl h₁) h₃ :)
  | write start bytes =>
    obtain ⟨⟨tc₁, r₁⟩, h₁, h₂⟩ := bind_eq_ok.mp handled
    cases h₂
    exact (checkCompFlushLimit_compIdle (compIdle_of_active rfl) h₁ :)
  | sync syncType syncAddr =>
    obtain ⟨⟨tc₁, r₁⟩, h₁, h₂⟩ := map_eq_ok.mp handled
    obtain ⟨⟨tc₂, r₂⟩, h₃, h₄⟩ := bind_eq_ok.mp h₁
    obtain ⟨⟨tc₃, r₃⟩, h₅, h₆⟩ := bind_eq_ok.mp h₄
    cases h₆; cases h₂
    exact commFlushIfActive_stComp h₅ ▸ compFlushIfActive_compIdle idle h₃
  | instr =>
    cases handled
    exact idle

theorem runPrims_keeps_compIdle {ps : List (STShadowMemory × Prim)} (idle : CompIdle tc.stComp)
    (ran : tc.runPrims ps = .ok (tc', recs)) : CompIdle tc'.stComp := by
  induction ps generalizing tc recs with
  | nil => cases ran; exact idle
  | cons p ps ih =>
    obtain ⟨⟨tc₁, sm₁, r₁⟩, h₁, h₂⟩ := bind_eq_ok.mp ran
    obtain ⟨⟨tc₂, r₂⟩, h₃, h₄⟩ := bind_eq_ok.mp h₂
    cases h₄
    exact ih (handle_compIdle idle h₁) h₃

/-- Over every run from construction, with any shadow memory at each step, an inactive
compute aggregator holds no counts and no write ranges. Its read ranges are not covered:
a mixed load adds local bytes to it while it is inactive. -/
theorem runPrims_compIdle {tid n : Nat} {ps : List (STShadowMemory × Prim)}
    (ran : (create tid n).runPrims ps = .ok (tc', recs)) : CompIdle tc'.stComp :=
  runPrims_keeps_compIdle (fun _ => ⟨rfl, rfl, rfl, rfl, rfl⟩) ran

theorem mixed_load_leaves_compIdle :
    ∃ tc' recs, (create 2 100).runPrims
        [(STShadowMemory.empty.updateWriter 0x10 1 1 0, .read 0x10 2)] = .ok (tc', recs) ∧
      CompIdle tc'.stComp := by
  obtain ⟨tc', recs, h⟩ : ∃ tc' recs, (create 2 100).runPrims
      [(STShadowMemory.empty.updateWriter 0x10 1 1 0, .read 0x10 2)] = .ok (tc', recs) :=
    ⟨_, _, rfl⟩
  exact ⟨tc', recs, h, runPrims_compIdle h⟩

end ThreadContext

/-- The compute aggregator is below the cap `n` in reads and in writes. -/
def BelowCap (n : Nat) (c : STCompEvent) : Prop := c.reads < n ∧ c.writes < n

/-- A compute record is within the cap `n` in reads and in writes; the other records carry
no counts. -/
def Record.WithinCap (n : Nat) : Record → Prop
  | .comp ev _ _ => ev.reads ≤ n ∧ ev.writes ≤ n
  | _ => True

theorem readLoop_counts (tid : Nat) (addrs : List Addr) :
    ∀ st : ReadLoop, (addrs.foldl (readByte tid) st).stComp.reads = st.stComp.reads ∧
      (addrs.foldl (readByte tid) st).stComp.writes = st.stComp.writes := by
  induction addrs with
  | nil => exact fun _ => ⟨rfl, rfl⟩
  | cons a as ih =>
    intro st
    rw [List.foldl_cons, (ih _).1, (ih _).2, readByte_stComp]
    split <;> exact ⟨rfl, rfl⟩

namespace ThreadContext

variable {tc tc' : ThreadContext} {sm sm' : STShadowMemory} {recs : List Record} {n : Nat}

theorem compFlushIfActive_cap (pos : 0 < n) (belowCap : BelowCap n tc.stComp)
    (flushed : tc.compFlushIfActive = .ok (tc', recs)) :
    tc'.primsPerStCompEv = tc.primsPerStCompEv ∧ BelowCap n tc'.stComp ∧
      ∀ r ∈ recs, r.WithinCap n := by
  rcases compFlushIfActive_ok flushed with ⟨-, rfl, rfl⟩ | ⟨-, rfl, rfl⟩
  · refine ⟨rfl, ⟨pos, pos⟩, fun r hr => ?_⟩
    rw [List.mem_singleton.mp hr]
    exact ⟨belowCap.1.le, belowCap.2.le⟩
  · exact ⟨rfl, belowCap, List.forall_mem_nil _⟩

theorem commFlushIfActive_cap (flushed : tc.commFlushIfActive = .ok (tc', recs)) :
    tc'.primsPerStCompEv = tc.primsPerStCompEv ∧ tc'.stComp = tc.stComp ∧
      ∀ r ∈ recs, ∀ n, r.WithinCap n := by
  rcases commFlushIfActive_ok flushed with ⟨-, rfl, rfl⟩ | ⟨-, rfl, rfl⟩
  · refine ⟨rfl, rfl, fun r hr _ => ?_⟩
    rw [List.mem_singleton.mp hr]
    trivial
  · exact ⟨rfl, rfl, List.forall_mem_nil _⟩

theorem checkCompFlushLimit_cap (checked : tc.checkCompFlushLimit = .ok (tc', recs)) (pos : 0 < n)
    (cap : tc.primsPerStCompEv = n) (readsLe : tc.stComp.reads ≤ n) (writesLe : tc.stComp.writes ≤ n)
    (active : tc.stComp.isActive = true ∨ BelowCap n tc.stComp) :
    tc'.primsPerStCompEv = n ∧ BelowCap n tc'.stComp ∧ ∀ r ∈ recs, r.WithinCap n := by
  unfold checkCompFlushLimit at checked
  split at checked
  · rcases compFlushIfActive_ok checked with ⟨-, rfl, rfl⟩ | ⟨hact, rfl, rfl⟩
    · refine ⟨cap, ⟨pos, pos⟩, fun r hr' => ?_⟩
      rw [List.mem_singleton.mp hr']
      exact ⟨readsLe, writesLe⟩
    · exact ⟨cap, active.resolve_left (by simp [hact]), List.forall_mem_nil _⟩
  · cases checked
    exact ⟨cap, by unfold BelowCap; omega, List.forall_mem_nil _⟩

theorem checkCompFlushLimit_logs_iff (cap : tc.primsPerStCompEv = n) (readsLe : tc.stComp.reads ≤ n)
    (writesLe : tc.stComp.writes ≤ n) (checked : tc.checkCompFlushLimit = .ok (tc', recs)) :
    recs ≠ [] ↔ tc.stComp.isActive = true ∧ (tc.stComp.reads = n ∨ tc.stComp.writes = n) := by
  unfold checkCompFlushLimit at checked
  split at checked
  · rcases compFlushIfActive_ok checked with ⟨hact, -, rfl⟩ | ⟨hact, -, rfl⟩
    · exact iff_of_true (List.cons_ne_nil _ _) ⟨hact, by omega⟩
    · exact iff_of_false (fun h => h rfl) fun ⟨ha, _⟩ => by rw [hact] at ha; cases ha
  · cases checked
    exact iff_of_false (fun h => h rfl) fun ⟨_, he⟩ => by omega

theorem handle_cap {p : Prim} (pos : 0 < n) (cap : tc.primsPerStCompEv = n)
    (belowCap : BelowCap n tc.stComp) (handled : tc.handle sm p = .ok (tc', sm', recs)) :
    tc'.primsPerStCompEv = n ∧ BelowCap n tc'.stComp ∧ ∀ r ∈ recs, r.WithinCap n := by
  cases p with
  | iop | flop =>
    obtain ⟨⟨tc₁, r₁⟩, h₁, h₂⟩ := map_eq_ok.mp handled
    obtain ⟨⟨tc₂, r₂⟩, h₃, h₄⟩ := bind_eq_ok.mp h₁
    cases h₄; cases h₂
    obtain ⟨hp, hs, hr⟩ := commFlushIfActive_cap h₃
    exact ⟨hp.trans cap, (hs ▸ belowCap :), fun r hr' => hr r hr' n⟩
  | read start bytes =>
    obtain ⟨hlr, hlw⟩ :=
      readLoop_counts tc.tid (loadAddrs start bytes) ⟨tc.stComp, tc.stComm, sm, false⟩
    obtain ⟨tc₁, r₁, tc₂, r₂, hflush, h₃, rfl, -, rfl⟩ := onRead_ok handled
    rcases hflush with ⟨-, tc₀, h₁, rfl⟩ | ⟨-, h₁⟩
    · obtain ⟨hp₁, hs₁, hr₁⟩ := commFlushIfActive_cap h₁
      obtain ⟨hp₂, hc₂, hr₂⟩ := checkCompFlushLimit_cap h₃ pos (hp₁.trans cap)
        (show tc₀.stComp.reads + 1 ≤ n by rw [hs₁, hlr]; exact belowCap.1)
        (show tc₀.stComp.writes ≤ n by rw [hs₁, hlw]; exact belowCap.2.le) (.inl rfl)
      exact ⟨hp₂, hc₂, List.forall_mem_append.mpr ⟨fun r hr => hr₁ r hr n, hr₂⟩⟩
    · obtain ⟨hp₁, hc₁, hr₁⟩ := compFlushIfActive_cap pos
        (show BelowCap n _ by unfold BelowCap; rw [hlr, hlw]; exact belowCap) h₁
      obtain ⟨hp₂, hc₂, hr₂⟩ :=
        checkCompFlushLimit_cap h₃ pos (hp₁.trans cap) hc₁.1.le hc₁.2.le (.inr hc₁)
      exact ⟨hp₂, hc₂, List.forall_mem_append.mpr ⟨hr₁, hr₂⟩⟩
  | write start bytes =>
    obtain ⟨⟨tc₁, r₁⟩, h₁, h₂⟩ := bind_eq_ok.mp handled
    cases h₂
    exact (checkCompFlushLimit_cap h₁ pos cap belowCap.1.le belowCap.2 (.inl rfl) :)
  | sync syncType syncAddr =>
    obtain ⟨⟨tc₁, r₁⟩, h₁, h₂⟩ := map_eq_ok.mp handled
    obtain ⟨⟨tc₂, r₂⟩, h₃, h₄⟩ := bind_eq_ok.mp h₁
    obtain ⟨⟨tc₃, r₃⟩, h₅, h₆⟩ := bind_eq_ok.mp h₄
    cases h₆; cases h₂
    obtain ⟨hp₂, hc₂, hr₂⟩ := compFlushIfActive_cap pos belowCap h₃
    obtain ⟨hp₃, hs₃, hr₃⟩ := commFlushIfActive_cap h₅
    exact ⟨hp₃.trans (hp₂.trans cap), hs₃ ▸ hc₂, List.forall_mem_append.mpr
      ⟨List.forall_mem_append.mpr ⟨hr₂, fun r hr => hr₃ r hr n⟩,
        List.forall_mem_singleton.mpr trivial⟩⟩
  | instr =>
    cases handled
    exact ⟨cap, belowCap, fun _ hr => mem_onInstr hr ▸ trivial⟩

theorem runPrims_cap {ps : List (STShadowMemory × Prim)} (pos : 0 < n)
    (cap : tc.primsPerStCompEv = n) (belowCap : BelowCap n tc.stComp)
    (ran : tc.runPrims ps = .ok (tc', recs)) :
    tc'.primsPerStCompEv = n ∧ BelowCap n tc'.stComp ∧ ∀ r ∈ recs, r.WithinCap n := by
  induction ps generalizing tc recs with
  | nil => cases ran; exact ⟨cap, belowCap, List.forall_mem_nil _⟩
  | cons p ps ih =>
    obtain ⟨⟨tc₁, sm₁, r₁⟩, h₁, h₂⟩ := bind_eq_ok.mp ran
    obtain ⟨⟨tc₂, r₂⟩, h₃, h₄⟩ := bind_eq_ok.mp h₂
    cases h₄
    obtain ⟨hN₁, hc₁, hr₁⟩ := handle_cap pos cap belowCap h₁
    obtain ⟨hN₂, hc₂, hr₂⟩ := ih hN₁ hc₁ h₃
    exact ⟨hN₂, hc₂, List.forall_mem_append.mpr ⟨hr₁, hr₂⟩⟩

/-- From construction with a positive cap, over every run with any shadow memory at each
step: an active compute aggregator is below the cap in reads and in writes, so the assertion
of `checkCompFlushLimit` holds; every compute record logged is within the cap; and the cap
check, on the counts at most the cap that the handlers give it, logs a compute record exactly
when the event is active and its reads or its writes have reached the cap. -/
theorem runPrims_respects_cap {tid : Nat} {ps : List (STShadowMemory × Prim)} (pos : 0 < n)
    (ran : (create tid n).runPrims ps = .ok (tc', recs)) :
    (tc'.stComp.isActive = true → tc'.stComp.reads < n ∧ tc'.stComp.writes < n) ∧
      (∀ r ∈ recs, r.WithinCap n) ∧
      ∀ (tc₀ tc₁ : ThreadContext) (out : List Record), tc₀.primsPerStCompEv = n →
        tc₀.stComp.reads ≤ n → tc₀.stComp.writes ≤ n →
        tc₀.checkCompFlushLimit = .ok (tc₁, out) →
        (out ≠ [] ↔ tc₀.stComp.isActive = true ∧ (tc₀.stComp.reads = n ∨ tc₀.stComp.writes = n)) := by
  obtain ⟨-, hc, hr⟩ := runPrims_cap pos rfl ⟨pos, pos⟩ ran
  exact ⟨fun _ => hc, hr, fun _ _ _ hN => checkCompFlushLimit_logs_iff hN⟩

theorem three_stores_reach_cap :
    ∃ tc' recs, (create 1 3).runPrims [(.empty, .write 0 1), (.empty, .write 8 1),
        (.empty, .write 16 1), (.empty, .write 24 1)] = .ok (tc', recs) ∧ 0 < 3 ∧
      ((tc'.stComp.isActive = true → tc'.stComp.reads < 3 ∧ tc'.stComp.writes < 3) ∧
      (∀ r ∈ recs, r.WithinCap 3) ∧
      ∀ (tc₀ tc₁ : ThreadContext) (out : List Record), tc₀.primsPerStCompEv = 3 →
        tc₀.stComp.reads ≤ 3 → tc₀.stComp.writes ≤ 3 →
        tc₀.checkCompFlushLimit = .ok (tc₁, out) →
        (out ≠ [] ↔ tc₀.stComp.isActive = true ∧ (tc₀.stComp.reads = 3 ∨ tc₀.stComp.writes = 3))) := by
  obtain ⟨tc', recs, h⟩ : ∃ tc' recs, (create 1 3).runPrims [(.empty, .write 0 1),
      (.empty, .write 8 1), (.empty, .write 16 1), (.empty, .write 24 1)] = .ok (tc', recs) :=
    ⟨_, _, rfl⟩
  exact ⟨tc', recs, h, by decide, runPrims_respects_cap (by decide) h⟩

end ThreadContext

end STGen
