import Sigil2.CapnLogger
import Sigil2.Routing
import Sigil2.Trace

/-! The files a run writes under `CapnLogger`. -/
namespace STGen

namespace ThreadContext

variable {tc tc' : ThreadContext} {sm sm' : STShadowMemory} {recs : List Record}

theorem compFlushIfActive_encodable (flushed : tc.compFlushIfActive = .ok (tc', recs)) :
    ∀ r ∈ recs, r.Encodable := by
  rcases compFlushIfActive_ok flushed with ⟨-, -, rfl⟩ | ⟨-, -, rfl⟩ <;> simp [Record.Encodable]

theorem commFlushIfActive_encodable (flushed : tc.commFlushIfActive = .ok (tc', recs)) :
    ∀ r ∈ recs, r.Encodable := by
  rcases commFlushIfActive_ok flushed with ⟨-, -, rfl⟩ | ⟨-, -, rfl⟩ <;> simp [Record.Encodable]

theorem checkCompFlushLimit_encodable (checked : tc.checkCompFlushLimit = .ok (tc', recs)) :
    ∀ r ∈ recs, r.Encodable := by
  unfold checkCompFlushLimit at checked
  split at checked
  · exact compFlushIfActive_encodable checked
  · cases checked
    simp

theorem flushBoth_encodable (h : EventHandlers.flushBoth tc = .ok (tc', recs)) :
    ∀ r ∈ recs, r.Encodable := by
  obtain ⟨⟨tc₁, r₁⟩, h₁, h₂⟩ := bind_eq_ok.mp h
  obtain ⟨⟨tc₂, r₂⟩, h₃, h₄⟩ := bind_eq_ok.mp h₂
  cases h₄
  exact List.forall_mem_append.mpr ⟨compFlushIfActive_encodable h₁, commFlushIfActive_encodable h₃⟩

theorem handle_encodable {p : Prim} (syncTypes : ∀ t a, p = .sync t a → 1 ≤ t ∧ t ≤ 10)
    (handled : tc.handle sm p = .ok (tc', sm', recs)) : ∀ r ∈ recs, r.Encodable := by
  cases p with
  | iop | flop =>
    obtain ⟨⟨tc₁, r₁⟩, h₁, h₂⟩ := map_eq_ok.mp handled
    obtain ⟨⟨tc₂, r₂⟩, h₃, h₄⟩ := bind_eq_ok.mp h₁
    cases h₄; cases h₂
    exact commFlushIfActive_encodable h₃
  | read start bytes =>
    obtain ⟨tc₁, r₁, tc₂, r₂, hflush, h₃, -, -, rfl⟩ := onRead_ok handled
    refine List.forall_mem_append.mpr ⟨?_, checkCompFlushLimit_encodable h₃⟩
    rcases hflush with ⟨-, tc₀, h₁, -⟩ | ⟨-, h₁⟩
    exacts [commFlushIfActive_encodable h₁, compFlushIfActive_encodable h₁]
  | write start bytes =>
    obtain ⟨⟨tc₁, r₁⟩, h₁, h₂⟩ := bind_eq_ok.mp handled
    cases h₂
    exact checkCompFlushLimit_encodable h₁
  | sync syncType syncAddr =>
    obtain ⟨⟨tc₁, r₁⟩, h₁, h₂⟩ := map_eq_ok.mp handled
    obtain ⟨⟨tc₂, r₂⟩, h₃, h₄⟩ := bind_eq_ok.mp h₁
    obtain ⟨⟨tc₃, r₃⟩, h₅, h₆⟩ := bind_eq_ok.mp h₄
    cases h₆; cases h₂
    exact List.forall_mem_append.mpr ⟨List.forall_mem_append.mpr ⟨compFlushIfActive_encodable h₃,
      commFlushIfActive_encodable h₅⟩, List.forall_mem_singleton.mpr (syncTypes syncType syncAddr rfl)⟩
  | instr =>
    cases handled
    exact fun _ hr => mem_onInstr hr ▸ trivial

end ThreadContext

namespace EventHandlers

/-- Every record in the files is one `CapnLogger` encodes. -/
def FilesEncodable (g : Globals) : Prop := ∀ p ∈ g.out, p.2.Encodable

theorem stSyncType_le (type : SyncTypeEnum) : stSyncType type ≤ 10 := by
  cases type <;> decide

theorem route_call_sync {ev : SglEv} {t : Nat} {a : Addr} (calls : route ev = .call (.sync t a)) :
    1 ≤ t ∧ t ≤ 10 := by
  cases ev with
  | sync e =>
    simp only [route] at calls
    split_ifs at calls with hsw hpos
    cases calls
    exact ⟨hpos, stSyncType_le _⟩
  | mem e => obtain ⟨type, _, _⟩ := e; cases type <;> cases calls
  | comp e => obtain ⟨type⟩ := e; cases type <;> cases calls
  | cxt e => simp only [route] at calls; split_ifs at calls; cases calls

variable {g g' : Globals} {h h' : EventHandlers}

theorem withCached_encodable
    {f : ThreadContext → STShadowMemory → Except Halt (ThreadContext × STShadowMemory × List Record)}
    (encodable : FilesEncodable g)
    (encodes : ∀ tc sm tc' sm' recs, f tc sm = .ok (tc', sm', recs) → ∀ r ∈ recs, r.Encodable)
    (called : withCached g h f = .ok (g', h')) : FilesEncodable g' := by
  obtain ⟨t, tc, tc', sm, recs, -, -, hfo, rfl, -⟩ := withCached_ok called
  intro p hp
  rcases List.mem_append.mp hp with hp | hp
  · exact encodable p hp
  · obtain ⟨r, hr, rfl⟩ := List.mem_map.mp hp
    exact encodes _ _ _ _ _ hfo r hr

theorem onSwapTCxt_encodable {n : Nat} (encodable : FilesEncodable g)
    (swapped : onSwapTCxt g h n = .ok (g', h')) : FilesEncodable g' := by
  obtain ⟨-, rfl, rfl⟩ | ⟨g₁, h₁, g₂, h₂, -, hnew, hflush, -, rfl, rfl⟩ := onSwapTCxt_ok swapped
  · exact encodable
  have hg₁ : FilesEncodable g₁ := by
    rcases hnew with ⟨-, rfl, -⟩ | ⟨-, rfl, -⟩ <;> exact encodable
  rcases hflush with hflush | ⟨-, rfl, -⟩
  · refine withCached_encodable hg₁ (fun _ _ _ _ _ hfo => ?_) hflush
    obtain ⟨⟨tc₁, r₁⟩, hfb, hq⟩ := map_eq_ok.mp hfo
    cases hq
    exact ThreadContext.flushBoth_encodable hfb
  · exact hg₁

theorem step_encodable {ev : SglEv} (encodable : FilesEncodable g) (stepped : step g h ev = .ok (g', h')) :
    FilesEncodable g' := by
  have hg₀ : FilesEncodable (noteSync g h ev) :=
    fun p hp => encodable p ((noteSync_frame g h ev).2.2 ▸ hp)
  rw [step_route] at stepped
  generalize hr : route ev = r at stepped
  cases r with
  | swap t => exact onSwapTCxt_encodable encodable stepped
  | call p =>
    exact withCached_encodable hg₀ (fun _ _ _ _ _ => ThreadContext.handle_encodable
      fun t a hp => route_call_sync (hp ▸ hr)) stepped
  | skip =>
    cases stepped
    exact hg₀

theorem run_encodable {evs : List SglEv} (encodable : FilesEncodable g)
    (ran : run g h evs = .ok (g', h')) : FilesEncodable g' :=
  run_preserves (fun g _ => FilesEncodable g) step_encodable encodable ran

theorem destroyTCxts_encodable {ps : List (Nat × ThreadContext)}
    (destroyed : destroyTCxts g ps = .ok g') (encodable : FilesEncodable g) : FilesEncodable g' := by
  refine destroyTCxts_preserves FilesEncodable (fun henc hdes q hq => ?_) encodable destroyed
  rcases List.mem_append.mp hq with hq | hq
  · exact henc q hq
  · obtain ⟨r, hr, rfl⟩ := List.mem_map.mp hq
    exact ThreadContext.flushBoth_encodable hdes r hr

/-- Under `CapnLogger`, after any run of the dispatcher and the destructor, each thread's
logger receives the thread's records in order and never stops on an unhandled sync type, and
the messages it writes hold their events in order, in full batches of `eventsPerMessage` but
the last, none empty. -/
theorem capn_files_batched {n N : Nat} {evs : List SglEv} {g g' : Globals} {h : EventHandlers}
    (ran : run (Globals.init n) EventHandlers.init evs = .ok (g, h)) (destroyed : destroy g h = .ok g')
    (t : Nat) :
    ∃ es lg, (recsOf g'.out t).mapM Event.of = .ok es ∧
      (CapnLogger.create N).logAll (recsOf g'.out t) = .ok lg ∧
      lg.destroy.stream.flatten = es ∧ (∀ m ∈ lg.destroy.stream.dropLast, m.length = N) ∧
      ∀ m ∈ lg.destroy.stream, m ≠ [] := by
  have hg : FilesEncodable g := run_encodable (fun _ h => absurd h (List.not_mem_nil _)) ran
  have hg' : FilesEncodable g' := destroyTCxts_encodable destroyed hg
  obtain ⟨es, hes⟩ := Event.mapM_of_ok fun r hr => by
    obtain ⟨i, hi⟩ := mem_recsOf.mp hr
    exact hg' _ (List.getElem?_mem hi)
  obtain ⟨lg, hlog, hB, hN⟩ := CapnLogger.logAll_batched (CapnLogger.Batched.create N) hes
  rw [List.nil_append] at hB
  obtain ⟨hflat, hfull, hne⟩ := hB.destroy
  exact ⟨es, lg, hes, hlog, hflat, fun m hm => (hfull m hm).trans hN, hne⟩

theorem lock_iop_unlock_file :
    ∃ g h g', run (Globals.init 100) EventHandlers.init [.sync ⟨.swap, 1⟩, .sync ⟨.lock, 0x40⟩,
        .comp ⟨.iop⟩, .sync ⟨.unlock, 0x40⟩] = .ok (g, h) ∧ destroy g h = .ok g' ∧
      ∃ es lg, (recsOf g'.out 1).mapM Event.of = .ok es ∧
        (CapnLogger.create 2).logAll (recsOf g'.out 1) = .ok lg ∧
        lg.destroy.stream.flatten = es ∧ (∀ m ∈ lg.destroy.stream.dropLast, m.length = 2) ∧
        ∀ m ∈ lg.destroy.stream, m ≠ [] := by
  obtain ⟨g, h, g', hrun, hd⟩ : ∃ g h g', run (Globals.init 100) EventHandlers.init
      [.sync ⟨.swap, 1⟩, .sync ⟨.lock, 0x40⟩, .comp ⟨.iop⟩, .sync ⟨.unlock, 0x40⟩] = .ok (g, h) ∧
      destroy g h = .ok g' := ⟨_, _, _, rfl, rfl⟩
  exact ⟨g, h, g', hrun, hd, capn_files_batched hrun hd 1⟩

/-- In that run thread 1's file holds two messages: the lock and the compute event of the
`IOP` it flushes, then the unlock. -/
example : (do
      let (g, h) ← run (Globals.init 100) EventHandlers.init [.sync ⟨.swap, 1⟩,
        .sync ⟨.lock, 0x40⟩, .comp ⟨.iop⟩, .sync ⟨.unlock, 0x40⟩]
      let g' ← destroy g h
      let lg ← (CapnLogger.create 2).logAll (recsOf g'.out 1)
      pure lg.destroy.stream) =
    .ok [[.sync .lock 0x40, .comp 1 0 0 0 [] []], [.sync .unlock 0x40]] :=
  rfl

end EventHandlers

end STGen
