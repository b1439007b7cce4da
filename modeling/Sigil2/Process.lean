import Sigil2.Instances
import Sigil2.Dispatcher
import Sigil2.Barriers
import Sigil2.Delivery
import Sigil2.Options

/-! One process: several `EventHandlers` instances sharing the globals, their calls interleaved
one at a time. The globals' lists are touched under `gMtx`, and each instance's own fields by
that instance alone, so a finer interleaving changes nothing proved here. -/
namespace STGen

namespace CapnLogger

/-- The file `CapnLogger(tid, outputPath)` opens. -/
def filePath (outputPath : String) (tid : Nat) : String :=
  outputPath ++ "/sigil.events.out-" ++ toString tid ++ ".capn.bin.gz"

theorem filePath_injective (outputPath : String) {t t' : Nat}
    (same : filePath outputPath t = filePath outputPath t') : t = t' := by
  have h' := congrArg String.data same
  simp only [filePath, String.data_append] at h'
  have hd := List.append_cancel_left (List.append_cancel_right h')
  rw [← (toString_digits t).2.2, ← (toString_digits t').2.2]
  exact congrArg (decValue 0) hd

end CapnLogger

namespace EventHandlers

/-- Primitives delivered to instances that share the globals, one after another: `(i, ev)`
is `ev` on instance `i`. -/
def runAll (g : Globals) (insts : Nat → EventHandlers) :
    List (Nat × SglEv) → Except Halt (Globals × (Nat → EventHandlers))
  | [] => .ok (g, insts)
  | (i, ev) :: calls => do
    let (g, h) ← step g (insts i) ev
    runAll g (Function.update insts i h) calls

theorem runAll_preserves (P : Globals → (Nat → EventHandlers) → Prop)
    (preserved : ∀ {g insts g' h' i ev}, P g insts → step g (insts i) ev = .ok (g', h') →
      P g' (Function.update insts i h'))
    {calls : List (Nat × SglEv)} {g g' : Globals} {insts insts' : Nat → EventHandlers}
    (holds : P g insts) (ran : runAll g insts calls = .ok (g', insts')) : P g' insts' := by
  induction calls generalizing g insts with
  | nil =>
    cases ran
    exact holds
  | cons c calls ih =>
    obtain ⟨⟨g₁, h₁⟩, hs, ran⟩ := bind_eq_ok.mp ran
    exact ih (preserved holds hs) ran

/-- The threads with a context in the instance. -/
def threads (h : EventHandlers) : List Nat := h.tcxts.map Prod.fst

theorem isSome_lookup_iff {β : Type} (l : List (Nat × β)) (t : Nat) :
    (l.lookup t).isSome ↔ t ∈ l.map Prod.fst := by
  simp only [List.lookup_isSome_iff, beq_iff_eq, List.mem_map]
  exact exists_congr fun p => and_congr_right fun _ => eq_comm

theorem keys_insertIfAbsent {β : Type} (l : List (Nat × β)) (t : Nat) (v : β) :
    (if (l.lookup t).isSome then l else l ++ [(t, v)]).map Prod.fst =
      registerTID (l.map Prod.fst) t := by
  by_cases ht : t ∈ l.map Prod.fst
  · simp [registerTID, (isSome_lookup_iff l t).mpr ht, ht]
  · simp [registerTID, mt (isSome_lookup_iff l t).mp ht, ht]

theorem keys_emplace (l : List (Nat × ThreadContext)) (t : Nat) (c : ThreadContext) :
    (emplace l t c).map Prod.fst = registerTID (l.map Prod.fst) t :=
  keys_insertIfAbsent l t c

variable {g g' : Globals} {h h' : EventHandlers}

theorem withCached_threads
    {f : ThreadContext → STShadowMemory → Except Halt (ThreadContext × STShadowMemory × List Record)}
    (called : withCached g h f = .ok (g', h')) :
    h'.threads = h.threads ∧ h'.currentTID = h.currentTID ∧
      g'.newThreadsInOrder = g.newThreadsInOrder := by
  obtain ⟨t, -, tc', -, -, -, -, -, rfl, rfl⟩ := withCached_ok called
  exact ⟨keys_store _ _ _, rfl, rfl⟩

theorem onSwapTCxt_threads {t : Nat} (swapped : onSwapTCxt g h t = .ok (g', h')) :
    h'.currentTID = t ∧ (g' = g ∧ h' = h ∨ t ∈ h'.threads ∧
      (h'.threads = h.threads ∧ g'.newThreadsInOrder = g.newThreadsInOrder ∨
        t ∉ g.newThreadsInOrder ∧ g'.newThreadsInOrder = g.newThreadsInOrder ++ [t] ∧
          h'.threads = registerTID h.threads t)) := by
  obtain ⟨hn, rfl, rfl⟩ | ⟨g₁, h₁, g₂, h₂, -, hreg, hflush, hl, rfl, rfl⟩ := onSwapTCxt_ok swapped
  · exact ⟨hn, .inl ⟨rfl, rfl⟩⟩
  have h₂₁ : h₂.threads = h₁.threads ∧ g'.newThreadsInOrder = g₁.newThreadsInOrder := by
    rcases hflush with hflush | ⟨-, rfl, rfl⟩
    · exact (withCached_threads hflush).imp_right And.right
    · exact ⟨rfl, rfl⟩
  have hmem : t ∈ h₂.threads := (isSome_lookup_iff _ t).mp hl
  refine ⟨rfl, .inr ⟨hmem, ?_⟩⟩
  rw [show threads { h₂ with currentTID := t, cachedTCxt := some t } = h₂.threads from rfl, h₂₁.1,
    h₂₁.2]
  rcases hreg with ⟨hn, rfl, rfl⟩ | ⟨-, rfl, rfl⟩
  · exact .inr ⟨hn, rfl, keys_emplace _ _ _⟩
  · exact .inl ⟨rfl, rfl⟩

theorem step_threads {ev : SglEv} (stepped : step g h ev = .ok (g', h')) :
    (h'.currentTID = h.currentTID ∨ h'.currentTID ∈ h'.threads) ∧
    (h'.threads = h.threads ∧ g'.newThreadsInOrder = g.newThreadsInOrder ∨
      ∃ t, t ∉ g.newThreadsInOrder ∧ g'.newThreadsInOrder = g.newThreadsInOrder ++ [t] ∧
        h'.threads = registerTID h.threads t) := by
  rw [step_route] at stepped
  split at stepped
  · obtain ⟨hcur, ⟨rfl, rfl⟩ | ⟨hmem, hreg⟩⟩ := onSwapTCxt_threads stepped
    · exact ⟨.inl rfl, .inl ⟨rfl, rfl⟩⟩
    · exact ⟨.inr (hcur ▸ hmem), hreg.imp_right fun hr => ⟨_, hr⟩⟩
  · obtain ⟨hth, hcur, hnew⟩ := withCached_threads stepped
    exact ⟨.inl hcur, .inl ⟨hth, hnew.trans (noteSync_frame g h _).1⟩⟩
  · cases stepped
    exact ⟨.inl rfl, .inl ⟨rfl, (noteSync_frame g h _).1⟩⟩

theorem step_swap {ev : SglEv} {t : Nat} (swaps : route ev = .swap t)
    (stepped : step g h ev = .ok (g', h')) : h'.currentTID = t := by
  rw [step_route, swaps] at stepped
  exact (onSwapTCxt_threads stepped).1

/-- Every context is keyed by the thread it was built for. -/
def Keyed (h : EventHandlers) : Prop :=
  ∀ t tc, h.tcxts.lookup t = some tc → tc.tid = t

theorem Keyed.withCached
    {f : ThreadContext → STShadowMemory → Except Halt (ThreadContext × STShadowMemory × List Record)}
    (keyed : Keyed h) (handles : Handles f) (hw : EventHandlers.withCached g h f = .ok (g', h')) :
    Keyed h' := by
  obtain ⟨t, tc, tc', sm, recs, -, hl, hfo, -, rfl⟩ := withCached_ok hw
  intro x c hc
  rw [lookup_store, hl] at hc
  split at hc
  · cases hc
    rw [(handles _ _ _ _ _ hfo).tid, keyed t tc hl]
    exact ‹x = t›.symm
  · exact keyed x c hc

theorem Keyed.onSwapTCxt (keyed : Keyed h) {t : Nat} (swapped : onSwapTCxt g h t = .ok (g', h')) :
    Keyed h' := by
  obtain ⟨-, -, rfl⟩ | ⟨g₁, h₁, g₂, h₂, -, hreg, hflush, -, -, rfl⟩ := onSwapTCxt_ok swapped
  · exact keyed
  have hk₁ : Keyed h₁ := by
    rcases hreg with ⟨-, -, rfl⟩ | ⟨-, -, rfl⟩
    · intro x c hc
      cases hnone : h.tcxts.lookup t with
      | some _ => exact keyed x c (by simpa [emplace, hnone] using hc)
      | none =>
        rw [lookup_emplace_of_none _ hnone] at hc
        split at hc
        · cases hc
          exact (‹x = t›).symm
        · exact keyed x c hc
    · exact keyed
  show Keyed h₂
  rcases hflush with hflush | ⟨-, -, rfl⟩
  · exact hk₁.withCached (fun _ _ _ _ _ hfo => by
      obtain ⟨⟨tc₁, r₁⟩, hfb, hq⟩ := map_eq_ok.mp hfo
      cases hq
      exact flushBoth_effect _ hfb) hflush
  · exact hk₁

theorem Keyed.step (keyed : Keyed h) {ev : SglEv} (stepped : step g h ev = .ok (g', h')) : Keyed h' := by
  rw [step_route] at stepped
  split at stepped
  · exact keyed.onSwapTCxt stepped
  · exact keyed.withCached (fun _ _ _ _ _ => ThreadContext.handle_effect) stepped
  · cases stepped
    exact keyed

/-- `cachedTCxt`, when set, points to the current thread. -/
def CachedCurrent (h : EventHandlers) : Prop :=
  ∀ t, h.cachedTCxt = some t → t = h.currentTID

theorem CachedCurrent.step (current : CachedCurrent h) {ev : SglEv}
    (stepped : step g h ev = .ok (g', h')) : CachedCurrent h' := by
  rw [step_route] at stepped
  split at stepped
  · obtain ⟨-, hcur, hc'⟩ := onSwapTCxt_stats current stepped
    exact fun t ht => hcur ▸ hc' t ht
  · obtain ⟨-, -, -, -, -, -, -, -, -, rfl⟩ := withCached_ok stepped
    exact current
  · cases stepped
    exact current

theorem step_call_current {ev : SglEv} {p : Prim} (calls : route ev = .call p)
    (current : CachedCurrent h) (stepped : step g h ev = .ok (g', h')) : h.currentTID ∈ h.threads := by
  rw [step_route, calls] at stepped
  obtain ⟨t, tc, -, -, -, hct, hl, -⟩ := withCached_ok stepped
  rw [← current t hct]
  exact (isSome_lookup_iff _ t).mp (by rw [hl]; rfl)

theorem forall_update {P : EventHandlers → Prop} {insts : Nat → EventHandlers} {i : Nat}
    {h : EventHandlers} (holds : P h) (all : ∀ j, P (insts j)) :
    ∀ j, P (Function.update insts i h j) :=
  (Function.forall_update_iff insts fun _ => P).mpr ⟨holds, fun j _ => all j⟩

/-- What holds of the shared globals and all the instances between any two calls. -/
structure Partitioned (g : Globals) (insts : Nat → EventHandlers) : Prop where
  /-- No thread has two contexts in one instance. -/
  nodup : ∀ i, (insts i).threads.Nodup
  keyed : ∀ i, Keyed (insts i)
  cached : ∀ i, CachedCurrent (insts i)
  /-- An instance's current thread is `0`, before its first `Swap`, or one of its own. -/
  current : ∀ i, (insts i).currentTID = 0 ∨ (insts i).currentTID ∈ (insts i).threads
  /-- The registered threads are those with a context. -/
  registered : ∀ t, t ∈ g.newThreadsInOrder ↔ ∃ i, t ∈ (insts i).threads
  /-- A thread's context sits in one instance only. -/
  disjoint : ∀ i j t, t ∈ (insts i).threads → t ∈ (insts j).threads → i = j

namespace Partitioned

variable {insts : Nat → EventHandlers}

theorem init (n : Nat) : Partitioned (Globals.init n) fun _ => EventHandlers.init where
  nodup _ := List.nodup_nil
  keyed _ _ _ h := nomatch h
  cached _ _ h := Option.noConfusion h
  current _ := .inl rfl
  registered _ := by simp [Globals.init, threads, EventHandlers.init]
  disjoint _ _ _ h := nomatch h

theorem step (partitioned : Partitioned g insts) {i : Nat} {ev : SglEv}
    (hs : EventHandlers.step g (insts i) ev = .ok (g', h')) :
    Partitioned g' (Function.update insts i h') := by
  obtain ⟨hcur, hreg⟩ := step_threads hs
  obtain ⟨new, hfresh, hnd, hnew, hth⟩ : ∃ new : List Nat,
      (∀ x ∈ new, x ∉ g.newThreadsInOrder) ∧ new.Nodup ∧
      g'.newThreadsInOrder = g.newThreadsInOrder ++ new ∧ h'.threads = (insts i).threads ++ new := by
    rcases hreg with ⟨hth, hnew⟩ | ⟨t, ht, hnew, hth⟩
    · exact ⟨[], by simp, List.nodup_nil, by simp [hnew], by simp [hth]⟩
    · have hti : t ∉ (insts i).threads := fun hm => ht ((partitioned.registered t).mpr ⟨i, hm⟩)
      exact ⟨[t], by simpa using ht, List.nodup_singleton t, hnew, by simp [hth, registerTID, hti]⟩
  have hold : ∀ j x, x ∈ (insts j).threads → x ∉ new := fun j x hx hn =>
    hfresh x hn ((partitioned.registered x).mpr ⟨j, hx⟩)
  have hmem : ∀ j x, x ∈ (Function.update insts i h' j).threads ↔
      x ∈ (insts j).threads ∨ j = i ∧ x ∈ new := by
    intro j x
    by_cases hj : j = i
    · subst hj
      simp [hth]
    · simp [Function.update_noteq hj, hj]
  refine ⟨@forall_update (fun h => h.threads.Nodup) _ _ _ ?_ partitioned.nodup,
    forall_update ((partitioned.keyed i).step hs) partitioned.keyed, forall_update ((partitioned.cached i).step hs) partitioned.cached,
    @forall_update (fun h => h.currentTID = 0 ∨ h.currentTID ∈ h.threads) _ _ _ ?_ partitioned.current,
    fun x => ?_, fun j k x hj hk => ?_⟩
  · beta_reduce
    rw [hth]
    exact List.nodup_append.mpr ⟨partitioned.nodup i, hnd, fun x hx hn => hold i x hx hn⟩
  · beta_reduce
    rw [hth]
    rcases hcur with hc | hc
    · rw [hc]
      exact (partitioned.current i).imp_right (List.mem_append_left _)
    · exact .inr (hth ▸ hc)
  · rw [hnew, List.mem_append, partitioned.registered]
    simp only [hmem]
    constructor
    · rintro (⟨j, hx⟩ | hx)
      exacts [⟨j, .inl hx⟩, ⟨i, .inr ⟨rfl, hx⟩⟩]
    · rintro ⟨j, hx | ⟨-, hx⟩⟩
      exacts [.inl ⟨j, hx⟩, .inr hx]
  · rw [hmem] at hj hk
    rcases hj with hj | ⟨rfl, hj⟩ <;> rcases hk with hk | ⟨rfl, hk⟩
    · exact partitioned.disjoint j k x hj hk
    · exact absurd hk (hold j x hj)
    · exact absurd hj (hold k x hk)
    · rfl

theorem tid_of_mem (partitioned : Partitioned g insts) {i : Nat} {p : Nat × ThreadContext}
    (mem : p ∈ (insts i).tcxts) : p.2.tid = p.1 :=
  partitioned.keyed i _ _ (lookup_of_mem (partitioned.nodup i) mem)

end Partitioned

theorem runAll_partitioned {n : Nat} {calls : List (Nat × SglEv)} {g : Globals}
    {insts : Nat → EventHandlers}
    (ran : runAll (Globals.init n) (fun _ => EventHandlers.init) calls = .ok (g, insts)) :
    Partitioned g insts :=
  runAll_preserves Partitioned (fun hp hs => hp.step hs) (Partitioned.init n) ran

/-- Over every interleaving of primitives on instances that share the globals, from fresh
instances: each registered thread has its context in exactly one instance, and the
`CapnLogger` files of all contexts are distinct, within an instance and across instances. -/
theorem runAll_files_distinct {n : Nat} (outputPath : String) {calls : List (Nat × SglEv)}
    {g : Globals} {insts : Nat → EventHandlers}
    (ran : runAll (Globals.init n) (fun _ => EventHandlers.init) calls = .ok (g, insts)) :
    (∀ t, t ∈ g.newThreadsInOrder ↔ ∃! i, t ∈ (insts i).threads) ∧
    (∀ i, ((insts i).tcxts.map fun p => CapnLogger.filePath outputPath p.2.tid).Nodup) ∧
    ∀ i j p q, p ∈ (insts i).tcxts → q ∈ (insts j).tcxts →
      CapnLogger.filePath outputPath p.2.tid = CapnLogger.filePath outputPath q.2.tid → i = j := by
  have hp := runAll_partitioned ran
  refine ⟨fun t => ?_, fun i => ?_, fun i j p q hpi hqj hpq => ?_⟩
  · rw [hp.registered]
    exact ⟨fun ⟨i, hi⟩ => ⟨i, hi, fun j hj => hp.disjoint j i t hj hi⟩, fun ⟨i, hi, _⟩ => ⟨i, hi⟩⟩
  · have hnd := (hp.nodup i).map fun _ _ => CapnLogger.filePath_injective outputPath
    rw [threads, List.map_map] at hnd
    rwa [List.map_congr_left fun p hm => by rw [hp.tid_of_mem hm]]
  · have ht := CapnLogger.filePath_injective outputPath hpq
    rw [hp.tid_of_mem hpi, hp.tid_of_mem hqj] at ht
    exact hp.disjoint i j q.1 (ht ▸ List.mem_map_of_mem Prod.fst hpi) (List.mem_map_of_mem Prod.fst hqj)

theorem two_instances_files_distinct :
    ∃ g insts, runAll (Globals.init 100) (fun _ => EventHandlers.init)
        [(0, .sync ⟨.swap, 1⟩), (1, .sync ⟨.swap, 2⟩), (0, .mem ⟨.store, 0x10, 4⟩),
          (1, .mem ⟨.load, 0x10, 4⟩), (0, .sync ⟨.swap, 3⟩)] = .ok (g, insts) ∧
      (∀ t, t ∈ g.newThreadsInOrder ↔ ∃! i, t ∈ (insts i).threads) ∧
      (∀ i, ((insts i).tcxts.map fun p => CapnLogger.filePath "." p.2.tid).Nodup) ∧
      ∀ i j p q, p ∈ (insts i).tcxts → q ∈ (insts j).tcxts →
        CapnLogger.filePath "." p.2.tid = CapnLogger.filePath "." q.2.tid → i = j := by
  obtain ⟨g, insts, hr⟩ : ∃ g insts, runAll (Globals.init 100) (fun _ => EventHandlers.init)
      [(0, .sync ⟨.swap, 1⟩), (1, .sync ⟨.swap, 2⟩), (0, .mem ⟨.store, 0x10, 4⟩),
        (1, .mem ⟨.load, 0x10, 4⟩), (0, .sync ⟨.swap, 3⟩)] = .ok (g, insts) := ⟨_, _, rfl⟩
  exact ⟨g, insts, hr, runAll_files_distinct "." hr⟩

theorem runAll_threads_mono {calls : List (Nat × SglEv)} {g g' : Globals}
    {insts insts' : Nat → EventHandlers} (ran : runAll g insts calls = .ok (g', insts'))
    {i t : Nat} (mem : t ∈ (insts i).threads) : t ∈ (insts' i).threads := by
  refine runAll_preserves (fun _ insts => t ∈ (insts i).threads)
    (fun {_ insts _ h' j _} mem hs => show t ∈ (Function.update insts j h' i).threads from ?_) mem ran
  by_cases hj : i = j
  · subst hj
    rw [Function.update_same]
    rcases (step_threads hs).2 with ⟨hth, -⟩ | ⟨x, -, -, hth⟩
    · exact hth ▸ mem
    · exact hth ▸ mem_registerTID_of_mem mem x
  · rwa [Function.update_noteq hj]

theorem runAll_swaps_owned {calls : List (Nat × SglEv)} {g g' : Globals}
    {insts insts' : Nat → EventHandlers} (partitioned : Partitioned g insts)
    (ran : runAll g insts calls = .ok (g', insts')) {i t : Nat} {ev : SglEv} (pos : 0 < t)
    (mem : (i, ev) ∈ calls) (swaps : route ev = .swap t) : t ∈ (insts' i).threads := by
  induction calls generalizing g insts with
  | nil => cases mem
  | cons c calls ih =>
    obtain ⟨j, e⟩ := c
    obtain ⟨⟨g₁, h₁⟩, hs, hrest⟩ := bind_eq_ok.mp ran
    rcases List.mem_cons.mp mem with mem | mem
    · obtain ⟨rfl, rfl⟩ := Prod.mk.inj mem
      refine runAll_threads_mono hrest ?_
      have hcur := (partitioned.step hs).current i
      rw [Function.update_same, step_swap swaps hs] at hcur
      rw [Function.update_same]
      exact hcur.resolve_left pos.ne'
    · exact ih (partitioned.step hs) hrest mem

/-- A thread is swapped to from one instance only: in an interleaving that runs to its end
from fresh instances, two instances that swap to one positive thread are the same. -/
theorem runAll_swaps_pinned {n : Nat} {calls : List (Nat × SglEv)} {g : Globals}
    {insts : Nat → EventHandlers}
    (ran : runAll (Globals.init n) (fun _ => EventHandlers.init) calls = .ok (g, insts))
    {i j t : Nat} {e e' : SglEv} (pos : 0 < t) (callI : (i, e) ∈ calls) (callJ : (j, e') ∈ calls)
    (swapI : route e = .swap t) (swapJ : route e' = .swap t) : i = j :=
  (runAll_partitioned ran).disjoint i j t
    (runAll_swaps_owned (Partitioned.init n) ran pos callI swapI)
    (runAll_swaps_owned (Partitioned.init n) ran pos callJ swapJ)

theorem swaps_back_on_one_instance :
    ∃ g insts, runAll (Globals.init 100) (fun _ => EventHandlers.init)
        [(0, .sync ⟨.swap, 1⟩), (1, .sync ⟨.swap, 2⟩), (0, .sync ⟨.swap, 3⟩),
          (0, .sync ⟨.swap, 1⟩)] = .ok (g, insts) ∧
      ∀ i j t e e', 0 < t →
        (i, e) ∈ [(0, .sync ⟨.swap, 1⟩), (1, .sync ⟨.swap, 2⟩), (0, .sync ⟨.swap, 3⟩),
          (0, .sync ⟨.swap, 1⟩)] →
        (j, e') ∈ [(0, .sync ⟨.swap, 1⟩), (1, .sync ⟨.swap, 2⟩), (0, .sync ⟨.swap, 3⟩),
          (0, .sync ⟨.swap, 1⟩)] →
        route e = .swap t → route e' = .swap t → i = j := by
  obtain ⟨g, insts, hr⟩ : ∃ g insts, runAll (Globals.init 100) (fun _ => EventHandlers.init)
      [(0, .sync ⟨.swap, 1⟩), (1, .sync ⟨.swap, 2⟩), (0, .sync ⟨.swap, 3⟩),
        (0, .sync ⟨.swap, 1⟩)] = .ok (g, insts) := ⟨_, _, rfl⟩
  exact ⟨g, insts, hr, fun i j t e e' ht hi hj he he' => runAll_swaps_pinned hr ht hi hj he he'⟩

/-- Two instances that swap to one thread: the second finds no context for it and halts. -/
example : runAll (Globals.init 100) (fun _ => EventHandlers.init)
    [(0, .sync ⟨.swap, 1⟩), (1, .sync ⟨.swap, 2⟩), (1, .sync ⟨.swap, 1⟩)] = .error .outOfRange :=
  rfl

/-! ## The pthread file -/

/-- The spawn `ev` records when `cur` is current: `cur` and the new thread's address, if `ev`
is a `Create` primitive. -/
def spawnOf (cur : Nat) : SglEv → List (Nat × Addr)
  | .sync ev => if ev.type = .create then [(cur, ev.id)] else []
  | _ => []

/-- What the calls of an interleaving record, oldest first, when `cur i` is the current thread
of instance `i` at its start: `rec c ev` is what `ev` records when `c` is current. -/
def recordAll {α : Type} (rec : Nat → SglEv → List α) (cur : Nat → Nat) :
    List (Nat × SglEv) → List α
  | [] => []
  | (i, ev) :: calls =>
    rec (cur i) ev ++ recordAll rec (Function.update cur i (nextCurrent (cur i) ev)) calls

theorem noteSync_threadSpawns (g : Globals) (h : EventHandlers) (ev : SglEv) :
    (noteSync g h ev).threadSpawns = g.threadSpawns ++ spawnOf h.currentTID ev := by
  cases ev with
  | sync ev =>
    simp only [noteSync, spawnOf]
    by_cases hc : ev.type = .create
    · simp [hc, onCreate]
    · rw [if_neg hc, if_neg hc, List.append_nil]
      split <;> rfl
  | _ => exact (List.append_nil _).symm

theorem withCached_threadSpawns
    {f : ThreadContext → STShadowMemory → Except Halt (ThreadContext × STShadowMemory × List Record)}
    (called : withCached g h f = .ok (g', h')) : g'.threadSpawns = g.threadSpawns := by
  obtain ⟨_, _, _, _, _, -, -, -, rfl, -⟩ := withCached_ok called
  rfl

theorem onSwapTCxt_threadSpawns {t : Nat} (swapped : onSwapTCxt g h t = .ok (g', h')) :
    g'.threadSpawns = g.threadSpawns := by
  obtain ⟨-, rfl, -⟩ | ⟨g₁, h₁, g₂, h₂, -, hnew, hflush, -, rfl, -⟩ := onSwapTCxt_ok swapped
  · rfl
  have hg₁ : g₁.threadSpawns = g.threadSpawns := by
    rcases hnew with ⟨-, rfl, -⟩ | ⟨-, rfl, -⟩ <;> rfl
  rcases hflush with hflush | ⟨-, rfl, -⟩
  · exact (withCached_threadSpawns hflush).trans hg₁
  · exact hg₁

theorem step_threadSpawns {ev : SglEv} (stepped : step g h ev = .ok (g', h')) :
    g'.threadSpawns = g.threadSpawns ++ spawnOf h.currentTID ev := by
  rw [← noteSync_threadSpawns]
  rw [step_route] at stepped
  generalize hr : route ev = r at stepped
  cases r with
  | swap t =>
    obtain ⟨e, rfl, hsw⟩ := route_eq_swap hr
    rw [onSwapTCxt_threadSpawns stepped]
    simp only [noteSync, hsw]
    rfl
  | call p => exact withCached_threadSpawns stepped
  | skip => cases stepped; rfl

theorem records_current {cur x : Nat} {ev : SglEv}
    (recorded : (∃ a, (x, a) ∈ spawnOf cur ev) ∨ ∃ a, (a, x) ∈ barrierWait cur ev) :
    x = cur ∧ ∃ p, route ev = .call p := by
  cases ev with
  | sync e =>
    have hty : (e.type = .create ∨ e.type = .barrier) ∧ x = cur := by
      rcases recorded with ⟨a, ha⟩ | ⟨a, ha⟩ <;> simp only [spawnOf, barrierWait] at ha <;>
        split_ifs at ha with ht
      · exact ⟨.inl ht, (Prod.mk.inj (List.mem_singleton.mp ha)).1⟩
      · cases ha
      · exact ⟨.inr ht, (Prod.mk.inj (List.mem_singleton.mp ha)).2⟩
      · cases ha
    refine ⟨hty.2, .sync (stSyncType e.type) e.id, ?_⟩
    rcases hty.1 with ht | ht <;> rw [route, if_neg (by rw [ht]; decide), if_pos (by rw [ht]; decide)]
  | _ => simp [spawnOf, barrierWait] at recorded

theorem step_registered_mono {ev : SglEv} (stepped : step g h ev = .ok (g', h')) {t : Nat}
    (mem : t ∈ g.newThreadsInOrder) : t ∈ g'.newThreadsInOrder := by
  rcases (step_threads stepped).2 with ⟨-, hnew⟩ | ⟨x, -, hnew, -⟩
  · exact hnew ▸ mem
  · exact hnew ▸ List.mem_append_left _ mem

theorem runAll_registered_mono {calls : List (Nat × SglEv)} {g g' : Globals}
    {insts insts' : Nat → EventHandlers} (ran : runAll g insts calls = .ok (g', insts'))
    {t : Nat} (mem : t ∈ g.newThreadsInOrder) : t ∈ g'.newThreadsInOrder :=
  runAll_preserves (fun g _ => t ∈ g.newThreadsInOrder) (fun mem hs => step_registered_mono hs mem)
    mem ran

theorem runAll_nodup {calls : List (Nat × SglEv)} {g g' : Globals}
    {insts insts' : Nat → EventHandlers} (ran : runAll g insts calls = .ok (g', insts'))
    (nodup : g.newThreadsInOrder.Nodup) : g'.newThreadsInOrder.Nodup := by
  refine runAll_preserves (fun g _ => g.newThreadsInOrder.Nodup) (fun nodup hs => ?_) nodup ran
  rcases (step_threads hs).2 with ⟨-, hnew⟩ | ⟨t, ht, hnew, -⟩
  · exact hnew ▸ nodup
  · rw [hnew]
    exact List.nodup_append.mpr ⟨nodup, List.nodup_singleton t, fun x hx hy => ht
      (List.mem_singleton.mp hy ▸ hx)⟩

theorem runAll_records {calls : List (Nat × SglEv)} {g g' : Globals}
    {insts insts' : Nat → EventHandlers} {ws : List (Addr × Nat)} (partitioned : Partitioned g insts)
    (tabulates : Tabulates ws g.barrierParticipants) (ran : runAll g insts calls = .ok (g', insts')) :
    g'.threadSpawns = g.threadSpawns ++ recordAll spawnOf (fun i => (insts i).currentTID) calls ∧
    Tabulates (ws ++ recordAll barrierWait (fun i => (insts i).currentTID) calls)
      g'.barrierParticipants ∧
    (∀ p ∈ recordAll spawnOf (fun i => (insts i).currentTID) calls, p.1 ∈ g'.newThreadsInOrder) ∧
    ∀ p ∈ recordAll barrierWait (fun i => (insts i).currentTID) calls,
      p.2 ∈ g'.newThreadsInOrder := by
  induction calls generalizing g insts ws with
  | nil =>
    cases ran
    simpa [recordAll] using tabulates
  | cons c calls ih =>
    obtain ⟨j, ev⟩ := c
    obtain ⟨⟨g₁, h₁⟩, hs, hrest⟩ := bind_eq_ok.mp ran
    have hcur : (fun k => (Function.update insts j h₁ k).currentTID) =
        Function.update (fun k => (insts k).currentTID) j (nextCurrent (insts j).currentTID ev) := by
      funext k
      by_cases hk : k = j
      · subst hk
        simp [(step_barriers hs).2]
      · simp [Function.update_noteq hk]
    obtain ⟨hsp, hT', hspr, hbr⟩ :=
      ih (partitioned.step hs) ((step_barriers hs).1 ▸ noteSync_tabulates tabulates _ ev) hrest
    rw [hcur] at hsp hT' hspr hbr
    -- what this call records names its instance's current thread, which has a context
    have hreg : ∀ x, ((∃ a, (x, a) ∈ spawnOf (insts j).currentTID ev) ∨
        ∃ a, (a, x) ∈ barrierWait (insts j).currentTID ev) → x ∈ g'.newThreadsInOrder := by
      intro x hx
      obtain ⟨rfl, p, hroute⟩ := records_current hx
      exact runAll_registered_mono hrest (step_registered_mono hs
        ((partitioned.registered _).mpr ⟨j, step_call_current hroute (partitioned.cached j) hs⟩))
    exact ⟨by rw [hsp, step_threadSpawns hs, List.append_assoc]; rfl,
      by rw [recordAll, ← List.append_assoc]; exact hT',
      List.forall_mem_append.mpr ⟨fun p hp => hreg p.1 (.inl ⟨p.2, hp⟩), hspr⟩,
      List.forall_mem_append.mpr ⟨fun p hp => hreg p.2 (.inr ⟨p.1, hp⟩), hbr⟩⟩

/-- Over every interleaving from fresh instances, what `onExit` hands to the pthread file:
the registered threads, each once; the `Create`s in the order they ran, each with the thread
current on its instance as spawner; the barrier table of all instances' waits; and every
thread a spawn or a barrier names is a registered thread. -/
theorem runAll_pthread_file {n : Nat} {calls : List (Nat × SglEv)} {g : Globals}
    {insts : Nat → EventHandlers}
    (ran : runAll (Globals.init n) (fun _ => EventHandlers.init) calls = .ok (g, insts)) :
    g.newThreadsInOrder.Nodup ∧
    g.threadSpawns = recordAll spawnOf (fun _ => 0) calls ∧
    Tabulates (recordAll barrierWait (fun _ => 0) calls) g.barrierParticipants ∧
    (∀ p ∈ g.threadSpawns, p.1 ∈ g.newThreadsInOrder) ∧
    ∀ p ∈ g.barrierParticipants, ∀ t ∈ p.2, t ∈ g.newThreadsInOrder := by
  obtain ⟨hsp, hT, hspr, hbr⟩ := runAll_records (Partitioned.init n) Tabulates.nil ran
  replace hsp : g.threadSpawns = recordAll spawnOf (fun _ => 0) calls := hsp.trans (List.nil_append _)
  rw [List.nil_append] at hT
  exact ⟨runAll_nodup ran List.nodup_nil, hsp, hT, hsp ▸ hspr,
    fun p hp t ht => hbr (p.1, t) ((hT.participants p.1 p.2 hp t).mp ht)⟩

theorem spawns_and_barrier_on_two_instances :
    ∃ g insts, runAll (Globals.init 100) (fun _ => EventHandlers.init)
        [(0, .sync ⟨.swap, 1⟩), (0, .sync ⟨.create, 0x20⟩), (1, .sync ⟨.swap, 2⟩),
          (1, .sync ⟨.barrier, 0x40⟩), (0, .sync ⟨.barrier, 0x40⟩)] = .ok (g, insts) ∧
      g.newThreadsInOrder.Nodup ∧
      g.threadSpawns = recordAll spawnOf (fun _ => 0) [(0, .sync ⟨.swap, 1⟩),
        (0, .sync ⟨.create, 0x20⟩), (1, .sync ⟨.swap, 2⟩), (1, .sync ⟨.barrier, 0x40⟩),
        (0, .sync ⟨.barrier, 0x40⟩)] ∧
      Tabulates (recordAll barrierWait (fun _ => 0) [(0, .sync ⟨.swap, 1⟩),
        (0, .sync ⟨.create, 0x20⟩), (1, .sync ⟨.swap, 2⟩), (1, .sync ⟨.barrier, 0x40⟩),
        (0, .sync ⟨.barrier, 0x40⟩)]) g.barrierParticipants ∧
      (∀ p ∈ g.threadSpawns, p.1 ∈ g.newThreadsInOrder) ∧
      ∀ p ∈ g.barrierParticipants, ∀ t ∈ p.2, t ∈ g.newThreadsInOrder := by
  obtain ⟨g, insts, hr⟩ : ∃ g insts, runAll (Globals.init 100) (fun _ => EventHandlers.init)
      [(0, .sync ⟨.swap, 1⟩), (0, .sync ⟨.create, 0x20⟩), (1, .sync ⟨.swap, 2⟩),
        (1, .sync ⟨.barrier, 0x40⟩), (0, .sync ⟨.barrier, 0x40⟩)] = .ok (g, insts) :=
    ⟨_, _, rfl⟩
  exact ⟨g, insts, hr, runAll_pthread_file hr⟩

/-- In that run thread 1 spawned at `0x20`, and threads 2 and 1 waited on the barrier at
`0x40`, in that order. -/
example : recordAll spawnOf (fun _ => 0) [(0, .sync ⟨.swap, 1⟩), (0, .sync ⟨.create, 0x20⟩),
      (1, .sync ⟨.swap, 2⟩), (1, .sync ⟨.barrier, 0x40⟩), (0, .sync ⟨.barrier, 0x40⟩)] =
      [(1, 0x20)] ∧
    recordAll barrierWait (fun _ => 0) [(0, .sync ⟨.swap, 1⟩), (0, .sync ⟨.create, 0x20⟩),
      (1, .sync ⟨.swap, 2⟩), (1, .sync ⟨.barrier, 0x40⟩), (0, .sync ⟨.barrier, 0x40⟩)] =
      [(0x40, 2), (0x40, 1)] :=
  ⟨rfl, rfl⟩

/-! ## The destructors and the statistics table -/

/-- The instances' destructors, one after another in `order`. -/
def destroyAll (g : Globals) (insts : Nat → EventHandlers) : List Nat → Except Halt Globals
  | [] => .ok g
  | i :: order => do
    let g ← destroy g (insts i)
    destroyAll g insts order

/-- The primitives of an interleaving delivered to instance `i`, in order. -/
def callsOn (i : Nat) (calls : List (Nat × SglEv)) : List SglEv :=
  calls.filterMap fun c => if c.1 = i then some c.2 else none

@[simp] theorem callsOn_nil (i : Nat) : callsOn i [] = [] := rfl

@[simp] theorem callsOn_cons (i j : Nat) (ev : SglEv) (calls : List (Nat × SglEv)) :
    callsOn i ((j, ev) :: calls) = if j = i then ev :: callsOn i calls else callsOn i calls := by
  by_cases hj : j = i <;> simp [callsOn, hj]

theorem routedTo_cons (t cur : Nat) (ev : SglEv) (evs : List SglEv) :
    routedTo t cur (ev :: evs) = routedTo t cur [ev] ++ routedTo t (nextCurrent cur ev) evs := by
  unfold nextCurrent
  cases hr : route ev with
  | call p => by_cases hc : cur = t <;> simp [routedTo, hr, hc]
  | _ => simp [routedTo, hr]

theorem runAll_stats {calls : List (Nat × SglEv)} {g g' : Globals}
    {insts insts' : Nat → EventHandlers} (partitioned : Partitioned g insts)
    (ran : runAll g insts calls = .ok (g', insts')) (i t : Nat) :
    statsOf (insts' i) t =
      (routedTo t (insts i).currentTID (callsOn i calls)).foldl Stats.count (statsOf (insts i) t) := by
  induction calls generalizing g insts with
  | nil => cases ran; rfl
  | cons c calls ih =>
    obtain ⟨j, ev⟩ := c
    obtain ⟨⟨g₁, h₁⟩, hs, hrest⟩ := bind_eq_ok.mp ran
    rw [ih (partitioned.step hs) hrest, callsOn_cons]
    by_cases hj : j = i
    · subst hj
      have hst : statsOf h₁ t = (routedTo t (insts j).currentTID [ev]).foldl Stats.count
          (statsOf (insts j) t) := run_stats (partitioned.cached j) (by rw [run, hs]; rfl) t
      rw [Function.update_same, if_pos rfl, routedTo_cons, List.foldl_append, ← hst,
        (step_barriers hs).2]
    · rw [Function.update_noteq (Ne.symm hj), if_neg hj]

theorem runAll_threads_of_mem {calls : List (Nat × SglEv)} {g g' : Globals}
    {insts insts' : Nat → EventHandlers} (ran : runAll g insts calls = .ok (g', insts'))
    {i t : Nat} (mem : t ∈ (insts' i).threads) : i ∈ calls.map Prod.fst ∨ t ∈ (insts i).threads := by
  induction calls generalizing g insts with
  | nil => cases ran; exact .inr mem
  | cons c calls ih =>
    obtain ⟨j, ev⟩ := c
    obtain ⟨⟨g₁, h₁⟩, -, hrest⟩ := bind_eq_ok.mp ran
    rcases ih hrest with hi | hi
    · exact .inl (List.mem_cons_of_mem _ hi)
    · by_cases hj : i = j
      · exact .inl (hj ▸ List.mem_cons_self _ _)
      · rw [Function.update_noteq hj] at hi
        exact .inr hi

theorem runAll_allThreadsStats {calls : List (Nat × SglEv)} {g g' : Globals}
    {insts insts' : Nat → EventHandlers} (ran : runAll g insts calls = .ok (g', insts')) :
    g'.allThreadsStats = g.allThreadsStats :=
  runAll_preserves (fun g' _ => g'.allThreadsStats = g.allThreadsStats)
    (fun hp hs => (step_allThreadsStats hs).trans hp) rfl ran

theorem destroy_allThreadsStats (destroyed : destroy g h = .ok g') :
    g'.allThreadsStats = h.tcxts.foldl emplaceStats g.allThreadsStats :=
  destroyTCxts_allThreadsStats destroyed

/-- After the destructors, a thread's statistics are those it had, else those of its context
in the first instance of `order` that has one. -/
theorem destroyAll_lookup {insts : Nat → EventHandlers} {order : List Nat}
    (destroyed : destroyAll g insts order = .ok g') (t : Nat) :
    g'.allThreadsStats.lookup t = (g.allThreadsStats.lookup t).or
      (order.findSome? fun i => ((insts i).tcxts.lookup t).map (·.stats)) := by
  induction order generalizing g with
  | nil => cases destroyed; exact Option.or_none.symm
  | cons i order ih =>
    obtain ⟨g₁, hd₁, destroyed⟩ := bind_eq_ok.mp destroyed
    rw [ih destroyed, destroy_allThreadsStats hd₁, lookup_foldl_emplaceStats, Option.or_assoc,
      List.findSome?_cons]
    cases ((insts i).tcxts.lookup t).map (·.stats) <;> rfl

theorem keys_emplaceStats (acc : List (Nat × Stats)) (p : Nat × ThreadContext) :
    (emplaceStats acc p).map Prod.fst = registerTID (acc.map Prod.fst) p.1 :=
  keys_insertIfAbsent acc p.1 p.2.stats

theorem nodup_foldl_emplaceStats (l : List (Nat × ThreadContext)) {acc : List (Nat × Stats)}
    (nodup : (acc.map Prod.fst).Nodup) : ((l.foldl emplaceStats acc).map Prod.fst).Nodup := by
  induction l generalizing acc with
  | nil => exact nodup
  | cons p ps ih => exact ih ((keys_emplaceStats acc p).symm ▸ nodup_registerTID nodup p.1)

theorem destroyAll_nodup {insts : Nat → EventHandlers} {order : List Nat}
    (destroyed : destroyAll g insts order = .ok g') (nodup : (g.allThreadsStats.map Prod.fst).Nodup) :
    (g'.allThreadsStats.map Prod.fst).Nodup := by
  induction order generalizing g with
  | nil => cases destroyed; exact nodup
  | cons i order ih =>
    obtain ⟨g₁, hd₁, destroyed⟩ := bind_eq_ok.mp destroyed
    exact ih destroyed (destroy_allThreadsStats hd₁ ▸ nodup_foldl_emplaceStats _ nodup)

theorem findSome?_of_unique {β : Type} {f : Nat → Option β} {i : Nat} {b : β} (found : f i = some b)
    (others : ∀ j, j ≠ i → f j = none) : ∀ {order : List Nat}, i ∈ order → order.findSome? f = some b
  | j :: order, hi => by
    rw [List.findSome?_cons]
    by_cases hj : j = i
    · rw [hj, found]
    · rw [others j hj]
      exact findSome?_of_unique found others ((List.mem_cons.mp hi).resolve_left (Ne.symm hj))

/-- Once the instances that received primitives are destroyed, in any order, the statistics
table `onExit` writes has exactly one entry per registered thread, and each thread's entry
counts the primitives its own instance routed to it: no instance's destructor drops or
overwrites another's thread. -/
theorem destroyAll_writes_routed_stats {n : Nat} {calls : List (Nat × SglEv)} {g g' : Globals}
    {insts : Nat → EventHandlers} {order : List Nat}
    (ran : runAll (Globals.init n) (fun _ => EventHandlers.init) calls = .ok (g, insts))
    (covered : ∀ c ∈ calls, c.1 ∈ order) (destroyed : destroyAll g insts order = .ok g') :
    (g'.allThreadsStats.map Prod.fst).Perm g.newThreadsInOrder ∧
    ∀ i t, t ∈ (insts i).threads → g'.allThreadsStats.lookup t =
      some ((routedTo t 0 (callsOn i calls)).foldl Stats.count ⟨0, 0, 0, 0, 0⟩) := by
  have hp := runAll_partitioned ran
  have hats : g.allThreadsStats = [] := runAll_allThreadsStats ran
  have hord : ∀ i t, t ∈ (insts i).threads → i ∈ order := fun i t ht => by
    obtain ⟨c, hc, rfl⟩ := List.mem_map.mp
      ((runAll_threads_of_mem ran ht).resolve_right (List.not_mem_nil t))
    exact covered c hc
  -- the table is read from the one instance holding the thread
  have howner : ∀ i t, t ∈ (insts i).threads →
      g'.allThreadsStats.lookup t = some (statsOf (insts i) t) := fun i t ht => by
    obtain ⟨tc, htc⟩ := Option.isSome_iff_exists.mp ((isSome_lookup_iff _ t).mpr ht)
    rw [destroyAll_lookup destroyed, hats, List.lookup_nil, Option.none_or,
      show statsOf (insts i) t = tc.stats by simp [statsOf, htc]]
    refine findSome?_of_unique (by rw [htc]; rfl) (fun j hj => ?_) (hord i t ht)
    rw [Option.map_eq_none', ← Option.not_isSome_iff_eq_none, isSome_lookup_iff]
    exact fun htj => hj (hp.disjoint j i t htj ht)
  refine ⟨(List.perm_ext_iff_of_nodup (destroyAll_nodup destroyed (hats ▸ List.nodup_nil))
    (runAll_nodup ran List.nodup_nil)).mpr fun t => ?_, fun i t ht => ?_⟩
  · rw [← isSome_lookup_iff, hp.registered]
    constructor
    · intro hs
      rw [destroyAll_lookup destroyed, hats, List.lookup_nil, Option.none_or,
        List.findSome?_isSome_iff] at hs
      obtain ⟨i, -, hi⟩ := hs
      rw [Option.isSome_map'] at hi
      exact ⟨i, (isSome_lookup_iff _ t).mp hi⟩
    · rintro ⟨i, ht⟩
      rw [howner i t ht]
      rfl
  · rw [howner i t ht, runAll_stats (Partitioned.init n) ran i t]
    rfl

theorem two_instances_destroyed_stats :
    ∃ g insts g', runAll (Globals.init 100) (fun _ => EventHandlers.init)
        [(0, .sync ⟨.swap, 1⟩), (1, .sync ⟨.swap, 2⟩), (0, .comp ⟨.iop⟩),
          (1, .mem ⟨.store, 0x10, 4⟩), (0, .mem ⟨.load, 0x10, 4⟩), (1, .comp ⟨.flop⟩)] =
        .ok (g, insts) ∧ destroyAll g insts [1, 0] = .ok g' ∧
      (g'.allThreadsStats.map Prod.fst).Perm g.newThreadsInOrder ∧
      ∀ i t, t ∈ (insts i).threads → g'.allThreadsStats.lookup t =
        some ((routedTo t 0 (callsOn i [(0, .sync ⟨.swap, 1⟩), (1, .sync ⟨.swap, 2⟩),
          (0, .comp ⟨.iop⟩), (1, .mem ⟨.store, 0x10, 4⟩), (0, .mem ⟨.load, 0x10, 4⟩),
          (1, .comp ⟨.flop⟩)])).foldl Stats.count ⟨0, 0, 0, 0, 0⟩) := by
  obtain ⟨g, insts, g', hr, hd⟩ : ∃ g insts g', runAll (Globals.init 100)
      (fun _ => EventHandlers.init) [(0, .sync ⟨.swap, 1⟩), (1, .sync ⟨.swap, 2⟩),
        (0, .comp ⟨.iop⟩), (1, .mem ⟨.store, 0x10, 4⟩), (0, .mem ⟨.load, 0x10, 4⟩),
        (1, .comp ⟨.flop⟩)] = .ok (g, insts) ∧ destroyAll g insts [1, 0] = .ok g' :=
    ⟨_, _, _, rfl, rfl⟩
  exact ⟨g, insts, g', hr, hd, destroyAll_writes_routed_stats hr (by decide) hd⟩

end EventHandlers

end STGen
