import Sigil2.Routing

/-! Each primitive reaches the context of the thread current when it arrives, and the
statistics count exactly those primitives. -/
namespace STGen

/-- What one primitive adds to its context's statistics. -/
def Stats.count (s : Stats) : Prim → Stats
  | .iop => { s with iop := s.iop + 1 }
  | .flop => { s with flop := s.flop + 1 }
  | .read _ _ => { s with read := s.read + 1 }
  | .write _ _ => { s with write := s.write + 1 }
  | .sync _ _ => s
  | .instr => { s with instr := s.instr + 1 }

namespace ThreadContext

variable {tc tc' : ThreadContext} {sm sm' : STShadowMemory} {recs recs' : List Record}

/-- What the flushes a handler makes do to the statistics and the markers: nothing. -/
def FlushOnly (s s' : Stats) (recs : List Record) : Prop :=
  s' = s ∧ recs.filter Record.isMarker = []

theorem FlushOnly.trans {s s' s'' : Stats} (first : FlushOnly s s' recs) (second : FlushOnly s' s'' recs') :
    FlushOnly s s'' (recs ++ recs') :=
  ⟨second.1.trans first.1, by rw [List.filter_append, first.2, second.2]; rfl⟩

theorem compFlushIfActive_flushOnly (flushed : tc.compFlushIfActive = .ok (tc', recs)) :
    FlushOnly tc.stats tc'.stats recs := by
  rcases compFlushIfActive_ok flushed with ⟨-, rfl, rfl⟩ | ⟨-, rfl, rfl⟩ <;> exact ⟨rfl, rfl⟩

theorem commFlushIfActive_flushOnly (flushed : tc.commFlushIfActive = .ok (tc', recs)) :
    FlushOnly tc.stats tc'.stats recs := by
  rcases commFlushIfActive_ok flushed with ⟨-, rfl, rfl⟩ | ⟨-, rfl, rfl⟩ <;> exact ⟨rfl, rfl⟩

theorem checkCompFlushLimit_flushOnly (checked : tc.checkCompFlushLimit = .ok (tc', recs)) :
    FlushOnly tc.stats tc'.stats recs := by
  unfold checkCompFlushLimit at checked
  split at checked
  · exact compFlushIfActive_flushOnly checked
  · cases checked
    exact ⟨rfl, rfl⟩

theorem flushBoth_flushOnly (h : EventHandlers.flushBoth tc = .ok (tc', recs)) :
    FlushOnly tc.stats tc'.stats recs := by
  obtain ⟨⟨tc₁, r₁⟩, h₁, h₂⟩ := bind_eq_ok.mp h
  obtain ⟨⟨tc₂, r₂⟩, h₃, h₄⟩ := bind_eq_ok.mp h₂
  cases h₄
  exact (compFlushIfActive_flushOnly h₁).trans (commFlushIfActive_flushOnly h₃)

theorem handle_flushOnly {p : Prim} (notInstr : p ≠ .instr) (handled : tc.handle sm p = .ok (tc', sm', recs)) :
    tc'.stats = tc.stats.count p ∧ recs.filter Record.isMarker = [] := by
  cases p with
  | iop | flop =>
    obtain ⟨⟨tc₁, r₁⟩, h₁, h₂⟩ := map_eq_ok.mp handled
    obtain ⟨⟨tc₂, r₂⟩, h₃, h₄⟩ := bind_eq_ok.mp h₁
    cases h₄; cases h₂
    obtain ⟨hs, hm⟩ := commFlushIfActive_flushOnly h₃
    exact ⟨by simp only [Stats.count, hs], hm⟩
  | read start bytes =>
    obtain ⟨tc₁, r₁, tc₂, r₂, hflush, h₃, rfl, -, rfl⟩ := onRead_ok handled
    have h₁ : FlushOnly tc.stats tc₁.stats r₁ := by
      rcases hflush with ⟨-, tc₀, h₁, rfl⟩ | ⟨-, h₁⟩
      exacts [(commFlushIfActive_flushOnly h₁ :), (compFlushIfActive_flushOnly h₁ :)]
    obtain ⟨hs, hm⟩ := h₁.trans (checkCompFlushLimit_flushOnly h₃)
    exact ⟨by simp only [Stats.count, hs], hm⟩
  | write start bytes =>
    obtain ⟨⟨tc₁, r₁⟩, h₁, h₂⟩ := bind_eq_ok.mp handled
    cases h₂
    obtain ⟨hs, hm⟩ := checkCompFlushLimit_flushOnly h₁
    exact ⟨by simp only [Stats.count, hs], hm⟩
  | sync syncType syncAddr =>
    obtain ⟨⟨tc₁, r₁⟩, h₁, h₂⟩ := map_eq_ok.mp handled
    obtain ⟨⟨tc₂, r₂⟩, h₃, h₄⟩ := bind_eq_ok.mp h₁
    obtain ⟨⟨tc₃, r₃⟩, h₅, h₆⟩ := bind_eq_ok.mp h₄
    cases h₆; cases h₂
    obtain ⟨hs, hm⟩ := (compFlushIfActive_flushOnly h₃).trans (commFlushIfActive_flushOnly h₅)
    refine ⟨hs, ?_⟩
    simp only [List.filter_append, hm]
    rfl
  | instr => exact absurd rfl notInstr

theorem handle_stats {p : Prim} (handled : tc.handle sm p = .ok (tc', sm', recs)) :
    tc'.stats = tc.stats.count p := by
  by_cases hp : p = .instr
  · subst hp
    cases handled
    rfl
  · exact (handle_flushOnly hp handled).1

end ThreadContext

namespace EventHandlers

/-- The statistics of thread `t`'s context; a thread without one has the statistics a new
context starts with. -/
def statsOf (h : EventHandlers) (t : Nat) : Stats :=
  ((h.tcxts.lookup t).map (·.stats)).getD ⟨0, 0, 0, 0, 0⟩

/-- The primitives of a stream that reach thread `t`'s context when `cur` is the current
thread at its start: the calls routed while `t` is current. -/
def routedTo (t : Nat) : Nat → List SglEv → List Prim
  | _, [] => []
  | cur, ev :: evs =>
    match route ev with
    | .swap t' => routedTo t t' evs
    | .call p => if cur = t then p :: routedTo t cur evs else routedTo t cur evs
    | .skip => routedTo t cur evs

variable {g g' : Globals} {h h' : EventHandlers}

theorem statsOf_store (l : List (Nat × ThreadContext)) (t x : Nat) (c : ThreadContext)
    (tc : ThreadContext) (known : l.lookup t = some tc) :
    statsOf ⟨store l t c, h.currentTID, h.cachedTCxt⟩ x =
      if x = t then c.stats else statsOf ⟨l, h.currentTID, h.cachedTCxt⟩ x := by
  simp only [statsOf, lookup_store, known]
  split <;> rfl

theorem statsOf_emplace_create (t x n : Nat) :
    statsOf { h with tcxts := emplace h.tcxts t (.create t n) } x = statsOf h x := by
  cases hnone : h.tcxts.lookup t with
  | some _ => simp [statsOf, emplace, hnone]
  | none =>
    simp only [statsOf, lookup_emplace_of_none _ hnone]
    split
    · next hx => subst hx; rw [hnone]; rfl
    · rfl

theorem withCached_stats {t : Nat} {p : Prim} (cached : h.cachedTCxt = some t)
    (called : withCached g h (fun tc sm => tc.handle sm p) = .ok (g', h')) (x : Nat) :
    statsOf h' x = if x = t then (statsOf h x).count p else statsOf h x := by
  obtain ⟨t', tc, tc', sm, recs, hct, hl, hf, rfl, rfl⟩ := withCached_ok called
  rw [cached] at hct
  cases hct
  rw [statsOf_store _ _ _ _ tc hl, ThreadContext.handle_stats hf]
  split
  · next hx => subst hx; simp [statsOf, hl]
  · rfl

theorem withCached_flushBoth_stats (called : withCached g h (noShadow flushBoth) = .ok (g', h')) :
    statsOf h' = statsOf h ∧ h'.currentTID = h.currentTID ∧ h'.cachedTCxt = h.cachedTCxt := by
  obtain ⟨t, tc, tc', sm, recs, -, hl, hf, rfl, rfl⟩ := withCached_ok called
  obtain ⟨⟨tc₁, r₁⟩, hfb, hq⟩ := map_eq_ok.mp hf
  cases hq
  refine ⟨funext fun x => ?_, rfl, rfl⟩
  rw [statsOf_store _ _ _ _ tc hl]
  split
  · next hx =>
    subst hx
    simp [statsOf, hl, (ThreadContext.flushBoth_flushOnly hfb).1]
  · rfl

theorem onSwapTCxt_stats {n : Nat} (current : ∀ t, h.cachedTCxt = some t → t = h.currentTID)
    (swapped : onSwapTCxt g h n = .ok (g', h')) :
    statsOf h' = statsOf h ∧ h'.currentTID = n ∧ ∀ t, h'.cachedTCxt = some t → t = n := by
  obtain ⟨hn, rfl, rfl⟩ | ⟨g₁, h₁, g₂, h₂, -, hreg, hflush, -, -, rfl⟩ := onSwapTCxt_ok swapped
  · exact ⟨rfl, hn, fun t ht => (current t ht).trans hn⟩
  have hst₁ : statsOf h₁ = statsOf h := by
    rcases hreg with ⟨-, -, rfl⟩ | ⟨-, -, rfl⟩
    · exact funext fun x => statsOf_emplace_create n x _
    · rfl
  refine ⟨?_, rfl, fun t ht => (Option.some.inj ht).symm⟩
  rcases hflush with hflush | ⟨-, -, rfl⟩
  · exact (withCached_flushBoth_stats hflush).1.trans hst₁
  · exact hst₁

/-- Over a run from a state whose `cachedTCxt` is its current thread, each thread's statistics
grow by the primitives routed to it. -/
theorem run_stats {evs : List SglEv} (current : ∀ t, h.cachedTCxt = some t → t = h.currentTID)
    (ran : run g h evs = .ok (g', h')) (t : Nat) :
    statsOf h' t = (routedTo t h.currentTID evs).foldl Stats.count (statsOf h t) := by
  induction evs generalizing g h with
  | nil => cases ran; rfl
  | cons ev evs ih =>
    obtain ⟨⟨g₁, h₁⟩, hs, ran⟩ := bind_eq_ok.mp ran
    rw [step_route] at hs
    simp only [routedTo]
    generalize route ev = r at hs ⊢
    cases r with
    | swap t' =>
      obtain ⟨hst, hcur, hc₁⟩ := onSwapTCxt_stats current hs
      rw [ih (fun x hx => hcur ▸ hc₁ x hx) ran, hst, hcur]
    | call p =>
      obtain ⟨t₀, tc, tc', sm, recs, ht₀, -, -, -, rfl⟩ := withCached_ok hs
      have hst := withCached_stats ht₀ hs
      have hcur₀ := current t₀ ht₀
      have ih' : statsOf h' t = (routedTo t h.currentTID evs).foldl Stats.count
          (statsOf { h with tcxts := store h.tcxts t₀ tc' } t) := ih current ran
      dsimp only
      rw [ih']
      split
      · next htc =>
        subst htc hcur₀
        rw [List.foldl_cons, hst, if_pos rfl]
      · next htc =>
        subst hcur₀
        rw [hst, if_neg (Ne.symm htc)]
    | skip =>
      cases hs
      exact ih current ran

/-- Over every run of the dispatcher, each thread's statistics count exactly the primitives
that arrived while it was the current thread: every load, store, integer and floating-point
operation and instruction reaches the context of the thread current at its arrival, and no
other context. -/
theorem run_stats_follow_routing {n : Nat} {evs : List SglEv} {g : Globals} {h : EventHandlers}
    (ran : run (Globals.init n) EventHandlers.init evs = .ok (g, h)) (t : Nat) :
    statsOf h t = (routedTo t 0 evs).foldl Stats.count ⟨0, 0, 0, 0, 0⟩ :=
  run_stats (fun _ h => by cases h) ran t

theorem interleaved_threads_stats :
    ∃ g h, run (Globals.init 100) EventHandlers.init
        [.sync ⟨.swap, 1⟩, .comp ⟨.iop⟩, .mem ⟨.store, 0x10, 4⟩, .sync ⟨.swap, 2⟩,
          .mem ⟨.load, 0x10, 4⟩, .sync ⟨.swap, 1⟩, .comp ⟨.flop⟩, .cxt ⟨.instr⟩] = .ok (g, h) ∧
      statsOf h 1 = (routedTo 1 0 [.sync ⟨.swap, 1⟩, .comp ⟨.iop⟩, .mem ⟨.store, 0x10, 4⟩,
        .sync ⟨.swap, 2⟩, .mem ⟨.load, 0x10, 4⟩, .sync ⟨.swap, 1⟩, .comp ⟨.flop⟩,
        .cxt ⟨.instr⟩]).foldl Stats.count ⟨0, 0, 0, 0, 0⟩ := by
  obtain ⟨g, h, hrun⟩ : ∃ g h, run (Globals.init 100) EventHandlers.init
      [.sync ⟨.swap, 1⟩, .comp ⟨.iop⟩, .mem ⟨.store, 0x10, 4⟩, .sync ⟨.swap, 2⟩,
        .mem ⟨.load, 0x10, 4⟩, .sync ⟨.swap, 1⟩, .comp ⟨.flop⟩, .cxt ⟨.instr⟩] = .ok (g, h) :=
    ⟨_, _, rfl⟩
  exact ⟨g, h, hrun, run_stats_follow_routing hrun 1⟩

/-- Thread 1 of that stream has its integer operation, store, floating-point operation and
instruction counted, and not thread 2's load. -/
example : (routedTo 1 0 [.sync ⟨.swap, 1⟩, .comp ⟨.iop⟩, .mem ⟨.store, 0x10, 4⟩,
    .sync ⟨.swap, 2⟩, .mem ⟨.load, 0x10, 4⟩, .sync ⟨.swap, 1⟩, .comp ⟨.flop⟩,
    .cxt ⟨.instr⟩]).foldl Stats.count ⟨0, 0, 0, 0, 0⟩ = ⟨1, 1, 0, 1, 1⟩ := by
  decide

/-- The threads that have a context are the threads registered in `newThreadsInOrder`. -/
def ContextsRegistered (g : Globals) (h : EventHandlers) : Prop :=
  ∀ t, (h.tcxts.lookup t).isSome ↔ t ∈ g.newThreadsInOrder

theorem withCached_contextsRegistered
    {f : ThreadContext → STShadowMemory → Except Halt (ThreadContext × STShadowMemory × List Record)}
    (registered : ContextsRegistered g h) (called : withCached g h f = .ok (g', h')) :
    ContextsRegistered g' h' := by
  obtain ⟨t, tc, tc', sm, recs, -, -, -, rfl, rfl⟩ := withCached_ok called
  intro x
  rw [isSome_lookup_store]
  exact registered x

theorem onSwapTCxt_contextsRegistered {n : Nat} (registered : ContextsRegistered g h)
    (swapped : onSwapTCxt g h n = .ok (g', h')) : ContextsRegistered g' h' := by
  obtain ⟨-, rfl, rfl⟩ | ⟨g₁, h₁, g₂, h₂, -, hnew, hflush, -, hg, rfl⟩ := onSwapTCxt_ok swapped
  · exact registered
  subst g'
  change ContextsRegistered g₂ h₂
  have hreg₁ : ContextsRegistered g₁ h₁ := by
    rcases hnew with ⟨-, rfl, rfl⟩ | ⟨-, rfl, rfl⟩
    · intro x
      simp [isSome_lookup_emplace, registered x]
    · exact registered
  rcases hflush with hflush | ⟨-, rfl, rfl⟩
  · exact withCached_contextsRegistered hreg₁ hflush
  · exact hreg₁

theorem step_contextsRegistered {ev : SglEv} (registered : ContextsRegistered g h)
    (stepped : step g h ev = .ok (g', h')) : ContextsRegistered g' h' := by
  have hreg₀ : ContextsRegistered (noteSync g h ev) h := fun t =>
    (noteSync_frame g h ev).1 ▸ registered t
  rw [step_route] at stepped
  split at stepped
  · exact onSwapTCxt_contextsRegistered registered stepped
  · exact withCached_contextsRegistered hreg₀ stepped
  · cases stepped
    exact hreg₀

theorem run_contextsRegistered {evs : List SglEv} (registered : ContextsRegistered g h)
    (ran : run g h evs = .ok (g', h')) : ContextsRegistered g' h' :=
  run_preserves ContextsRegistered step_contextsRegistered registered ran

theorem withCached_allThreadsStats
    {f : ThreadContext → STShadowMemory → Except Halt (ThreadContext × STShadowMemory × List Record)}
    (called : withCached g h f = .ok (g', h')) : g'.allThreadsStats = g.allThreadsStats := by
  obtain ⟨-, -, -, -, -, -, -, -, rfl, -⟩ := withCached_ok called
  rfl

theorem step_allThreadsStats {ev : SglEv} (stepped : step g h ev = .ok (g', h')) :
    g'.allThreadsStats = g.allThreadsStats := by
  have h₀ : (noteSync g h ev).allThreadsStats = g.allThreadsStats := by
    cases ev with
    | sync ev =>
      simp only [noteSync]
      split_ifs <;> rfl
    | _ => rfl
  rw [step_route] at stepped
  split at stepped
  · obtain ⟨-, rfl, -⟩ | ⟨g₁, h₁, g₂, h₂, -, hnew, hflush, -, rfl, -⟩ := onSwapTCxt_ok stepped
    · rfl
    have h₁s : g₁.allThreadsStats = g.allThreadsStats := by
      rcases hnew with ⟨-, rfl, -⟩ | ⟨-, rfl, -⟩ <;> rfl
    rcases hflush with hflush | ⟨-, rfl, -⟩
    · exact (withCached_allThreadsStats hflush).trans h₁s
    · exact h₁s
  · exact (withCached_allThreadsStats stepped).trans h₀
  · cases stepped
    exact h₀

theorem run_allThreadsStats {evs : List SglEv} (ran : run g h evs = .ok (g', h')) :
    g'.allThreadsStats = g.allThreadsStats :=
  run_preserves (fun g' _ => g'.allThreadsStats = g.allThreadsStats)
    (fun hp hs => (step_allThreadsStats hs).trans hp) rfl ran

theorem destroyTCxts_allThreadsStats {ps : List (Nat × ThreadContext)}
    (destroyed : destroyTCxts g ps = .ok g') : g'.allThreadsStats = g.allThreadsStats :=
  destroyTCxts_preserves (fun g' => g'.allThreadsStats = g.allThreadsStats) (fun hp _ => hp) rfl destroyed

theorem lookup_emplaceStats (acc : List (Nat × Stats)) (p : Nat × ThreadContext) (t : Nat) :
    (emplaceStats acc p).lookup t = (acc.lookup t).or (if t = p.1 then some p.2.stats else none) := by
  unfold emplaceStats
  split
  · next hp =>
    obtain ⟨s, hs⟩ := Option.isSome_iff_exists.mp hp
    split
    · next ht => subst ht; rw [hs]; rfl
    · exact Option.or_none.symm
  · rw [List.lookup_append]
    by_cases ht : t = p.1
    · simp [ht]
    · simp [ht, List.lookup_cons, beq_false_of_ne ht]

theorem lookup_foldl_emplaceStats (l : List (Nat × ThreadContext)) (acc : List (Nat × Stats))
    (t : Nat) :
    (l.foldl emplaceStats acc).lookup t = (acc.lookup t).or ((l.lookup t).map (·.stats)) := by
  induction l generalizing acc with
  | nil => exact Option.or_none.symm
  | cons p l ih =>
    obtain ⟨k, c⟩ := p
    rw [List.foldl_cons, ih, lookup_emplaceStats, Option.or_assoc]
    congr 1
    by_cases ht : t = k
    · subst ht
      simp
    · simp [ht, lookup_cons_of_ne ht]

/-- After every run of the dispatcher, `~EventHandlers` writes statistics for exactly the
threads the run swapped to, and for each the counts of the primitives routed to it. -/
theorem destroy_writes_routed_stats {n : Nat} {evs : List SglEv} {g g' : Globals}
    {h : EventHandlers} (ran : run (Globals.init n) EventHandlers.init evs = .ok (g, h))
    (destroyed : destroy g h = .ok g') (t : Nat) :
    g'.allThreadsStats.lookup t = if t ∈ g.newThreadsInOrder then
      some ((routedTo t 0 evs).foldl Stats.count ⟨0, 0, 0, 0, 0⟩) else none := by
  have hreg := run_contextsRegistered (fun _ => by simp [Globals.init, EventHandlers.init]) ran t
  have hst : statsOf h t = (routedTo t 0 evs).foldl Stats.count ⟨0, 0, 0, 0, 0⟩ :=
    run_stats (fun _ h => by cases h) ran t
  rw [destroyTCxts_allThreadsStats destroyed]
  simp only [lookup_foldl_emplaceStats, run_allThreadsStats ran]
  cases hl : h.tcxts.lookup t with
  | none =>
    rw [hl] at hreg
    rw [if_neg fun hm => Bool.false_ne_true (hreg.mpr hm)]
    rfl
  | some c =>
    rw [hl] at hreg
    simp only [statsOf, hl, Option.map_some', Option.getD_some] at hst
    rw [if_pos (hreg.mp rfl)]
    exact congrArg some hst

theorem two_threads_destroy_stats :
    ∃ g h g', run (Globals.init 100) EventHandlers.init
        [.sync ⟨.swap, 1⟩, .comp ⟨.iop⟩, .sync ⟨.swap, 2⟩, .mem ⟨.load, 0x10, 4⟩,
          .cxt ⟨.instr⟩] = .ok (g, h) ∧ destroy g h = .ok g' ∧
      g'.allThreadsStats.lookup 2 = if 2 ∈ g.newThreadsInOrder then
        some ((routedTo 2 0 [.sync ⟨.swap, 1⟩, .comp ⟨.iop⟩, .sync ⟨.swap, 2⟩,
          .mem ⟨.load, 0x10, 4⟩, .cxt ⟨.instr⟩]).foldl Stats.count ⟨0, 0, 0, 0, 0⟩) else none := by
  obtain ⟨g, h, g', hrun, hd⟩ : ∃ g h g', run (Globals.init 100) EventHandlers.init
      [.sync ⟨.swap, 1⟩, .comp ⟨.iop⟩, .sync ⟨.swap, 2⟩, .mem ⟨.load, 0x10, 4⟩,
        .cxt ⟨.instr⟩] = .ok (g, h) ∧ destroy g h = .ok g' := ⟨_, _, _, rfl, rfl⟩
  exact ⟨g, h, g', hrun, hd, destroy_writes_routed_stats hrun hd 2⟩

end EventHandlers

end STGen
