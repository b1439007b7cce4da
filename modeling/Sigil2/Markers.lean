import Sigil2.Delivery
import Sigil2.Trace

/-! Instruction markers: one each time a thread's instruction count reaches a multiple of
`1 << 12`. -/
namespace STGen

/-- The markers a context that has counted `n` instructions has logged. -/
def markersFor (n : Nat) : List Record := List.replicate (n / 4096) (.instrMarker 4096)

theorem limit_land (n : Nat) : (1 <<< 12 - 1) &&& n = n % 4096 := by
  rw [Nat.and_comm]
  exact Nat.and_pow_two_sub_one_eq_mod n 12

namespace ThreadContext

variable {tc tc' : ThreadContext} {sm sm' : STShadowMemory} {recs : List Record}

/-- The test of `onInstr` adds a marker exactly when the count reaches a multiple of 4096. -/
theorem onInstr_markers (tc : ThreadContext) :
    markersFor tc.stats.instr ++ tc.onInstr.2.filter Record.isMarker =
      markersFor tc.onInstr.1.stats.instr := by
  show markersFor tc.stats.instr ++ List.filter Record.isMarker (if (1 <<< 12 - 1) &&&
    (tc.stats.instr + 1) = 0 then [.instrMarker (1 <<< 12)] else []) = markersFor (tc.stats.instr + 1)
  rw [limit_land]
  split
  · next h =>
    have hdiv : (tc.stats.instr + 1) / 4096 = tc.stats.instr / 4096 + 1 := by omega
    rw [markersFor, markersFor, hdiv, List.replicate_succ']
    rfl
  · next h =>
    have hdiv : (tc.stats.instr + 1) / 4096 = tc.stats.instr / 4096 := by omega
    rw [markersFor, markersFor, hdiv, List.filter_nil, List.append_nil]

theorem handle_markers {p : Prim} (handled : tc.handle sm p = .ok (tc', sm', recs)) :
    markersFor tc.stats.instr ++ recs.filter Record.isMarker = markersFor tc'.stats.instr := by
  by_cases hp : p = .instr
  · subst hp
    cases handled
    exact onInstr_markers tc
  · obtain ⟨hs, hm⟩ := handle_flushOnly hp handled
    rw [hm, List.append_nil, hs]
    cases p <;> first | rfl | exact absurd rfl hp

theorem destroy_flushOnly (destroyed : tc.destroy = .ok (tc', recs)) : FlushOnly tc.stats tc'.stats recs :=
  flushBoth_flushOnly destroyed

end ThreadContext

namespace EventHandlers

variable {g g' : Globals} {h h' : EventHandlers}

/-- Each thread's file holds the markers its context's instruction count calls for. -/
def MarkersCounted (g : Globals) (h : EventHandlers) : Prop :=
  ∀ t, (recsOf g.out t).filter Record.isMarker = markersFor (statsOf h t).instr

theorem MarkersCounted.init (n : Nat) : MarkersCounted (Globals.init n) EventHandlers.init :=
  fun _ => by simp [recsOf, markersFor, statsOf, Globals.init, EventHandlers.init]

theorem withCached_markers
    {f : ThreadContext → STShadowMemory → Except Halt (ThreadContext × STShadowMemory × List Record)}
    (marked : MarkersCounted g h)
    (marks : ∀ tc sm tc' sm' recs, f tc sm = .ok (tc', sm', recs) →
      markersFor tc.stats.instr ++ recs.filter Record.isMarker = markersFor tc'.stats.instr)
    (called : withCached g h f = .ok (g', h')) : MarkersCounted g' h' := by
  obtain ⟨t, tc, tc', sm, recs, -, hl, hfo, rfl, rfl⟩ := withCached_ok called
  intro x
  simp only [recsOf_append, recsOf_tagged, List.filter_append, statsOf_store _ _ _ _ tc hl]
  by_cases hx : x = t
  · subst hx
    rw [if_pos rfl, if_pos rfl, marked, ← marks _ _ _ _ _ hfo]
    simp [statsOf, hl]
  · rw [if_neg hx, if_neg hx, List.filter_nil, List.append_nil]
    exact marked x

theorem withCached_flushBoth_markers (marked : MarkersCounted g h)
    (called : withCached g h (noShadow flushBoth) = .ok (g', h')) : MarkersCounted g' h' :=
  withCached_markers marked (fun _ _ _ _ _ hfo => by
    obtain ⟨⟨tc₁, r₁⟩, hfb, hq⟩ := map_eq_ok.mp hfo
    cases hq
    obtain ⟨hs, hmk⟩ := ThreadContext.flushBoth_flushOnly hfb
    rw [hmk, List.append_nil, hs]) called

theorem onSwapTCxt_markers {n : Nat} (marked : MarkersCounted g h)
    (swapped : onSwapTCxt g h n = .ok (g', h')) : MarkersCounted g' h' := by
  obtain ⟨-, rfl, rfl⟩ | ⟨g₁, h₁, g₂, h₂, -, hnew, hflush, -, hg, rfl⟩ := onSwapTCxt_ok swapped
  · exact marked
  subst g'
  change MarkersCounted g₂ h₂
  have hm₁ : MarkersCounted g₁ h₁ := by
    rcases hnew with ⟨-, rfl, rfl⟩ | ⟨-, rfl, rfl⟩
    · intro x
      rw [statsOf_emplace_create]
      exact marked x
    · exact marked
  rcases hflush with hflush | ⟨-, rfl, rfl⟩
  · exact withCached_flushBoth_markers hm₁ hflush
  · exact hm₁

theorem step_markers {ev : SglEv} (marked : MarkersCounted g h) (stepped : step g h ev = .ok (g', h')) :
    MarkersCounted g' h' := by
  have hm₀ : MarkersCounted (noteSync g h ev) h := fun t => (noteSync_frame g h ev).2.2 ▸ marked t
  rw [step_route] at stepped
  split at stepped
  · exact onSwapTCxt_markers marked stepped
  · exact withCached_markers hm₀ (fun _ _ _ _ _ => ThreadContext.handle_markers) stepped
  · cases stepped
    exact hm₀

theorem run_markers {evs : List SglEv} (marked : MarkersCounted g h)
    (ran : run g h evs = .ok (g', h')) : MarkersCounted g' h' :=
  run_preserves MarkersCounted step_markers marked ran

theorem destroyTCxts_markers {ps : List (Nat × ThreadContext)} (destroyed : destroyTCxts g ps = .ok g')
    (t : Nat) : (recsOf g'.out t).filter Record.isMarker = (recsOf g.out t).filter Record.isMarker := by
  refine destroyTCxts_preserves (fun g' => (recsOf g'.out t).filter Record.isMarker =
    (recsOf g.out t).filter Record.isMarker) (fun hp hdes => ?_) rfl destroyed
  rw [← hp]
  simp only [recsOf_append, recsOf_tagged, List.filter_append]
  split
  · rw [(ThreadContext.destroy_flushOnly hdes).2, List.append_nil]
  · rw [List.filter_nil, List.append_nil]

theorem foldl_count_instr (ps : List Prim) (s : Stats) :
    (ps.foldl Stats.count s).instr = s.instr + ps.count .instr := by
  induction ps generalizing s with
  | nil => rfl
  | cons p ps ih =>
    rw [List.foldl_cons, ih, List.count_cons]
    cases p with
    | instr => simp only [Stats.count, beq_self_eq_true, if_true]; omega
    | _ => simp [Stats.count]

theorem run_instrs_single (g : Globals) (t cur : Nat) :
    ∀ (k : Nat) (tc : ThreadContext), ∃ g', run g ⟨[(t, tc)], cur, some t⟩
      (List.replicate k (.cxt ⟨.instr⟩)) =
        .ok (g', ⟨[(t, { tc with stats := { tc.stats with instr := tc.stats.instr + k } })], cur,
          some t⟩)
  | 0, tc => ⟨g, rfl⟩
  | k + 1, tc => by
    obtain ⟨g', hrun⟩ := run_instrs_single { g with out := g.out ++ tc.onInstr.2.map (t, ·) } t cur
      k tc.onInstr.1
    have hstep : step g ⟨[(t, tc)], cur, some t⟩ (.cxt ⟨.instr⟩) =
        .ok ({ g with out := g.out ++ tc.onInstr.2.map (t, ·) }, ⟨[(t, tc.onInstr.1)], cur, some t⟩) := by
      simp [step, onCxtEv, withCached, noShadow, store, Except.map]
    refine ⟨g', ?_⟩
    rw [List.replicate_succ, run_cons_of_step hstep, Nat.add_comm k, ← Nat.add_assoc]
    exact hrun

/-- After every run of the dispatcher and the destructor, each thread's file holds one
instruction marker for every 4096 instructions routed to the thread, each with count 4096,
and no other marker. -/
theorem destroy_writes_instr_markers {n : Nat} {evs : List SglEv} {g g' : Globals}
    {h : EventHandlers} (ran : run (Globals.init n) EventHandlers.init evs = .ok (g, h))
    (destroyed : destroy g h = .ok g') (t : Nat) :
    (recsOf g'.out t).filter Record.isMarker =
      List.replicate ((routedTo t 0 evs).count .instr / 4096) (.instrMarker 4096) := by
  have hst : statsOf h t = (routedTo t 0 evs).foldl Stats.count ⟨0, 0, 0, 0, 0⟩ :=
    run_stats (fun _ h => by cases h) ran t
  rw [destroyTCxts_markers destroyed, run_markers (MarkersCounted.init n) ran t, hst, foldl_count_instr,
    Nat.zero_add]
  rfl

theorem instrs_then_destroy_markers :
    ∃ g h g', run (Globals.init 100) EventHandlers.init
        (.sync ⟨.swap, 2⟩ :: List.replicate 4096 (.cxt ⟨.instr⟩)) = .ok (g, h) ∧ destroy g h = .ok g' ∧
      (recsOf g'.out 2).filter Record.isMarker =
        List.replicate ((routedTo 2 0 (.sync ⟨.swap, 2⟩ :: List.replicate 4096 (.cxt ⟨.instr⟩))).count
          .instr / 4096) (.instrMarker 4096) := by
  obtain ⟨g, hrun⟩ := run_instrs_single { Globals.init 100 with newThreadsInOrder := [2] } 2 2 4096
    (.create 2 100)
  have hswap : step (Globals.init 100) EventHandlers.init (.sync ⟨.swap, 2⟩) =
      .ok ({ Globals.init 100 with newThreadsInOrder := [2] }, ⟨[(2, .create 2 100)], 2, some 2⟩) :=
    rfl
  have hrun' := (run_cons_of_step hswap).trans hrun
  exact ⟨g, _, _, hrun', rfl, destroy_writes_instr_markers hrun' rfl 2⟩

end EventHandlers

end STGen
