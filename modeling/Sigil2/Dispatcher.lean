import Sigil2.Routing
import Sigil2.Trace

/-! `Inv`: what the dispatcher keeps of the files, the contexts and the shadow memory. -/
namespace STGen

namespace EventHandlers

/-- The event counter of `t`'s context, zero when `t` has none. -/
def eventsOf (h : EventHandlers) (t : Nat) : Nat :=
  ((h.tcxts.lookup t).map (·.events)).getD 0

theorem eventsOf_of_lookup {h : EventHandlers} {t : Nat} {tc : ThreadContext}
    (known : h.tcxts.lookup t = some tc) : h.eventsOf t = tc.events := by
  simp [eventsOf, known]

end EventHandlers

open EventHandlers

/-- A context handler as `withCached` calls it acts through an `Effect`. -/
def Handles (f : ThreadContext → STShadowMemory →
    Except Halt (ThreadContext × STShadowMemory × List Record)) : Prop :=
  ∀ tc sm tc' sm' recs, f tc sm = .ok (tc', sm', recs) → Effect tc sm tc' sm' recs

theorem flushBoth_effect {tc tc' : ThreadContext} {recs : List Record} (sm : STShadowMemory)
    (flushed : flushBoth tc = .ok (tc', recs)) : Effect tc sm tc' sm recs :=
  ThreadContext.destroy_effect sm flushed

theorem flushBoth_idle {tc tc' : ThreadContext} {recs : List Record}
    (flushed : flushBoth tc = .ok (tc', recs)) : tc'.stComp.isActive = false := by
  obtain ⟨⟨tc₁, r₁⟩, h₁, h₂⟩ := bind_eq_ok.mp flushed
  obtain ⟨⟨tc₂, r₂⟩, h₃, h₄⟩ := bind_eq_ok.mp h₂
  cases h₄
  rw [ThreadContext.commFlushIfActive_stComp h₃]
  rcases ThreadContext.compFlushIfActive_ok h₁ with ⟨-, rfl, -⟩ | ⟨hact, rfl, -⟩
  · rfl
  · exact hact

/-- What the dispatcher keeps between primitives. -/
structure Inv (g : Globals) (h : EventHandlers) : Prop where
  keys : (h.tcxts.map Prod.fst).Nodup
  tids : ∀ t tc, h.tcxts.lookup t = some tc → tc.tid = t
  log : LogInv g.out h.eventsOf
  pending : ∀ t tc, h.tcxts.lookup t = some tc → ∀ w e s, (w, e, s) ∈ tc.stComm.comms →
    w ≠ t ∧ e < h.eventsOf w
  cells : ∀ a w, g.shadow.getWriterTID a = some w → ∃ tc, h.tcxts.lookup w = some tc ∧
    (g.shadow.getWriterEID a < tc.events ∨
      (h.cachedTCxt = some w ∧ Owed tc (g.shadow.getWriterEID a)))

namespace Inv

variable {g : Globals} {h : EventHandlers}

theorem init (n : Nat) : Inv (Globals.init n) EventHandlers.init where
  keys := List.nodup_nil
  tids _ _ h := nomatch h
  log := LogInv.init
  pending _ _ h := nomatch h
  cells _ _ h := nomatch h

theorem of_globals {g' : Globals} (inv : Inv g h) (sameOut : g'.out = g.out)
    (sameShadow : g'.shadow = g.shadow) : Inv g' h :=
  { inv with
    log := sameOut ▸ inv.log
    cells := sameShadow ▸ inv.cells }

theorem edgeSource {t : Nat} {tc : ThreadContext} (inv : Inv g h) (cached : h.cachedTCxt = some t)
    (known : h.tcxts.lookup t = some tc) {w e : Nat} (source : EdgeSource tc g.shadow w e) :
    w ≠ t ∧ e < h.eventsOf w := by
  rcases source with ⟨s, source⟩ | ⟨hw, a, ha, he⟩
  · exact inv.pending t tc known w e s source
  · rw [inv.tids t tc known] at hw
    obtain ⟨tcw, hlw, hcell⟩ := inv.cells a w ha
    rw [he] at hcell
    refine ⟨hw, ?_⟩
    rw [eventsOf_of_lookup hlw]
    rcases hcell with hlt | ⟨hc, -⟩
    · exact hlt
    · rw [cached] at hc
      exact absurd (Option.some.inj hc).symm hw

/-- A call through `cachedTCxt` that acts through an `Effect` keeps `Inv`. -/
theorem call {t : Nat} {tc tc' : ThreadContext} {sm : STShadowMemory} {recs : List Record}
    (inv : Inv g h) (cached : h.cachedTCxt = some t) (known : h.tcxts.lookup t = some tc)
    (effect : Effect tc g.shadow tc' sm recs) :
    Inv { g with shadow := sm, out := g.out ++ recs.map (t, ·) }
      { h with tcxts := store h.tcxts t tc' } := by
  have hlook : ∀ x, (store h.tcxts t tc').lookup x =
      if x = t then some tc' else h.tcxts.lookup x := fun x => by
    rw [lookup_store, known]; rfl
  have hev : eventsOf { h with tcxts := store h.tcxts t tc' } =
      Function.update h.eventsOf t tc'.events := by
    funext x
    simp only [eventsOf, hlook, Function.update_apply]
    split_ifs <;> rfl
  have hmono : h.eventsOf ≤ Function.update h.eventsOf t tc'.events :=
    le_update_iff.mpr ⟨(eventsOf_of_lookup known).trans_le effect.counted.le, fun _ _ => le_rfl⟩
  refine ⟨?_, ?_, ?_, ?_, ?_⟩
  · rw [keys_store]; exact inv.keys
  · intro x c hc
    rw [hlook] at hc
    split at hc
    · cases hc; rename_i hx; rw [effect.tid, inv.tids t tc known, hx]
    · exact inv.tids x c hc
  · rw [hev]
    refine inv.log.append (eventsOf_of_lookup known ▸ effect.counted) fun r hr w e hwe => ?_
    exact inv.edgeSource cached known (effect.logged r hr w e hwe)
  · intro x c hc w e s hs
    rw [hlook] at hc
    rw [hev]
    split at hc
    · cases hc
      rename_i hx
      obtain ⟨hw, hlt⟩ := inv.edgeSource cached known (effect.pending w e s hs)
      exact ⟨hx ▸ hw, hlt.trans_le (hmono w)⟩
    · obtain ⟨hw, hlt⟩ := inv.pending x c hc w e s hs
      exact ⟨hw, hlt.trans_le (hmono w)⟩
  · intro a w ha
    simp only at ha ⊢
    have hself : (store h.tcxts t tc').lookup t = some tc' := by rw [hlook, if_pos rfl]
    rcases effect.cells a with ⟨h₁, h₂⟩ | ⟨h₁, h₂⟩
    · rw [h₁] at ha
      obtain ⟨tcw, hlw, hcell⟩ := inv.cells a w ha
      rw [h₂]
      by_cases hw : w = t
      · subst hw
        cases known.symm.trans hlw
        exact ⟨tc', hself, .inr ⟨cached, effect.owed _ (hcell.elim .inl And.right)⟩⟩
      · exact ⟨tcw, by rw [hlook, if_neg hw]; exact hlw, hcell⟩
    · rw [h₁, inv.tids t tc known] at ha
      cases ha
      exact ⟨tc', hself, .inr ⟨cached, h₂⟩⟩

theorem withCached {f : ThreadContext → STShadowMemory →
    Except Halt (ThreadContext × STShadowMemory × List Record)} {g' : Globals}
    {h' : EventHandlers} (inv : Inv g h) (handles : Handles f) (called : withCached g h f = .ok (g', h')) :
    Inv g' h' := by
  obtain ⟨t, tc, tc', sm, recs, hct, hl, hfo, rfl, rfl⟩ := withCached_ok called
  exact inv.call hct hl (handles _ _ _ _ _ hfo)

theorem emplace {t : Nat} {c : ThreadContext} (inv : Inv g h) (ownTid : c.tid = t)
    (fresh : c.events = 0) (noEdges : c.stComm.comms = []) :
    Inv g { h with tcxts := EventHandlers.emplace h.tcxts t c } := by
  cases hnone : h.tcxts.lookup t with
  | some _ =>
    have : EventHandlers.emplace h.tcxts t c = h.tcxts := by simp [EventHandlers.emplace, hnone]
    simpa [this] using inv
  | none =>
    have hlook := lookup_emplace_of_none c hnone
    have hevs : eventsOf { h with tcxts := EventHandlers.emplace h.tcxts t c } = h.eventsOf := by
      funext x
      by_cases hx : x = t
      · subst hx; simp [eventsOf, hlook, hnone, fresh]
      · simp [eventsOf, hlook, hx]
    refine ⟨?_, ?_, hevs ▸ inv.log, ?_, ?_⟩
    · simp only [EventHandlers.emplace, hnone, Option.isSome_none, Bool.false_eq_true, if_false,
        List.map_append, List.map_cons, List.map_nil]
      refine List.pairwise_append.mpr ⟨inv.keys, List.pairwise_singleton _ _, ?_⟩
      intro x hx y hy hxy
      rw [List.mem_singleton] at hy
      subst hy hxy
      obtain ⟨p, hp, rfl⟩ := List.mem_map.mp hx
      simp [List.lookup_eq_none_iff] at hnone
      exact hnone p.1 p.2 hp rfl
    · intro x tc hx
      rw [hlook] at hx
      split at hx
      · cases hx; rename_i h'; rw [ownTid, h']
      · exact inv.tids x tc hx
    · intro x tc hx w e s hs
      rw [hevs]
      rw [hlook] at hx
      split at hx
      · cases hx; rw [noEdges] at hs; cases hs
      · exact inv.pending x tc hx w e s hs
    · intro a w ha
      obtain ⟨tcw, hlw, hcell⟩ := inv.cells a w ha
      refine ⟨tcw, ?_, hcell⟩
      rw [hlook, if_neg]
      · exact hlw
      · rintro rfl; rw [hnone] at hlw; cases hlw

theorem recache (inv : Inv g h) (n : Nat)
    (idle : ∀ t tc, h.cachedTCxt = some t → h.tcxts.lookup t = some tc →
      tc.stComp.isActive = false) :
    Inv g { h with currentTID := n, cachedTCxt := some n } :=
  { inv with
    cells := fun a w ha => by
      obtain ⟨tc, hl, hcell⟩ := inv.cells a w ha
      refine ⟨tc, hl, .inl ?_⟩
      rcases hcell with hlt | ⟨hc, ho⟩
      · exact hlt
      · have := idle w tc hc hl
        rcases ho with hlt | ⟨-, ha⟩
        · exact hlt
        · rw [this] at ha; cases ha }

end Inv

namespace EventHandlers

variable {g g' : Globals} {h h' : EventHandlers}

theorem onSwapTCxt_inv {n : Nat} (inv : Inv g h) (swapOk : onSwapTCxt g h n = .ok (g', h')) :
    Inv g' h' := by
  obtain ⟨-, rfl, rfl⟩ | ⟨g₁, h₁, g₂, h₂, -, hreg, hflush, -, rfl, rfl⟩ := onSwapTCxt_ok swapOk
  · exact inv
  -- the registration of a new thread
  have hi₁ : Inv g₁ h₁ := by
    rcases hreg with ⟨-, rfl, rfl⟩ | ⟨-, rfl, rfl⟩
    · exact (inv.emplace (by rfl) (by rfl) (by rfl)).of_globals (by rfl) (by rfl)
    · exact inv
  -- the flush of the thread swapped out, then the switch of `cachedTCxt`
  rcases hflush with hflush | ⟨hnone, rfl, rfl⟩
  · obtain ⟨t, tc, tc', sm, recs, hct, hl, hfo, rfl, rfl⟩ := withCached_ok hflush
    obtain ⟨⟨tc₁, r₁⟩, hfb, hq⟩ := map_eq_ok.mp hfo
    cases hq
    refine (hi₁.call hct hl (flushBoth_effect _ hfb)).recache n fun t' c hc hlc => ?_
    simp only at hc hlc
    rw [hct] at hc
    cases hc
    rw [lookup_store, hl] at hlc
    simp only [if_true, Option.map_some'] at hlc
    cases hlc
    exact flushBoth_idle hfb
  · exact hi₁.recache n fun t tc hc _ => by rw [hnone] at hc; cases hc

theorem step_inv {ev : SglEv} (inv : Inv g h) (stepped : step g h ev = .ok (g', h')) : Inv g' h' := by
  have hi₀ : Inv (noteSync g h ev) h :=
    inv.of_globals (noteSync_frame g h ev).2.2 (noteSync_frame g h ev).2.1
  rw [step_route] at stepped
  split at stepped
  · exact onSwapTCxt_inv inv stepped
  · exact hi₀.withCached (fun _ _ _ _ _ => ThreadContext.handle_effect) stepped
  · cases stepped
    exact hi₀

theorem run_inv {evs : List SglEv} (inv : Inv g h) (ran : run g h evs = .ok (g', h')) :
    Inv g' h' :=
  run_preserves Inv step_inv inv ran

theorem destroyTCxts_logInv {ps : List (Nat × ThreadContext)} {g g' : Globals} {ev : Nat → Nat}
    (log : LogInv g.out ev) (nodup : (ps.map Prod.fst).Nodup)
    (contexts : ∀ p ∈ ps, ev p.1 = p.2.events ∧
      ∀ w e s, (w, e, s) ∈ p.2.stComm.comms → w ≠ p.1 ∧ e < ev w)
    (destroyed : destroyTCxts g ps = .ok g') : ∃ ev', LogInv g'.out ev' := by
  induction ps generalizing g ev with
  | nil => cases destroyed; exact ⟨ev, log⟩
  | cons p ps ih =>
    obtain ⟨t, tc⟩ := p
    obtain ⟨⟨tc', recs⟩, hdt, hrest⟩ := bind_eq_ok.mp destroyed
    have he := ThreadContext.destroy_effect .empty hdt
    obtain ⟨hev, hpend⟩ := contexts (t, tc) (.head _)
    rw [List.map_cons, List.nodup_cons] at nodup
    have hl' := log.append (hev ▸ he.counted) fun r hr w e hwe => by
      rcases he.logged r hr w e hwe with ⟨s, hs⟩ | ⟨-, a, ha, -⟩
      · exact hpend w e s hs
      · cases ha
    refine ih hl' nodup.2 (fun q hq => ?_) hrest
    have hqt : q.1 ≠ t := fun h => nodup.1 (List.mem_map.mpr ⟨q, hq, h⟩)
    obtain ⟨hqe, hqp⟩ := contexts q (.tail _ hq)
    refine ⟨by simp [hqt, hqe], fun w e s hs => ?_⟩
    obtain ⟨hw, hlt⟩ := hqp w e s hs
    have hmono : ev ≤ Function.update ev t tc'.events :=
      le_update_iff.mpr ⟨hev.trans_le he.counted.le, fun _ _ => le_rfl⟩
    exact ⟨hw, hlt.trans_le (hmono w)⟩

theorem destroy_logInv_of_inv {g₀ g' : Globals} {ps : List (Nat × ThreadContext)}
    (inv : Inv g h) (sameOut : g₀.out = g.out) (perm : ps.Perm h.tcxts)
    (destroyed : destroyTCxts g₀ ps = .ok g') : ∃ ev, LogInv g'.out ev := by
  have hnd : (ps.map Prod.fst).Nodup := (perm.map Prod.fst).nodup_iff.mpr inv.keys
  have hps : ∀ p ∈ ps, h.eventsOf p.1 = p.2.events ∧
      ∀ w e s, (w, e, s) ∈ p.2.stComm.comms → w ≠ p.1 ∧ e < h.eventsOf w := fun p hp =>
    have hlp := lookup_of_mem inv.keys (perm.mem_iff.mp hp)
    ⟨eventsOf_of_lookup hlp, inv.pending p.1 p.2 hlp⟩
  exact destroyTCxts_logInv (sameOut ▸ inv.log) hnd hps destroyed

/-- Over every run of the dispatcher, the dependency graph over the records written is
acyclic, and the files are written in an order that respects it: every producer a
communication record names was written before it and is never written again. Every
producer edge still pending in a context has been written too. After the run, destroying
the contexts in any order keeps both. -/
theorem dependency_graph_acyclic {n : Nat} {evs : List SglEv} {g : Globals} {h : EventHandlers}
    (ran : run (Globals.init n) EventHandlers.init evs = .ok (g, h)) :
    (∀ t tc, h.tcxts.lookup t = some tc → ∀ w e s, (w, e, s) ∈ tc.stComm.comms →
      Emitted g.out (w, e)) ∧
    LogOrdered g.out ∧ Acyclic g.out ∧
    ∀ g₀ ps g', g₀.out = g.out → ps.Perm h.tcxts → destroyTCxts g₀ ps = .ok g' →
      LogOrdered g'.out ∧ Acyclic g'.out := by
  have hi := run_inv (Inv.init n) ran
  refine ⟨fun t tc hl w e s hs => ?_, hi.log.ordered, hi.log.ordered.acyclic, ?_⟩
  · obtain ⟨j, -, hj⟩ := hi.log.emitted (hi.pending t tc hl w e s hs).2
    exact ⟨j, hj⟩
  · intro g₀ ps g' hout hperm hd
    obtain ⟨ev', hl'⟩ := destroy_logInv_of_inv hi hout hperm hd
    exact ⟨hl'.ordered, hl'.ordered.acyclic⟩

theorem store_then_remote_load_acyclic :
    ∃ g h, run (Globals.init 100) EventHandlers.init
        [.sync ⟨.swap, 1⟩, .mem ⟨.store, 0x10, 1⟩, .sync ⟨.swap, 2⟩, .mem ⟨.load, 0x10, 1⟩,
          .sync ⟨.swap, 3⟩, .mem ⟨.load, 0x10, 1⟩] = .ok (g, h) ∧
      (∀ t tc, h.tcxts.lookup t = some tc → ∀ w e s, (w, e, s) ∈ tc.stComm.comms →
        Emitted g.out (w, e)) ∧
      LogOrdered g.out ∧ Acyclic g.out ∧
      ∀ g₀ ps g', g₀.out = g.out → ps.Perm h.tcxts → destroyTCxts g₀ ps = .ok g' →
        LogOrdered g'.out ∧ Acyclic g'.out := by
  obtain ⟨g, h, hrun⟩ : ∃ g h, run (Globals.init 100) EventHandlers.init
      [.sync ⟨.swap, 1⟩, .mem ⟨.store, 0x10, 1⟩, .sync ⟨.swap, 2⟩, .mem ⟨.load, 0x10, 1⟩,
        .sync ⟨.swap, 3⟩, .mem ⟨.load, 0x10, 1⟩] = .ok (g, h) := ⟨_, _, rfl⟩
  exact ⟨g, h, hrun, dependency_graph_acyclic hrun⟩

/-- Over every run of the dispatcher, each thread's file follows one counter from zero:
compute and communication records take consecutive event ids, sync records the id the next
record takes; the counter reached is the thread's context's. Destroying the contexts in any
order keeps every file counted. -/
theorem run_files_counted {n : Nat} {evs : List SglEv} {g : Globals} {h : EventHandlers}
    (ran : run (Globals.init n) EventHandlers.init evs = .ok (g, h)) :
    (∀ t, Counted 0 (h.eventsOf t) (recsOf g.out t)) ∧
    ∀ g₀ ps g', g₀.out = g.out → ps.Perm h.tcxts → destroyTCxts g₀ ps = .ok g' →
      ∃ ev : Nat → Nat, ∀ t, Counted 0 (ev t) (recsOf g'.out t) := by
  have hi := run_inv (Inv.init n) ran
  refine ⟨hi.log.counted, fun g₀ ps g' hout hperm hd => ?_⟩
  obtain ⟨ev, hl⟩ := destroy_logInv_of_inv hi hout hperm hd
  exact ⟨ev, hl.counted⟩

theorem sync_between_stores_counted :
    ∃ g h, run (Globals.init 100) EventHandlers.init
        [.sync ⟨.swap, 1⟩, .mem ⟨.store, 0x10, 1⟩, .sync ⟨.lock, 0x30⟩, .comp ⟨.iop⟩,
          .sync ⟨.swap, 2⟩, .mem ⟨.load, 0x10, 1⟩] = .ok (g, h) ∧
      ∀ t, Counted 0 (h.eventsOf t) (recsOf g.out t) := by
  obtain ⟨g, h, hrun⟩ : ∃ g h, run (Globals.init 100) EventHandlers.init
      [.sync ⟨.swap, 1⟩, .mem ⟨.store, 0x10, 1⟩, .sync ⟨.lock, 0x30⟩, .comp ⟨.iop⟩,
        .sync ⟨.swap, 2⟩, .mem ⟨.load, 0x10, 1⟩] = .ok (g, h) := ⟨_, _, rfl⟩
  exact ⟨g, h, hrun, (run_files_counted hrun).1⟩

/-- The producer event id `onWrite` stores is the counter at the store, which the next flush
of either aggregator takes. Thread 2 loads a byte thread 1 stored, stores `0x20` while that
communication event is pending, and flushes the communication event first: thread 3's load
of `0x20` then names producer `(2, 0)`, which is thread 2's communication record, while the
store is in thread 2's compute record `1`. -/
theorem producer_eid_names_comm_record :
    (run (Globals.init 100) EventHandlers.init
        [.sync ⟨.swap, 1⟩, .mem ⟨.store, 0x10, 1⟩, .sync ⟨.swap, 2⟩, .mem ⟨.load, 0x10, 1⟩,
          .mem ⟨.store, 0x20, 1⟩, .comp ⟨.iop⟩, .sync ⟨.swap, 3⟩, .mem ⟨.load, 0x20, 1⟩]).map
      (fun p => ((p.2.tcxts.lookup 3).map (·.stComm.comms), recsOf p.1.out 2)) =
    .ok (some [(2, 0, ⟨[(0x20, 0x20)]⟩)],
      [.comm ⟨[(1, 0, ⟨[(0x10, 0x10)]⟩)], true⟩ 0 2,
        .comp ⟨1, 0, 0, 1, ⟨[(0x20, 0x20)]⟩, ⟨[]⟩, true⟩ 1 2]) := by
  nth_rewrite 2 [← AddrSet.insert_empty (0x20, 0x20)]
  rfl

end EventHandlers

end STGen
