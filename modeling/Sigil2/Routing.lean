import Sigil2.ThreadRuns
import Sigil2.EventHandlers

/-! How `EventHandlers` routes a primitive: to `Swap`, to one context handler through
`cachedTCxt`, or to no context. -/
namespace STGen

namespace EventHandlers

/-- Where the dispatcher sends a primitive. -/
inductive Route where
  | swap (newTID : Nat)
  | call (p : Prim)
  | skip
  deriving DecidableEq, Repr

def route : SglEv → Route
  | .mem ev =>
    match ev.type with
    | .load => .call (.read ev.begin_addr ev.size)
    | .store => .call (.write ev.begin_addr ev.size)
    | .other => .skip
  | .comp ev =>
    match ev.type with
    | .iop => .call .iop
    | .flop => .call .flop
    | .other => .skip
  | .sync ev =>
    if ev.type = .swap then .swap ev.id.toNat
    else if stSyncType ev.type > 0 then .call (.sync (stSyncType ev.type) ev.id) else .skip
  | .cxt ev => if ev.type = .instr then .call .instr else .skip

/-- What a primitive records in the globals besides its call: `Create` and `Barrier`. -/
def noteSync (g : Globals) (h : EventHandlers) : SglEv → Globals
  | .sync ev =>
    if ev.type = .create then onCreate g h ev.id
    else if ev.type = .barrier then onBarrier g h ev.id else g
  | _ => g

theorem noteSync_frame (g : Globals) (h : EventHandlers) (ev : SglEv) :
    (noteSync g h ev).newThreadsInOrder = g.newThreadsInOrder ∧
      (noteSync g h ev).shadow = g.shadow ∧ (noteSync g h ev).out = g.out := by
  cases ev with
  | sync ev =>
    simp only [noteSync]
    split_ifs <;> exact ⟨rfl, rfl, rfl⟩
  | _ => exact ⟨rfl, rfl, rfl⟩

/-- The four entry points route each primitive to a `Swap`, to one context handler through
`cachedTCxt`, or to no context. -/
theorem step_route (g : Globals) (h : EventHandlers) (ev : SglEv) :
    step g h ev =
      match route ev with
      | .swap t => onSwapTCxt g h t
      | .call p => withCached (noteSync g h ev) h fun tc sm => tc.handle sm p
      | .skip => pure (noteSync g h ev, h) := by
  cases ev with
  | mem ev =>
    obtain ⟨type, _, _⟩ := ev
    cases type <;> rfl
  | comp ev =>
    obtain ⟨type⟩ := ev
    cases type <;> rfl
  | sync ev =>
    simp only [step, onSyncEv, convertAndFlush, route, noteSync]
    split_ifs <;> rfl
  | cxt ev =>
    simp only [step, onCxtEv, route]
    split_ifs <;> rfl

/-- A property of contexts that construction gives, and that the flush of a context swapped
out and every handler of a primitive satisfying `A` keep. -/
structure ContextInvariant (A : Prim → Prop) (P : ThreadContext → Prop) : Prop where
  create : ∀ tid n, P (ThreadContext.create tid n)
  handle : ∀ tc sm p tc' sm' recs, A p → P tc → tc.handle sm p = .ok (tc', sm', recs) → P tc'
  flushBoth : ∀ tc tc' recs, P tc → flushBoth tc = .ok (tc', recs) → P tc'

/-- Every context of `h` satisfies `P`. -/
def AllContexts (P : ThreadContext → Prop) (h : EventHandlers) : Prop :=
  ∀ t tc, h.tcxts.lookup t = some tc → P tc

section Contexts

variable {A : Prim → Prop} {P : ThreadContext → Prop} {g g' : Globals} {h h' : EventHandlers}

theorem AllContexts.init : AllContexts P EventHandlers.init :=
  fun _ _ h => nomatch h

theorem lookup_emplace_cases {l : List (Nat × ThreadContext)} {t x : Nat} {c v : ThreadContext}
    (found : (emplace l t c).lookup x = some v) : l.lookup x = some v ∨ v = c := by
  unfold emplace at found
  split at found
  · exact .inl found
  · rw [List.lookup_append] at found
    cases hx : l.lookup x with
    | some w => exact .inl (by rw [hx] at found; exact found)
    | none =>
      rw [hx, Option.none_or] at found
      by_cases hxt : x = t
      · subst hxt
        simp only [List.lookup_cons_self, Option.some.injEq] at found
        exact .inr found.symm
      · simp [lookup_cons_of_ne hxt] at found

theorem withCached_contexts
    {f : ThreadContext → STShadowMemory → Except Halt (ThreadContext × STShadowMemory × List Record)}
    (all : AllContexts P h) (keeps : ∀ tc sm tc' sm' recs, P tc → f tc sm = .ok (tc', sm', recs) → P tc')
    (called : withCached g h f = .ok (g', h')) : AllContexts P h' := by
  obtain ⟨t, tc, tc', sm, recs, -, hl, hfo, rfl, rfl⟩ := withCached_ok called
  intro x c hc
  rw [lookup_store, hl] at hc
  split at hc
  · cases hc
    exact keeps tc _ _ _ _ (all t tc hl) hfo
  · exact all x c hc

theorem onSwapTCxt_contexts (invariant : ContextInvariant A P) (all : AllContexts P h) {n : Nat}
    (swapped : onSwapTCxt g h n = .ok (g', h')) : AllContexts P h' := by
  obtain ⟨-, -, rfl⟩ | ⟨g₁, h₁, g₂, h₂, -, hreg, hflush, -, -, rfl⟩ := onSwapTCxt_ok swapped
  · exact all
  change AllContexts P h₂
  have hall₁ : AllContexts P h₁ := by
    rcases hreg with ⟨-, -, rfl⟩ | ⟨-, -, rfl⟩
    · intro x c hc
      rcases lookup_emplace_cases hc with hc | rfl
      · exact all x c hc
      · exact invariant.create _ _
    · exact all
  rcases hflush with hflush | ⟨-, -, rfl⟩
  · refine withCached_contexts hall₁ (fun tc sm tc' sm' recs hc hfo => ?_) hflush
    obtain ⟨⟨tc₁, r₁⟩, hfb, hq⟩ := map_eq_ok.mp hfo
    cases hq
    exact invariant.flushBoth tc tc₁ r₁ hc hfb
  · exact hall₁

theorem step_contexts (invariant : ContextInvariant A P) (all : AllContexts P h) {ev : SglEv}
    (allowed : ∀ p, route ev = .call p → A p) (stepped : step g h ev = .ok (g', h')) :
    AllContexts P h' := by
  rw [step_route] at stepped
  split at stepped
  · exact onSwapTCxt_contexts invariant all stepped
  · next p hp =>
    exact withCached_contexts all
      (fun tc sm _ _ _ hc hfo => invariant.handle tc sm _ _ _ _ (allowed p hp) hc hfo) stepped
  · cases stepped
    exact all

/-- Over every run whose calls satisfy `A`, every context the dispatcher holds satisfies a
context invariant. -/
theorem run_contexts (invariant : ContextInvariant A P) (all : AllContexts P h) {evs : List SglEv}
    (allowed : ∀ ev ∈ evs, ∀ p, route ev = .call p → A p) (ran : run g h evs = .ok (g', h')) :
    AllContexts P h' := by
  induction evs generalizing g h with
  | nil =>
    cases ran
    exact all
  | cons ev evs ih =>
    obtain ⟨⟨g₁, h₁⟩, hs, ran⟩ := bind_eq_ok.mp ran
    exact ih (step_contexts invariant all (allowed ev (.head _)) hs)
      (fun e he => allowed e (.tail _ he)) ran

end Contexts

theorem flushBoth_compIdle {tc tc' : ThreadContext} {recs : List Record}
    (idle : CompIdle tc.stComp) (flushed : flushBoth tc = .ok (tc', recs)) : CompIdle tc'.stComp := by
  obtain ⟨⟨tc₁, r₁⟩, h₁, h₂⟩ := bind_eq_ok.mp flushed
  obtain ⟨⟨tc₂, r₂⟩, h₃, h₄⟩ := bind_eq_ok.mp h₂
  cases h₄
  exact ThreadContext.commFlushIfActive_stComp h₃ ▸ ThreadContext.compFlushIfActive_compIdle idle h₁

theorem compIdle_invariant : ContextInvariant (fun _ => True) fun tc => CompIdle tc.stComp where
  create _ _ := fun _ => ⟨rfl, rfl, rfl, rfl, rfl⟩
  handle _ _ _ _ _ _ _ hc h := ThreadContext.handle_compIdle hc h
  flushBoth _ _ _ hc h := flushBoth_compIdle hc h

/-- Over every run of the dispatcher, the inactive compute event of every context holds no
counts and no write ranges. -/
theorem run_compIdle {n : Nat} {evs : List SglEv} {g : Globals} {h : EventHandlers}
    (ran : run (Globals.init n) EventHandlers.init evs = .ok (g, h)) :
    ∀ t tc, h.tcxts.lookup t = some tc → CompIdle tc.stComp :=
  run_contexts compIdle_invariant AllContexts.init (fun _ _ _ _ => trivial) ran

theorem comm_load_between_swaps_compIdle :
    ∃ g h, run (Globals.init 100) EventHandlers.init
        [.sync ⟨.swap, 1⟩, .mem ⟨.store, 0x10, 1⟩, .sync ⟨.swap, 2⟩, .mem ⟨.load, 0x10, 2⟩,
          .sync ⟨.swap, 1⟩] = .ok (g, h) ∧
      ∀ t tc, h.tcxts.lookup t = some tc → CompIdle tc.stComp := by
  obtain ⟨g, h, hrun⟩ : ∃ g h, run (Globals.init 100) EventHandlers.init
      [.sync ⟨.swap, 1⟩, .mem ⟨.store, 0x10, 1⟩, .sync ⟨.swap, 2⟩, .mem ⟨.load, 0x10, 2⟩,
        .sync ⟨.swap, 1⟩] = .ok (g, h) := ⟨_, _, rfl⟩
  exact ⟨g, h, hrun, run_compIdle hrun⟩

end EventHandlers

end STGen
