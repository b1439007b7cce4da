import Sigil2.Dispatcher

/-! When a release build stops. With the assertions compiled out, as the model has them, a run
halts on an event-id overflow, on `tcxts.at` of a missing thread, or on a call through a
null `cachedTCxt`. -/
namespace STGen

/-- `x` halts only with an error that `E` accepts, and its value satisfies `P`. -/
def Guarded {ε α : Type} (E : ε → Prop) (P : α → Prop) : Except ε α → Prop
  | .ok a => P a
  | .error e => E e

namespace Guarded

variable {ε α β : Type} {E : ε → Prop} {P Q : α → Prop} {R : β → Prop}

theorem ok {a : α} (holds : P a) : Guarded E P (.ok a : Except ε α) := holds

theorem imp {x : Except ε α} (guarded : Guarded E P x) (implies : ∀ a, P a → Q a) : Guarded E Q x := by
  cases x with
  | error e => exact guarded
  | ok a => exact implies a guarded

theorem bind {x : Except ε α} {f : α → Except ε β} (guarded : Guarded E P x)
    (next : ∀ a, P a → Guarded E R (f a)) : Guarded E R (x >>= f) := by
  cases x with
  | error e => exact guarded
  | ok a => exact next a guarded

theorem map {x : Except ε α} {f : α → β} (guarded : Guarded E P x) (next : ∀ a, P a → R (f a)) :
    Guarded E R (x.map f) := by
  cases x with
  | error e => exact guarded
  | ok a => exact next a guarded

theorem error_of {x : Except ε α} {e : ε} (guarded : Guarded E P x) (failed : x = .error e) : E e := by
  subst failed
  exact guarded

theorem ok_of {x : Except ε α} {a : α} (guarded : Guarded E P x) (succeeded : x = .ok a) : P a := by
  subst succeeded
  exact guarded

end Guarded

/-- The halt `INCR_EID_OVERFLOW` raises in a thread's context. -/
def IsOverflow (e : Halt) : Prop :=
  ∃ tid : Nat, e = .fatal ("Event ID overflow detected in thread: " ++ toString tid)

namespace ThreadContext

/-- A context handler halts only on an event-id overflow. -/
def Safe {α : Type} (x : Except Halt α) : Prop := Guarded IsOverflow (fun _ => True) x

theorem safe_ok {α : Type} (a : α) : Safe (.ok a : Except Halt α) := trivial

theorem Safe.bind {α β : Type} {x : Except Halt α} {f : α → Except Halt β} (safe : Safe x)
    (next : ∀ a, Safe (f a)) : Safe (x >>= f) :=
  Guarded.bind safe fun a _ => next a

theorem compFlushIfActive_safe (tc : ThreadContext) : Safe tc.compFlushIfActive := by
  unfold compFlushIfActive
  split
  · split
    · trivial
    · exact ⟨tc.tid, rfl⟩
  · trivial

theorem commFlushIfActive_safe (tc : ThreadContext) : Safe tc.commFlushIfActive := by
  unfold commFlushIfActive
  split
  · split
    · trivial
    · exact ⟨tc.tid, rfl⟩
  · trivial

theorem checkCompFlushLimit_safe (tc : ThreadContext) : Safe tc.checkCompFlushLimit := by
  unfold checkCompFlushLimit
  split
  · exact compFlushIfActive_safe tc
  · trivial

theorem onIop_safe (tc : ThreadContext) : Safe tc.onIop :=
  (commFlushIfActive_safe tc).bind fun _ => trivial

theorem onFlop_safe (tc : ThreadContext) : Safe tc.onFlop :=
  (commFlushIfActive_safe tc).bind fun _ => trivial

theorem onRead_safe (tc : ThreadContext) (sm : STShadowMemory) (start bytes : Addr) :
    Safe (tc.onRead sm start bytes) := by
  unfold onRead
  dsimp only
  split
  · exact (commFlushIfActive_safe _).bind fun _ =>
      (safe_ok _).bind fun _ => (checkCompFlushLimit_safe _).bind fun _ => trivial
  · exact (compFlushIfActive_safe _).bind fun _ => (checkCompFlushLimit_safe _).bind fun _ => trivial

theorem onWrite_safe (tc : ThreadContext) (sm : STShadowMemory) (start bytes : Addr) :
    Safe (tc.onWrite sm start bytes) :=
  (checkCompFlushLimit_safe _).bind fun _ => trivial

theorem onSync_safe (tc : ThreadContext) (syncType : Nat) (syncAddr : Addr) :
    Safe (tc.onSync syncType syncAddr) :=
  (compFlushIfActive_safe tc).bind fun _ => (commFlushIfActive_safe _).bind fun _ => trivial

theorem handle_safe (tc : ThreadContext) (sm : STShadowMemory) (p : Prim) : Safe (tc.handle sm p) := by
  cases p with
  | iop => exact Guarded.map (onIop_safe tc) fun _ _ => trivial
  | flop => exact Guarded.map (onFlop_safe tc) fun _ _ => trivial
  | read start bytes => exact onRead_safe tc sm start bytes
  | write start bytes => exact onWrite_safe tc sm start bytes
  | sync syncType syncAddr => exact Guarded.map (onSync_safe tc syncType syncAddr) fun _ _ => trivial
  | instr => trivial

end ThreadContext

namespace EventHandlers

open ThreadContext

/-- Which threads have contexts, and what `Swap` reads: the registered threads,
`cachedTCxt` and `currentTID`. -/
structure SameShape (g : Globals) (h : EventHandlers) (g' : Globals) (h' : EventHandlers) :
    Prop where
  registered : g'.newThreadsInOrder = g.newThreadsInOrder
  cached : h'.cachedTCxt = h.cachedTCxt
  current : h'.currentTID = h.currentTID
  present : ∀ x, (h'.tcxts.lookup x).isSome = (h.tcxts.lookup x).isSome

/-- Every context `cachedTCxt` points to, and every registered thread, has a context. -/
structure Registered (g : Globals) (h : EventHandlers) : Prop where
  cached : ∀ t, h.cachedTCxt = some t → (h.tcxts.lookup t).isSome
  registered : ∀ t ∈ g.newThreadsInOrder, (h.tcxts.lookup t).isSome

/-- What a single dispatcher keeps once it has seen a `Swap`: `cachedTCxt` points to the
current thread's context. -/
structure Ready (g : Globals) (h : EventHandlers) extends Registered g h : Prop where
  current : h.cachedTCxt = some h.currentTID

variable {g g' : Globals} {h h' : EventHandlers}

theorem Registered.init (n : Nat) : Registered (Globals.init n) EventHandlers.init :=
  ⟨fun _ h => (nomatch h), fun _ h => (nomatch h)⟩

theorem Registered.of_sameShape (registered : Registered g h) (same : SameShape g h g' h') :
    Registered g' h' :=
  ⟨fun t ht => same.present t ▸ registered.cached t (same.cached ▸ ht),
    fun t ht => same.present t ▸ registered.registered t (same.registered ▸ ht)⟩

theorem Ready.of_sameShape (ready : Ready g h) (same : SameShape g h g' h') : Ready g' h' :=
  ⟨ready.toRegistered.of_sameShape same, same.cached.trans (same.current ▸ ready.current)⟩

theorem Ready.of_globals (ready : Ready g h) (sameThreads : g'.newThreadsInOrder = g.newThreadsInOrder) :
    Ready g' h :=
  ready.of_sameShape ⟨sameThreads, rfl, rfl, fun _ => rfl⟩

theorem withCached_safe {t : Nat}
    {f : ThreadContext → STShadowMemory → Except Halt (ThreadContext × STShadowMemory × List Record)}
    (cached : h.cachedTCxt = some t) (present : (h.tcxts.lookup t).isSome) (safe : ∀ tc sm, Safe (f tc sm)) :
    Guarded IsOverflow (fun p => SameShape g h p.1 p.2) (withCached g h f) := by
  obtain ⟨tc, htc⟩ := Option.isSome_iff_exists.mp present
  unfold withCached
  rw [cached]
  dsimp only
  rw [htc]
  exact Guarded.bind (safe tc g.shadow) fun _ _ =>
    ⟨rfl, cached.symm, rfl, fun x => isSome_lookup_store _ _ _ _⟩

theorem withCached_ready
    {f : ThreadContext → STShadowMemory → Except Halt (ThreadContext × STShadowMemory × List Record)}
    (ready : Ready g h) (safe : ∀ tc sm, Safe (f tc sm)) :
    Guarded IsOverflow (fun p => Ready p.1 p.2) (withCached g h f) :=
  (withCached_safe ready.current (ready.cached _ ready.current) safe).imp fun _ => ready.of_sameShape

theorem flushBoth_safe (tc : ThreadContext) : Safe (flushBoth tc) :=
  (compFlushIfActive_safe tc).bind fun _ => (commFlushIfActive_safe _).bind fun _ => trivial

theorem noShadow_safe {f : ThreadContext → Except Halt (ThreadContext × List Record)}
    (safe : ∀ tc, Safe (f tc)) (tc : ThreadContext) (sm : STShadowMemory) : Safe (noShadow f tc sm) :=
  Guarded.map (safe tc) fun _ _ => trivial

theorem swapIn_ready {newTID : Nat} (registered : Registered g h) (present : (h.tcxts.lookup newTID).isSome) :
    Guarded IsOverflow (fun p => Ready p.1 p.2)
      (match h.tcxts.lookup newTID with
        | none => .error .outOfRange
        | some _ => pure (g, { h with currentTID := newTID, cachedTCxt := some newTID })) := by
  obtain ⟨c, hc⟩ := Option.isSome_iff_exists.mp present
  rw [hc]
  exact ⟨⟨fun t ht => (Option.some.inj ht) ▸ present, registered.registered⟩, rfl⟩

/-- `Swap` from a state whose cached and registered threads have contexts halts only on an
overflow while flushing the thread swapped out, and leaves `cachedTCxt` pointing to the
context of the thread swapped in. -/
theorem onSwapTCxt_ready {newTID : Nat} (registered : Registered g h)
    (current : h.currentTID = newTID → Ready g h) :
    Guarded IsOverflow (fun p => Ready p.1 p.2) (onSwapTCxt g h newTID) := by
  unfold onSwapTCxt
  split
  · generalize hp : (if newTID ∉ g.newThreadsInOrder then _ else _) = p
    have hr₁ : Registered p.1 p.2 ∧ (p.2.tcxts.lookup newTID).isSome ∧
        p.2.cachedTCxt = h.cachedTCxt := by
      subst hp
      split
      · refine ⟨⟨fun t ht => ?_, fun t ht => ?_⟩, by simp [isSome_lookup_emplace], rfl⟩
        · simp [isSome_lookup_emplace, registered.cached t ht]
        · rcases List.mem_append.mp ht with ht | ht
          · simp [isSome_lookup_emplace, registered.registered t ht]
          · simp [isSome_lookup_emplace, List.mem_singleton.mp ht]
      · next hold => exact ⟨registered, registered.registered _ (not_not.mp hold), rfl⟩
    obtain ⟨g₁, h₁⟩ := p
    obtain ⟨hr₁, hn₁, -⟩ := hr₁
    dsimp only
    split
    · next hs =>
      obtain ⟨t, ht⟩ := Option.isSome_iff_exists.mp hs
      exact (withCached_safe ht (hr₁.cached t ht) (noShadow_safe flushBoth_safe)).bind
        fun ⟨g₂, h₂⟩ hs => swapIn_ready (hr₁.of_sameShape hs) ((hs.present newTID).trans hn₁)
    · exact swapIn_ready hr₁ hn₁
  · next hsame => exact current (not_not.mp hsame)

theorem step_ready (ready : Ready g h) (ev : SglEv) :
    Guarded IsOverflow (fun p => Ready p.1 p.2) (step g h ev) := by
  have hr₀ : Ready (noteSync g h ev) h := ready.of_globals (noteSync_frame g h ev).1
  rw [step_route]
  split
  · exact onSwapTCxt_ready ready.toRegistered fun _ => ready
  · exact withCached_ready hr₀ fun tc sm => handle_safe tc sm _
  · exact hr₀

theorem run_ready (ready : Ready g h) (evs : List SglEv) :
    Guarded IsOverflow (fun p => Ready p.1 p.2) (run g h evs) := by
  induction evs generalizing g h with
  | nil => exact ready
  | cons ev evs ih => exact (step_ready ready ev).bind fun p hp => ih hp

/-- In a release build, a single dispatcher fed a primitive stream that starts with a `Swap`
to a positive thread id never calls through a null `cachedTCxt` and never throws from
`tcxts.at`: it halts only when an event counter would overflow. After every primitive,
`cachedTCxt` points to the current thread's context, and every thread in `newThreadsInOrder`
has a context. -/
theorem run_halts_only_on_overflow (n : Nat) {id : UInt64} (pos : 0 < id.toNat)
    (evs : List SglEv) :
    (∀ e, run (Globals.init n) EventHandlers.init (.sync ⟨.swap, id⟩ :: evs) = .error e →
      IsOverflow e) ∧
    ∀ g h, run (Globals.init n) EventHandlers.init (.sync ⟨.swap, id⟩ :: evs) = .ok (g, h) →
      Ready g h := by
  have hswap : Guarded IsOverflow (fun p => Ready p.1 p.2)
      (step (Globals.init n) EventHandlers.init (.sync ⟨.swap, id⟩)) :=
    onSwapTCxt_ready (Registered.init n) fun h0 => absurd h0 (Nat.ne_of_lt pos)
  have hrun := hswap.bind fun p hp => run_ready hp evs
  exact ⟨fun e he => hrun.error_of he, fun g h hgh => hrun.ok_of hgh⟩

theorem swap_then_accesses_halt_only_on_overflow :
    0 < (1 : UInt64).toNat ∧
    (∀ e, run (Globals.init 100) EventHandlers.init
        [.sync ⟨.swap, 1⟩, .mem ⟨.store, 0x10, 4⟩, .comp ⟨.iop⟩, .sync ⟨.swap, 2⟩,
          .mem ⟨.load, 0x10, 4⟩] = .error e → IsOverflow e) ∧
    ∀ g h, run (Globals.init 100) EventHandlers.init
        [.sync ⟨.swap, 1⟩, .mem ⟨.store, 0x10, 4⟩, .comp ⟨.iop⟩, .sync ⟨.swap, 2⟩,
          .mem ⟨.load, 0x10, 4⟩] = .ok (g, h) → Ready g h :=
  ⟨by decide, run_halts_only_on_overflow 100 (by decide) _⟩

/-- Without the first `Swap`, the first handler call goes through a null `cachedTCxt`. -/
example : run (Globals.init 100) EventHandlers.init [.mem ⟨.load, 0x10, 1⟩] = .error .nullTCxt :=
  rfl

end EventHandlers

end STGen
