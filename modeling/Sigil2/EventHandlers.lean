import Sigil2.ThreadContext

/-! `EventHandlers`: the backend's entry points. The process-wide lists, the shadow memory and
the files form one `Globals` value; the files are one list of records, each tagged with the
thread whose file it goes to. -/
namespace STGen

/-- The process-wide state: the globals of EventHandlers.cpp, `ThreadContext::shadow`, and
the records all loggers have written. -/
structure Globals where
  primsPerStCompEv : Nat
  newThreadsInOrder : List Nat
  threadSpawns : List (Nat × Addr)
  barrierParticipants : List (Addr × List Nat)
  allThreadsStats : List (Nat × Stats)
  shadow : STShadowMemory
  out : List (Nat × Record)

structure EventHandlers where
  tcxts : List (Nat × ThreadContext)
  currentTID : Nat
  cachedTCxt : Option Nat

namespace Globals

def init (primsPerStCompEv : Nat) : Globals := ⟨primsPerStCompEv, [], [], [], [], .empty, []⟩

end Globals

namespace EventHandlers

/-- A fresh instance: no contexts, no current thread, `cachedTCxt` null. -/
def init : EventHandlers := ⟨[], 0, none⟩

/-- `tcxts.emplace(tid, ...)`: no change when `tid` already has a context. -/
def emplace (tcxts : List (Nat × ThreadContext)) (tid : Nat) (tc : ThreadContext) :
    List (Nat × ThreadContext) :=
  if (tcxts.lookup tid).isSome then tcxts else tcxts ++ [(tid, tc)]

/-- Write back the context of `tid`. -/
def store (tcxts : List (Nat × ThreadContext)) (tid : Nat) (tc : ThreadContext) :
    List (Nat × ThreadContext) :=
  tcxts.map fun p => if p.1 = tid then (tid, tc) else p

theorem lookup_cons_of_ne {l : List (Nat × ThreadContext)} {x k : Nat} {v : ThreadContext}
    (other : x ≠ k) : ((k, v) :: l).lookup x = l.lookup x := by
  simp [List.lookup_cons, beq_false_of_ne other]

theorem lookup_store (l : List (Nat × ThreadContext)) (t x : Nat) (c : ThreadContext) :
    (store l t c).lookup x = if x = t then (l.lookup t).map fun _ => c else l.lookup x := by
  induction l with
  | nil => simp [store]
  | cons p ps ih =>
    obtain ⟨k, v⟩ := p
    simp only [store, List.map_cons] at ih ⊢
    by_cases hk : k = t
    · subst hk
      by_cases hx : x = k
      · subst hx; simp
      · simp [lookup_cons_of_ne hx, hx, ih]
    · by_cases hx : x = k
      · subst hx
        simp [hk]
      · rw [if_neg hk, lookup_cons_of_ne hx, lookup_cons_of_ne hx, ih,
          lookup_cons_of_ne (Ne.symm hk)]

theorem keys_store (l : List (Nat × ThreadContext)) (t : Nat) (c : ThreadContext) :
    (store l t c).map Prod.fst = l.map Prod.fst := by
  simp only [store, List.map_map]
  congr 1
  funext p
  by_cases hp : p.1 = t <;> simp [hp]

theorem lookup_emplace_of_none {l : List (Nat × ThreadContext)} {t : Nat} (c : ThreadContext)
    (absent : l.lookup t = none) (x : Nat) :
    (emplace l t c).lookup x = if x = t then some c else l.lookup x := by
  simp only [emplace, absent, Option.isSome_none, Bool.false_eq_true, if_false, List.lookup_append]
  by_cases hx : x = t
  · subst hx
    simp [absent]
  · cases l.lookup x <;> simp [lookup_cons_of_ne hx, hx]

theorem lookup_of_mem {l : List (Nat × ThreadContext)} (nodup : (l.map Prod.fst).Nodup)
    {p : Nat × ThreadContext} (mem : p ∈ l) : l.lookup p.1 = some p.2 := by
  induction l with
  | nil => cases mem
  | cons q qs ih =>
    obtain ⟨k, v⟩ := q
    rw [List.map_cons, List.nodup_cons] at nodup
    rcases List.mem_cons.mp mem with rfl | mem
    · simp
    · have hne : p.1 ≠ k := fun h => nodup.1 (List.mem_map.mpr ⟨p, mem, h⟩)
      rw [lookup_cons_of_ne hne, ih nodup.2 mem]

theorem isSome_lookup_store (l : List (Nat × ThreadContext)) (t x : Nat) (c : ThreadContext) :
    ((store l t c).lookup x).isSome = (l.lookup x).isSome := by
  rw [lookup_store]
  split
  · next hx => rw [hx, Option.isSome_map']
  · rfl

theorem isSome_lookup_emplace (l : List (Nat × ThreadContext)) (t x : Nat) (c : ThreadContext) :
    ((emplace l t c).lookup x).isSome = ((l.lookup x).isSome || x = t) := by
  unfold emplace
  split
  · next ht =>
    by_cases hx : x = t
    · subst hx
      simp [ht]
    · simp [hx]
  · next ht =>
    rw [List.lookup_append]
    by_cases hx : x = t
    · subst hx
      simp_all
    · cases l.lookup x <;> simp [lookup_cons_of_ne hx, hx]

/-- A call through `cachedTCxt`: the context's records go to its thread's file. -/
def withCached (g : Globals) (h : EventHandlers)
    (f : ThreadContext → STShadowMemory → Except Halt (ThreadContext × STShadowMemory × List Record)) :
    Except Halt (Globals × EventHandlers) :=
  match h.cachedTCxt with
  | none => .error .nullTCxt
  | some t =>
    match h.tcxts.lookup t with
    | none => .error .nullTCxt
    | some tc => do
      let (tc, shadow, recs) ← f tc g.shadow
      pure ({ g with shadow, out := g.out ++ recs.map (t, ·) }, { h with tcxts := store h.tcxts t tc })

theorem withCached_ok {g g' : Globals} {h h' : EventHandlers}
    {f : ThreadContext → STShadowMemory → Except Halt (ThreadContext × STShadowMemory × List Record)}
    (called : withCached g h f = .ok (g', h')) :
    ∃ t tc tc' sm recs, h.cachedTCxt = some t ∧ h.tcxts.lookup t = some tc ∧
      f tc g.shadow = .ok (tc', sm, recs) ∧
      g' = { g with shadow := sm, out := g.out ++ recs.map (t, ·) } ∧
      h' = { h with tcxts := store h.tcxts t tc' } := by
  unfold withCached at called
  split at called
  · cases called
  · rename_i t ht
    split at called
    · cases called
    · rename_i tc htc
      obtain ⟨⟨tc', sm, recs⟩, hf, hp⟩ := bind_eq_ok.mp called
      cases hp
      exact ⟨t, tc, tc', sm, recs, ht, htc, hf, rfl, rfl⟩

/-- A context handler that leaves the shadow memory alone. -/
def noShadow (f : ThreadContext → Except Halt (ThreadContext × List Record)) :
    ThreadContext → STShadowMemory → Except Halt (ThreadContext × STShadowMemory × List Record) :=
  fun tc sm => (f tc).map fun r => (r.1, sm, r.2)

def flushBoth (tc : ThreadContext) : Except Halt (ThreadContext × List Record) := do
  let (tc, out) ← tc.compFlushIfActive
  let (tc, out') ← tc.commFlushIfActive
  pure (tc, out ++ out')

def onSwapTCxt (g : Globals) (h : EventHandlers) (newTID : Nat) :
    Except Halt (Globals × EventHandlers) :=
  if h.currentTID ≠ newTID then do
    let (g, h) := if newTID ∉ g.newThreadsInOrder then
        ({ g with newThreadsInOrder := g.newThreadsInOrder ++ [newTID] },
         { h with tcxts := emplace h.tcxts newTID (.create newTID g.primsPerStCompEv) })
      else (g, h)
    let (g, h) ← if h.cachedTCxt.isSome then withCached g h (noShadow flushBoth) else pure (g, h)
    match h.tcxts.lookup newTID with
    | none => .error .outOfRange
    | some _ => pure (g, { h with currentTID := newTID, cachedTCxt := some newTID })
  else pure (g, h)

/-- What a `Swap` that returns has done: nothing, when `newTID` is current already;
otherwise the registration of a thread seen first, the flush of the cached context if there
is one, and the switch to `newTID`, whose context exists. -/
theorem onSwapTCxt_ok {g g' : Globals} {h h' : EventHandlers} {newTID : Nat}
    (swapped : onSwapTCxt g h newTID = .ok (g', h')) :
    (h.currentTID = newTID ∧ g' = g ∧ h' = h) ∨
    ∃ g₁ h₁ g₂ h₂, h.currentTID ≠ newTID ∧
      (newTID ∉ g.newThreadsInOrder ∧
          g₁ = { g with newThreadsInOrder := g.newThreadsInOrder ++ [newTID] } ∧
          h₁ = { h with tcxts := emplace h.tcxts newTID (.create newTID g.primsPerStCompEv) } ∨
        newTID ∈ g.newThreadsInOrder ∧ g₁ = g ∧ h₁ = h) ∧
      (withCached g₁ h₁ (noShadow flushBoth) = .ok (g₂, h₂) ∨
        h₁.cachedTCxt = none ∧ g₂ = g₁ ∧ h₂ = h₁) ∧
      (h₂.tcxts.lookup newTID).isSome ∧
      g' = g₂ ∧ h' = { h₂ with currentTID := newTID, cachedTCxt := some newTID } := by
  unfold onSwapTCxt at swapped
  split at swapped
  · next hne =>
    generalize hp : (if newTID ∉ g.newThreadsInOrder then _ else _) = p at swapped
    obtain ⟨g₁, h₁⟩ := p
    dsimp only at swapped
    obtain ⟨g₂, h₂, hflush, swapped⟩ : ∃ g₂ h₂, (withCached g₁ h₁ (noShadow flushBoth) = .ok (g₂, h₂) ∨
        h₁.cachedTCxt = none ∧ g₂ = g₁ ∧ h₂ = h₁) ∧
        (match h₂.tcxts.lookup newTID with
          | none => .error .outOfRange
          | some _ => pure (g₂, { h₂ with currentTID := newTID, cachedTCxt := some newTID }) :
          Except Halt (Globals × EventHandlers)) = .ok (g', h') := by
      split at swapped
      · obtain ⟨⟨g₂, h₂⟩, hflush, swapped⟩ := bind_eq_ok.mp swapped
        exact ⟨g₂, h₂, .inl hflush, swapped⟩
      · next hnone =>
        obtain ⟨_, hq, swapped⟩ := bind_eq_ok.mp swapped
        cases hq
        exact ⟨g₁, h₁, .inr ⟨Option.not_isSome_iff_eq_none.mp hnone, rfl, rfl⟩, swapped⟩
    split at swapped
    · cases swapped
    · next hl =>
      cases swapped
      refine .inr ⟨g₁, h₁, _, _, hne, ?_, hflush, by rw [hl]; rfl, rfl, rfl⟩
      split at hp
      · next hn => cases hp; exact .inl ⟨hn, rfl, rfl⟩
      · next hn => cases hp; exact .inr ⟨not_not.mp hn, rfl, rfl⟩
  · next hsame =>
    cases swapped
    exact .inl ⟨not_not.mp hsame, rfl, rfl⟩

def onCreate (g : Globals) (h : EventHandlers) (data : Addr) : Globals :=
  { g with threadSpawns := g.threadSpawns ++ [(h.currentTID, data)] }

/-- `std::set<Nat>::insert` kept as a list, as the set's members are what is used. -/
def onBarrier (g : Globals) (h : EventHandlers) (data : Addr) : Globals :=
  { g with barrierParticipants :=
      match g.barrierParticipants.findIdx? (·.1 = data) with
      | none => g.barrierParticipants ++ [(data, [h.currentTID])]
      | some idx => g.barrierParticipants.modify (fun p => (p.1, p.2.insert h.currentTID)) idx }

/-- SynchroTraceSim's numbering of the sync types it replays; `0` for the others. -/
def stSyncType : SyncTypeEnum → Nat
  | .lock => 1 | .unlock => 2 | .create => 3 | .join => 4 | .barrier => 5
  | .condWait => 6 | .condSig => 7 | .condBroad => 8 | .spinLock => 9 | .spinUnlock => 10
  | _ => 0

def convertAndFlush (g : Globals) (h : EventHandlers) (type : SyncTypeEnum) (data : Addr) :
    Except Halt (Globals × EventHandlers) :=
  if stSyncType type > 0 then withCached g h (noShadow fun tc => tc.onSync (stSyncType type) data)
  else pure (g, h)

def onSyncEv (g : Globals) (h : EventHandlers) (ev : SglSyncEv) :
    Except Halt (Globals × EventHandlers) :=
  if ev.type = .swap then onSwapTCxt g h ev.id.toNat
  else
    let g := if ev.type = .create then onCreate g h ev.id
      else if ev.type = .barrier then onBarrier g h ev.id else g
    convertAndFlush g h ev.type ev.id

def onCompEv (g : Globals) (h : EventHandlers) (ev : SglCompEv) :
    Except Halt (Globals × EventHandlers) :=
  match ev.type with
  | .iop => withCached g h (noShadow ThreadContext.onIop)
  | .flop => withCached g h (noShadow ThreadContext.onFlop)
  | .other => pure (g, h)

def onMemEv (g : Globals) (h : EventHandlers) (ev : SglMemEv) :
    Except Halt (Globals × EventHandlers) :=
  match ev.type with
  | .load => withCached g h fun tc sm => tc.onRead sm ev.begin_addr ev.size
  | .store => withCached g h fun tc sm => tc.onWrite sm ev.begin_addr ev.size
  | .other => pure (g, h)

def onCxtEv (g : Globals) (h : EventHandlers) (ev : SglCxtEv) :
    Except Halt (Globals × EventHandlers) :=
  if ev.type = .instr then withCached g h (noShadow fun tc => .ok tc.onInstr) else pure (g, h)

/-- One primitive, through the entry point of its kind. -/
def step (g : Globals) (h : EventHandlers) : SglEv → Except Halt (Globals × EventHandlers)
  | .mem ev => onMemEv g h ev
  | .comp ev => onCompEv g h ev
  | .sync ev => onSyncEv g h ev
  | .cxt ev => onCxtEv g h ev

/-- A whole primitive stream, stopping at the first halt. -/
def run (g : Globals) (h : EventHandlers) : List SglEv → Except Halt (Globals × EventHandlers)
  | [] => .ok (g, h)
  | ev :: evs => do
    let (g, h) ← step g h ev
    run g h evs

theorem run_cons_of_step {g g' : Globals} {h h' : EventHandlers} {ev : SglEv} {evs : List SglEv}
    (stepped : step g h ev = .ok (g', h')) : run g h (ev :: evs) = run g' h' evs := by
  rw [run, stepped]
  rfl

/-- What every step keeps, every run keeps. -/
theorem run_preserves (P : Globals → EventHandlers → Prop)
    (preserved : ∀ {g h g' h' ev}, P g h → step g h ev = .ok (g', h') → P g' h')
    {evs : List SglEv} {g g' : Globals} {h h' : EventHandlers} (holds : P g h)
    (ran : run g h evs = .ok (g', h')) : P g' h' := by
  induction evs generalizing g h with
  | nil =>
    cases ran
    exact holds
  | cons ev evs ih =>
    obtain ⟨⟨g₁, h₁⟩, hs, ran⟩ := bind_eq_ok.mp ran
    exact ih (preserved holds hs) ran

/-- The destruction of the contexts in `tcxts`: each flushes its aggregators into its
thread's file. `tcxts` is an `unordered_map`, so the order is the map's; the list's order
is one of them. -/
def destroyTCxts (g : Globals) : List (Nat × ThreadContext) → Except Halt Globals
  | [] => .ok g
  | (t, tc) :: ps => do
    let (_, recs) ← tc.destroy
    destroyTCxts { g with out := g.out ++ recs.map (t, ·) } ps

theorem destroyTCxts_preserves (P : Globals → Prop)
    (preserved : ∀ {g : Globals} {t : Nat} {tc tc' : ThreadContext} {recs : List Record}, P g →
      tc.destroy = .ok (tc', recs) → P { g with out := g.out ++ recs.map (t, ·) })
    {ps : List (Nat × ThreadContext)} {g g' : Globals} (holds : P g)
    (destroyed : destroyTCxts g ps = .ok g') : P g' := by
  induction ps generalizing g with
  | nil =>
    cases destroyed
    exact holds
  | cons p ps ih =>
    obtain ⟨⟨tc', recs⟩, hdes, destroyed⟩ := bind_eq_ok.mp destroyed
    exact ih (preserved holds hdes) destroyed

/-- `allThreadsStats.emplace(p.first, p.second.getStats())`: no change when the thread has
statistics already. -/
def emplaceStats (acc : List (Nat × Stats)) (p : Nat × ThreadContext) : List (Nat × Stats) :=
  if (acc.lookup p.1).isSome then acc else acc ++ [(p.1, p.2.stats)]

/-- `~EventHandlers`: the statistics of every context are kept, then the members are
destroyed, `tcxts` with them. -/
def destroy (g : Globals) (h : EventHandlers) : Except Halt Globals :=
  destroyTCxts { g with allThreadsStats := h.tcxts.foldl emplaceStats g.allThreadsStats } h.tcxts

end EventHandlers

end STGen
