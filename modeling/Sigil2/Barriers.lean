import Mathlib.Data.List.Nodup
import Sigil2.Routing

/-! The barrier table `barrierParticipants`, and what it records over every run. -/
namespace STGen

namespace EventHandlers

/-- The thread current after `ev` when `cur` is current before it. -/
def nextCurrent (cur : Nat) (ev : SglEv) : Nat :=
  match route ev with
  | .swap t => t
  | _ => cur

/-- The wait `ev` is when `cur` is current: its barrier's address and `cur`, if `ev` is a
`Barrier` primitive. -/
def barrierWait (cur : Nat) : SglEv → List (Addr × Nat)
  | .sync ev => if ev.type = .barrier then [(ev.id, cur)] else []
  | _ => []

/-- The barrier waits of a stream that starts with `cur` current, oldest first. -/
def barrierWaits : Nat → List SglEv → List (Addr × Nat)
  | _, [] => []
  | cur, ev :: evs => barrierWait cur ev ++ barrierWaits (nextCurrent cur ev) evs

/-- `table` holds, for the waits `ws`, each address waited on, ordered by the position of its
first wait (strictly, so no address twice), with the threads that waited on it, no thread
twice. -/
structure Tabulates (ws : List (Addr × Nat)) (table : List (Addr × List Nat)) : Prop where
  addrs : ∀ a, a ∈ table.map Prod.fst ↔ a ∈ ws.map Prod.fst
  firstWaits : (table.map Prod.fst).Pairwise fun a b =>
    (ws.map Prod.fst).indexOf a < (ws.map Prod.fst).indexOf b
  participants : ∀ a ts, (a, ts) ∈ table → ∀ t, t ∈ ts ↔ (a, t) ∈ ws
  sets : ∀ p ∈ table, p.2.Nodup

variable {ws : List (Addr × Nat)} {table : List (Addr × List Nat)}

theorem Tabulates.nil : Tabulates [] [] :=
  ⟨fun _ => Iff.rfl, List.Pairwise.nil, fun _ _ h => absurd h (List.not_mem_nil _),
    List.forall_mem_nil _⟩

theorem Tabulates.nodup (tabulates : Tabulates ws table) : (table.map Prod.fst).Nodup :=
  tabulates.firstWaits.imp fun hab => ne_of_apply_ne (fun x => (ws.map Prod.fst).indexOf x) hab.ne

theorem indexOf_waits_snoc {a b : Addr} (t : Nat) (seen : b ∈ ws.map Prod.fst) :
    ((ws ++ [(a, t)]).map Prod.fst).indexOf b = (ws.map Prod.fst).indexOf b := by
  rw [List.map_append]
  exact List.indexOf_append_of_mem seen

theorem mem_waits_snoc_of_ne {a b : Addr} {t u : Nat} (other : b ≠ a) :
    (b, u) ∈ ws ++ [(a, t)] ↔ (b, u) ∈ ws := by
  simp [other]

theorem mem_waits_snoc_self {a : Addr} {t u : Nat} :
    (a, u) ∈ ws ++ [(a, t)] ↔ (a, u) ∈ ws ∨ u = t := by
  simp

theorem Tabulates.firstWaits_snoc (tabulates : Tabulates ws table) (a : Addr) (t : Nat) :
    (table.map Prod.fst).Pairwise fun b c =>
      ((ws ++ [(a, t)]).map Prod.fst).indexOf b < ((ws ++ [(a, t)]).map Prod.fst).indexOf c :=
  tabulates.firstWaits.imp_of_mem fun hb hc hlt => by
    rwa [indexOf_waits_snoc t ((tabulates.addrs _).mp hb), indexOf_waits_snoc t ((tabulates.addrs _).mp hc)]

theorem Tabulates.wait_seen (tabulates : Tabulates ws table) {a : Addr} (t : Nat)
    (seen : a ∈ table.map Prod.fst) :
    Tabulates (ws ++ [(a, t)])
      (table.map fun p => if p.1 = a then (p.1, p.2.insert t) else p) := by
  have hkeys : (table.map fun p => if p.1 = a then (p.1, p.2.insert t) else p).map Prod.fst =
      table.map Prod.fst := by
    rw [List.map_map]
    exact List.map_congr_left fun p _ => by
      simp only [Function.comp_apply]
      split <;> rfl
  have hwa : a ∈ ws.map Prod.fst := (tabulates.addrs a).mp seen
  refine ⟨fun b => ?_, hkeys ▸ tabulates.firstWaits_snoc a t, fun b ts' hb u => ?_, fun p hp => ?_⟩
  · rw [hkeys, tabulates.addrs, List.map_append, List.mem_append, List.map_cons, List.map_nil,
      List.mem_singleton]
    exact (or_iff_left_of_imp fun h => h ▸ hwa).symm
  · obtain ⟨⟨b', ts⟩, hp, he⟩ := List.mem_map.mp hb
    by_cases hba : b' = a
    · rw [if_pos hba, Prod.mk.injEq] at he
      obtain ⟨rfl, rfl⟩ := he
      rw [List.mem_insert_iff, tabulates.participants _ _ hp, hba, mem_waits_snoc_self, or_comm]
    · rw [if_neg hba] at he
      cases he
      rw [tabulates.participants _ _ hp, mem_waits_snoc_of_ne hba]
  · obtain ⟨⟨b, ts⟩, hp', rfl⟩ := List.mem_map.mp hp
    dsimp only
    split
    · exact (tabulates.sets _ hp').insert
    · exact tabulates.sets _ hp'

theorem Tabulates.wait_new (tabulates : Tabulates ws table) {a : Addr} (t : Nat)
    (fresh : a ∉ table.map Prod.fst) :
    Tabulates (ws ++ [(a, t)]) (table ++ [(a, [t])]) := by
  have hwa : a ∉ ws.map Prod.fst := fun h => fresh ((tabulates.addrs a).mpr h)
  refine ⟨fun b => by simp [tabulates.addrs], ?_, fun b ts' hb u => ?_, fun p hp => ?_⟩
  · rw [List.map_append Prod.fst table, List.pairwise_append]
    refine ⟨tabulates.firstWaits_snoc a t, List.pairwise_singleton _ _, fun b hb c hc => ?_⟩
    rw [List.map_cons, List.map_nil, List.mem_singleton] at hc
    subst hc
    rw [indexOf_waits_snoc t ((tabulates.addrs _).mp hb), List.map_append,
      List.indexOf_append_of_not_mem hwa]
    exact Nat.lt_add_right _ (List.indexOf_lt_length.mpr ((tabulates.addrs _).mp hb))
  · rcases List.mem_append.mp hb with hb | hb
    · have hba : b ≠ a := fun h => fresh (h ▸ List.mem_map_of_mem Prod.fst hb)
      rw [tabulates.participants _ _ hb, mem_waits_snoc_of_ne hba]
    · obtain ⟨rfl, rfl⟩ := Prod.mk.injEq _ _ _ _ ▸ List.mem_singleton.mp hb
      rw [List.mem_singleton, mem_waits_snoc_self,
        or_iff_right fun h => hwa (List.mem_map_of_mem Prod.fst h)]
  · rcases List.mem_append.mp hp with hp | hp
    · exact tabulates.sets _ hp
    · rw [List.mem_singleton.mp hp]
      exact List.nodup_singleton t

theorem modify_eq_map_of_findIdx? {l : List (Addr × List Nat)} {a : Addr} {i : Nat}
    (f : Addr × List Nat → Addr × List Nat) (nodup : (l.map Prod.fst).Nodup)
    (found : l.findIdx? (·.1 = a) = some i) :
    l.modify f i = l.map fun p => if p.1 = a then f p else p := by
  induction l generalizing i with
  | nil => cases found
  | cons p l ih =>
    rw [List.map_cons, List.nodup_cons] at nodup
    rw [List.findIdx?_cons] at found
    by_cases hp : p.1 = a
    · rw [decide_eq_true hp, if_pos rfl, Option.some.injEq] at found
      subst found
      rw [List.modify_zero_cons, List.map_cons, if_pos hp]
      congr 1
      conv_lhs => rw [← List.map_id l]
      exact List.map_congr_left fun q hq => (if_neg fun hq' =>
        nodup.1 (by rw [hp, ← hq']; exact List.mem_map_of_mem _ hq)).symm
    · simp only [hp, decide_False, Bool.false_eq_true, if_false, List.findIdx?_start_succ,
        Nat.zero_add] at found
      obtain ⟨j, hj, rfl⟩ := Option.map_eq_some'.mp found
      rw [List.modify_succ_cons, ih nodup.2 hj, List.map_cons, if_neg hp]

theorem barrierParticipants_onBarrier (g : Globals) (h : EventHandlers) (a : Addr)
    (nodup : (g.barrierParticipants.map Prod.fst).Nodup) :
    (onBarrier g h a).barrierParticipants =
      if a ∈ g.barrierParticipants.map Prod.fst then
        g.barrierParticipants.map fun p =>
          if p.1 = a then (p.1, p.2.insert h.currentTID) else p
      else g.barrierParticipants ++ [(a, [h.currentTID])] := by
  unfold onBarrier
  dsimp only
  split
  · next hf =>
    have ha : a ∉ g.barrierParticipants.map Prod.fst := fun hm => by
      obtain ⟨p, hp, hpa⟩ := List.mem_map.mp hm
      simpa [hpa] using List.findIdx?_eq_none_iff.mp hf p hp
    rw [if_neg ha]
  · next i hi =>
    have ha : a ∈ g.barrierParticipants.map Prod.fst := by
      obtain ⟨hlt, hget, -⟩ := List.findIdx?_eq_some_iff_getElem.mp hi
      exact List.mem_map.mpr ⟨_, List.getElem_mem hlt, by simpa using hget⟩
    rw [if_pos ha]
    exact modify_eq_map_of_findIdx? _ nodup hi

theorem Tabulates.onBarrier {g : Globals} (tabulates : Tabulates ws g.barrierParticipants)
    (h : EventHandlers) (a : Addr) :
    Tabulates (ws ++ [(a, h.currentTID)]) (onBarrier g h a).barrierParticipants := by
  rw [barrierParticipants_onBarrier g h a tabulates.nodup]
  split
  · next ha => exact tabulates.wait_seen _ ha
  · next ha => exact tabulates.wait_new _ ha

theorem noteSync_tabulates {g : Globals} (tabulates : Tabulates ws g.barrierParticipants)
    (h : EventHandlers) (ev : SglEv) :
    Tabulates (ws ++ barrierWait h.currentTID ev) (noteSync g h ev).barrierParticipants := by
  cases ev with
  | sync ev =>
    simp only [noteSync, barrierWait]
    by_cases hb : ev.type = .barrier
    · have hc : ev.type ≠ .create := by rw [hb]; decide
      rw [if_neg hc, if_pos hb, if_pos hb]
      exact tabulates.onBarrier h ev.id
    · rw [if_neg hb, List.append_nil]
      split <;> exact tabulates
  | _ =>
    show Tabulates (ws ++ []) _
    rw [List.append_nil]
    exact tabulates

theorem route_eq_swap {ev : SglEv} {t : Nat} (swaps : route ev = .swap t) :
    ∃ e, ev = .sync e ∧ e.type = .swap := by
  cases ev with
  | sync e =>
    simp only [route] at swaps
    split_ifs at swaps with hsw
    exact ⟨e, rfl, hsw⟩
  | mem e => obtain ⟨type, _, _⟩ := e; cases type <;> cases swaps
  | comp e => obtain ⟨type⟩ := e; cases type <;> cases swaps
  | cxt e => simp only [route] at swaps; split_ifs at swaps

variable {g g' : Globals} {h h' : EventHandlers}

theorem onSwapTCxt_barriers {t : Nat} (swapped : onSwapTCxt g h t = .ok (g', h')) :
    g'.barrierParticipants = g.barrierParticipants ∧ h'.currentTID = t := by
  obtain ⟨hc, rfl, rfl⟩ | ⟨g₁, h₁, g₂, h₂, -, hnew, hflush, -, rfl, rfl⟩ := onSwapTCxt_ok swapped
  · exact ⟨rfl, hc⟩
  · refine ⟨?_, rfl⟩
    have hg₁ : g₁.barrierParticipants = g.barrierParticipants := by
      rcases hnew with ⟨-, rfl, -⟩ | ⟨-, rfl, -⟩ <;> rfl
    rcases hflush with hflush | ⟨-, rfl, -⟩
    · obtain ⟨_, _, _, _, _, -, -, -, rfl, -⟩ := withCached_ok hflush
      exact hg₁
    · exact hg₁

theorem step_barriers {ev : SglEv} (stepped : step g h ev = .ok (g', h')) :
    g'.barrierParticipants = (noteSync g h ev).barrierParticipants ∧
      h'.currentTID = nextCurrent h.currentTID ev := by
  rw [step_route] at stepped
  unfold nextCurrent
  generalize hr : route ev = r at stepped ⊢
  cases r with
  | swap t =>
    obtain ⟨e, rfl, hsw⟩ := route_eq_swap hr
    obtain ⟨hb, hc⟩ := onSwapTCxt_barriers stepped
    refine ⟨?_, hc⟩
    rw [hb]
    simp only [noteSync, hsw]
    rfl
  | call p =>
    obtain ⟨_, _, _, _, _, -, -, -, rfl, rfl⟩ := withCached_ok stepped
    exact ⟨rfl, rfl⟩
  | skip =>
    cases stepped
    exact ⟨rfl, rfl⟩

theorem run_tabulates {evs : List SglEv} (tabulates : Tabulates ws g.barrierParticipants)
    (ran : run g h evs = .ok (g', h')) :
    Tabulates (ws ++ barrierWaits h.currentTID evs) g'.barrierParticipants := by
  induction evs generalizing g h ws with
  | nil =>
    cases ran
    rw [barrierWaits, List.append_nil]
    exact tabulates
  | cons ev evs ih =>
    obtain ⟨⟨g₁, h₁⟩, hs, ran⟩ := bind_eq_ok.mp ran
    obtain ⟨hb, hc⟩ := step_barriers hs
    have hT₁ := ih (hb ▸ noteSync_tabulates tabulates h ev) ran
    rwa [hc, List.append_assoc] at hT₁

/-- Over every run of the dispatcher, `barrierParticipants` lists each barrier waited on
once, in the order of its first wait, with the set of threads that were current at a wait
on it. -/
theorem barrierParticipants_tabulates {n : Nat} {evs : List SglEv}
    (ran : run (Globals.init n) EventHandlers.init evs = .ok (g, h)) :
    Tabulates (barrierWaits 0 evs) g.barrierParticipants :=
  run_tabulates Tabulates.nil ran

theorem two_threads_wait_on_barrier :
    ∃ g h, run (Globals.init 100) EventHandlers.init [.sync ⟨.swap, 1⟩, .sync ⟨.barrier, 0x40⟩,
        .sync ⟨.swap, 2⟩, .sync ⟨.barrier, 0x80⟩, .sync ⟨.barrier, 0x40⟩] = .ok (g, h) ∧
      Tabulates (barrierWaits 0 [.sync ⟨.swap, 1⟩, .sync ⟨.barrier, 0x40⟩, .sync ⟨.swap, 2⟩,
        .sync ⟨.barrier, 0x80⟩, .sync ⟨.barrier, 0x40⟩]) g.barrierParticipants := by
  obtain ⟨g, h, hr⟩ : ∃ g h, run (Globals.init 100) EventHandlers.init [.sync ⟨.swap, 1⟩,
      .sync ⟨.barrier, 0x40⟩, .sync ⟨.swap, 2⟩, .sync ⟨.barrier, 0x80⟩,
      .sync ⟨.barrier, 0x40⟩] = .ok (g, h) := ⟨_, _, rfl⟩
  exact ⟨g, h, hr, barrierParticipants_tabulates hr⟩

/-- In that run the barrier at `0x40` keeps its first place, with both threads. -/
example : (do
      let (g, _) ← run (Globals.init 100) EventHandlers.init [.sync ⟨.swap, 1⟩,
        .sync ⟨.barrier, 0x40⟩, .sync ⟨.swap, 2⟩, .sync ⟨.barrier, 0x80⟩, .sync ⟨.barrier, 0x40⟩]
      pure g.barrierParticipants) = .ok [(0x40, [2, 1]), (0x80, [2])] := by
  rfl

end EventHandlers

end STGen
