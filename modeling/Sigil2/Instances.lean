import Sigil2.EventHandlers

/-! Several `EventHandlers` instances in one process, sharing the globals `gMtx` guards. -/
namespace STGen

namespace EventHandlers

/-- `Swap` calls on several instances that share the globals, one after another. -/
def swapAll (g : Globals) (insts : Nat → EventHandlers) :
    List (Nat × Nat) → Except Halt (Globals × (Nat → EventHandlers))
  | [] => .ok (g, insts)
  | (i, t) :: calls => do
    let (g, h) ← onSwapTCxt g (insts i) t
    swapAll g (Function.update insts i h) calls

/-- The registration `onSwapTCxt` is meant to make: a thread is appended when first seen. -/
def registerTID (l : List Nat) (t : Nat) : List Nat :=
  if t ∈ l then l else l ++ [t]

theorem mem_registerTID_self (l : List Nat) (t : Nat) : t ∈ registerTID l t := by
  unfold registerTID
  split
  · assumption
  · exact List.mem_append_right _ (List.mem_singleton_self t)

theorem mem_registerTID_of_mem {l : List Nat} {x : Nat} (mem : x ∈ l) (t : Nat) :
    x ∈ registerTID l t := by
  unfold registerTID
  split
  · exact mem
  · exact List.mem_append_left _ mem

theorem nodup_registerTID {l : List Nat} (nodup : l.Nodup) (t : Nat) : (registerTID l t).Nodup := by
  unfold registerTID
  split
  · exact nodup
  · rename_i ht
    exact List.pairwise_append.mpr ⟨nodup, List.pairwise_singleton _ _, fun a ha b hb hab => by
      rw [List.mem_singleton] at hb
      subst hb hab
      exact ht ha⟩

theorem withCached_newThreadsInOrder {g g' : Globals} {h h' : EventHandlers}
    {f : ThreadContext → STShadowMemory → Except Halt (ThreadContext × STShadowMemory × List Record)}
    (called : withCached g h f = .ok (g', h')) : g'.newThreadsInOrder = g.newThreadsInOrder := by
  unfold withCached at called
  split at called
  · cases called
  · split at called
    · cases called
    · obtain ⟨_, -, hp⟩ := bind_eq_ok.mp called
      cases hp
      rfl

theorem onSwapTCxt_registers {g g' : Globals} {h h' : EventHandlers} {t : Nat} (pos : 0 < t)
    (current : h.currentTID = 0 ∨ h.currentTID ∈ g.newThreadsInOrder)
    (swapped : onSwapTCxt g h t = .ok (g', h')) :
    g'.newThreadsInOrder = registerTID g.newThreadsInOrder t ∧ h'.currentTID = t := by
  obtain ⟨hn, rfl, rfl⟩ | ⟨g₁, h₁, g₂, h₂, -, hreg, hflush, -, rfl, rfl⟩ := onSwapTCxt_ok swapped
  · refine ⟨?_, hn⟩
    rcases current with h0 | hm
    · omega
    · simp [registerTID, hn ▸ hm]
  have hreg₁ : g₁.newThreadsInOrder = registerTID g.newThreadsInOrder t := by
    rcases hreg with ⟨hn, rfl, -⟩ | ⟨hn, rfl, -⟩ <;> simp [registerTID, hn]
  refine ⟨?_, rfl⟩
  rcases hflush with hflush | ⟨-, rfl, -⟩
  · exact (withCached_newThreadsInOrder hflush).trans hreg₁
  · exact hreg₁

/-- Over every interleaving of `Swap` calls on instances that share the globals, with
positive thread ids, `newThreadsInOrder` grows by each thread the first time any instance
swaps to it, so it lists every swapped-to thread exactly once in first-seen order. -/
theorem swapAll_newThreadsInOrder {g g' : Globals} {insts insts' : Nat → EventHandlers}
    {calls : List (Nat × Nat)} (pos : ∀ c ∈ calls, 0 < c.2)
    (current : ∀ i, (insts i).currentTID = 0 ∨ (insts i).currentTID ∈ g.newThreadsInOrder)
    (swapped : swapAll g insts calls = .ok (g', insts')) :
    g'.newThreadsInOrder = (calls.map Prod.snd).foldl registerTID g.newThreadsInOrder ∧
      (g.newThreadsInOrder.Nodup → g'.newThreadsInOrder.Nodup) := by
  induction calls generalizing g insts with
  | nil => cases swapped; exact ⟨rfl, id⟩
  | cons c calls ih =>
    obtain ⟨i, t⟩ := c
    obtain ⟨⟨g₁, h₁⟩, h₁s, swapped⟩ := bind_eq_ok.mp swapped
    obtain ⟨hreg, hcur₁⟩ := onSwapTCxt_registers (pos (i, t) (.head _)) (current i) h₁s
    have hsub : ∀ x ∈ g.newThreadsInOrder, x ∈ g₁.newThreadsInOrder := fun x hx =>
      hreg ▸ mem_registerTID_of_mem hx t
    have hcur' : ∀ j, (Function.update insts i h₁ j).currentTID = 0 ∨
        (Function.update insts i h₁ j).currentTID ∈ g₁.newThreadsInOrder := by
      intro j
      by_cases hj : j = i
      · subst hj
        rw [Function.update_same, hcur₁, hreg]
        exact .inr (mem_registerTID_self _ t)
      · rw [Function.update_noteq hj]
        exact (current j).imp_right (hsub _)
    obtain ⟨h₂, h₃⟩ := ih (fun c hc => pos c (.tail _ hc)) hcur' swapped
    refine ⟨by rw [h₂, hreg]; rfl, fun hnd => h₃ (hreg ▸ nodup_registerTID hnd t)⟩

theorem swapAll_two_instances_registers :
    ∃ g' insts', swapAll (Globals.init 100) (fun _ => EventHandlers.init) [(0, 1), (1, 2)] =
        .ok (g', insts') ∧ g'.newThreadsInOrder = [1, 2] := by
  obtain ⟨g', insts', hs⟩ : ∃ g' insts', swapAll (Globals.init 100) (fun _ => EventHandlers.init)
      [(0, 1), (1, 2)] = .ok (g', insts') := ⟨_, _, rfl⟩
  exact ⟨g', insts', hs, (swapAll_newThreadsInOrder (by decide) (fun _ => .inl rfl) hs).1⟩

/-- The registration test runs against the shared list, the emplace against the instance's
own `tcxts`: once one instance has swapped to thread 1, another instance's swap to 1
creates no context for it, and `tcxts.at(1)` throws. -/
theorem swap_on_second_instance_out_of_range (n : Nat) :
    swapAll (Globals.init n) (fun _ => EventHandlers.init) [(0, 1), (1, 1)] = .error .outOfRange :=
  rfl

end EventHandlers

end STGen
