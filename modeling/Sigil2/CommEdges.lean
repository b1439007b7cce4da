import Sigil2.AddrSetCanonical
import Sigil2.STEvent

/-! The edges `STCommEvent::addEdge` collects, against the addresses added for each producer. -/
namespace STGen

namespace STCommEvent

open AddrSet

/-- The producers of a list of edges, in order. -/
def producers (comms : List CommEdge) : List (Nat × Nat) := comms.map fun c => (c.1, c.2.1)

/-- The edges `comms` record exactly the additions `adds`. -/
structure Faithful (adds : List (Nat × Nat × Addr)) (comms : List CommEdge) : Prop where
  nodup : (producers comms).Nodup
  producers_iff : ∀ w e, (w, e) ∈ producers comms ↔ ∃ a, (w, e, a) ∈ adds
  canonical : ∀ c ∈ comms, Canonical c.2.2 ∧ BelowMax c.2.2
  covers_iff : ∀ c ∈ comms, ∀ x, covers c.2.2 x ↔ (c.1, c.2.1, x) ∈ adds

theorem Faithful.nil : Faithful [] [] :=
  ⟨.nil, fun _ _ => by simp [producers], fun _ h => (nomatch h), fun _ h => (nomatch h)⟩

theorem insert_point {s : AddrSet} (canonical : Canonical s) (belowMax : BelowMax s) {a : Addr}
    (belowTop : a < addrMax) : Canonical (s.insert (a, a)) ∧ BelowMax (s.insert (a, a)) ∧
      ∀ x, covers (s.insert (a, a)) x ↔ covers s x ∨ x = a := by
  have h := insert_inserted s (a, a) canonical belowMax (UInt64.le_refl a) belowTop
  refine ⟨h.canonical, h.belowMax, fun x => ?_⟩
  rw [h.covers_iff, inRange_iff, addr_eq_iff]
  exact or_congr_right (by dsimp only; omega)

theorem addEdge_comms (ev : STCommEvent) (w e : Nat) (a : Addr) :
    (ev.addEdge w e a).comms =
      (extendEdge w e a ev.comms).getD (ev.comms ++ [(w, e, (⟨[]⟩ : AddrSet).insert (a, a))]) := by
  rw [insert_empty]
  unfold addEdge
  split
  · next h =>
    rw [List.isEmpty_iff.mp h]
    rfl
  · rfl

theorem extendEdge_spec (w e : Nat) (a : Addr) :
    ∀ comms : List CommEdge,
      (extendEdge w e a comms = none ∧ (w, e) ∉ producers comms) ∨
      ∃ L c R, comms = L ++ c :: R ∧ (w, e) ∉ producers L ∧ c.1 = w ∧ c.2.1 = e ∧
        extendEdge w e a comms = some (L ++ (c.1, c.2.1, c.2.2.insert (a, a)) :: R)
  | [] => .inl ⟨rfl, List.not_mem_nil _⟩
  | c :: cs => by
    unfold extendEdge
    by_cases hc : c.1 = w ∧ c.2.1 = e
    · rw [if_pos hc]
      exact .inr ⟨[], c, cs, rfl, List.not_mem_nil _, hc.1, hc.2, rfl⟩
    · rw [if_neg hc]
      have hne : (w, e) ≠ (c.1, c.2.1) := fun h => hc ⟨(Prod.mk.inj h).1.symm, (Prod.mk.inj h).2.symm⟩
      rcases extendEdge_spec w e a cs with ⟨hn, hp⟩ | ⟨L, d, R, rfl, hL, h1, h2, hx⟩
      · refine .inl ⟨by rw [hn]; rfl, fun h => ?_⟩
        rcases List.mem_cons.mp h with h | h
        · exact hne h
        · exact hp h
      · refine .inr ⟨c :: L, d, R, rfl, fun h => ?_, h1, h2, by rw [hx]; rfl⟩
        rcases List.mem_cons.mp h with h | h
        · exact hne h
        · exact hL h

section Step

variable {adds : List (Nat × Nat × Addr)} {comms : List CommEdge} {w e : Nat} {a : Addr}

theorem mem_adds_snoc {w' e' : Nat} {x : Addr} :
    (w', e', x) ∈ adds ++ [(w, e, a)] ↔ (w', e', x) ∈ adds ∨ (w' = w ∧ e' = e ∧ x = a) := by
  simp

theorem Faithful.covers_other (faithful : Faithful adds comms) {c : CommEdge} (mem : c ∈ comms)
    (other : (c.1, c.2.1) ≠ (w, e)) (x : Addr) :
    covers c.2.2 x ↔ (c.1, c.2.1, x) ∈ adds ++ [(w, e, a)] := by
  rw [faithful.covers_iff c mem, mem_adds_snoc]
  exact ⟨.inl, fun hx => hx.resolve_right fun ⟨h1, h2, _⟩ => other (by rw [h1, h2])⟩

theorem Faithful.snoc_new (faithful : Faithful adds comms) (fresh : (w, e) ∉ producers comms)
    (belowTop : a < addrMax) :
    Faithful (adds ++ [(w, e, a)]) (comms ++ [(w, e, (⟨[]⟩ : AddrSet).insert (a, a))]) := by
  obtain ⟨hcan₀, hmax₀, hcov₀⟩ := insert_point (show Canonical (⟨[]⟩ : AddrSet) from
    ⟨fun _ h => (nomatch h), .nil⟩) (fun _ h => (nomatch h)) belowTop
  have hnone : ∀ x, (w, e, x) ∉ adds := fun x hx => fresh ((faithful.producers_iff w e).mpr ⟨x, hx⟩)
  refine ⟨?_, fun w' e' => ?_, fun c hc => ?_, fun c hc x => ?_⟩
  · rw [producers, List.map_append]
    refine List.pairwise_append.mpr ⟨faithful.nodup, List.pairwise_singleton _ _, fun x hx y hy hxy => ?_⟩
    rw [List.mem_singleton.mp hy] at hxy
    have hxy : x = (w, e) := hxy
    exact fresh (hxy ▸ hx)
  · simp only [producers, List.map_append, List.mem_append] at faithful ⊢
    rw [← producers, faithful.producers_iff]
    simp only [List.map_cons, List.map_nil, List.mem_singleton, Prod.mk.injEq, mem_adds_snoc]
    constructor
    · rintro (⟨x, hx⟩ | ⟨rfl, rfl⟩)
      · exact ⟨x, .inl hx⟩
      · exact ⟨a, .inr ⟨rfl, rfl, rfl⟩⟩
    · rintro ⟨x, hx | ⟨rfl, rfl, -⟩⟩
      · exact .inl ⟨x, hx⟩
      · exact .inr ⟨rfl, rfl⟩
  · rcases List.mem_append.mp hc with hc | hc
    · exact faithful.canonical c hc
    · rw [List.mem_singleton.mp hc]
      exact ⟨hcan₀, hmax₀⟩
  · rcases List.mem_append.mp hc with hc | hc
    · exact faithful.covers_other hc (fun hce => fresh (hce ▸ List.mem_map_of_mem _ hc)) x
    · rw [List.mem_singleton.mp hc, hcov₀, mem_adds_snoc]
      simp only [covers, List.not_mem_nil, false_and, exists_false, false_or, true_and]
      exact ⟨fun hx => .inr hx, fun hx => hx.resolve_left (hnone x)⟩

theorem Faithful.extend {L R : List CommEdge} {c : CommEdge} (faithful : Faithful adds (L ++ c :: R))
    (first : (c.1, c.2.1) ∉ producers L) (belowTop : a < addrMax) :
    Faithful (adds ++ [(c.1, c.2.1, a)]) (L ++ (c.1, c.2.1, c.2.2.insert (a, a)) :: R) := by
  have hmemc : c ∈ L ++ c :: R := List.mem_append_right _ (.head _)
  obtain ⟨hcan, hmax, hcov⟩ := insert_point (faithful.canonical c hmemc).1 (faithful.canonical c hmemc).2 belowTop
  have hother : ∀ d ∈ L ++ R, (d.1, d.2.1) ≠ (c.1, c.2.1) := by
    intro d hd hde
    have hnd := faithful.nodup
    simp only [producers, List.map_append, List.map_cons] at hnd
    rcases List.mem_append.mp hd with hd | hd
    · exact first (hde ▸ List.mem_map_of_mem _ hd)
    · exact (List.pairwise_cons.mp (List.pairwise_append.mp hnd).2.1).1 _
        (List.mem_map_of_mem _ hd) hde.symm
  have hsplit : ∀ d, d ∈ L ++ (c.1, c.2.1, c.2.2.insert (a, a)) :: R ↔
      d ∈ L ++ R ∨ d = (c.1, c.2.1, c.2.2.insert (a, a)) := fun d => by
    simp only [List.mem_append, List.mem_cons]
    exact (or_congr_right or_comm).trans or_assoc.symm
  have hold : ∀ d ∈ L ++ R, d ∈ L ++ c :: R := ((List.sublist_cons_self c R).append_left L).subset
  refine ⟨?_, fun w' e' => ?_, fun d hd => ?_, fun d hd x => ?_⟩
  · simpa [producers] using faithful.nodup
  · have := faithful.producers_iff w' e'
    simp only [producers, List.map_append, List.map_cons] at this ⊢
    rw [this]
    constructor
    · rintro ⟨x, hx⟩
      exact ⟨x, List.mem_append_left _ hx⟩
    · rintro ⟨x, hx⟩
      rcases mem_adds_snoc.mp hx with hx | ⟨rfl, rfl, rfl⟩
      · exact ⟨x, hx⟩
      · exact (faithful.producers_iff _ _).mp (List.mem_map_of_mem _ hmemc)
  · rcases (hsplit d).mp hd with hd | rfl
    · exact faithful.canonical d (hold d hd)
    · exact ⟨hcan, hmax⟩
  · rcases (hsplit d).mp hd with hd | rfl
    · exact faithful.covers_other (hold d hd) (hother d hd) x
    · rw [hcov, faithful.covers_iff c hmemc, mem_adds_snoc]
      simp

/-- `addEdge` keeps the edges faithful to the additions. -/
theorem Faithful.addEdge {ev : STCommEvent} (faithful : Faithful adds ev.comms) (belowTop : a < addrMax) :
    Faithful (adds ++ [(w, e, a)]) (ev.addEdge w e a).comms := by
  rw [addEdge_comms]
  rcases extendEdge_spec w e a ev.comms with ⟨hn, hp⟩ | ⟨L, c, R, hcomms, hL, rfl, rfl, hx⟩
  · rw [hn, Option.getD_none]
    exact faithful.snoc_new hp belowTop
  · rw [hx, Option.getD_some]
    exact (hcomms ▸ faithful).extend hL belowTop

end Step

/-- After any additions since `reset` of addresses below the top, the communication record
holds one edge per producer that was added, and each edge's address set is canonical and
covers exactly the addresses added for its producer. -/
theorem addEdges_faithful (ev : STCommEvent) (adds : List (Nat × Nat × Addr))
    (belowTop : ∀ p ∈ adds, p.2.2 < addrMax) :
    Faithful adds (adds.foldl (fun ev p => ev.addEdge p.1 p.2.1 p.2.2) ev.reset).comms := by
  suffices h : ∀ (pre : List (Nat × Nat × Addr)) (ev : STCommEvent), Faithful pre ev.comms →
      Faithful (pre ++ adds) (adds.foldl (fun ev p => ev.addEdge p.1 p.2.1 p.2.2) ev).comms from
    h [] ev.reset Faithful.nil
  induction adds with
  | nil => exact fun pre ev h => (List.append_nil pre).symm ▸ h
  | cons p adds ih =>
    intro pre ev h
    rw [List.foldl_cons, ← List.singleton_append, ← List.append_assoc]
    exact ih (fun q hq => belowTop q (.tail _ hq)) _ _ (h.addEdge (belowTop p (.head _)))

theorem two_producers_faithful :
    (∀ p ∈ [((1 : Nat), (0 : Nat), (0x10 : Addr)), (2, 3, 0x20), (1, 0, 0x11)], p.2.2 < addrMax) ∧
      Faithful [(1, 0, 0x10), (2, 3, 0x20), (1, 0, 0x11)]
        (([(1, 0, 0x10), (2, 3, 0x20), (1, 0, 0x11)] : List (Nat × Nat × Addr)).foldl
          (fun ev p => ev.addEdge p.1 p.2.1 p.2.2) STCommEvent.init.reset).comms :=
  ⟨by decide, addEdges_faithful _ _ (by decide)⟩

end STCommEvent

end STGen
