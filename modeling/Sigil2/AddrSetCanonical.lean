import Sigil2.AddrSet

/-! What an `AddrSet` covers. Below the top address `insert` keeps the canonical form and adds
exactly the inserted range; at the top address `+ 1` wraps to `0`. -/
namespace STGen

/-- Address `x` lies in the closed range `r`. -/
def inRange (r : AddrRange) (x : Addr) : Prop := r.1 ≤ x ∧ x ≤ r.2

/-- `p` ends before `q` starts, with at least one address between them. -/
def before (p q : AddrRange) : Prop := p.2.toNat + 1 < q.1.toNat

instance (p q : AddrRange) : Decidable (before p q) := inferInstanceAs (Decidable (_ < _))

theorem inRange_iff {r : AddrRange} {x : Addr} :
    inRange r x ↔ r.1.toNat ≤ x.toNat ∧ x.toNat ≤ r.2.toNat := Iff.rfl

theorem pairLt_iff {p q : AddrRange} : pairLt p q = true ↔
    p.1.toNat < q.1.toNat ∨ (p.1.toNat = q.1.toNat ∧ p.2.toNat < q.2.toNat) := by
  simp [pairLt, addr_lt_iff, addr_eq_iff]

theorem setInsert_append {r : AddrRange} {L R : List AddrRange}
    (smaller : ∀ q ∈ L, pairLt q r) (larger : ∀ q ∈ R.head?, pairLt r q) :
    setInsert r (L ++ R) = L ++ r :: R := by
  induction L with
  | nil =>
    cases R with
    | nil => rfl
    | cons q R => simp [setInsert, larger q rfl]
  | cons q L ih =>
    have hq := pairLt_iff.mp (smaller q (.head _))
    have hne : r ≠ q := by rintro rfl; omega
    have hlt : pairLt r q = false := by
      rw [Bool.eq_false_iff]
      intro h
      rcases pairLt_iff.mp h with h | h <;> omega
    simp [setInsert, hlt, hne, ih (fun x hx => smaller x (.tail _ hx))]

namespace AddrSet

/-- The addresses an `AddrSet` covers. -/
def covers (s : AddrSet) (x : Addr) : Prop := ∃ r ∈ s.ms, inRange r x

/-- The invariant `insert` is written for. -/
structure Canonical (s : AddrSet) : Prop where
  valid : ∀ r ∈ s.ms, r.1 ≤ r.2
  sorted : s.ms.Pairwise before

/-- No stored range ends at the top address, where `+ 1` wraps. -/
def BelowMax (s : AddrSet) : Prop := ∀ r ∈ s.ms, r.2 < addrMax

instance (s : AddrSet) : Decidable (BelowMax s) := inferInstanceAs (Decidable (∀ r ∈ s.ms, _))

theorem covers_append_cons {L R : List AddrRange} {r : AddrRange} {x : Addr} :
    covers ⟨L ++ r :: R⟩ x ↔ covers ⟨L⟩ x ∨ inRange r x ∨ covers ⟨R⟩ x := by
  simp [covers, or_and_right, exists_or]

theorem covers_erase {s : AddrSet} {it : AddrRange} (mem : it ∈ s.ms) {x : Addr} :
    covers s x ↔ covers ⟨s.ms.erase it⟩ x ∨ inRange it x := by
  constructor
  · rintro ⟨r, hr, hx⟩
    by_cases hne : r = it
    · exact .inr (hne ▸ hx)
    · exact .inl ⟨r, (List.mem_erase_of_ne hne).mpr hr, hx⟩
  · rintro (⟨r, hr, hx⟩ | hx)
    · exact ⟨r, List.mem_of_mem_erase hr, hx⟩
    · exact ⟨it, mem, hx⟩

theorem probe_eq_none {ms : List AddrRange} {range : AddrRange} (probed : probe ms range = none) :
    ms = [] := by
  have hsplit := (List.takeWhile_append_dropWhile (pairLt · range) ms).symm
  unfold probe at probed
  split at probed
  · rename_i hlast
    rw [hsplit, List.getLast?_eq_none_iff.mp hlast, List.head?_eq_none_iff.mp probed]
    rfl
  · cases probed
  · split at probed <;> cases probed

theorem canonical_erase {s : AddrSet} (canonical : Canonical s) (it : AddrRange) :
    Canonical ⟨s.ms.erase it⟩ :=
  ⟨fun r hr => canonical.valid r (List.mem_of_mem_erase hr), canonical.sorted.sublist (List.erase_sublist _ _)⟩

theorem belowMax_erase {s : AddrSet} (belowMax : BelowMax s) (it : AddrRange) :
    BelowMax ⟨s.ms.erase it⟩ :=
  fun r hr => belowMax r (List.mem_of_mem_erase hr)

theorem canonical_between {L R : List AddrRange} {r : AddrRange} (canonical : Canonical ⟨L ++ R⟩)
    (rValid : r.1 ≤ r.2) (left : ∀ q ∈ L, before q r) (right : ∀ q ∈ R, before r q) :
    Canonical ⟨L ++ r :: R⟩ := by
  obtain ⟨valid, sorted⟩ := canonical
  constructor
  · intro q hq
    simp only [List.mem_append, List.mem_cons] at hq
    rcases hq with hq | rfl | hq
    · exact valid q (List.mem_append_left _ hq)
    · exact rValid
    · exact valid q (List.mem_append_right _ hq)
  · simp only [List.pairwise_append, List.pairwise_cons, List.mem_cons] at sorted ⊢
    refine ⟨sorted.1, ⟨right, sorted.2.1⟩, fun a ha b hb => ?_⟩
    rcases hb with rfl | hb
    · exact left a ha
    · exact sorted.2.2 a ha b hb

theorem probe_spec {s : AddrSet} {range it : AddrRange} (canonical : Canonical s) (belowMax : BelowMax s)
    (probed : probe s.ms range = some it) :
    ∃ L R, s.ms = L ++ it :: R ∧ (∀ q ∈ L, q.2.toNat + 1 < range.1.toNat) ∧
      (∀ q ∈ R, range.1.toNat ≤ q.1.toNat) ∧
      (range.1.toNat ≤ it.1.toNat ∨
        (it.1.toNat ≤ range.1.toNat ∧ (R = [] ∨ range.1.toNat ≤ it.2.toNat + 1))) := by
  have hsplit := (List.takeWhile_append_dropWhile (pairLt · range) s.ms).symm
  have hnot := List.head?_dropWhile_not (pairLt · range) s.ms
  have hlt : ∀ q ∈ s.ms.takeWhile (pairLt · range), pairLt q range :=
    fun q hq => by simpa using List.mem_takeWhile_imp hq
  have hpw := canonical.sorted
  have hval := canonical.valid
  have hmx : ∀ r ∈ s.ms, r.2 < addrMax := belowMax
  unfold probe at probed
  generalize s.ms.takeWhile (pairLt · range) = below at hsplit probed hlt
  generalize s.ms.dropWhile (pairLt · range) = after at hsplit probed hnot
  rw [hsplit] at hpw hval hmx ⊢
  have hbelow : ∀ q ∈ below, q.1.toNat ≤ range.1.toNat := fun q hq => by
    have := pairLt_iff.mp (hlt q hq)
    omega
  have hafter : ∀ q ∈ after, range.1.toNat ≤ q.1.toNat := by
    cases after with
    | nil => simp
    | cons n rest =>
      have hn : range.1.toNat ≤ n.1.toNat := by
        by_contra hc
        simp only [List.head?_cons] at hnot
        exact Bool.false_ne_true (hnot ▸ pairLt_iff.mpr (.inl (by omega)))
      have hnv := hval n (by simp)
      rw [addr_le_iff] at hnv
      intro q hq
      rcases List.mem_cons.mp hq with rfl | hq
      · exact hn
      · have := (List.pairwise_cons.mp (List.pairwise_append.mp hpw).2.1).1 q hq
        unfold before at this
        omega
  rcases List.eq_nil_or_concat below with rfl | ⟨B, prev, rfl⟩
  · cases after with
    | nil => simp at probed
    | cons n R =>
      simp only [List.getLast?_nil, List.head?_cons, Option.some.injEq] at probed
      subst probed
      exact ⟨[], R, rfl, by simp, fun q hq => hafter q (.tail _ hq), .inl (hafter _ (.head _))⟩
  · simp only [List.concat_eq_append, List.append_assoc, List.singleton_append] at hpw hval hmx hbelow ⊢
    have hprev := hbelow prev (by simp)
    have hpv := hval prev (by simp)
    rw [addr_le_iff] at hpv
    have hB : ∀ q ∈ B, q.2.toNat + 1 < prev.1.toNat :=
      fun q hq => (List.pairwise_append.mp hpw).2.2 q hq prev (.head _)
    cases after with
    | nil =>
      simp only [List.concat_eq_append, List.getLast?_concat, List.head?_nil,
        Option.some.injEq] at probed
      subst probed
      exact ⟨B, [], rfl, fun q hq => by have := hB q hq; omega, by simp, .inr ⟨hprev, .inl rfl⟩⟩
    | cons n R =>
      have hsucc := addr_toNat_succ (show prev.2.toNat < 2 ^ 64 - 1 by
        have := hmx prev (by simp)
        rw [addr_lt_iff, addrMax_toNat] at this
        exact this)
      simp only [List.concat_eq_append, List.getLast?_concat, List.head?_cons] at probed
      split at probed <;> simp only [Option.some.injEq] at probed <;> subst probed
      · rename_i hgap
        rw [gt_iff_lt, addr_lt_iff, hsucc] at hgap
        refine ⟨B ++ [prev], R, by simp, fun q hq => ?_, fun q hq => hafter q (.tail _ hq),
          .inl (hafter _ (.head _))⟩
        rcases List.mem_append.mp hq with hq | hq
        · have := hB q hq
          omega
        · rw [List.mem_singleton.mp hq]
          exact hgap
      · rename_i hgap
        rw [gt_iff_lt, addr_lt_iff, hsucc] at hgap
        exact ⟨B, n :: R, rfl, fun q hq => by have := hB q hq; omega, hafter,
          .inr ⟨hprev, .inr (by omega)⟩⟩

/-- `t` is what inserting `range` into `s` should give: a canonical set, below the top
address, covering exactly the addresses of `s` and of `range`. -/
structure Inserted (s : AddrSet) (range : AddrRange) (t : AddrSet) : Prop where
  canonical : Canonical t
  belowMax : BelowMax t
  covers_iff : ∀ x, covers t x ↔ covers s x ∨ inRange range x

theorem inserted_of_merge {s t : AddrSet} {range it r : AddrRange} (mem : it ∈ s.ms)
    (fused : ∀ x, inRange r x ↔ inRange it x ∨ inRange range x)
    (inserted : Inserted ⟨s.ms.erase it⟩ r t) : Inserted s range t :=
  ⟨inserted.canonical, inserted.belowMax, fun x => by rw [inserted.covers_iff, fused, covers_erase mem]; exact or_assoc.symm⟩

theorem inserted_of_split {s : AddrSet} {range r : AddrRange} {L R : List AddrRange}
    (canonical : Canonical ⟨L ++ R⟩) (belowMax : BelowMax ⟨L ++ R⟩) (valid : r.1 ≤ r.2) (belowTop : r.2 < addrMax)
    (left : ∀ q ∈ L, before q r) (right : ∀ q ∈ R, before r q)
    (same : ∀ x, covers ⟨L ++ R⟩ x ∨ inRange r x ↔ covers s x ∨ inRange range x) :
    Inserted s range ⟨L ++ r :: R⟩ := by
  refine ⟨canonical_between canonical valid left right, fun q hq => ?_, fun x => ?_⟩
  · simp only [List.mem_append, List.mem_cons] at hq
    rcases hq with hq | rfl | hq
    · exact belowMax q (List.mem_append_left _ hq)
    · exact belowTop
    · exact belowMax q (List.mem_append_right _ hq)
  · rw [← same, covers_append_cons]
    simp only [covers, List.mem_append]
    constructor
    · rintro (⟨q, hq, hx⟩ | hx | ⟨q, hq, hx⟩)
      · exact .inl ⟨q, .inl hq, hx⟩
      · exact .inr hx
      · exact .inl ⟨q, .inr hq, hx⟩
    · rintro (⟨q, hq | hq, hx⟩ | hx)
      · exact .inl ⟨q, hq, hx⟩
      · exact .inr (.inr ⟨q, hq, hx⟩)
      · exact .inr (.inl hx)

/-- Below the top address, `insert` keeps a set canonical and adds exactly `range`. -/
theorem insert_inserted (s : AddrSet) (range : AddrRange) (canonical : Canonical s) (belowMax : BelowMax s)
    (valid : range.1 ≤ range.2) (belowTop : range.2 < addrMax) : Inserted s range (s.insert range) := by
  induction' hn : s.ms.length using Nat.strong_induction_on with n ih generalizing s range
  match h : probe s.ms range with
  | none =>
    rw [insert_of_probe_none h, probe_eq_none h]
    refine ⟨⟨by simpa [setInsert] using valid, by simp [setInsert]⟩,
      by simpa [BelowMax, setInsert] using belowTop, fun x => ?_⟩
    simp [covers, setInsert, probe_eq_none h]
  | some it =>
    obtain ⟨L, R, hms, hL, hR, hpos⟩ := probe_spec canonical belowMax h
    have hmem := probe_mem h
    have hpw : (L ++ it :: R).Pairwise before := hms ▸ canonical.sorted
    have hLit : ∀ q ∈ L, before q it :=
      fun q hq => (List.pairwise_append.mp hpw).2.2 q hq it (.head _)
    have hitR : ∀ q ∈ R, before it q :=
      (List.pairwise_cons.mp (List.pairwise_append.mp hpw).2.1).1
    have hLv : ∀ q ∈ L, q.1.toNat ≤ q.2.toNat :=
      fun q hq => canonical.valid q (hms ▸ List.mem_append_left _ hq)
    have hit := canonical.valid it hmem
    have hitmax := belowMax it hmem
    have ha := valid
    have hb := belowTop
    rw [addr_le_iff] at hit ha
    rw [addr_lt_iff, addrMax_toNat] at hitmax hb
    have hnotL : it ∉ L := fun hq => by have := hLit it hq; unfold before at this; omega
    have herase : s.ms.erase it = L ++ R := by
      rw [hms, List.erase_append_right _ hnotL, List.erase_cons_head]
    have hcan := canonical_erase canonical it
    have hmx := belowMax_erase belowMax it
    rw [herase] at hcan hmx
    have hcov : ∀ x, covers s x ↔ covers ⟨L ++ R⟩ x ∨ inRange it x := fun x => by
      rw [covers_erase hmem, herase]
    -- every merging branch inserts into the smaller set left once `it` is erased
    have merge : ∀ r : AddrRange, r.1 ≤ r.2 → r.2 < addrMax →
        (∀ x, inRange r x ↔ inRange it x ∨ inRange range x) →
        Inserted s range ((⟨s.ms.erase it⟩ : AddrSet).insert r) := fun r hr₁ hr₂ hrcov =>
      inserted_of_merge hmem hrcov (ih _ (hn ▸ length_erase_probe h) _ _ (canonical_erase canonical it)
        (belowMax_erase belowMax it) hr₁ hr₂ rfl)
    rw [insert_of_probe_some h]
    simp only [addr_eq_iff, addr_lt_iff, addr_le_iff, gt_iff_lt, ge_iff_le,
      addr_toNat_succ hitmax, addr_toNat_succ hb]
    by_cases h1 : range.1.toNat = it.2.toNat + 1
    · rw [if_pos h1]
      exact merge _ (by simp only [addr_le_iff]; omega) belowTop
        fun x => by simp only [inRange_iff]; omega
    rw [if_neg h1]
    by_cases h2 : range.2.toNat + 1 = it.1.toNat
    · rw [if_pos h2]
      exact merge _ (by simp only [addr_le_iff]; omega) (belowMax it hmem)
        fun x => by simp only [inRange_iff]; omega
    rw [if_neg h2]
    by_cases h3 : it.2.toNat < range.1.toNat
    · -- `range` lies beyond the last range: store it at the end
      rw [if_pos h3]
      have hR0 : R = [] := by rcases hpos with hp | ⟨-, hp | hp⟩ <;> first | omega | exact hp
      have hsm : s.ms = (L ++ [it]) ++ [] := by rw [hms, hR0, List.append_assoc]; rfl
      have hbefore : ∀ q ∈ L ++ [it], before q range := fun q hq => by
        rcases List.mem_append.mp hq with hq | hq
        · exact hL q hq
        · rw [List.mem_singleton.mp hq]; unfold before; omega
      rw [hsm, setInsert_append (fun q hq => pairLt_iff.mpr (.inl (by
        have := hbefore q hq; unfold before at this
        rcases List.mem_append.mp hq with hq | hq
        · have := hLv q hq; omega
        · rw [List.mem_singleton.mp hq]; omega))) (by simp)]
      exact inserted_of_split (hsm ▸ canonical) (hsm ▸ belowMax) valid belowTop hbefore (by simp)
        (fun x => by rw [← hsm])
    rw [if_neg h3]
    by_cases h4 : it.1.toNat ≤ range.1.toNat
    · rw [if_pos h4]
      by_cases h5 : it.2.toNat < range.2.toNat
      · rw [if_pos h5]
        exact merge _ (by simp only [addr_le_iff]; omega) belowTop
          fun x => by simp only [inRange_iff]; omega
      · -- `it` already covers `range`
        rw [if_neg h5]
        refine ⟨canonical, belowMax, fun x => ⟨.inl, fun hx => hx.elim id fun hx => ⟨it, hmem, ?_⟩⟩⟩
        rw [inRange_iff] at hx ⊢
        omega
    rw [if_neg h4]
    by_cases h6 : range.2.toNat < it.1.toNat
    · -- `range` ends more than one address before `it`: store it before `it`
      rw [if_pos h6, hms, setInsert_append (fun q hq => pairLt_iff.mpr (.inl (by
        have := hL q hq; have := hLv q hq; omega))) (by simpa [pairLt_iff] using .inl (by omega))]
      refine inserted_of_split (hms ▸ canonical) (hms ▸ belowMax) valid belowTop hL (fun q hq => ?_)
        (fun x => by rw [← hms])
      rcases List.mem_cons.mp hq with rfl | hq
      · unfold before; omega
      · have := hitR q hq; unfold before at this ⊢; omega
    rw [if_neg h6]
    by_cases h7 : range.2.toNat ≤ it.2.toNat
    · -- `range` runs into `it`: replace `it` by its extension to `range`'s start
      rw [if_pos h7, herase, setInsert_append (fun q hq => pairLt_iff.mpr (.inl (by
        have := hL q hq; have := hLv q hq; dsimp only; omega))) (fun q hq => pairLt_iff.mpr (.inl (by
        have := hitR q (List.mem_of_mem_head? hq); unfold before at this; dsimp only; omega)))]
      have hext : ∀ x, inRange (range.1, it.2) x ↔ inRange it x ∨ inRange range x := fun x => by
        simp only [inRange_iff]; omega
      refine inserted_of_split hcan hmx (by simp only [addr_le_iff]; omega) (belowMax it hmem)
        (fun q hq => by have := hL q hq; simp only [before]; omega) (fun q hq => hitR q hq)
        (fun x => ?_)
      rw [hcov, hext]
      exact or_assoc.symm
    rw [if_neg h7]
    exact merge _ valid belowTop fun x => by simp only [inRange_iff]; omega

theorem le_of_covers_cons {p : AddrRange} {ps : List AddrRange} (canonical : Canonical ⟨p :: ps⟩)
    {x : Addr} (covered : covers ⟨p :: ps⟩ x) : p.1.toNat ≤ x.toNat := by
  obtain ⟨r, hr, hx⟩ := covered
  rw [inRange_iff] at hx
  rcases List.mem_cons.mp hr with rfl | hr
  · exact hx.1
  · have h1 := (List.pairwise_cons.mp canonical.sorted).1 r hr
    have h2 := canonical.valid p (.head _)
    unfold before at h1
    rw [addr_le_iff] at h2
    omega

theorem covers_tail_iff {p : AddrRange} {ps : List AddrRange} (canonical : Canonical ⟨p :: ps⟩)
    {x : Addr} : covers ⟨ps⟩ x ↔ covers ⟨p :: ps⟩ x ∧ p.2.toNat < x.toNat := by
  constructor
  · rintro ⟨r, hr, hx⟩
    have h1 := (List.pairwise_cons.mp canonical.sorted).1 r hr
    rw [inRange_iff] at hx
    unfold before at h1
    exact ⟨⟨r, .tail _ hr, hx⟩, by omega⟩
  · rintro ⟨⟨r, hr, hx⟩, hlt⟩
    rcases List.mem_cons.mp hr with rfl | hr
    · rw [inRange_iff] at hx; omega
    · exact ⟨r, hr, hx⟩

theorem canonical_tail {p : AddrRange} {ps : List AddrRange} (canonical : Canonical ⟨p :: ps⟩) :
    Canonical ⟨ps⟩ :=
  ⟨fun r hr => canonical.valid r (.tail _ hr), (List.pairwise_cons.mp canonical.sorted).2⟩

theorem not_covers_gap {p : AddrRange} {ps : List AddrRange} (canonical : Canonical ⟨p :: ps⟩)
    {x : Addr} (gap : x.toNat = p.2.toNat + 1) : ¬ covers ⟨p :: ps⟩ x := fun h => by
  have h1 : ¬ covers ⟨ps⟩ x := fun h' => by
    obtain ⟨r, hr, hr'⟩ := h'
    have := (List.pairwise_cons.mp canonical.sorted).1 r hr
    rw [inRange_iff] at hr'
    unfold before at this
    omega
  obtain ⟨r, hr, hr'⟩ := h
  rcases List.mem_cons.mp hr with rfl | hr
  · rw [inRange_iff] at hr'; omega
  · exact h1 ⟨r, hr, hr'⟩

theorem not_lt_of_covers_eq {a b : AddrRange} {as bs : List AddrRange} (canonical : Canonical ⟨a :: as⟩)
    (same : ∀ x, covers ⟨a :: as⟩ x ↔ covers ⟨b :: bs⟩ x) (first : a.1.toNat = b.1.toNat) :
    ¬ a.2.toNat < b.2.toNat := fun hlt => by
  have hav := canonical.valid a (.head _)
  rw [addr_le_iff] at hav
  have hsucc := addr_toNat_succ (show a.2.toNat < 2 ^ 64 - 1 by have := addr_toNat_lt b.2; omega)
  exact not_covers_gap canonical hsucc ((same _).mpr ⟨b, .head _, by rw [inRange_iff, hsucc]; omega⟩)

theorem eq_of_covers : ∀ {ms ns : List AddrRange}, Canonical ⟨ms⟩ → Canonical ⟨ns⟩ →
    (∀ x, covers ⟨ms⟩ x ↔ covers ⟨ns⟩ x) → ms = ns
  | [], [], _, _, _ => rfl
  | [], q :: _, _, ht, h => absurd ((h q.1).mpr ⟨q, .head _, UInt64.le_refl _, ht.valid q (.head _)⟩)
      fun ⟨_, hr, _⟩ => by cases hr
  | p :: _, [], hs, _, h => absurd ((h p.1).mp ⟨p, .head _, UInt64.le_refl _, hs.valid p (.head _)⟩)
      fun ⟨_, hr, _⟩ => by cases hr
  | p :: ps, q :: qs, hs, ht, h => by
    have hp := hs.valid p (.head _)
    have hq := ht.valid q (.head _)
    rw [addr_le_iff] at hp hq
    have h1 : p.1.toNat = q.1.toNat := by
      have := le_of_covers_cons ht ((h p.1).mp ⟨p, .head _, UInt64.le_refl _, hs.valid p (.head _)⟩)
      have := le_of_covers_cons hs ((h q.1).mpr ⟨q, .head _, UInt64.le_refl _, ht.valid q (.head _)⟩)
      omega
    have h2 : p.2.toNat = q.2.toNat := by
      have := not_lt_of_covers_eq hs h h1
      have := not_lt_of_covers_eq ht (fun x => (h x).symm) h1.symm
      omega
    have htail : ∀ x, covers ⟨ps⟩ x ↔ covers ⟨qs⟩ x := fun x => by
      rw [covers_tail_iff hs, covers_tail_iff ht, h x, h2]
    rw [eq_of_covers (canonical_tail hs) (canonical_tail ht) htail,
      Prod.ext ((addr_eq_iff _ _).mpr h1) ((addr_eq_iff _ _).mpr h2)]

theorem foldl_insert_inserted (rs : List AddrRange) (valid : ∀ r ∈ rs, r.1 ≤ r.2 ∧ r.2 < addrMax) :
    ∀ s : AddrSet, Canonical s → BelowMax s →
      Canonical (rs.foldl insert s) ∧ BelowMax (rs.foldl insert s) ∧
        ∀ x, covers (rs.foldl insert s) x ↔ covers s x ∨ ∃ r ∈ rs, inRange r x := by
  induction rs with
  | nil => exact fun s hs hmax => ⟨hs, hmax, by simp⟩
  | cons r rs ih =>
    intro s hs hmax
    have hr := valid r (.head _)
    have step := insert_inserted s r hs hmax hr.1 hr.2
    obtain ⟨hc, hm, hcov⟩ := ih (fun q hq => valid q (.tail _ hq)) _ step.canonical step.belowMax
    refine ⟨hc, hm, fun x => ?_⟩
    rw [List.foldl_cons, hcov, step.covers_iff]
    simp only [List.mem_cons, exists_eq_or_imp]
    exact or_assoc

/-- Below the top address, inserting two sequences of ranges that cover the same addresses
into an empty set leaves the same set, whatever their order, repetitions and splitting. -/
theorem insert_order_independent (xs ys : List AddrRange)
    (xsValid : ∀ r ∈ xs, r.1 ≤ r.2 ∧ r.2 < addrMax) (ysValid : ∀ r ∈ ys, r.1 ≤ r.2 ∧ r.2 < addrMax)
    (same : ∀ a, (∃ r ∈ xs, inRange r a) ↔ (∃ r ∈ ys, inRange r a)) :
    xs.foldl insert ⟨[]⟩ = ys.foldl insert ⟨[]⟩ := by
  have empty : Canonical ⟨[]⟩ ∧ BelowMax ⟨[]⟩ := ⟨⟨by simp, by simp⟩, by simp [BelowMax]⟩
  obtain ⟨hcx, -, hcovx⟩ := foldl_insert_inserted xs xsValid _ empty.1 empty.2
  obtain ⟨hcy, -, hcovy⟩ := foldl_insert_inserted ys ysValid _ empty.1 empty.2
  have hms := @eq_of_covers (xs.foldl insert ⟨[]⟩).ms (ys.foldl insert ⟨[]⟩).ms hcx hcy
    (fun a => by
      have xsValid := hcovx a
      have ysValid := hcovy a
      simp only [covers, List.not_mem_nil, false_and, exists_false, false_or] at xsValid ysValid ⊢
      rw [xsValid, ysValid, same])
  rw [show xs.foldl insert ⟨[]⟩ = ⟨(xs.foldl insert ⟨[]⟩).ms⟩ from rfl, hms]

theorem insert_split_ranges_merge :
    [((1 : Addr), 3), (3, 5)].foldl insert ⟨[]⟩ = [((1 : Addr), 5)].foldl insert ⟨[]⟩ :=
  insert_order_independent _ _ (by decide) (by decide) fun a => by
    simp only [List.mem_cons, List.mem_singleton, exists_eq_or_imp, exists_eq_left,
      List.not_mem_nil, false_and, exists_false, or_false, inRange_iff]
    have : ((1 : Addr).toNat, (3 : Addr).toNat, (5 : Addr).toNat) = (1, 3, 5) := rfl
    simp only [Prod.mk.injEq] at this
    omega

/-- Below the top address, `insert` keeps a set canonical, adds exactly the range's
addresses, and returns the one canonical set that covers them. -/
theorem insert_below_top_correct (s : AddrSet) (range : AddrRange) (canonical : Canonical s)
    (belowMax : BelowMax s) (valid : range.1 ≤ range.2) (belowTop : range.2 < addrMax) :
    Canonical (s.insert range) ∧ BelowMax (s.insert range) ∧
      (∀ x, covers (s.insert range) x ↔ covers s x ∨ inRange range x) ∧
      ∀ t : AddrSet, Canonical t → (∀ x, covers t x ↔ covers s x ∨ inRange range x) →
        s.insert range = t := by
  have h := insert_inserted s range canonical belowMax valid belowTop
  refine ⟨h.canonical, h.belowMax, h.covers_iff, fun t ht hcov => ?_⟩
  have hms := eq_of_covers h.canonical ht fun x => (h.covers_iff x).trans (hcov x).symm
  rw [show s.insert range = ⟨(s.insert range).ms⟩ from rfl, hms]

theorem insert_between_neighbours_merges :
    Canonical (AddrSet.insert ⟨[(1, 2), (6, 7)]⟩ (3, 5)) ∧
      BelowMax (AddrSet.insert ⟨[(1, 2), (6, 7)]⟩ (3, 5)) ∧
      (∀ x, covers (AddrSet.insert ⟨[(1, 2), (6, 7)]⟩ (3, 5)) x ↔
        covers ⟨[(1, 2), (6, 7)]⟩ x ∨ inRange (3, 5) x) ∧
      ∀ t : AddrSet, Canonical t → (∀ x, covers t x ↔ covers ⟨[(1, 2), (6, 7)]⟩ x ∨ inRange (3, 5) x) →
        AddrSet.insert ⟨[(1, 2), (6, 7)]⟩ (3, 5) = t :=
  insert_below_top_correct _ _ ⟨by decide, by decide⟩ (by decide) (by decide) (by decide)

theorem insert_at_top : AddrSet.insert ⟨[(1, addrMax)]⟩ (0, 0) = insert ⟨[]⟩ (1, 0) ∧
    insert ⟨[]⟩ (1, 0) = ⟨[(1, 0)]⟩ := by
  have hp : probe [(1, addrMax)] (0, 0) = some (1, addrMax) := by decide
  refine ⟨?_, insert_of_probe_none rfl⟩
  rw [insert_of_probe_some hp, if_pos (by decide)]
  rfl

/-- A canonical one-range set and a one-address range for which `insert` breaks its
contract: the recursive call re-inserts `(1, 0)`, whose first exceeds its second, and the
resulting set is not canonical and covers no address. -/
theorem insert_wraps_at_top :
    Canonical ⟨[(1, addrMax)]⟩ ∧
      AddrSet.insert ⟨[(1, addrMax)]⟩ (0, 0) = insert ⟨[]⟩ (1, 0) ∧
      insert ⟨[]⟩ (1, 0) = ⟨[(1, 0)]⟩ ∧
      ¬ Canonical ⟨[(1, 0)]⟩ ∧ ∀ x, ¬ covers ⟨[(1, 0)]⟩ x := by
  refine ⟨⟨by simp [addr_le_iff], by simp⟩, insert_at_top.1, insert_at_top.2,
    fun h => absurd (h.valid (1, 0) (.head _)) (by decide), fun x => ?_⟩
  rintro ⟨r, hr, hx⟩
  rw [List.mem_singleton.mp hr, inRange_iff] at hx
  simp at hx
  omega

/-- Two sequences that both cover every address leave different sets. -/
theorem insert_order_matters_at_top :
    (∀ a, (∃ r ∈ [((0 : Addr), addrMax)], inRange r a) ↔
      (∃ r ∈ [((1 : Addr), addrMax), (0, 0)], inRange r a)) ∧
    [((0 : Addr), addrMax)].foldl insert ⟨[]⟩ = ⟨[(0, addrMax)]⟩ ∧
    [((1 : Addr), addrMax), (0, 0)].foldl insert ⟨[]⟩ = ⟨[(1, 0)]⟩ := by
  refine ⟨fun a => ?_, insert_of_probe_none rfl, ?_⟩
  · have := addr_toNat_lt a
    simp only [List.mem_singleton, List.mem_cons, exists_eq_left, exists_eq_or_imp, inRange_iff,
      addrMax_toNat, List.not_mem_nil, false_and, exists_false, or_false]
    simp
    omega
  · have h1 : insert ⟨[]⟩ ((1 : Addr), addrMax) = ⟨[(1, addrMax)]⟩ := insert_of_probe_none rfl
    simp only [List.foldl_cons, List.foldl_nil, h1]
    exact insert_at_top.1.trans insert_at_top.2

end AddrSet

end STGen
