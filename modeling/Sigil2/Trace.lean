import Sigil2.ThreadContextSpec

/-! The files as one list of tagged records, and the dependency graph over them. -/
namespace STGen

/-- The records in thread `t`'s file, in order. -/
def recsOf (out : List (Nat × Record)) (t : Nat) : List Record :=
  out.filterMap fun p => if p.1 = t then some p.2 else none

theorem mem_recsOf {out : List (Nat × Record)} {t : Nat} {r : Record} :
    r ∈ recsOf out t ↔ ∃ i : Nat, out[i]? = some (t, r) := by
  simp only [recsOf, List.mem_filterMap]
  constructor
  · rintro ⟨⟨t', r'⟩, hmem, h⟩
    split at h
    · rename_i ht
      cases h
      cases ht
      exact List.mem_iff_getElem?.mp hmem
    · cases h
  · rintro ⟨i, hi⟩
    exact ⟨(t, r), List.getElem?_mem hi, by simp⟩

@[simp] theorem recsOf_append (out out' : List (Nat × Record)) (t : Nat) :
    recsOf (out ++ out') t = recsOf out t ++ recsOf out' t :=
  List.filterMap_append _ _ _

theorem recsOf_tagged (recs : List Record) (t t' : Nat) :
    recsOf (recs.map (t, ·)) t' = if t' = t then recs else [] := by
  unfold recsOf
  rw [List.filterMap_map]
  split
  · subst t'
    simp [Function.comp_def]
  · simp [Function.comp_def, Ne.symm ‹_›]

/-- Entry `i` of the files is a record of thread `u.1` under event id `u.2`. -/
def NodeAt (out : List (Nat × Record)) (i : Nat) (u : Nat × Nat) : Prop :=
  ∃ r : Record, out[i]? = some (u.1, r) ∧ r.eid? = some u.2

/-- Thread `u.1` has written a record under event id `u.2`. -/
def Emitted (out : List (Nat × Record)) (u : Nat × Nat) : Prop :=
  ∃ i, NodeAt out i u

/-- The dependency graph over the emitted records: program order inside a thread, and an
edge from each producer a communication record names to that record. -/
def DepEdge (out : List (Nat × Record)) (u v : Nat × Nat) : Prop :=
  (v.1 = u.1 ∧ v.2 = u.2 + 1 ∧ Emitted out u ∧ Emitted out v) ∨
    ∃ (i : Nat) (r : Record), out[i]? = some (v.1, r) ∧ r.eid? = some v.2 ∧ r.HasEdge u.1 u.2

/-- No event depends on itself through the dependency graph. -/
def Acyclic (out : List (Nat × Record)) : Prop :=
  ∀ u, ¬ Relation.TransGen (DepEdge out) u u

/-- The writing order respects the dependency graph: a thread's event ids never go back,
and every producer a communication record names was written before it and never after. -/
structure LogOrdered (out : List (Nat × Record)) : Prop where
  program : ∀ i j t k l : Nat, NodeAt out i (t, k) → NodeAt out j (t, l) → k < l → i < j
  producers : ∀ (i t : Nat) (r : Record) (w e : Nat), out[i]? = some (t, r) → r.HasEdge w e →
    (∃ j < i, NodeAt out j (w, e)) ∧ ∀ j, NodeAt out j (w, e) → j < i

/-- Every writing of `u` comes before some writing of `v`. -/
def Before (out : List (Nat × Record)) (u v : Nat × Nat) : Prop :=
  ∃ c, (∀ i, NodeAt out i u → i < c) ∧ ∃ i, c ≤ i ∧ NodeAt out i v

section Order

variable {out : List (Nat × Record)} {u v w : Nat × Nat}

theorem Before.trans (first : Before out u v) (second : Before out v w) : Before out u w := by
  obtain ⟨c₁, hu, i₁, hc₁, hv⟩ := first
  obtain ⟨c₂, hv', i₂, hc₂, hw⟩ := second
  have := hv' i₁ hv
  exact ⟨c₂, fun i hi => by have := hu i hi; omega, i₂, hc₂, hw⟩

theorem Before.irrefl (before : Before out u u) : False := by
  obtain ⟨c, hu, i, hc, hi⟩ := before
  have := hu i hi
  omega

theorem LogOrdered.before (ordered : LogOrdered out) (edge : DepEdge out u v) : Before out u v := by
  rcases edge with ⟨h₁, h₂, -, j, hj⟩ | ⟨i, r, hi, he, hr⟩
  · obtain ⟨t, k⟩ := u
    obtain ⟨t', l⟩ := v
    simp only at h₁ h₂
    subst h₁ h₂
    exact ⟨j, fun i hi => ordered.program i j _ _ _ hi hj (by omega), j, le_rfl, hj⟩
  · exact ⟨i, (ordered.producers i v.1 r u.1 u.2 hi hr).2, i, le_rfl, r, hi, he⟩

theorem LogOrdered.acyclic (ordered : LogOrdered out) : Acyclic out := by
  intro u
  suffices ∀ v, Relation.TransGen (DepEdge out) u v → Before out u v from
    fun h => (this u h).irrefl
  intro v h
  induction h with
  | single h => exact ordered.before h
  | tail _ h ih => exact ih.trans (ordered.before h)

end Order

section Counter

variable {e₀ e₁ : Nat} {rs : List Record} {j : Nat} {r : Record} {k : Nat}

theorem Counted.getElem_eid (counted : Counted e₀ e₁ rs) (entry : rs[j]? = some r) (labelled : r.eid? = some k) :
    e₀ ≤ k ∧ k ≤ e₁ :=
  counted.eid_mem r (List.getElem?_mem entry) k labelled

theorem Counted.getElem_mono (counted : Counted e₀ e₁ rs) {j' : Nat} {r' : Record} {k' : Nat}
    (lt : j < j') (entry : rs[j]? = some r) (entry' : rs[j']? = some r') (labelled : r.eid? = some k)
    (labelled' : r'.eid? = some k') : k ≤ k' := by
  obtain ⟨hjl, rfl⟩ := List.getElem?_eq_some_iff.mp entry
  obtain ⟨hjl', rfl⟩ := List.getElem?_eq_some_iff.mp entry'
  exact List.pairwise_iff_getElem.mp counted.sorted j j' hjl hjl' lt k k' labelled labelled'

end Counter

/-- What the dispatcher keeps of the files, given each thread's counter `ev`: the writing
order respects the dependency graph, each thread's records follow its counter from zero,
and every producer edge names an event id below its producer's counter. -/
structure LogInv (out : List (Nat × Record)) (ev : Nat → Nat) : Prop where
  ordered : LogOrdered out
  counted : ∀ t, Counted 0 (ev t) (recsOf out t)
  edges : ∀ (i t : Nat) (r : Record) (w e : Nat), out[i]? = some (t, r) → r.HasEdge w e →
    e < ev w

namespace LogInv

variable {out : List (Nat × Record)} {ev : Nat → Nat}

theorem init : LogInv [] fun _ => 0 where
  ordered := ⟨fun _ _ _ _ _ h => by simp [NodeAt] at h, fun _ _ _ _ _ h => by simp at h⟩
  counted _ := rfl
  edges _ _ _ _ _ h := by simp at h

theorem emitted (log : LogInv out ev) {w e : Nat} (below : e < ev w) :
    ∃ j < out.length, NodeAt out j (w, e) := by
  obtain ⟨r, hr, hk⟩ := (log.counted w).covers e (Nat.zero_le _) below
  obtain ⟨j, hj⟩ := mem_recsOf.mp hr
  exact ⟨j, (List.getElem?_eq_some_iff.mp hj).1, r, hj, hk⟩

theorem eid_le (log : LogInv out ev) {i t k : Nat} (node : NodeAt out i (t, k)) : k ≤ ev t := by
  obtain ⟨r, hr, hk⟩ := node
  exact ((log.counted t).eid_mem r (mem_recsOf.mpr ⟨i, hr⟩) k hk).2

end LogInv

section Append

variable {out : List (Nat × Record)} {recs : List Record} {t : Nat}

theorem nodeAt_append_left {i : Nat} {u : Nat × Nat} (inside : i < out.length) :
    NodeAt (out ++ recs.map (t, ·)) i u ↔ NodeAt out i u := by
  simp only [NodeAt, List.getElem?_append_left inside]

theorem getElem?_append_tagged {i : Nat} {t' : Nat} {r : Record} (beyond : out.length ≤ i)
    (entry : (out ++ recs.map (t, ·))[i]? = some (t', r)) :
    t' = t ∧ recs[i - out.length]? = some r := by
  rw [List.getElem?_append_right beyond, List.getElem?_map] at entry
  obtain ⟨r', hr', he⟩ := Option.map_eq_some'.mp entry
  cases he
  exact ⟨rfl, hr'⟩

theorem nodeAt_append_right {i t' k : Nat} (beyond : out.length ≤ i)
    (node : NodeAt (out ++ recs.map (t, ·)) i (t', k)) :
    t' = t ∧ ∃ r, recs[i - out.length]? = some r ∧ r.eid? = some k := by
  obtain ⟨r, hr, hk⟩ := node
  obtain ⟨rfl, hr'⟩ := getElem?_append_tagged beyond hr
  exact ⟨rfl, r, hr', hk⟩

variable {ev : Nat → Nat} {e₁ : Nat}

theorem program_append (log : LogInv out ev) (counted : Counted (ev t) e₁ recs) {i j t' k l : Nat}
    (nodeI : NodeAt (out ++ recs.map (t, ·)) i (t', k))
    (nodeJ : NodeAt (out ++ recs.map (t, ·)) j (t', l)) (lt : k < l) : i < j := by
  by_cases hio : i < out.length <;> by_cases hjo : j < out.length
  · exact log.ordered.program i j t' k l ((nodeAt_append_left hio).mp nodeI)
      ((nodeAt_append_left hjo).mp nodeJ) lt
  · omega
  · -- an old record of `t` has an event id at most `ev t`, a new one at least `ev t`
    obtain ⟨rfl, r, hr, hk⟩ := nodeAt_append_right (by omega) nodeI
    have := (counted.getElem_eid hr hk).1
    have := log.eid_le ((nodeAt_append_left hjo).mp nodeJ)
    omega
  · obtain ⟨rfl, r, hr, hk⟩ := nodeAt_append_right (by omega) nodeI
    obtain ⟨-, r', hr', hk'⟩ := nodeAt_append_right (by omega) nodeJ
    by_contra hji
    rcases Nat.lt_or_ge j i with hlt | hge
    · have := counted.getElem_mono (by omega) hr' hr hk' hk
      omega
    · obtain rfl : i = j := by omega
      cases hr.symm.trans hr'
      cases hk.symm.trans hk'
      omega

theorem producers_append (log : LogInv out ev) (counted : Counted (ev t) e₁ recs)
    (edges : ∀ r ∈ recs, ∀ w e, r.HasEdge w e → w ≠ t ∧ e < ev w) {i t' : Nat} {r : Record}
    {w e : Nat} (entry : (out ++ recs.map (t, ·))[i]? = some (t', r)) (edge : r.HasEdge w e) :
    (∃ j < i, NodeAt (out ++ recs.map (t, ·)) j (w, e)) ∧
      ∀ j, NodeAt (out ++ recs.map (t, ·)) j (w, e) → j < i := by
  by_cases hio : i < out.length
  · rw [List.getElem?_append_left hio] at entry
    obtain ⟨⟨j, hj, hn⟩, hall⟩ := log.ordered.producers i t' r w e entry edge
    refine ⟨⟨j, hj, (nodeAt_append_left (by omega)).mpr hn⟩, fun j' hn' => ?_⟩
    by_cases hjo : j' < out.length
    · exact hall j' ((nodeAt_append_left hjo).mp hn')
    · obtain ⟨rfl, r', hr', hk'⟩ := nodeAt_append_right (by omega) hn'
      have := (counted.getElem_eid hr' hk').1
      have := log.edges i t' r w e entry edge
      omega
  · obtain ⟨-, hr⟩ := getElem?_append_tagged (by omega) entry
    obtain ⟨hwt, hew⟩ := edges r (List.getElem?_mem hr) w e edge
    obtain ⟨j, hj, hn⟩ := log.emitted hew
    refine ⟨⟨j, by omega, (nodeAt_append_left hj).mpr hn⟩, fun j' hn' => ?_⟩
    by_contra
    exact hwt (nodeAt_append_right (by omega) hn').1

/-- Appending the records one handler call hands thread `t`'s logger keeps `LogInv`: they
follow `t`'s counter from where it stood, and their producer edges name other threads'
events below those threads' counters. -/
theorem LogInv.append (log : LogInv out ev) (counted : Counted (ev t) e₁ recs)
    (edges : ∀ r ∈ recs, ∀ w e, r.HasEdge w e → w ≠ t ∧ e < ev w) :
    LogInv (out ++ recs.map (t, ·)) (Function.update ev t e₁) := by
  have hmono : ev ≤ Function.update ev t e₁ := le_update_iff.mpr ⟨counted.le, fun _ _ => le_rfl⟩
  refine ⟨⟨fun _ _ _ _ _ => program_append log counted, fun _ _ _ _ _ => producers_append log counted edges⟩,
    fun t' => ?_, fun i t' r w e hi he => ?_⟩
  · rw [recsOf_append, recsOf_tagged]
    by_cases ht : t' = t
    · subst ht
      simpa using counted_append (log.counted t') counted
    · simpa [ht] using log.counted t'
  · by_cases hio : i < out.length
    · rw [List.getElem?_append_left hio] at hi
      exact (log.edges i t' r w e hi he).trans_le (hmono w)
    · have hr := (getElem?_append_tagged (by omega) hi).2
      exact (edges r (List.getElem?_mem hr) w e he).2.trans_le (hmono w)

end Append

end STGen
