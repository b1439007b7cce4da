import Sigil2.ThreadContext

/-! What each handler does to the counter, the aggregators, the shadow memory and the log, as
one `Effect`. -/
namespace STGen

/-- How far a record moves the event counter. -/
def Record.advance : Record → Nat
  | .comp .. => 1
  | .comm .. => 1
  | _ => 0

theorem Record.advance_le_one (r : Record) : r.advance ≤ 1 := by
  cases r <;> simp [Record.advance]

theorem Record.eid?_isSome {r : Record} (pos : 0 < r.advance) : ∃ k, r.eid? = some k := by
  cases r <;> simp_all [Record.advance, Record.eid?]

/-- The records' event ids follow a counter that runs from `e₀` to `e₁`. -/
def Counted : Nat → Nat → List Record → Prop
  | e₀, e₁, [] => e₀ = e₁
  | e₀, e₁, r :: rs => (∀ k, r.eid? = some k → k = e₀) ∧ Counted (e₀ + r.advance) e₁ rs

theorem counted_append {e₀ e₁ e₂ : Nat} {rs rs' : List Record}
    (first : Counted e₀ e₁ rs) (second : Counted e₁ e₂ rs') : Counted e₀ e₂ (rs ++ rs') := by
  induction rs generalizing e₀ with
  | nil => cases first; exact second
  | cons r rs ih => exact ⟨first.1, ih first.2⟩

theorem Counted.le {e₀ e₁ : Nat} {rs : List Record} (counted : Counted e₀ e₁ rs) : e₀ ≤ e₁ := by
  induction rs generalizing e₀ with
  | nil => exact Nat.le_of_eq counted
  | cons r rs ih => have := ih counted.2; omega

theorem Counted.eid_mem {e₀ e₁ : Nat} {rs : List Record} (counted : Counted e₀ e₁ rs) :
    ∀ r ∈ rs, ∀ k, r.eid? = some k → e₀ ≤ k ∧ k ≤ e₁ := by
  induction rs generalizing e₀ with
  | nil => simp
  | cons r rs ih =>
    intro q hq k hk
    rcases List.mem_cons.mp hq with rfl | hq
    · have := counted.2.le
      rw [counted.1 k hk]
      omega
    · have := ih counted.2 q hq k hk
      omega

theorem Counted.covers {e₀ e₁ : Nat} {rs : List Record} (counted : Counted e₀ e₁ rs) :
    ∀ k, e₀ ≤ k → k < e₁ → ∃ r ∈ rs, r.eid? = some k := by
  induction rs generalizing e₀ with
  | nil => intro k h₀ h₁; cases counted; omega
  | cons r rs ih =>
    intro k h₀ h₁
    by_cases hk : k = e₀ ∧ 0 < r.advance
    · obtain ⟨k', hk'⟩ := Record.eid?_isSome hk.2
      exact ⟨r, .head _, by rw [hk', counted.1 k' hk', hk.1]⟩
    · have := r.advance_le_one
      obtain ⟨q, hq, he⟩ := ih counted.2 k (by omega) h₁
      exact ⟨q, .tail _ hq, he⟩

theorem Counted.sorted {e₀ e₁ : Nat} {rs : List Record} (counted : Counted e₀ e₁ rs) :
    rs.Pairwise fun r q => ∀ k l, r.eid? = some k → q.eid? = some l → k ≤ l := by
  induction rs generalizing e₀ with
  | nil => exact .nil
  | cons r rs ih =>
    refine .cons (fun q hq k l hk hl => ?_) (ih counted.2)
    have := counted.2.eid_mem q hq l hl
    rw [counted.1 k hk]
    omega

/-- Event id `e` is below `tc`'s counter, or is the counter while a compute event is pending,
so that the next flush takes it. -/
def Owed (tc : ThreadContext) (e : Nat) : Prop :=
  e < tc.events ∨ (e = tc.events ∧ tc.stComp.isActive = true)

/-- A producer edge `(w, e)` is already pending in `tc`, or was read off a shadow cell of
`sm` written by another thread. -/
def EdgeSource (tc : ThreadContext) (sm : STShadowMemory) (w e : Nat) : Prop :=
  (∃ s, (w, e, s) ∈ tc.stComm.comms) ∨
    (w ≠ tc.tid ∧ ∃ a, sm.getWriterTID a = some w ∧ sm.getWriterEID a = e)

/-- The producer edges a record carries. -/
def Record.HasEdge : Record → Nat → Nat → Prop
  | .comm ev _ _, w, e => ∃ s, (w, e, s) ∈ ev.comms
  | _, _, _ => False

/-- What one handler call does, seen from the other threads: it keeps the thread id, its
records follow the counter, what was owed stays owed, it writes shadow cells only under
its own thread and an owed event id, and every producer edge it keeps or logs was pending
or read off the shadow memory it was given. -/
structure Effect (tc : ThreadContext) (sm : STShadowMemory) (tc' : ThreadContext)
    (sm' : STShadowMemory) (recs : List Record) : Prop where
  tid : tc'.tid = tc.tid
  counted : Counted tc.events tc'.events recs
  owed : ∀ e, Owed tc e → Owed tc' e
  cells : ∀ a, (sm'.getWriterTID a = sm.getWriterTID a ∧ sm'.getWriterEID a = sm.getWriterEID a) ∨
    (sm'.getWriterTID a = some tc.tid ∧ Owed tc' (sm'.getWriterEID a))
  pending : ∀ w e s, (w, e, s) ∈ tc'.stComm.comms → EdgeSource tc sm w e
  logged : ∀ r ∈ recs, ∀ w e, r.HasEdge w e → EdgeSource tc sm w e

namespace Effect

theorem refl (tc : ThreadContext) (sm : STShadowMemory) : Effect tc sm tc sm [] where
  tid := rfl
  counted := rfl
  owed _ h := h
  cells _ := .inl ⟨rfl, rfl⟩
  pending _ _ s h := .inl ⟨s, h⟩
  logged _ h := nomatch h

variable {tc tc₁ tc₂ : ThreadContext} {sm sm₁ sm₂ : STShadowMemory} {r₁ r₂ : List Record}

theorem edgeSource (effect : Effect tc sm tc₁ sm₁ r₁) {w e : Nat} :
    EdgeSource tc₁ sm₁ w e → EdgeSource tc sm w e
  | .inl ⟨s, hs⟩ => effect.pending w e s hs
  | .inr ⟨hw, a, ha, he⟩ => by
    rcases effect.cells a with ⟨h₁, h₂⟩ | ⟨h₁, -⟩
    · exact .inr ⟨effect.tid ▸ hw, a, h₁ ▸ ha, h₂ ▸ he⟩
    · rw [ha] at h₁
      exact absurd (Option.some.inj h₁) (effect.tid ▸ hw)

theorem trans (first : Effect tc sm tc₁ sm₁ r₁) (second : Effect tc₁ sm₁ tc₂ sm₂ r₂) :
    Effect tc sm tc₂ sm₂ (r₁ ++ r₂) where
  tid := second.tid.trans first.tid
  counted := counted_append first.counted second.counted
  owed e he := second.owed e (first.owed e he)
  cells a := by
    rcases second.cells a with ⟨h₁, h₂⟩ | ⟨h₁, h₂⟩
    · rcases first.cells a with ⟨h₃, h₄⟩ | ⟨h₃, h₄⟩
      · exact .inl ⟨h₁.trans h₃, h₂.trans h₄⟩
      · exact .inr ⟨h₁.trans h₃, h₂ ▸ second.owed _ h₄⟩
    · exact .inr ⟨first.tid ▸ h₁, h₂⟩
  pending w e s hs := first.edgeSource (second.pending w e s hs)
  logged r hr w e he := by
    rcases List.mem_append.mp hr with hr | hr
    · exact first.logged r hr w e he
    · exact first.edgeSource (second.logged r hr w e he)

theorem nil_trans (first : Effect tc sm tc₁ sm₁ []) (second : Effect tc₁ sm₁ tc₂ sm₂ r₂) :
    Effect tc sm tc₂ sm₂ r₂ :=
  first.trans second

theorem trans_nil (first : Effect tc sm tc₁ sm₁ r₁) (second : Effect tc₁ sm₁ tc₂ sm₂ []) :
    Effect tc sm tc₂ sm₂ r₁ := by
  simpa using first.trans second

theorem of_stComp (sm : STShadowMemory) (sameTid : tc₁.tid = tc.tid) (sameEvents : tc₁.events = tc.events)
    (sameComm : tc₁.stComm = tc.stComm) (active : tc.stComp.isActive = true → tc₁.stComp.isActive = true) :
    Effect tc sm tc₁ sm [] where
  tid := sameTid
  counted := sameEvents.symm
  owed _ := Or.imp (sameEvents ▸ id) fun h => ⟨sameEvents ▸ h.1, active h.2⟩
  cells _ := .inl ⟨rfl, rfl⟩
  pending _ _ s h := .inl ⟨s, sameComm ▸ h⟩
  logged _ h := nomatch h

theorem sync (tc : ThreadContext) (sm : STShadowMemory) (syncType : Nat) (syncAddr : Addr) :
    Effect tc sm tc sm [.sync syncType syncAddr tc.events tc.tid] :=
  { Effect.refl tc sm with
    counted := ⟨fun _ h => (Option.some.inj h).symm, rfl⟩
    logged := fun r hr _ _ he => by rw [List.mem_singleton.mp hr] at he; exact he.elim }

end Effect

namespace ThreadContext

theorem compFlushIfActive_ok {tc tc' : ThreadContext} {recs : List Record}
    (flushed : tc.compFlushIfActive = .ok (tc', recs)) :
    (tc.stComp.isActive = true ∧ tc' = { tc with stComp := tc.stComp.reset, events := tc.events + 1 } ∧
      recs = [.comp tc.stComp tc.events tc.tid]) ∨
    (tc.stComp.isActive = false ∧ tc' = tc ∧ recs = []) := by
  unfold compFlushIfActive at flushed
  split at flushed
  · rename_i hact
    split at flushed
    · rename_i e he
      simp only [incrEid] at he
      split at he <;> cases he
      cases flushed
      exact .inl ⟨hact, rfl, rfl⟩
    · cases flushed
  · rename_i hact
    cases flushed
    exact .inr ⟨Bool.eq_false_iff.mpr hact, rfl, rfl⟩

theorem commFlushIfActive_ok {tc tc' : ThreadContext} {recs : List Record}
    (flushed : tc.commFlushIfActive = .ok (tc', recs)) :
    (tc.stComm.isActive = true ∧ tc' = { tc with stComm := tc.stComm.reset, events := tc.events + 1 } ∧
      recs = [.comm tc.stComm tc.events tc.tid]) ∨
    (tc.stComm.isActive = false ∧ tc' = tc ∧ recs = []) := by
  unfold commFlushIfActive at flushed
  split at flushed
  · rename_i hact
    split at flushed
    · rename_i e he
      simp only [incrEid] at he
      split at he <;> cases he
      cases flushed
      exact .inl ⟨hact, rfl, rfl⟩
    · cases flushed
  · rename_i hact
    cases flushed
    exact .inr ⟨Bool.eq_false_iff.mpr hact, rfl, rfl⟩

variable {tc tc' : ThreadContext} {recs : List Record}

theorem commFlushIfActive_stComp (flushed : tc.commFlushIfActive = .ok (tc', recs)) :
    tc'.stComp = tc.stComp := by
  rcases commFlushIfActive_ok flushed with ⟨-, rfl, -⟩ | ⟨-, rfl, -⟩ <;> rfl

theorem compFlushIfActive_effect (sm : STShadowMemory) (flushed : tc.compFlushIfActive = .ok (tc', recs)) :
    Effect tc sm tc' sm recs := by
  rcases compFlushIfActive_ok flushed with ⟨-, rfl, rfl⟩ | ⟨-, rfl, rfl⟩
  · exact { tid := rfl
            counted := ⟨fun _ h => (Option.some.inj h).symm, rfl⟩
            owed := fun _ h => .inl (show _ < tc.events + 1 by unfold Owed at h; omega)
            cells := fun _ => .inl ⟨rfl, rfl⟩
            pending := fun _ _ s h => .inl ⟨s, h⟩
            logged := fun r hr _ _ he => by
              rw [List.mem_singleton.mp hr] at he
              exact he.elim }
  · exact Effect.refl _ sm

theorem commFlushIfActive_effect (sm : STShadowMemory) (flushed : tc.commFlushIfActive = .ok (tc', recs)) :
    Effect tc sm tc' sm recs := by
  rcases commFlushIfActive_ok flushed with ⟨-, rfl, rfl⟩ | ⟨-, rfl, rfl⟩
  · exact { tid := rfl
            counted := ⟨fun _ h => (Option.some.inj h).symm, rfl⟩
            owed := fun _ h => .inl (show _ < tc.events + 1 by unfold Owed at h; omega)
            cells := fun _ => .inl ⟨rfl, rfl⟩
            pending := fun _ _ _ h => by simp [STCommEvent.reset] at h
            logged := fun r hr w e he => by
              rw [List.mem_singleton.mp hr] at he
              exact .inl he }
  · exact Effect.refl _ sm

theorem checkCompFlushLimit_effect (sm : STShadowMemory)
    (checked : tc.checkCompFlushLimit = .ok (tc', recs)) : Effect tc sm tc' sm recs := by
  unfold checkCompFlushLimit at checked
  split at checked
  · exact compFlushIfActive_effect sm checked
  · cases checked
    exact Effect.refl _ sm

theorem onIop_effect (sm : STShadowMemory) (handled : tc.onIop = .ok (tc', recs)) :
    Effect tc sm tc' sm recs := by
  obtain ⟨⟨tc₁, r₁⟩, h₁, h₂⟩ := bind_eq_ok.mp handled
  cases h₂
  exact (commFlushIfActive_effect sm h₁).trans_nil (.of_stComp sm rfl rfl rfl fun _ => rfl)

theorem onFlop_effect (sm : STShadowMemory) (handled : tc.onFlop = .ok (tc', recs)) :
    Effect tc sm tc' sm recs := by
  obtain ⟨⟨tc₁, r₁⟩, h₁, h₂⟩ := bind_eq_ok.mp handled
  cases h₂
  exact (commFlushIfActive_effect sm h₁).trans_nil (.of_stComp sm rfl rfl rfl fun _ => rfl)

end ThreadContext

theorem commEdgeWriter_eq_some {sm : STShadowMemory} {tid w : Nat} {a : Addr} :
    commEdgeWriter sm tid a = some w ↔
      sm.getWriterTID a = some w ∧ sm.isReaderTID a tid = false ∧ w ≠ tid := by
  unfold commEdgeWriter
  split <;> aesop

theorem readByte_writers (tid : Nat) (st : ReadLoop) (addr a : Addr) :
    (readByte tid st addr).shadow.getWriterTID a = st.shadow.getWriterTID a ∧
      (readByte tid st addr).shadow.getWriterEID a = st.shadow.getWriterEID a := by
  unfold readByte
  split <;> split <;> simp

theorem readByte_stComp (tid : Nat) (st : ReadLoop) (addr : Addr) :
    (readByte tid st addr).stComp =
      if (commEdgeWriter st.shadow tid addr).isSome then st.stComp
      else st.stComp.updateReads addr 1 := by
  cases h : commEdgeWriter st.shadow tid addr <;> simp [readByte, h]

theorem readByte_stComm (tid : Nat) (st : ReadLoop) (addr : Addr) :
    (readByte tid st addr).stComm = match commEdgeWriter st.shadow tid addr with
      | some w => st.stComm.addEdge w (st.shadow.getWriterEID addr) addr
      | none => st.stComm := by
  cases h : commEdgeWriter st.shadow tid addr <;>
    by_cases hr : st.shadow.isReaderTID addr tid = false <;> simp [readByte, h, hr]

/-- What `onRead`'s byte loop keeps of the context and shadow memory it starts from. -/
structure ReadLoop.Keeps (tc : ThreadContext) (sm : STShadowMemory) (st : ReadLoop) : Prop where
  writers : ∀ a, st.shadow.getWriterTID a = sm.getWriterTID a ∧
    st.shadow.getWriterEID a = sm.getWriterEID a
  active : tc.stComp.isActive = true → st.stComp.isActive = true
  pending : ∀ w e s, (w, e, s) ∈ st.stComm.comms → EdgeSource tc sm w e

theorem readByte_keeps {tc : ThreadContext} {sm : STShadowMemory} {st : ReadLoop}
    (keeps : st.Keeps tc sm) (addr : Addr) : (readByte tc.tid st addr).Keeps tc sm where
  writers a := by
    rw [(readByte_writers tc.tid st addr a).1, (readByte_writers tc.tid st addr a).2]
    exact keeps.writers a
  active hc := by
    rw [readByte_stComp]
    split <;> simp [keeps.active hc]
  pending w e s hs := by
    rw [readByte_stComm] at hs
    split at hs
    · rename_i writer hwr
      obtain ⟨hW, -, hne⟩ := commEdgeWriter_eq_some.mp hwr
      rcases STCommEvent.producers_addEdge _ _ _ _ _ hs with ⟨⟨w', e', s'⟩, hy, h₁, h₂⟩ | ⟨h₁, h₂⟩
      · simp only at h₁ h₂
        subst h₁ h₂
        exact keeps.pending _ _ s' hy
      · simp only at h₁ h₂
        subst h₁ h₂
        exact .inr ⟨hne, addr, (keeps.writers addr).1 ▸ hW, (keeps.writers addr).2.symm⟩
    · exact keeps.pending w e s hs

theorem readLoop_keeps (tc : ThreadContext) (sm : STShadowMemory) (addrs : List Addr) :
    (addrs.foldl (readByte tc.tid) ⟨tc.stComp, tc.stComm, sm, false⟩).Keeps tc sm := by
  suffices ∀ st : ReadLoop, st.Keeps tc sm → (addrs.foldl (readByte tc.tid) st).Keeps tc sm from
    this _ ⟨fun _ => ⟨rfl, rfl⟩, id, fun _ _ s h => .inl ⟨s, h⟩⟩
  induction addrs with
  | nil => exact fun _ h => h
  | cons a as ih => exact fun st h => ih _ (readByte_keeps h a)

namespace ThreadContext

variable {tc tc' : ThreadContext} {sm sm' : STShadowMemory} {recs : List Record}

theorem readLoop_effect (tc : ThreadContext) (sm : STShadowMemory) (addrs : List Addr) :
    let st := addrs.foldl (readByte tc.tid) ⟨tc.stComp, tc.stComm, sm, false⟩
    Effect tc sm { tc with stComp := st.stComp, stComm := st.stComm } st.shadow [] :=
  have h := readLoop_keeps tc sm addrs
  { tid := rfl
    counted := rfl
    owed := fun _ => Or.imp_right fun he => ⟨he.1, h.active he.2⟩
    cells := fun a => .inl (h.writers a)
    pending := h.pending
    logged := fun _ h => nomatch h }

/-- What a load that returns has done: the byte loop; then, when no byte formed an edge, the
communication flush and the read count, or else the compute flush; then the cap check. -/
theorem onRead_ok {start bytes : Addr} (loaded : tc.onRead sm start bytes = .ok (tc', sm', recs)) :
    let st := (loadAddrs start bytes).foldl (readByte tc.tid) ⟨tc.stComp, tc.stComm, sm, false⟩
    ∃ tc₁ r₁ tc₂ r₂,
      (st.isCommEdge = false ∧ (∃ tc₀,
          { tc with stComp := st.stComp, stComm := st.stComm }.commFlushIfActive = .ok (tc₀, r₁) ∧
          tc₁ = { tc₀ with stComp := tc₀.stComp.incReads }) ∨
        st.isCommEdge = true ∧
          { tc with stComp := st.stComp, stComm := st.stComm }.compFlushIfActive = .ok (tc₁, r₁)) ∧
      tc₁.checkCompFlushLimit = .ok (tc₂, r₂) ∧
      tc' = { tc₂ with stats := { tc₂.stats with read := tc₂.stats.read + 1 } } ∧
      sm' = st.shadow ∧ recs = r₁ ++ r₂ := by
  dsimp only [onRead] at loaded ⊢
  split at loaded
  · next hce =>
    obtain ⟨⟨tc₀, r₁⟩, h₁, h₂⟩ := bind_eq_ok.mp loaded
    obtain ⟨_, hp, h₂⟩ := bind_eq_ok.mp h₂
    cases hp
    obtain ⟨⟨tc₂, r₂⟩, h₃, h₄⟩ := bind_eq_ok.mp h₂
    cases h₄
    exact ⟨_, r₁, tc₂, r₂, .inl ⟨hce, tc₀, h₁, rfl⟩, h₃, rfl, rfl, rfl⟩
  · next hce =>
    obtain ⟨⟨tc₁, r₁⟩, h₁, h₂⟩ := bind_eq_ok.mp loaded
    obtain ⟨⟨tc₂, r₂⟩, h₃, h₄⟩ := bind_eq_ok.mp h₂
    cases h₄
    exact ⟨tc₁, r₁, tc₂, r₂, .inr ⟨by simpa using hce, h₁⟩, h₃, rfl, rfl, rfl⟩

theorem onRead_effect {start bytes : Addr} (read : tc.onRead sm start bytes = .ok (tc', sm', recs)) :
    Effect tc sm tc' sm' recs := by
  have hl := readLoop_effect tc sm (loadAddrs start bytes)
  obtain ⟨tc₁, r₁, tc₂, r₂, hflush, h₃, rfl, rfl, rfl⟩ := onRead_ok read
  rcases hflush with ⟨-, tc₀, h₁, rfl⟩ | ⟨-, h₁⟩
  · exact hl.nil_trans (((commFlushIfActive_effect _ h₁).trans_nil
      (.of_stComp _ (by rfl) (by rfl) (by rfl) fun _ => by rfl)).trans
      ((checkCompFlushLimit_effect _ h₃).trans_nil (.of_stComp _ rfl rfl rfl id)))
  · exact hl.nil_trans ((compFlushIfActive_effect _ h₁).trans
      ((checkCompFlushLimit_effect _ h₃).trans_nil (.of_stComp _ rfl rfl rfl id)))

theorem store_effect (tc : ThreadContext) (sm : STShadowMemory) (start bytes : Addr) :
    Effect tc sm { tc with stComp := tc.stComp.incWrites.updateWrites start bytes }
      (sm.updateWriter start bytes tc.tid tc.events) [] where
  tid := rfl
  counted := rfl
  owed _ := Or.imp_right fun he => ⟨he.1, rfl⟩
  cells a := by
    rw [STShadowMemory.getWriterTID_updateWriter, STShadowMemory.getWriterEID_updateWriter]
    split
    · exact .inr ⟨rfl, .inr ⟨rfl, rfl⟩⟩
    · exact .inl ⟨rfl, rfl⟩
  pending _ _ s h := .inl ⟨s, h⟩
  logged _ h := nomatch h

theorem onWrite_effect {start bytes : Addr} (written : tc.onWrite sm start bytes = .ok (tc', sm', recs)) :
    Effect tc sm tc' sm' recs := by
  obtain ⟨⟨tc₁, r₁⟩, h₁, h₂⟩ := bind_eq_ok.mp written
  cases h₂
  exact (store_effect tc sm start bytes).nil_trans ((checkCompFlushLimit_effect _ h₁).trans_nil
    (.of_stComp _ rfl rfl rfl id))

theorem onSync_effect (sm : STShadowMemory) {syncType : Nat} {syncAddr : Addr}
    (synced : tc.onSync syncType syncAddr = .ok (tc', recs)) : Effect tc sm tc' sm recs := by
  obtain ⟨⟨tc₁, r₁⟩, h₁, h₂⟩ := bind_eq_ok.mp synced
  obtain ⟨⟨tc₂, r₂⟩, h₃, h₄⟩ := bind_eq_ok.mp h₂
  cases h₄
  exact List.append_assoc r₁ r₂ _ ▸
    (compFlushIfActive_effect sm h₁).trans ((commFlushIfActive_effect sm h₃).trans (.sync _ sm _ _))

theorem mem_onInstr {r : Record} (mem : r ∈ tc.onInstr.2) : r = .instrMarker (1 <<< 12) := by
  dsimp only [onInstr] at mem
  split at mem
  · exact List.mem_singleton.mp mem
  · cases mem

theorem onInstr_effect (tc : ThreadContext) (sm : STShadowMemory) :
    Effect tc sm tc.onInstr.1 sm tc.onInstr.2 := by
  have hm : ∀ rs : List Record, (∀ r ∈ rs, r = .instrMarker (1 <<< 12)) →
      Effect tc sm tc.onInstr.1 sm rs := fun rs hrs =>
    { tid := rfl
      counted := by
        suffices ∀ e, Counted e e rs from this tc.events
        induction rs with
        | nil => exact fun _ => rfl
        | cons r rs ih =>
          intro e
          rw [hrs r (.head _)]
          exact ⟨fun _ h => (nomatch h), ih (fun q hq => hrs q (.tail _ hq)) e⟩
      owed := fun _ h => h
      cells := fun _ => .inl ⟨rfl, rfl⟩
      pending := fun _ _ s h => .inl ⟨s, h⟩
      logged := fun r hr _ _ he => by rw [hrs r hr] at he; exact he.elim }
  exact hm _ fun _ => mem_onInstr

theorem destroy_effect (sm : STShadowMemory) (destroyed : tc.destroy = .ok (tc', recs)) : Effect tc sm tc' sm recs := by
  obtain ⟨⟨tc₁, r₁⟩, h₁, h₂⟩ := bind_eq_ok.mp destroyed
  obtain ⟨⟨tc₂, r₂⟩, h₃, h₄⟩ := bind_eq_ok.mp h₂
  cases h₄
  exact (compFlushIfActive_effect sm h₁).trans (commFlushIfActive_effect sm h₃)

end ThreadContext

end STGen
