import Sigil2.Basic

/-! `AddrSet`: a `std::set<AddrRange>` kept as an ascending list, and `AddrSet::insert`,
which fuses a new range with the stored ranges it overlaps or touches. -/
namespace STGen

/-- `std::pair`'s `operator<`: by first address, then by last. -/
def pairLt (p q : AddrRange) : Bool := p.1 < q.1 || (p.1 == q.1 && p.2 < q.2)

/-- `std::set::insert` on an ascending list: a range already stored changes nothing. -/
def setInsert (r : AddrRange) : List AddrRange → List AddrRange
  | [] => [r]
  | p :: ps => if pairLt r p then r :: p :: ps else if r = p then p :: ps else p :: setInsert r ps

structure AddrSet where
  ms : List AddrRange
  deriving DecidableEq, Repr

namespace AddrSet

def clear (_ : AddrSet) : AddrSet := ⟨[]⟩

def get (s : AddrSet) : List AddrRange := s.ms

/-- The stored range that `insert` compares with `range`: `lower_bound(range)`, moved back
to its predecessor when no later range exists, or when `range` starts no further than one
past the predecessor's end. It is `none` exactly on the empty set. -/
def probe (ms : List AddrRange) (range : AddrRange) : Option AddrRange :=
  match (ms.takeWhile (pairLt · range)).getLast?, (ms.dropWhile (pairLt · range)).head? with
  | none, next => next
  | some last, none => some last
  | some prev, some next => if range.1 > prev.2 + 1 then some next else some prev

theorem probe_mem {ms : List AddrRange} {range it : AddrRange} (probed : probe ms range = some it) :
    it ∈ ms := by
  have below : ∀ x, (ms.takeWhile (pairLt · range)).getLast? = some x → x ∈ ms :=
    fun x hx => List.takeWhile_subset _ (List.mem_of_getLast?_eq_some hx)
  have above : ∀ x, (ms.dropWhile (pairLt · range)).head? = some x → x ∈ ms :=
    fun x hx => List.dropWhile_subset _ (List.mem_of_mem_head? hx)
  unfold probe at probed
  split at probed
  · exact above it probed
  · rename_i hlast _
    exact below it (Option.some.inj probed ▸ hlast)
  · rename_i hprev hnext
    split at probed <;> cases probed
    · exact above _ hnext
    · exact below _ hprev

theorem length_erase_probe {ms : List AddrRange} {range it : AddrRange}
    (probed : probe ms range = some it) : (ms.erase it).length < ms.length := by
  have hm := probe_mem probed
  rw [List.length_erase_of_mem hm]
  have := List.length_pos_of_mem hm
  omega

/-- `AddrSet::insert`, with its assertion `range.first <= range.second` compiled out. -/
def insert (s : AddrSet) (range : AddrRange) : AddrSet :=
  match h : probe s.ms range with
  | none => ⟨setInsert range s.ms⟩
  | some it =>
    if range.1 = it.2 + 1 then insert ⟨s.ms.erase it⟩ (it.1, range.2)
    else if range.2 + 1 = it.1 then insert ⟨s.ms.erase it⟩ (range.1, it.2)
    else if range.1 > it.2 then ⟨setInsert range s.ms⟩
    else if range.1 ≥ it.1 then
      if range.2 > it.2 then insert ⟨s.ms.erase it⟩ (it.1, range.2) else s
    else if range.2 < it.1 then ⟨setInsert range s.ms⟩
    else if range.2 ≤ it.2 then ⟨setInsert (range.1, it.2) (s.ms.erase it)⟩
    else insert ⟨s.ms.erase it⟩ range
termination_by s.ms.length
decreasing_by all_goals exact length_erase_probe h

theorem insert_of_probe_none {s : AddrSet} {range : AddrRange} (probed : probe s.ms range = none) :
    s.insert range = ⟨setInsert range s.ms⟩ := by
  rw [insert]
  split
  · rfl
  · simp_all

theorem insert_of_probe_some {s : AddrSet} {range it : AddrRange} (probed : probe s.ms range = some it) :
    s.insert range =
      if range.1 = it.2 + 1 then insert ⟨s.ms.erase it⟩ (it.1, range.2)
      else if range.2 + 1 = it.1 then insert ⟨s.ms.erase it⟩ (range.1, it.2)
      else if range.1 > it.2 then ⟨setInsert range s.ms⟩
      else if range.1 ≥ it.1 then
        if range.2 > it.2 then insert ⟨s.ms.erase it⟩ (it.1, range.2) else s
      else if range.2 < it.1 then ⟨setInsert range s.ms⟩
      else if range.2 ≤ it.2 then ⟨setInsert (range.1, it.2) (s.ms.erase it)⟩
      else insert ⟨s.ms.erase it⟩ range := by
  rw [insert]
  split
  · simp_all
  · rename_i it' h'
    rw [probed] at h'
    cases h'
    rfl

@[simp] theorem insert_empty (range : AddrRange) : (⟨[]⟩ : AddrSet).insert range = ⟨[range]⟩ :=
  insert_of_probe_none rfl

end AddrSet

end STGen
