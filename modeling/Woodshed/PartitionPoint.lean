import Mathlib

/-! Binary search for the partition point of a list, by the halving loop that keeps a window
`[base, base+size)` and probes its middle. -/
namespace PartitionPoint
variable {α : Type*}

/-- The predicate at a position; positions past the end do not satisfy it. -/
def holdsAt (P : α → Bool) (xs : List α) (i : ℕ) : Bool := (xs[i]?).any P

/-- The halving loop: the window shrinks to one element. -/
def search (P : α → Bool) (xs : List α) (base size : ℕ) : ℕ :=
  if 1 < size then
    if holdsAt P xs (base+size/2) then search P xs (base+size/2) (size-size/2)
    else search P xs base (size-size/2)
  else base
termination_by size
decreasing_by all_goals omega

def partitionPoint (P : α → Bool) (xs : List α) : ℕ :=
  if xs.length = 0 then 0
  else
    let base := search P xs 0 xs.length
    if holdsAt P xs base then base+1 else base

/-- Every element after the first that satisfies `P` is preceded, from the second element on,
only by elements that satisfy it. The loop never probes the first element before its end. -/
def TailPartitioned (P : α → Bool) (xs : List α) : Prop :=
  ∀ i j, 1 ≤ i → i < j → holdsAt P xs j = true → holdsAt P xs i = true

theorem holdsAt_of_length_le (P : α → Bool) (xs : List α) (i : ℕ) (hi : xs.length ≤ i) :
    holdsAt P xs i = false := by
  simp [holdsAt, List.getElem?_eq_none hi]

theorem holdsAt_eq_getElem (P : α → Bool) (xs : List α) (i : ℕ) (hi : i < xs.length) :
    holdsAt P xs i = P xs[i] := by
  simp [holdsAt, List.getElem?_eq_getElem hi]

/-- What the window always satisfies: its base is the origin or a hit, and nothing behind it
is a hit. -/
theorem search_spec (P : α → Bool) (xs : List α) (ht : TailPartitioned P xs) (base size : ℕ)
    (hs : 0 < size) (hbase : base = 0 ∨ holdsAt P xs base = true)
    (hend : ∀ i, base+size ≤ i → holdsAt P xs i = false) :
    (search P xs base size = 0 ∨ holdsAt P xs (search P xs base size) = true) ∧
      ∀ i, search P xs base size < i → holdsAt P xs i = false := by
  induction size using Nat.strongRecOn generalizing base with
  | ind size ih =>
    rw [search]
    split
    · rename_i h1
      split
      · rename_i hmid
        refine ih (size-size/2) (by omega) _ (by omega) (Or.inr hmid) ?_
        intro i hi
        exact hend i (by omega)
      · rename_i hmid
        refine ih (size-size/2) (by omega) _ (by omega) hbase ?_
        intro i hi
        by_contra hne
        have hhit : holdsAt P xs i = true := by simpa using hne
        rcases Nat.eq_or_lt_of_le (show base+size/2 ≤ i by omega) with he | hl
        · exact hmid (he ▸ hhit)
        · exact hmid (ht (base+size/2) i (by omega) hl hhit)
    · exact ⟨hbase, fun i hi => hend i (by omega)⟩

/-- On a list whose tail is partitioned, the element before the returned point is a hit and
nothing from the point on is. -/
theorem partitionPoint_spec (P : α → Bool) (xs : List α) (ht : TailPartitioned P xs) :
    (partitionPoint P xs ≠ 0 → holdsAt P xs (partitionPoint P xs-1) = true) ∧
      ∀ i, partitionPoint P xs ≤ i → holdsAt P xs i = false := by
  unfold partitionPoint
  split
  · rename_i h0
    exact ⟨fun h => absurd rfl h, fun i _ => holdsAt_of_length_le P xs i (by omega)⟩
  · rename_i h0
    obtain ⟨hb, he⟩ := search_spec P xs ht 0 xs.length (by omega) (Or.inl rfl)
      (fun i hi => holdsAt_of_length_le P xs i (by omega))
    dsimp only
    split
    · rename_i hhit
      exact ⟨fun _ => hhit, fun i hi => he i (by omega)⟩
    · rename_i hmiss
      refine ⟨fun hne => ?_, fun i hi => ?_⟩
      · rcases hb with hb | hb
        · exact absurd hb hne
        · exact absurd hb hmiss
      · rcases Nat.eq_or_lt_of_le hi with heq | hlt
        · rw [← heq]
          simpa using hmiss
        · exact he i hlt

theorem partitionPoint_le_length (P : α → Bool) (xs : List α) (ht : TailPartitioned P xs) :
    partitionPoint P xs ≤ xs.length := by
  by_contra h
  have hhit := (partitionPoint_spec P xs ht).1 (by omega)
  rw [holdsAt_of_length_le P xs _ (by omega)] at hhit
  exact Bool.false_ne_true hhit

/-- What holds on every list: the window stays inside, and it ends at a miss or in front of one. -/
theorem search_any (P : α → Bool) (xs : List α) (base size : ℕ) (hs : 0 < size)
    (hle : base+size ≤ xs.length)
    (hend : holdsAt P xs (base+size) = false ∨ holdsAt P xs (base+size-1) = false) :
    search P xs base size < xs.length ∧ (holdsAt P xs (search P xs base size+1) = false ∨
      holdsAt P xs (search P xs base size) = false) := by
  induction size using Nat.strongRecOn generalizing base with
  | ind size ih =>
    rw [search]
    split
    · rename_i h1
      split
      · rename_i hmid
        refine ih (size-size/2) (by omega) _ (by omega) (by omega) ?_
        rwa [show base+size/2+(size-size/2) = base+size by omega]
      · rename_i hmid
        have hmiss : holdsAt P xs (base+size/2) = false := by simpa using hmid
        refine ih (size-size/2) (by omega) _ (by omega) (by omega) ?_
        -- the probe is behind the new window, or its last position
        rcases Nat.even_or_odd' size with ⟨k, hk | hk⟩
        · left
          rwa [show base+(size-size/2) = base+size/2 by omega]
        · right
          rwa [show base+(size-size/2)-1 = base+size/2 by omega]
    · obtain rfl : size = 1 := by omega
      exact ⟨by omega, hend⟩

/-- On every list the point is inside or at its end, and no hit. -/
theorem partitionPoint_any (P : α → Bool) (xs : List α) :
    partitionPoint P xs ≤ xs.length ∧ holdsAt P xs (partitionPoint P xs) = false := by
  unfold partitionPoint
  split
  · rename_i h0
    exact ⟨by omega, holdsAt_of_length_le P xs 0 (by omega)⟩
  · rename_i h0
    obtain ⟨hlt, hmiss⟩ := search_any P xs 0 xs.length (by omega) (by omega)
      (Or.inl (holdsAt_of_length_le P xs _ (by omega)))
    dsimp only
    split
    · rename_i hhit
      refine ⟨hlt, hmiss.resolve_right ?_⟩
      rw [hhit]
      decide
    · rename_i hno
      exact ⟨hlt.le, by simpa using hno⟩

/-- The slice is partitioned: no hit follows a miss. -/
def Partitioned (P : α → Bool) (xs : List α) : Prop :=
  xs.Pairwise (fun a b => P b = true → P a = true)

theorem Partitioned.tail {P : α → Bool} {xs : List α} (h : Partitioned P xs) :
    TailPartitioned P xs := by
  intro i j _ hij hj
  have hjl : j < xs.length := by
    by_contra hge
    rw [holdsAt_of_length_le P xs j (by omega)] at hj
    exact Bool.false_ne_true hj
  rw [holdsAt_eq_getElem P xs j hjl] at hj
  rw [holdsAt_eq_getElem P xs i (by omega)]
  exact List.pairwise_iff_getElem.mp h i j (by omega) hjl hij hj

/-- In front of its partition point a partitioned slice has its hits, behind it its misses. -/
theorem Partitioned.filter_eq {P : α → Bool} {xs : List α} (h : Partitioned P xs) :
    ∃ n ≤ xs.length, xs.filter P = xs.take n ∧ xs.filter (fun x => !P x) = xs.drop n ∧
      (∀ i, i < n → holdsAt P xs i = true) ∧ ∀ i, n ≤ i → holdsAt P xs i = false := by
  induction xs with
  | nil => exact ⟨0, le_rfl, rfl, rfl, by simp, fun i _ => rfl⟩
  | cons x xs ih =>
    obtain ⟨hx, hxs⟩ := List.pairwise_cons.mp h
    by_cases hp : P x = true
    · obtain ⟨n, hn, htake, hdrop, hhit, hmiss⟩ := ih hxs
      refine ⟨n+1, by simpa using hn, by simp [hp, htake], by simp [hp, hdrop], ?_, ?_⟩
      · intro i hi
        cases i with
        | zero => simpa [holdsAt] using hp
        | succ i => simpa [holdsAt] using hhit i (by omega)
      · intro i hi
        cases i with
        | zero => omega
        | succ i => simpa [holdsAt] using hmiss i (by omega)
    · -- a miss in front: everything is one
      have hall : ∀ y ∈ xs, P y ≠ true := fun y hy hy' => hp (hx y hy hy')
      refine ⟨0, by simp, ?_, ?_, by simp, ?_⟩
      · rw [List.take_zero, List.filter_eq_nil_iff]
        intro y hy
        rcases List.mem_cons.mp hy with rfl | hy
        · exact hp
        · exact hall y hy
      · rw [List.drop_zero, List.filter_eq_self]
        intro y hy
        rcases List.mem_cons.mp hy with rfl | hy
        · simpa using hp
        · simpa using hall y hy
      · intro i _
        by_contra hne
        have hhit : holdsAt P (x :: xs) i = true := by simpa using hne
        have hi : i < (x :: xs).length := by
          by_contra hge
          rw [holdsAt_of_length_le P _ i (by omega)] at hhit
          exact Bool.false_ne_true hhit
        rw [holdsAt_eq_getElem P _ i hi] at hhit
        rcases List.mem_cons.mp (List.getElem_mem hi) with heq | hmem
        · rw [heq] at hhit
          exact hp hhit
        · exact hall _ hmem hhit

/-- On a partitioned slice the point splits it into its hits and its misses. -/
theorem take_partitionPoint (P : α → Bool) (xs : List α) (h : Partitioned P xs) :
    xs.take (partitionPoint P xs) = xs.filter P ∧
      xs.drop (partitionPoint P xs) = xs.filter fun x => !P x := by
  obtain ⟨hhit, hmiss⟩ := partitionPoint_spec P xs h.tail
  obtain ⟨n, _, htake, hdrop, hhit', hmiss'⟩ := h.filter_eq
  have heq : partitionPoint P xs = n := by
    rcases Nat.lt_trichotomy (partitionPoint P xs) n with hlt | heq | hgt
    · have htrue := hhit' _ hlt
      rw [hmiss _ le_rfl] at htrue
      cases htrue
    · exact heq
    · have htrue := hhit (by omega)
      rw [hmiss' _ (by omega)] at htrue
      cases htrue
  rw [heq]
  exact ⟨htake.symm, hdrop.symm⟩

end PartitionPoint
