import Mathlib

/-! Lists of keyed values that are written to: a write replaces the value under its key in place, or
is added at the end, so the last write of every key wins. -/
namespace KeyedWrites
variable {κ ν : Type*} [DecidableEq κ]

def put : List (κ × ν) → κ × ν → List (κ × ν)
  | [], p => [p]
  | q :: qs, p => if q.1 = p.1 then (q.1, p.2) :: qs else q :: put qs p

/-- The value of the last write under a key. -/
def last (k : κ) (ps : List (κ × ν)) : Option ν := (ps.reverse.find? (·.1 = k)).map (·.2)

@[simp] theorem last_nil (k : κ) : last k ([] : List (κ × ν)) = none := rfl

theorem last_snoc (k : κ) (ps : List (κ × ν)) (p : κ × ν) :
    last k (ps ++ [p]) = if p.1 = k then some p.2 else last k ps := by
  rw [last, last, List.reverse_append, List.reverse_singleton, List.singleton_append,
    List.find?_cons]
  by_cases h : p.1 = k
  · simp [h]
  · simp [h]

/-- A write does not move a key that is there. -/
theorem keys_put (m : List (κ × ν)) (p : κ × ν) :
    (put m p).map (·.1) = if p.1 ∈ m.map (·.1) then m.map (·.1) else m.map (·.1) ++ [p.1] := by
  induction m with
  | nil => rfl
  | cons q m ih =>
    rw [put]
    by_cases h : q.1 = p.1
    · rw [if_pos h, if_pos (by simp [h])]
      rfl
    · rw [if_neg h, List.map_cons, ih]
      by_cases hm : p.1 ∈ m.map (·.1)
      · rw [if_pos hm, if_pos (by simp only [List.map_cons, List.mem_cons]; exact Or.inr hm)]
        rfl
      · have hnot : p.1 ∉ (q :: m).map (·.1) := by
          rw [List.map_cons, List.mem_cons]
          rintro (heq | hin)
          · exact h heq.symm
          · exact hm hin
        rw [if_neg hm, if_neg hnot]
        rfl

theorem mem_put {m : List (κ × ν)} (hnd : (m.map (·.1)).Nodup) (p : κ × ν) (k : κ) (v : ν) :
    (k, v) ∈ put m p ↔ if p.1 = k then v = p.2 else (k, v) ∈ m := by
  induction m with
  | nil =>
    rw [put, List.mem_singleton]
    by_cases h : p.1 = k
    · rw [if_pos h, Prod.ext_iff]
      exact ⟨fun h' => h'.2, fun h' => ⟨h.symm, h'⟩⟩
    · rw [if_neg h]
      refine ⟨?_, fun h' => by cases h'⟩
      rintro rfl
      exact absurd rfl h
  | cons q m ih =>
    obtain ⟨hq, hnd⟩ := List.nodup_cons.mp hnd
    rw [put]
    by_cases hqp : q.1 = p.1
    · -- the pair under the key is the first one, and no other has its key
      rw [if_pos hqp, List.mem_cons, Prod.ext_iff]
      by_cases h : p.1 = k
      · rw [if_pos h]
        refine ⟨?_, fun hv => Or.inl ⟨(hqp.trans h).symm, hv⟩⟩
        rintro (⟨_, hv⟩ | hin)
        · exact hv
        · exact absurd (List.mem_map.mpr ⟨_, hin, (hqp.trans h).symm⟩) hq
      · rw [if_neg h, List.mem_cons, Prod.ext_iff]
        have hne : ¬ k = q.1 := fun heq => h (hqp.symm.trans heq.symm)
        exact ⟨fun h' => Or.inr (h'.resolve_left fun h'' => hne h''.1),
          fun h' => Or.inr (h'.resolve_left fun h'' => hne h''.1)⟩
    · rw [if_neg hqp, List.mem_cons, ih hnd]
      by_cases h : p.1 = k
      · rw [if_pos h, if_pos h]
        refine ⟨fun h' => h'.resolve_left ?_, Or.inr⟩
        rintro rfl
        exact hqp h.symm
      · rw [if_neg h, if_neg h, List.mem_cons]

/-- `m` holds every key of the writes `ps` once, in the order in which the keys first appear, with
the value written last. -/
structure LastWrites (ps m : List (κ × ν)) : Prop where
  keys : m.map (·.1) = (ps.map (·.1)).eraseDups
  value : ∀ k v, (k, v) ∈ m ↔ last k ps = some v

theorem eraseDups_snoc (ks : List κ) (k : κ) :
    (ks ++ [k]).eraseDups = if k ∈ ks then ks.eraseDups else ks.eraseDups ++ [k] := by
  rw [List.eraseDups_append]
  by_cases hk : k ∈ ks
  · simp [List.removeAll, hk]
  · simp [List.removeAll, hk, List.eraseDups_cons]

theorem nodup_eraseDups (ks : List κ) : ks.eraseDups.Nodup := by
  induction ks using List.reverseRecOn with
  | nil => simp
  | append_singleton ks k ih =>
    rw [eraseDups_snoc]
    by_cases hk : k ∈ ks
    · rwa [if_pos hk]
    · rw [if_neg hk]
      have hnot : k ∉ ks.eraseDups := fun h => hk (List.mem_eraseDups.mp h)
      exact List.Nodup.append ih (List.nodup_singleton k) (by simpa using hnot)

theorem LastWrites.nodup {ps m : List (κ × ν)} (h : LastWrites ps m) : (m.map (·.1)).Nodup := by
  rw [h.keys]
  exact nodup_eraseDups _

theorem LastWrites.nil : LastWrites ([] : List (κ × ν)) [] := ⟨rfl, fun k v => by simp⟩

theorem LastWrites.put {ps m : List (κ × ν)} (h : LastWrites ps m) (p : κ × ν) :
    LastWrites (ps ++ [p]) (put m p) := by
  have hkeys : p.1 ∈ m.map (·.1) ↔ p.1 ∈ ps.map (·.1) := by rw [h.keys, List.mem_eraseDups]
  constructor
  · rw [keys_put, List.map_append, List.map_singleton, eraseDups_snoc, ← h.keys]
    exact if_congr hkeys rfl rfl
  · intro k v
    rw [mem_put h.nodup, last_snoc, h.value]
    by_cases hk : p.1 = k
    · rw [if_pos hk, if_pos hk, Option.some.injEq, eq_comm]
    · rw [if_neg hk, if_neg hk]

theorem LastWrites.foldl {ps m : List (κ × ν)} (h : LastWrites ps m) (qs : List (κ × ν)) :
    LastWrites (ps ++ qs) (qs.foldl KeyedWrites.put m) := by
  induction qs generalizing ps m with
  | nil => simpa using h
  | cons q qs ih =>
    rw [List.foldl_cons, List.append_cons]
    exact ih (h.put q)

end KeyedWrites
