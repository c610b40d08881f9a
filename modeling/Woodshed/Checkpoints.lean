import Woodshed.Index
import Woodshed.Log

/-! The sparse index: searching a sorted index returns the last checkpoint that is not above the
target, truncating it keeps it sorted, and checkpoints mark frames of the segments' files. -/
namespace Woodshed
open PartitionPoint Framing

/-! ### Sorted indexes -/

/-- Checkpoints ascend, within a segment and from one to the next, and only the first and the last
segments of an index may be without any. -/
structure EntryIndex.Sorted (x : EntryIndex) : Prop where
  ascending : ∀ s ∈ x.segments, s.2.checkpoints.Pairwise fun a b => a.1 < b.1
  ordered : x.segments.Pairwise fun s t =>
    ∀ a ∈ s.2.checkpoints, ∀ b ∈ t.2.checkpoints, a.1 < b.1
  filled : x.segments.tail.Pairwise fun s t => t.2.checkpoints ≠ [] → s.2.checkpoints ≠ []

theorem startsBy_iff (target : EntryId) (s : SegmentId × SegmentIndex)
    (h : s.2.checkpoints.Pairwise fun a b => a.1 < b.1) :
    startsBy target s = true ↔ ∃ c ∈ s.2.checkpoints, c.1 ≤ target := by
  unfold startsBy SegmentIndex.firstId
  cases hc : s.2.checkpoints with
  | nil => simp
  | cons c cs =>
    rw [hc] at h
    have hlt := (List.pairwise_cons.mp h).1
    constructor
    · intro hle
      exact ⟨c, by simp, by simpa using hle⟩
    · rintro ⟨b, hb, hle⟩
      rcases List.mem_cons.mp hb with rfl | hb
      · simpa using hle
      · simpa using (hlt b hb).le.trans hle

/-- The searches over the segments work on a sorted index, whatever its first segment holds. -/
theorem EntryIndex.Sorted.tail {x : EntryIndex} (h : x.Sorted) (target : EntryId) :
    TailPartitioned (startsBy target) x.segments := by
  intro i j hi hij hj
  have hjl : j < x.segments.length := by
    by_contra hge
    rw [holdsAt_of_length_le _ _ j (by omega)] at hj
    exact Bool.false_ne_true hj
  have hil : i < x.segments.length := by omega
  rw [holdsAt_eq_getElem _ _ j hjl,
    startsBy_iff _ _ (h.ascending _ (List.getElem_mem hjl))] at hj
  rw [holdsAt_eq_getElem _ _ i hil, startsBy_iff _ _ (h.ascending _ (List.getElem_mem hil))]
  obtain ⟨b, hb, hle⟩ := hj
  -- a segment between the first one and a filled one is filled
  have hfilled : x.segments[i].2.checkpoints ≠ [] := by
    have hp := List.pairwise_iff_getElem.mp h.filled (i-1) (j-1)
      (by rw [List.length_tail]; omega) (by rw [List.length_tail]; omega) (by omega)
    rw [List.getElem_tail, List.getElem_tail] at hp
    simp only [Nat.sub_add_cancel hi, Nat.sub_add_cancel (show 1 ≤ j by omega)] at hp
    exact hp (List.ne_nil_of_mem hb)
  obtain ⟨a, ha⟩ := List.exists_mem_of_ne_nil _ hfilled
  have hlt := List.pairwise_iff_getElem.mp h.ordered i j hil hjl hij a ha b hb
  exact ⟨a, ha, hlt.le.trans hle⟩

theorem partitioned_of_ascending {cs : List (EntryId × ℕ)} (P : EntryId → Bool)
    (hdown : ∀ a b : EntryId, a < b → P b = true → P a = true)
    (h : cs.Pairwise fun a b => a.1 < b.1) : Partitioned (fun c => P c.1) cs :=
  h.imp fun hlt hb => hdown _ _ hlt hb

/-- Searching ascending checkpoints returns the last one that is not above the target. -/
theorem SegmentIndex.find_eq (x : SegmentIndex) (target : EntryId)
    (h : x.checkpoints.Pairwise fun a b => a.1 < b.1) :
    x.find target = (x.checkpoints.filter fun c => decide (c.1 ≤ target)).getLast? := by
  have hp : Partitioned (fun c : EntryId × ℕ => decide (c.1 ≤ target)) x.checkpoints :=
    partitioned_of_ascending (fun id => decide (id ≤ target))
      (fun a b hlt hb => decide_eq_true (hlt.le.trans (of_decide_eq_true hb))) h
  have hle := partitionPoint_le_length _ _ hp.tail
  rw [SegmentIndex.find, ← (take_partitionPoint _ _ hp).1]
  set n := partitionPoint (fun c : EntryId × ℕ => decide (c.1 ≤ target)) x.checkpoints with hn
  rw [List.getLast?_take]
  by_cases h0 : n = 0
  · rw [if_pos h0, if_pos h0]
  · rw [if_neg h0, if_neg h0, List.getElem?_eq_getElem (by omega)]
    rfl

/-- What a search of ascending checkpoints finds. -/
theorem SegmentIndex.find_spec (x : SegmentIndex) (target : EntryId)
    (h : x.checkpoints.Pairwise fun a b => a.1 < b.1) {b : EntryId × ℕ}
    (hb : b ∈ x.checkpoints) (hle : b.1 ≤ target) :
    ∃ c ∈ x.checkpoints, x.find target = some c ∧ c.1 ≤ target ∧
      ∀ a ∈ x.checkpoints, a.1 ≤ target → a.1 ≤ c.1 := by
  rw [x.find_eq target h]
  have hin (a : EntryId × ℕ) (ha : a ∈ x.checkpoints) (hat : a.1 ≤ target) :
      a ∈ x.checkpoints.filter fun c => decide (c.1 ≤ target) :=
    List.mem_filter.mpr ⟨ha, decide_eq_true hat⟩
  obtain ⟨c, hc⟩ : ∃ c, (x.checkpoints.filter fun c => decide (c.1 ≤ target)).getLast? = some c :=
    ⟨_, List.getLast?_eq_some_getLast (List.ne_nil_of_mem (hin b hb hle))⟩
  obtain ⟨hmem, hct⟩ := List.mem_filter.mp (List.mem_of_getLast? hc)
  refine ⟨c, hmem, hc, of_decide_eq_true hct, ?_⟩
  intro a ha hat
  obtain ⟨front, hfront⟩ := List.getLast?_eq_some_iff.mp hc
  have hsub := h.sublist (List.filter_sublist (p := fun c : EntryId × ℕ => decide (c.1 ≤ target)))
  have hmem' := hin a ha hat
  rw [hfront] at hsub hmem'
  rcases List.mem_append.mp hmem' with hmem' | hmem'
  · exact ((List.pairwise_append.mp hsub).2.2 a hmem' c (by simp)).le
  · rw [List.mem_singleton.mp hmem']

/-- Whatever the index, a search names one of its segments. -/
theorem EntryIndex.find_segment {x : EntryIndex} {target : EntryId} {pos : IndexPosition}
    (h : x.find target = some pos) :
    ∃ s ∈ x.segments, s.1 = pos.segment ∧ s.2.find target = some (pos.checkpoint, pos.byteOffset) := by
  unfold EntryIndex.find at h
  dsimp only at h
  split at h
  · cases h
  · split at h
    · cases h
    · rename_i segId segIdx hget
      obtain ⟨c, hc, hpos⟩ := Option.map_eq_some_iff.mp h
      refine ⟨(segId, segIdx), List.mem_of_getElem? hget, ?_, ?_⟩
      · rw [← hpos]
      · rw [hc, ← hpos]

/-- Where a search over the segments of a sorted index ends: behind the last segment with a checkpoint
that is not above the target. -/
theorem EntryIndex.Sorted.split {x : EntryIndex} (h : x.Sorted) (target : EntryId) :
    (partitionPoint (startsBy target) x.segments = 0 ∧
      ∀ s ∈ x.segments, ∀ c ∈ s.2.checkpoints, target < c.1) ∨
    ∃ front s rest, x.segments = front ++ s :: rest ∧
      partitionPoint (startsBy target) x.segments = front.length+1 ∧
      (∃ b ∈ s.2.checkpoints, b.1 ≤ target) ∧
      ∀ t ∈ rest, ∀ c ∈ t.2.checkpoints, target < c.1 := by
  obtain ⟨hhit, hmiss⟩ := partitionPoint_spec _ _ (h.tail target)
  have hle := partitionPoint_le_length _ _ (h.tail target)
  set n := partitionPoint (startsBy target) x.segments with hn
  -- segments from the point on start above the target
  have hlate (i : ℕ) (hi : i < x.segments.length) (hge : n ≤ i) :
      ∀ c ∈ x.segments[i].2.checkpoints, target < c.1 := by
    intro c hc
    by_contra hnot
    have htrue := (startsBy_iff target _ (h.ascending _ (List.getElem_mem hi))).mpr
      ⟨c, hc, not_lt.mp hnot⟩
    have hfalse := hmiss i hge
    rw [holdsAt_eq_getElem _ _ i hi, htrue] at hfalse
    cases hfalse
  by_cases h0 : n = 0
  · left
    refine ⟨h0, fun s hs => ?_⟩
    obtain ⟨i, hi, rfl⟩ := List.getElem_of_mem hs
    exact hlate i hi (by omega)
  · right
    have hlt : n-1 < x.segments.length := by omega
    have hstart := hhit h0
    rw [holdsAt_eq_getElem _ _ _ hlt,
      startsBy_iff _ _ (h.ascending _ (List.getElem_mem hlt))] at hstart
    refine ⟨x.segments.take (n-1), x.segments[n-1], x.segments.drop (n-1+1), by simp, ?_, hstart, ?_⟩
    · rw [List.length_take]
      omega
    · intro t ht
      obtain ⟨i, hi, rfl⟩ := List.getElem_of_mem ht
      rw [List.length_drop] at hi
      rw [List.getElem_drop]
      exact hlate _ (by omega) (by omega)

/-- A search of a sorted index finds the last checkpoint that is not above the target. -/
theorem EntryIndex.Sorted.find_some {x : EntryIndex} (h : x.Sorted) {target : EntryId}
    {pos : IndexPosition} (hf : x.find target = some pos) :
    ∃ s ∈ x.segments, s.1 = pos.segment ∧ (pos.checkpoint, pos.byteOffset) ∈ s.2.checkpoints ∧
      pos.checkpoint ≤ target ∧
      ∀ t ∈ x.segments, ∀ c ∈ t.2.checkpoints, c.1 ≤ target → c.1 ≤ pos.checkpoint := by
  unfold EntryIndex.find at hf
  rcases h.split target with ⟨h0, _⟩ | ⟨front, s, rest, hsplit, hn, ⟨b, hb, hbt⟩, hlate⟩
  · rw [h0] at hf
    cases hf
  · have hget : x.segments[front.length]? = some s := by simp [hsplit]
    dsimp only at hf
    rw [hn, if_neg (by omega), Nat.add_sub_cancel, hget] at hf
    dsimp only at hf
    have hmem : s ∈ x.segments := by simp [hsplit]
    obtain ⟨c, hc, hfind, hct, hmax⟩ :=
      SegmentIndex.find_spec _ target (h.ascending s hmem) hb hbt
    rw [hfind] at hf
    cases hf
    refine ⟨s, hmem, rfl, hc, hct, ?_⟩
    have hordered := h.ordered
    rw [hsplit] at hordered
    intro t ht a ha hat
    rw [hsplit, List.mem_append, List.mem_cons] at ht
    rcases ht with hfront | rfl | hrest
    · exact ((List.pairwise_append.mp hordered).2.2 t hfront s (by simp) a ha c hc).le
    · exact hmax a ha hat
    · exact absurd hat (not_le.mpr (hlate t hrest a ha))

theorem EntryIndex.Sorted.find_none {x : EntryIndex} (h : x.Sorted) {target : EntryId}
    (hf : x.find target = none) : ∀ t ∈ x.segments, ∀ c ∈ t.2.checkpoints, target < c.1 := by
  unfold EntryIndex.find at hf
  rcases h.split target with ⟨_, hlate⟩ | ⟨front, s, rest, hsplit, hn, ⟨b, hb, hbt⟩, _⟩
  · exact hlate
  · -- the segment before the point has a checkpoint to find
    have hget : x.segments[front.length]? = some s := by simp [hsplit]
    have hmem : s ∈ x.segments := by simp [hsplit]
    obtain ⟨c, _, hfind, _⟩ := SegmentIndex.find_spec _ target (h.ascending s hmem) hb hbt
    dsimp only at hf
    rw [hn, if_neg (by omega), Nat.add_sub_cancel, hget] at hf
    dsimp only at hf
    rw [hfind] at hf
    cases hf

/-! ### Truncation -/

/-- An index made of parts of another one's checkpoints. -/
def EntryIndex.Within (x y : EntryIndex) (P : EntryId → Prop) : Prop :=
  ∀ s ∈ x.segments, ∃ t ∈ y.segments, s.1 = t.1 ∧
    ∀ c ∈ s.2.checkpoints, c ∈ t.2.checkpoints ∧ P c.1

theorem SegmentIndex.truncateStart_eq (x : SegmentIndex) (first : EntryId)
    (h : x.checkpoints.Pairwise fun a b => a.1 < b.1) :
    (x.truncateStart first).checkpoints =
      x.checkpoints.filter fun c => !decide (c.1 < first) := by
  have hp : Partitioned (fun c : EntryId × ℕ => decide (c.1 < first)) x.checkpoints :=
    partitioned_of_ascending (fun id => decide (id < first))
      (fun a b hlt hb => decide_eq_true (hlt.trans (of_decide_eq_true hb))) h
  exact (take_partitionPoint _ _ hp).2

theorem SegmentIndex.truncateEnd_eq (x : SegmentIndex) (last : EntryId)
    (h : x.checkpoints.Pairwise fun a b => a.1 < b.1) :
    (x.truncateEnd last).checkpoints = x.checkpoints.filter fun c => decide (c.1 ≤ last) := by
  have hp : Partitioned (fun c : EntryId × ℕ => decide (c.1 ≤ last)) x.checkpoints :=
    partitioned_of_ascending (fun id => decide (id ≤ last))
      (fun a b hlt hb => decide_eq_true (hlt.le.trans (of_decide_eq_true hb))) h
  exact (take_partitionPoint _ _ hp).1

/-- What `truncate_start` does to a sorted index: nothing, or it drops the segments in front of the one
the search ends behind, and cuts that. -/
theorem EntryIndex.Sorted.truncateStart_cases {x : EntryIndex} (h : x.Sorted) (first : EntryId) :
    (x.truncateStart first = x ∧ ∀ s ∈ x.segments, ∀ c ∈ s.2.checkpoints, first < c.1) ∨
    ∃ front s rest, x.segments = front ++ s :: rest ∧
      x.truncateStart first = ⟨(s.1, s.2.truncateStart first) :: rest⟩ ∧
      (∃ b ∈ s.2.checkpoints, b.1 ≤ first) ∧ ∀ t ∈ rest, ∀ c ∈ t.2.checkpoints, first < c.1 := by
  rcases h.split first with ⟨h0, hlate⟩ | ⟨front, s, rest, hsplit, hn, hstart, hlate⟩
  · left
    refine ⟨?_, hlate⟩
    rw [EntryIndex.truncateStart]
    exact if_pos h0
  · right
    refine ⟨front, s, rest, hsplit, ?_, hstart, hlate⟩
    rw [EntryIndex.truncateStart, hn, if_neg (by omega), Nat.add_sub_cancel, hsplit, List.drop_left]

/-- What `truncate_end` does to a sorted index: it drops everything, or the segments behind the one the
search ends behind, and cuts that. -/
theorem EntryIndex.Sorted.truncateEnd_cases {x : EntryIndex} (h : x.Sorted) (last : EntryId) :
    (x.truncateEnd last = ⟨[]⟩ ∧ ∀ s ∈ x.segments, ∀ c ∈ s.2.checkpoints, last < c.1) ∨
    ∃ front s rest, x.segments = front ++ s :: rest ∧
      x.truncateEnd last = ⟨front ++ [(s.1, s.2.truncateEnd last)]⟩ ∧
      (∃ b ∈ s.2.checkpoints, b.1 ≤ last) ∧ ∀ t ∈ rest, ∀ c ∈ t.2.checkpoints, last < c.1 := by
  rcases h.split last with ⟨h0, hlate⟩ | ⟨front, s, rest, hsplit, hn, hstart, hlate⟩
  · left
    refine ⟨?_, hlate⟩
    rw [EntryIndex.truncateEnd, h0, List.take_zero]
    rfl
  · right
    refine ⟨front, s, rest, hsplit, ?_, hstart, hlate⟩
    have htake : x.segments.take (front.length+1) = front ++ [s] := by
      rw [hsplit, List.append_cons]
      exact List.take_left' (by simp)
    rw [EntryIndex.truncateEnd, hn, htake, List.getLast?_concat]
    dsimp only
    rw [List.dropLast_concat]

/-- No checkpoint before the new head is left. -/
theorem EntryIndex.Sorted.truncateStart {x : EntryIndex} (h : x.Sorted) (first : EntryId) :
    (x.truncateStart first).Sorted ∧ (x.truncateStart first).Within x (first ≤ ·) := by
  rcases h.truncateStart_cases first with ⟨hsame, hlate⟩ | ⟨front, s, rest, hsplit, heq, _, hlate⟩
  · rw [hsame]
    exact ⟨h, fun s hs => ⟨s, hs, rfl, fun c hc => ⟨hc, (hlate s hs c hc).le⟩⟩⟩
  · have hmem : s ∈ x.segments := by simp [hsplit]
    have htrunc := SegmentIndex.truncateStart_eq _ first (h.ascending s hmem)
    have hsub : (s :: rest).Sublist x.segments := hsplit ▸ List.sublist_append_right front _
    obtain ⟨hhead, htail⟩ := List.pairwise_cons.mp (h.ordered.sublist hsub)
    rw [heq]
    refine ⟨⟨?_, ?_, ?_⟩, ?_⟩
    · intro t ht
      rcases List.mem_cons.mp ht with rfl | ht
      · rw [htrunc]
        exact (h.ascending s hmem).sublist List.filter_sublist
      · exact h.ascending t (hsub.mem (List.mem_cons_of_mem _ ht))
    · refine List.pairwise_cons.mpr ⟨?_, htail⟩
      intro t ht a ha
      rw [htrunc] at ha
      exact hhead t ht a (List.mem_of_mem_filter ha)
    · exact h.filled.sublist hsub.tail
    · intro t ht
      rcases List.mem_cons.mp ht with rfl | ht
      · refine ⟨s, hmem, rfl, fun c hc => ?_⟩
        rw [htrunc] at hc
        obtain ⟨hc, hge⟩ := List.mem_filter.mp hc
        exact ⟨hc, by simpa using hge⟩
      · exact ⟨t, hsub.mem (List.mem_cons_of_mem _ ht), rfl,
          fun c hc => ⟨hc, (hlate t ht c hc).le⟩⟩

/-- No checkpoint behind the new end is left. -/
theorem EntryIndex.Sorted.truncateEnd {x : EntryIndex} (h : x.Sorted) (last : EntryId) :
    (x.truncateEnd last).Sorted ∧ (x.truncateEnd last).Within x (· ≤ last) := by
  rcases h.truncateEnd_cases last with ⟨hnil, _⟩ | ⟨front, s, rest, hsplit, heq, hstart, _⟩
  · rw [hnil]
    exact ⟨⟨by simp, by simp, by simp⟩, fun s hs => by cases hs⟩
  · have hmem : s ∈ x.segments := by simp [hsplit]
    have htrunc := SegmentIndex.truncateEnd_eq _ last (h.ascending s hmem)
    have hsub : (front ++ [s]).Sublist x.segments := by
      have hjoin : x.segments = front ++ [s] ++ rest := by rw [hsplit, List.append_cons]
      rw [hjoin]
      exact List.sublist_append_left _ rest
    obtain ⟨hfront, _, hlast⟩ := List.pairwise_append.mp (h.ordered.sublist hsub)
    rw [heq]
    refine ⟨⟨?_, ?_, ?_⟩, ?_⟩
    · intro t ht
      rcases List.mem_append.mp ht with ht | ht
      · exact h.ascending t (hsub.mem (List.mem_append_left _ ht))
      · rw [List.mem_singleton.mp ht, htrunc]
        exact (h.ascending s hmem).sublist List.filter_sublist
    · refine List.pairwise_append.mpr ⟨hfront, by simp, ?_⟩
      intro t ht u hu a ha b hb
      rw [List.mem_singleton.mp hu, htrunc] at hb
      exact hlast t ht s (by simp) a ha b (List.mem_of_mem_filter hb)
    · cases front with
      | nil => simp
      | cons y ys =>
        have hfilled := h.filled.sublist hsub.tail
        rw [List.cons_append, List.tail_cons, List.pairwise_append] at hfilled
        rw [List.cons_append, List.tail_cons, List.pairwise_append]
        refine ⟨hfilled.1, by simp, ?_⟩
        -- a segment that has checkpoints left had some
        intro t ht u hu hne
        refine hfilled.2.2 t ht s (by simp) fun hnil => hne ?_
        rw [List.mem_singleton.mp hu, htrunc, hnil]
        rfl
    · intro t ht
      rcases List.mem_append.mp ht with ht | ht
      · refine ⟨t, hsub.mem (List.mem_append_left _ ht), rfl, fun c hc => ⟨hc, ?_⟩⟩
        obtain ⟨b, hb, hbl⟩ := hstart
        exact (hlast t ht s (by simp) c hc b hb).le.trans hbl
      · refine ⟨s, hmem, by rw [List.mem_singleton.mp ht], fun c hc => ?_⟩
        rw [List.mem_singleton.mp ht, htrunc] at hc
        obtain ⟨hc, hle⟩ := List.mem_filter.mp hc
        exact ⟨hc, of_decide_eq_true hle⟩

/-! ### Checkpoints of the frames in a file -/

section
variable [Crates]

/-- The checkpoint `c` is the id of an entry of `es` with the place of its frame in the file. -/
def Marks (es : List Entry) (c : EntryId × ℕ) : Prop :=
  ∃ before e after, es = before ++ e :: after ∧ c = (e.1, segmentEnd before)

theorem Marks.append {es : List Entry} {c : EntryId × ℕ} (h : Marks es c) (fs : List Entry) :
    Marks (es ++ fs) c := by
  obtain ⟨before, e, after, rfl, hc⟩ := h
  exact ⟨before, e, after ++ fs, by simp, hc⟩

theorem Marks.mem {es : List Entry} {c : EntryId × ℕ} (h : Marks es c) : ∃ e ∈ es, c.1 = e.1 := by
  obtain ⟨before, e, after, rfl, rfl⟩ := h
  exact ⟨e, by simp, rfl⟩

namespace FrameScanner

theorem checkpointsFrom_marks (stride count p : ℕ) (es : List Entry) :
    ∀ c ∈ checkpointsFrom stride count p es,
      ∃ before e after, es = before ++ e :: after ∧
        c = (e.1, p+(frames.encodeAll before).length) := by
  induction es generalizing count p with
  | nil => simp [checkpointsFrom]
  | cons e es ih =>
    intro c hc
    rw [checkpointsFrom] at hc
    rcases List.mem_append.mp hc with hc | hc
    · split at hc
      · rw [List.mem_singleton.mp hc]
        exact ⟨[], e, es, rfl, by simp⟩
      · cases hc
    · obtain ⟨before, e', after, rfl, rfl⟩ := ih _ _ c hc
      refine ⟨e :: before, e', after, rfl, ?_⟩
      rw [Grammar.encodeAll_cons, frames_encode, List.length_append, Nat.add_assoc]

/-- The ids of the checkpoints are some of the ids of the frames, in order. -/
theorem checkpointsFrom_ids (stride count p : ℕ) (es : List Entry) :
    ((checkpointsFrom stride count p es).map (·.1)).Sublist (es.map (·.1)) := by
  induction es generalizing count p with
  | nil => simp [checkpointsFrom]
  | cons e es ih =>
    rw [checkpointsFrom, List.map_append, List.map_cons]
    split
    · exact (ih _ _).cons_cons e.1
    · exact (ih _ _).cons e.1

/-- The first frame of a file is a checkpoint. -/
theorem checkpointsFrom_head (stride p : ℕ) (e : Entry) (es : List Entry) :
    (e.1, p) ∈ checkpointsFrom stride 0 p (e :: es) := by
  simp [checkpointsFrom]

end FrameScanner

/-- The checkpoints of a file that holds the frames `es`. -/
def checkpointsOf (es : List Entry) : List (EntryId × ℕ) :=
  FrameScanner.checkpointsFrom indexStride 0 magicLen es

theorem marks_checkpointsOf {es : List Entry} {c : EntryId × ℕ} (h : c ∈ checkpointsOf es) :
    Marks es c :=
  FrameScanner.checkpointsFrom_marks indexStride 0 magicLen es c h

theorem checkpointsOf_eq_nil (es : List Entry) : checkpointsOf es = [] ↔ es = [] := by
  cases es with
  | nil => simp [checkpointsOf, FrameScanner.checkpointsFrom]
  | cons e es =>
    have hmem := FrameScanner.checkpointsFrom_head indexStride magicLen e es
    simp [checkpointsOf, List.ne_nil_of_mem hmem]

/-! ### The index of a store -/

omit [Crates] in
/-- The ids ascend through the live segments, each from its own first entry on. -/
structure Ordered (st : StoreState) (log : SegmentId → List Entry) : Prop where
  inside : ∀ seg ∈ st.segments, (log seg.id).Pairwise fun a b => a.1 < b.1
  first : ∀ seg ∈ st.segments, ∀ e ∈ log seg.id, seg.firstEntry ≤ e.1
  across : st.segments.Pairwise fun a b => ∀ e ∈ log a.id, e.1 < b.firstEntry

/-- The index marks entries of live segments, in order. -/
structure IndexOk (x : EntryIndex) (st : StoreState) (log : SegmentId → List Entry) : Prop where
  sorted : x.Sorted
  live : ∀ s ∈ x.segments, s.2.checkpoints ≠ [] → st.lists s.1 = true
  marks : ∀ s ∈ x.segments, ∀ c ∈ s.2.checkpoints, Marks (log s.1) c

/-- The index that an open builds: every live segment with its checkpoints. -/
def indexOf (st : StoreState) (log : SegmentId → List Entry) : EntryIndex :=
  ⟨st.segments.map fun seg => (seg.id, ⟨checkpointsOf (log seg.id)⟩)⟩

omit [Crates] in
/-- Ids ascend from one live segment to the next. -/
theorem Ordered.across_ids {st : StoreState} {log : SegmentId → List Entry} (h : Ordered st log) :
    st.segments.Pairwise fun a b => ∀ e ∈ log a.id, ∀ f ∈ log b.id, e.1 < f.1 := by
  refine h.across.imp_of_mem ?_
  intro a b _ hb hab e he f hf
  exact (hab e he).trans_le (h.first b hb f hf)

omit [Crates] in
theorem Ordered.liveLog {st : StoreState} {log : SegmentId → List Entry} (h : Ordered st log) :
    (liveLog st log).Pairwise fun a b => a.1 < b.1 := by
  rw [Woodshed.liveLog, List.pairwise_flatMap]
  refine ⟨h.inside, h.across_ids.imp ?_⟩
  intro a b hab e he f hf
  exact hab e he f hf

theorem indexOf_ok {st : StoreState} {log : SegmentId → List Entry} {active : SegmentEntry}
    (hs : Shaped st active)
    (hinside : ∀ seg ∈ st.segments, (log seg.id).Pairwise fun a b => a.1 < b.1)
    (hacross : st.segments.Pairwise fun a b => ∀ e ∈ log a.id, ∀ f ∈ log b.id, e.1 < f.1)
    (hfull : ∀ seg ∈ st.segments, seg ≠ active → log seg.id ≠ []) :
    IndexOk (indexOf st log) st log := by
  have hmem {seg : SegmentEntry} {a : EntryId × ℕ} (ha : a ∈ checkpointsOf (log seg.id)) :
      ∃ e ∈ log seg.id, a.1 = e.1 := (marks_checkpointsOf ha).mem
  refine ⟨⟨?_, ?_, ?_⟩, ?_, ?_⟩
  · intro s hs'
    obtain ⟨seg, hseg, rfl⟩ := List.mem_map.mp hs'
    have hids : ((log seg.id).map (·.1)).Pairwise (· < ·) :=
      List.pairwise_map.mpr (hinside seg hseg)
    exact List.pairwise_map.mp
      (hids.sublist (FrameScanner.checkpointsFrom_ids indexStride 0 magicLen (log seg.id)))
  · refine List.pairwise_map.mpr (hacross.imp ?_)
    intro a b hab x hx y hy
    obtain ⟨e, he, hxe⟩ := hmem hx
    obtain ⟨f, hf, hyf⟩ := hmem hy
    rw [hxe, hyf]
    exact hab e he f hf
  · -- only the active segment, which is the last, may be empty
    have hall : st.segments.Pairwise fun a b => a ≠ active := by
      rw [hs.split, List.pairwise_append]
      refine ⟨?_, by simp, ?_⟩
      · refine List.pairwise_of_forall_mem_list fun a ha b _ heq => ?_
        have hnd := hs.nodup
        rw [hs.split, List.map_append, List.nodup_append] at hnd
        exact hnd.2.2 _ (List.mem_map_of_mem ha) active.id (by simp) (by rw [heq])
      · intro a ha b _ heq
        have hnd := hs.nodup
        rw [hs.split, List.map_append, List.nodup_append] at hnd
        exact hnd.2.2 _ (List.mem_map_of_mem ha) active.id (by simp) (by rw [heq])
    rw [indexOf, ← List.map_tail]
    refine List.pairwise_map.mpr ((hall.sublist (List.tail_sublist _)).imp_of_mem ?_)
    intro a b ha _ hne _
    rw [ne_eq, checkpointsOf_eq_nil]
    exact hfull a (List.mem_of_mem_tail ha) hne
  · intro s hs' _
    obtain ⟨seg, hseg, rfl⟩ := List.mem_map.mp hs'
    exact lists_of_mem hseg
  · intro s hs' c hc
    obtain ⟨seg, hseg, rfl⟩ := List.mem_map.mp hs'
    exact marks_checkpointsOf hc

/-- More entries in the segments do not matter to the index. -/
theorem IndexOk.grow {x : EntryIndex} {st st' : StoreState} {log log' : SegmentId → List Entry}
    (h : IndexOk x st log) (hlists : ∀ id, st.lists id = true → st'.lists id = true)
    (hlog : ∀ id, st.lists id = true → log id <+: log' id) : IndexOk x st' log' := by
  refine ⟨h.sorted, fun s hs hne => hlists _ (h.live s hs hne), fun s hs c hc => ?_⟩
  obtain ⟨more, hmore⟩ := hlog s.1 (h.live s hs (List.ne_nil_of_mem hc))
  rw [← hmore]
  exact (h.marks s hs c hc).append more

end
end Woodshed
