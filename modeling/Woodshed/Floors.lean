import Woodshed.Checkpoints

/-! The index through any truncations: its checkpoints are those that are left, a search returns the
floor of an id among them, and the binary searches over segments are on partitioned slices as long as no
truncation empties a segment in front of another one. -/
namespace Woodshed
open PartitionPoint

/-! ### The checkpoints of an index -/

/-- The checkpoints of a segment, with the segment. -/
def positionsOf (s : SegmentId × SegmentIndex) : List IndexPosition :=
  s.2.checkpoints.map fun c => ⟨s.1, c.1, c.2⟩

/-- The checkpoints of an index, in order. -/
def EntryIndex.positions (x : EntryIndex) : List IndexPosition := x.segments.flatMap positionsOf

/-- The index that `add_segment` makes of segments. -/
def EntryIndex.build (segs : List (SegmentId × SegmentIndex)) : EntryIndex :=
  segs.foldl (fun x s => x.addSegment s.1 s.2) EntryIndex.new

inductive Truncation where
  | start (firstEntry : EntryId)
  | tail (lastValid : EntryId)
deriving DecidableEq, Repr

def EntryIndex.truncate (x : EntryIndex) : Truncation → EntryIndex
  | .start firstEntry => x.truncateStart firstEntry
  | .tail lastValid => x.truncateEnd lastValid

/-- Whether a truncation leaves a checkpoint. -/
def Truncation.leaves : Truncation → IndexPosition → Bool
  | .start firstEntry, p => decide (firstEntry ≤ p.checkpoint)
  | .tail lastValid, p => decide (p.checkpoint ≤ lastValid)

/-- The index behind truncations, and the checkpoints that are left. -/
def EntryIndex.truncated (x : EntryIndex) (ts : List Truncation) : EntryIndex :=
  ts.foldl EntryIndex.truncate x

def leftOf (ps : List IndexPosition) (ts : List Truncation) : List IndexPosition :=
  ts.foldl (fun ps t => ps.filter t.leaves) ps

theorem segments_build (segs : List (SegmentId × SegmentIndex)) : (EntryIndex.build segs).segments = segs := by
  have hfold (x : EntryIndex) :
      (segs.foldl (fun x s => x.addSegment s.1 s.2) x).segments = x.segments ++ segs := by
    induction segs generalizing x with
    | nil => exact (List.append_nil _).symm
    | cons s segs ih =>
      rw [List.foldl_cons, ih, EntryIndex.addSegment]
      exact (List.append_cons _ _ _).symm
  exact hfold EntryIndex.new

theorem mem_positions {x : EntryIndex} {p : IndexPosition} :
    p ∈ x.positions ↔ ∃ s ∈ x.segments, s.1 = p.segment ∧ (p.checkpoint, p.byteOffset) ∈ s.2.checkpoints := by
  rw [EntryIndex.positions, List.mem_flatMap]
  constructor
  · rintro ⟨s, hs, hp⟩
    obtain ⟨c, hc, rfl⟩ := List.mem_map.mp hp
    exact ⟨s, hs, rfl, hc⟩
  · rintro ⟨s, hs, hid, hc⟩
    refine ⟨s, hs, List.mem_map.mpr ⟨_, hc, ?_⟩⟩
    rw [hid]

theorem positions_append (front rest : List (SegmentId × SegmentIndex)) :
    EntryIndex.positions ⟨front ++ rest⟩ =
      EntryIndex.positions ⟨front⟩ ++ EntryIndex.positions ⟨rest⟩ :=
  List.flatMap_append

theorem positions_cons (s : SegmentId × SegmentIndex) (rest : List (SegmentId × SegmentIndex)) :
    EntryIndex.positions ⟨s :: rest⟩ = positionsOf s ++ EntryIndex.positions ⟨rest⟩ :=
  List.flatMap_cons

theorem filter_positionsOf (s : SegmentId × SegmentIndex) (P : IndexPosition → Bool) :
    (positionsOf s).filter P =
      positionsOf (s.1, ⟨s.2.checkpoints.filter fun c => P ⟨s.1, c.1, c.2⟩⟩) :=
  List.filter_map

/-- The checkpoints ascend over the whole index just if they do in every segment and from one to the
next. -/
theorem ascending_positions (x : EntryIndex) :
    (x.positions.Pairwise fun p q => p.checkpoint < q.checkpoint) ↔
      (∀ s ∈ x.segments, s.2.checkpoints.Pairwise fun a b => a.1 < b.1) ∧
      x.segments.Pairwise fun s t => ∀ a ∈ s.2.checkpoints, ∀ b ∈ t.2.checkpoints, a.1 < b.1 := by
  rw [EntryIndex.positions, List.pairwise_flatMap]
  simp only [positionsOf, List.pairwise_map, List.mem_map, forall_exists_index, and_imp,
    forall_apply_eq_imp_iff₂]

/-! ### Searches -/

/-- Every call of `partition_point` in a search or a truncation at `id`, over the segments or over the
checkpoints of one of them, is on a slice that the predicate partitions. -/
structure EntryIndex.Probed (x : EntryIndex) (id : EntryId) : Prop where
  segments : Partitioned (startsBy id) x.segments
  upTo : ∀ s ∈ x.segments, Partitioned (fun c => decide (c.1 ≤ id)) s.2.checkpoints
  before : ∀ s ∈ x.segments, Partitioned (fun c => decide (c.1 < id)) s.2.checkpoints

/-- The index has the checkpoints `ps`, is searched as `partition_point` demands, and a search returns
the largest checkpoint that is not above its target, if there is one. -/
structure EntryIndex.Floors (x : EntryIndex) (ps : List IndexPosition) : Prop where
  positions : x.positions = ps
  probed : ∀ id, x.Probed id
  found : ∀ target pos, x.find target = some pos ↔
    pos ∈ ps ∧ pos.checkpoint ≤ target ∧
      ∀ p ∈ ps, p.checkpoint ≤ target → p.checkpoint ≤ pos.checkpoint
  missed : ∀ target, x.find target = none ↔ ∀ p ∈ ps, target < p.checkpoint

/-- No segment without checkpoints is in front of one with checkpoints. -/
def EntryIndex.Filled (x : EntryIndex) : Prop :=
  x.segments.Pairwise fun s t => t.2.checkpoints ≠ [] → s.2.checkpoints ≠ []

/-- An id between the last checkpoint of a segment and the first one of the next. -/
def EntryIndex.Gap (x : EntryIndex) (id : EntryId) : Prop :=
  ∃ front s next rest, x.segments = front ++ s :: next :: rest ∧
    s.2.checkpoints ≠ [] ∧ next.2.checkpoints ≠ [] ∧
    (∀ c ∈ s.2.checkpoints, c.1 < id) ∧ ∀ c ∈ next.2.checkpoints, id < c.1

section
variable {x : EntryIndex}

theorem EntryIndex.Sorted.ascending_positions (h : x.Sorted) :
    x.positions.Pairwise fun p q => p.checkpoint < q.checkpoint :=
  (Woodshed.ascending_positions x).mpr ⟨h.ascending, h.ordered⟩

/-- A checkpoint is known by its id. -/
theorem EntryIndex.Sorted.position_inj (h : x.Sorted) {p q : IndexPosition} (hp : p ∈ x.positions)
    (hq : q ∈ x.positions) (heq : p.checkpoint = q.checkpoint) : p = q := by
  have hnd : (x.positions.map (·.checkpoint)).Nodup :=
    List.pairwise_map.mpr (h.ascending_positions.imp fun hlt => hlt.ne)
  exact List.inj_on_of_nodup_map hnd hp hq heq

/-- A search returns the floor. -/
theorem EntryIndex.Sorted.found (h : x.Sorted) (target : EntryId) (pos : IndexPosition) :
    x.find target = some pos ↔ pos ∈ x.positions ∧ pos.checkpoint ≤ target ∧
      ∀ p ∈ x.positions, p.checkpoint ≤ target → p.checkpoint ≤ pos.checkpoint := by
  have hsome {q : IndexPosition} (hf : x.find target = some q) : q ∈ x.positions ∧
      q.checkpoint ≤ target ∧
      ∀ p ∈ x.positions, p.checkpoint ≤ target → p.checkpoint ≤ q.checkpoint := by
    obtain ⟨s, hs, hid, hc, hle, hmax⟩ := h.find_some hf
    refine ⟨mem_positions.mpr ⟨s, hs, hid, hc⟩, hle, fun p hp hpt => ?_⟩
    obtain ⟨u, hu, _, hcu⟩ := mem_positions.mp hp
    exact hmax u hu _ hcu hpt
  constructor
  · exact hsome
  · rintro ⟨hmem, hle, hmax⟩
    cases hf : x.find target with
    | none =>
      obtain ⟨s, hs, _, hc⟩ := mem_positions.mp hmem
      exact absurd hle (not_le.mpr (h.find_none hf s hs _ hc))
    | some q =>
      obtain ⟨hq, hqt, hqmax⟩ := hsome hf
      rw [h.position_inj hq hmem (le_antisymm (hmax q hq hqt) (hqmax pos hmem hle))]

theorem EntryIndex.Sorted.missed (h : x.Sorted) (target : EntryId) :
    x.find target = none ↔ ∀ p ∈ x.positions, target < p.checkpoint := by
  constructor
  · intro hf p hp
    obtain ⟨s, hs, _, hc⟩ := mem_positions.mp hp
    exact h.find_none hf s hs _ hc
  · intro hall
    cases hf : x.find target with
    | none => rfl
    | some pos =>
      obtain ⟨hmem, hle, _⟩ := (h.found target pos).mp hf
      exact absurd hle (not_le.mpr (hall pos hmem))

/-- The searches are as `partition_point` demands just if no segment without checkpoints is in front of
one with checkpoints: the searches over segments compare first checkpoints. -/
theorem EntryIndex.Sorted.probed_iff (h : x.Sorted) : (∀ id, x.Probed id) ↔ x.Filled := by
  constructor
  · intro hall
    refine List.pairwise_iff_getElem.mpr fun i j hi hj hij hne => ?_
    obtain ⟨c, hc⟩ := List.exists_mem_of_ne_nil _ hne
    have hp := List.pairwise_iff_getElem.mp (hall c.1).segments i j hi hj hij
      ((startsBy_iff c.1 _ (h.ascending _ (List.getElem_mem hj))).mpr ⟨c, hc, le_rfl⟩)
    obtain ⟨a, ha, _⟩ := (startsBy_iff c.1 _ (h.ascending _ (List.getElem_mem hi))).mp hp
    exact List.ne_nil_of_mem ha
  · intro hf id
    refine ⟨?_, ?_, ?_⟩
    · refine (hf.and h.ordered).imp_of_mem ?_
      intro s t hs ht hst hb
      obtain ⟨b, hb, hle⟩ := (startsBy_iff id t (h.ascending t ht)).mp hb
      obtain ⟨a, ha⟩ := List.exists_mem_of_ne_nil _ (hst.1 (List.ne_nil_of_mem hb))
      exact (startsBy_iff id s (h.ascending s hs)).mpr ⟨a, ha, (hst.2 a ha b hb).le.trans hle⟩
    · intro s hs
      exact partitioned_of_ascending (fun c => decide (c ≤ id))
        (fun a b hlt hb => decide_eq_true (hlt.le.trans (of_decide_eq_true hb))) (h.ascending s hs)
    · intro s hs
      exact partitioned_of_ascending (fun c => decide (c < id))
        (fun a b hlt hb => decide_eq_true (hlt.trans (of_decide_eq_true hb))) (h.ascending s hs)

/-! ### Truncations -/

/-- `truncate_start` leaves the checkpoints from its argument on. -/
theorem EntryIndex.Sorted.positions_truncateStart (h : x.Sorted) (first : EntryId) :
    (x.truncateStart first).positions = x.positions.filter (Truncation.start first).leaves := by
  rcases h.truncateStart_cases first with ⟨hsame, hlate⟩ |
    ⟨front, s, rest, hsplit, heq, ⟨b, hb, hle⟩, hlate⟩
  · rw [hsame]
    refine (List.filter_eq_self.mpr fun p hp => decide_eq_true ?_).symm
    obtain ⟨u, hu, _, hc⟩ := mem_positions.mp hp
    exact (hlate u hu _ hc).le
  · have hmem : s ∈ x.segments := by simp [hsplit]
    have hordered := h.ordered
    rw [hsplit] at hordered
    have hfront : (EntryIndex.positions ⟨front⟩).filter (Truncation.start first).leaves = [] := by
      refine List.filter_eq_nil_iff.mpr fun p hp => ?_
      obtain ⟨u, hu, _, hc⟩ := mem_positions.mp hp
      have hlt := (List.pairwise_append.mp hordered).2.2 u hu s (by simp) _ hc b hb
      simpa [Truncation.leaves] using hlt.trans_le hle
    have hrest : (EntryIndex.positions ⟨rest⟩).filter (Truncation.start first).leaves =
        EntryIndex.positions ⟨rest⟩ := by
      refine List.filter_eq_self.mpr fun p hp => decide_eq_true ?_
      obtain ⟨u, hu, _, hc⟩ := mem_positions.mp hp
      exact (hlate u hu _ hc).le
    have hcut : (positionsOf s).filter (Truncation.start first).leaves =
        positionsOf (s.1, s.2.truncateStart first) := by
      rw [filter_positionsOf, positionsOf, positionsOf,
        SegmentIndex.truncateStart_eq _ first (h.ascending s hmem)]
      congr 1
      refine List.filter_congr fun c _ => ?_
      rw [← decide_not]
      exact decide_eq_decide.mpr not_lt.symm
    calc (x.truncateStart first).positions
        = positionsOf (s.1, s.2.truncateStart first) ++ EntryIndex.positions ⟨rest⟩ := by
          rw [heq, positions_cons]
      _ = (EntryIndex.positions ⟨front ++ s :: rest⟩).filter (Truncation.start first).leaves := by
          rw [positions_append, positions_cons, List.filter_append, List.filter_append, hfront, hcut,
            hrest, List.nil_append]
      _ = x.positions.filter (Truncation.start first).leaves := by rw [← hsplit]

/-- `truncate_end` leaves the checkpoints up to its argument. -/
theorem EntryIndex.Sorted.positions_truncateEnd (h : x.Sorted) (last : EntryId) :
    (x.truncateEnd last).positions = x.positions.filter (Truncation.tail last).leaves := by
  rcases h.truncateEnd_cases last with ⟨hnil, hlate⟩ |
    ⟨front, s, rest, hsplit, heq, ⟨b, hb, hle⟩, hlate⟩
  · rw [hnil]
    refine (List.filter_eq_nil_iff.mpr fun p hp => ?_).symm
    obtain ⟨u, hu, _, hc⟩ := mem_positions.mp hp
    simpa [Truncation.leaves] using hlate u hu _ hc
  · have hmem : s ∈ x.segments := by simp [hsplit]
    have hordered := h.ordered
    rw [hsplit] at hordered
    have hfront : (EntryIndex.positions ⟨front⟩).filter (Truncation.tail last).leaves =
        EntryIndex.positions ⟨front⟩ := by
      refine List.filter_eq_self.mpr fun p hp => decide_eq_true ?_
      obtain ⟨u, hu, _, hc⟩ := mem_positions.mp hp
      exact ((List.pairwise_append.mp hordered).2.2 u hu s (by simp) _ hc b hb).le.trans hle
    have hrest : (EntryIndex.positions ⟨rest⟩).filter (Truncation.tail last).leaves = [] := by
      refine List.filter_eq_nil_iff.mpr fun p hp => ?_
      obtain ⟨u, hu, _, hc⟩ := mem_positions.mp hp
      simpa [Truncation.leaves] using hlate u hu _ hc
    have hcut : (positionsOf s).filter (Truncation.tail last).leaves =
        positionsOf (s.1, s.2.truncateEnd last) := by
      rw [filter_positionsOf, positionsOf, positionsOf,
        SegmentIndex.truncateEnd_eq _ last (h.ascending s hmem)]
      rfl
    calc (x.truncateEnd last).positions
        = EntryIndex.positions ⟨front⟩ ++ positionsOf (s.1, s.2.truncateEnd last) := by
          rw [heq, positions_append, positions_cons]
          exact congrArg _ (List.append_nil _)
      _ = (EntryIndex.positions ⟨front ++ s :: rest⟩).filter (Truncation.tail last).leaves := by
          rw [positions_append, positions_cons, List.filter_append, List.filter_append, hfront, hcut,
            hrest, List.append_nil]
      _ = x.positions.filter (Truncation.tail last).leaves := by rw [← hsplit]

/-- Cutting the end never empties a segment. -/
theorem EntryIndex.Filled.truncateEnd (hf : x.Filled) (h : x.Sorted) (last : EntryId) :
    (x.truncateEnd last).Filled := by
  rcases h.truncateEnd_cases last with ⟨hnil, _⟩ | ⟨front, s, rest, hsplit, heq, ⟨b, hb, _⟩, _⟩
  · rw [hnil]
    exact List.Pairwise.nil
  · rw [EntryIndex.Filled, hsplit, List.pairwise_append] at hf
    rw [heq, EntryIndex.Filled, List.pairwise_append]
    refine ⟨hf.1, by simp, fun t ht u _ _ => ?_⟩
    exact hf.2.2 t ht s (by simp) (List.ne_nil_of_mem hb)

/-- The segment before a gap is the one that the search for an id in the gap ends behind. -/
theorem EntryIndex.Sorted.gap_meets (h : x.Sorted) {first : EntryId}
    {front rest front' rest' : List (SegmentId × SegmentIndex)} {s s' next : SegmentId × SegmentIndex}
    (hsplit : x.segments = front ++ s :: rest) {b : EntryId × ℕ} (hb : b ∈ s.2.checkpoints)
    (hle : b.1 ≤ first) (hlate : ∀ t ∈ rest, ∀ c ∈ t.2.checkpoints, first < c.1)
    (hsplit' : x.segments = front' ++ s' :: next :: rest') (hs' : s'.2.checkpoints ≠ [])
    (hnext : next.2.checkpoints ≠ []) (hbelow : ∀ c ∈ s'.2.checkpoints, c.1 < first)
    (habove : ∀ c ∈ next.2.checkpoints, first < c.1) : s' = s ∧ next ∈ rest := by
  obtain ⟨c, hc⟩ := List.exists_mem_of_ne_nil _ hs'
  obtain ⟨a, ha⟩ := List.exists_mem_of_ne_nil _ hnext
  have hordered := h.ordered
  rw [hsplit] at hsplit' hordered
  rcases List.append_eq_append_iff.mp hsplit' with ⟨more, _, hmore⟩ | ⟨more, hfront, hmore⟩
  · cases more with
    | nil =>
      obtain ⟨rfl, rfl⟩ := List.cons.inj hmore
      exact ⟨rfl, by simp⟩
    | cons y ys =>
      obtain ⟨rfl, hrest⟩ := List.cons.inj hmore
      have hlt := hlate s' (by simp [hrest]) c hc
      exact absurd (hbelow c hc) (not_lt.mpr hlt.le)
  · cases more with
    | nil =>
      obtain ⟨rfl, hrest⟩ := List.cons.inj hmore
      exact ⟨rfl, by simp [← hrest]⟩
    | cons y ys =>
      -- then the segment behind the gap is not behind the other one
      obtain ⟨rfl, htail⟩ := List.cons.inj hmore
      cases ys with
      | nil =>
        obtain ⟨rfl, _⟩ := List.cons.inj htail
        exact absurd hle (not_le.mpr (habove b hb))
      | cons z zs =>
        obtain ⟨rfl, _⟩ := List.cons.inj htail
        have hlt := (List.pairwise_append.mp hordered).2.2 next (by simp [hfront]) s (by simp) a ha b hb
        exact absurd (hlt.le.trans hle) (not_le.mpr (habove a ha))

/-- Cutting the start empties a segment in front of another one just at the ids in a gap. -/
theorem EntryIndex.Filled.truncateStart_iff (hf : x.Filled) (h : x.Sorted) (first : EntryId) :
    (x.truncateStart first).Filled ↔ ¬ x.Gap first := by
  rcases h.truncateStart_cases first with ⟨hsame, hlate⟩ |
    ⟨front, s, rest, hsplit, heq, ⟨b, hb, hle⟩, hlate⟩
  · rw [hsame]
    refine iff_of_true hf ?_
    rintro ⟨front, s, next, rest, hsplit, hs, _, hbelow, _⟩
    obtain ⟨c, hc⟩ := List.exists_mem_of_ne_nil _ hs
    exact lt_asymm (hbelow c hc) (hlate s (by simp [hsplit]) c hc)
  · have hmem : s ∈ x.segments := by simp [hsplit]
    have hcut := SegmentIndex.truncateStart_eq _ first (h.ascending s hmem)
    have hfilled := hf
    rw [EntryIndex.Filled, hsplit, List.pairwise_append, List.pairwise_cons] at hfilled
    obtain ⟨_, ⟨_, hrest⟩, _⟩ := hfilled
    rw [heq, EntryIndex.Filled, List.pairwise_cons, and_iff_left hrest]
    constructor
    · rintro hkeeps ⟨front', s', next, rest', hsplit', hs', hnext, hbelow, habove⟩
      obtain ⟨rfl, hin⟩ := h.gap_meets hsplit hb hle hlate hsplit' hs' hnext hbelow habove
      refine hkeeps next hin hnext ?_
      rw [show (s'.1, s'.2.truncateStart first).2 = s'.2.truncateStart first from rfl, hcut,
        List.filter_eq_nil_iff]
      intro c hc
      simpa using hbelow c hc
    · intro hgap t ht hne hnil
      refine hgap ?_
      cases rest with
      | nil => cases ht
      | cons next rest =>
        refine ⟨front, s, next, rest, hsplit, List.ne_nil_of_mem hb, ?_, ?_, hlate next (by simp)⟩
        · rcases List.mem_cons.mp ht with rfl | ht
          · exact hne
          · exact (List.pairwise_cons.mp hrest).1 t ht hne
        · intro c hc
          rw [show (s.1, s.2.truncateStart first).2 = s.2.truncateStart first from rfl, hcut,
            List.filter_eq_nil_iff] at hnil
          simpa using hnil c hc

/-! ### Runs of truncations -/

theorem truncated_concat (x : EntryIndex) (ts : List Truncation) (t : Truncation) :
    x.truncated (ts ++ [t]) = (x.truncated ts).truncate t := by
  rw [EntryIndex.truncated, EntryIndex.truncated, List.foldl_concat]

theorem leftOf_concat (ps : List IndexPosition) (ts : List Truncation) (t : Truncation) :
    leftOf ps (ts ++ [t]) = (leftOf ps ts).filter t.leaves := by
  rw [leftOf, leftOf, List.foldl_concat]

/-- One truncation. -/
theorem EntryIndex.Sorted.truncate (h : x.Sorted) (t : Truncation) :
    (x.truncate t).Sorted ∧ (x.truncate t).positions = x.positions.filter t.leaves := by
  cases t with
  | start first => exact ⟨(h.truncateStart first).1, h.positions_truncateStart first⟩
  | tail last => exact ⟨(h.truncateEnd last).1, h.positions_truncateEnd last⟩

/-- Any number of truncations: the index stays sorted and has the checkpoints that are left. -/
theorem EntryIndex.Sorted.truncated (h : x.Sorted) (ts : List Truncation) :
    (x.truncated ts).Sorted ∧ (x.truncated ts).positions = leftOf x.positions ts := by
  induction ts using List.reverseRecOn with
  | nil => exact ⟨h, rfl⟩
  | append_singleton ts t ih =>
    obtain ⟨hsorted, hpositions⟩ := ih
    obtain ⟨hsorted', hpositions'⟩ := hsorted.truncate t
    rw [truncated_concat, leftOf_concat]
    exact ⟨hsorted', by rw [hpositions', hpositions]⟩

/-- As long as no truncation is in a gap, no segment is emptied in front of another one. -/
theorem EntryIndex.Filled.truncated (hf : x.Filled) (h : x.Sorted) (ts : List Truncation)
    (hgaps : ∀ done first, done ++ [.start first] <+: ts → ¬ (x.truncated done).Gap first) :
    (x.truncated ts).Filled := by
  induction ts using List.reverseRecOn with
  | nil => exact hf
  | append_singleton ts t ih =>
    have hfilled := ih fun done first hdone =>
      hgaps done first (hdone.trans (List.prefix_append ts [t]))
    have hsorted := (h.truncated ts).1
    rw [truncated_concat]
    cases t with
    | start first =>
      exact (hfilled.truncateStart_iff hsorted first).mpr (hgaps ts first (List.prefix_refl _))
    | tail last => exact hfilled.truncateEnd hsorted last

end

section
variable {segs : List (SegmentId × SegmentIndex)}

/-- Only the last segment may be without checkpoints. -/
theorem filled_build (hfull : ∀ s ∈ segs.dropLast, s.2.checkpoints ≠ []) :
    (EntryIndex.build segs).Filled := by
  rw [EntryIndex.Filled, segments_build]
  rcases List.eq_nil_or_concat segs with rfl | ⟨front, last, rfl⟩
  · exact List.Pairwise.nil
  · rw [List.concat_eq_append] at hfull ⊢
    rw [List.dropLast_concat] at hfull
    refine List.pairwise_append.mpr ⟨?_, by simp, fun s hs _ _ _ => hfull s hs⟩
    exact List.pairwise_of_forall_mem_list fun s hs _ _ _ => hfull s hs

theorem sorted_build
    (hasc : (EntryIndex.build segs).positions.Pairwise fun p q => p.checkpoint < q.checkpoint)
    (hfull : ∀ s ∈ segs.dropLast, s.2.checkpoints ≠ []) : (EntryIndex.build segs).Sorted := by
  obtain ⟨hascending, hordered⟩ := (ascending_positions _).mp hasc
  exact ⟨hascending, hordered, (filled_build hfull).sublist (List.tail_sublist _)⟩

/-- Whatever is truncated, the index returns floors; its searches are on partitioned slices in all
states of a run just if no head that is set lies in a gap. -/
theorem EntryIndex.floors_iff
    (hasc : (EntryIndex.build segs).positions.Pairwise fun p q => p.checkpoint < q.checkpoint)
    (hfull : ∀ s ∈ segs.dropLast, s.2.checkpoints ≠ []) (ts : List Truncation) :
    (∀ done, done <+: ts → ((EntryIndex.build segs).truncated done).Floors
        (leftOf (EntryIndex.build segs).positions done)) ↔
      ∀ done first, done ++ [.start first] <+: ts →
        ¬ ((EntryIndex.build segs).truncated done).Gap first := by
  have hsorted := sorted_build hasc hfull
  constructor
  · intro hall done first hdone
    have h := (hsorted.truncated done).1
    have hbefore := hall done ((List.prefix_append done _).trans hdone)
    have hafter := hall _ hdone
    rw [truncated_concat] at hafter
    have hfilled := h.probed_iff.mp hbefore.probed
    exact (hfilled.truncateStart_iff h first).mp ((h.truncate _).1.probed_iff.mp hafter.probed)
  · intro hgaps done hdone
    obtain ⟨h, hpositions⟩ := hsorted.truncated done
    have hfilled := (filled_build hfull).truncated hsorted done fun part first hpart =>
      hgaps part first (hpart.trans hdone)
    refine ⟨hpositions, h.probed_iff.mpr hfilled, ?_, ?_⟩
    · rw [← hpositions]
      exact h.found
    · rw [← hpositions]
      exact h.missed

/-- Two segments with two checkpoints each. -/
def populated : List (SegmentId × SegmentIndex) :=
  [(⟨1⟩, .new [(⟨0⟩, 8), (⟨64⟩, 1024)]), (⟨2⟩, .new [(⟨128⟩, 8), (⟨192⟩, 1024)])]

/-- A head at a checkpoint, then an end behind one. -/
theorem EntryIndex.floors_iff_populated :
    ((EntryIndex.build populated).truncated [.start ⟨64⟩, .tail ⟨191⟩]).Floors
      (leftOf (EntryIndex.build populated).positions [.start ⟨64⟩, .tail ⟨191⟩]) := by
  refine (EntryIndex.floors_iff (by decide) (by decide) _).mpr ?_ _ (List.prefix_refl _)
  rintro done first ⟨rest, hrest⟩ ⟨front, s, next, back, hsplit, _, _, hbelow, _⟩
  cases done with
  | nil =>
    obtain ⟨rfl, _⟩ : first = ⟨64⟩ ∧ rest = [.tail ⟨191⟩] := by simpa using hrest
    rw [EntryIndex.truncated, List.foldl_nil, segments_build, populated] at hsplit
    cases front with
    | nil =>
      obtain ⟨rfl, _⟩ := List.cons.inj hsplit
      exact absurd (hbelow (⟨64⟩, 1024) (by decide)) (by decide)
    | cons y ys =>
      have hlen := congrArg List.length hsplit
      simp only [List.length_cons, List.length_append, List.length_nil] at hlen
      omega
  | cons y ys =>
    cases ys with
    | nil => simp at hrest
    | cons z zs => simp at hrest

/-- A head behind the last checkpoint of the first segment leaves that segment in the index, without
a first checkpoint: the search for 128 has a miss in front of a hit. -/
theorem EntryIndex.not_floors : ¬ ∀ segs : List (SegmentId × SegmentIndex),
    ((EntryIndex.build segs).positions.Pairwise fun p q => p.checkpoint < q.checkpoint) →
    (∀ s ∈ segs.dropLast, s.2.checkpoints ≠ []) → ∀ ts done, done <+: ts →
      ((EntryIndex.build segs).truncated done).Floors
        (leftOf (EntryIndex.build segs).positions done) := by
  intro hall
  have hprobed := (hall populated (by decide) (by decide) [.start ⟨100⟩] _ (List.prefix_refl _)).probed
  have hslice := (hprobed ⟨128⟩).segments
  rw [Partitioned] at hslice
  exact absurd hslice (by decide +kernel)

end
end Woodshed
