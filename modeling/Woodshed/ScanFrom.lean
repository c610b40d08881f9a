import Woodshed.Reading

/-! Where a scan of a session starts, and which of the stored entries it yields. -/
namespace Woodshed
open Framing

section
variable [Crates]
variable {s : Store} {d : Dir} {es : List Entry} {log : SegmentId → List Entry}
  {active : SegmentEntry}

/-- What reading relies on in a running store. -/
structure Readable (s : Store) (d : Dir) (es : List Entry) (log : SegmentId → List Entry)
    (active : SegmentEntry) : Prop extends Running s d es log active where
  whole : Whole s.state log
  ordered : Ordered s.state log
  index : IndexOk s.index s.state log

theorem Session.readable (h : Session s d es log active) : Readable s d es log active :=
  ⟨h.toRunning, h.whole, h.ordered, h.index⟩

omit [Crates] in
/-- The index has a checkpoint of the segment `id` that is not behind `target`. -/
def EntryIndex.Reaches (x : EntryIndex) (id : SegmentId) (target : EntryId) : Prop :=
  ∃ t ∈ x.segments, t.1 = id ∧ ∃ c ∈ t.2.checkpoints, c.1 ≤ target

/-- A scan starts at the last live segment with a checkpoint up to the target, or at the first
segment of all. -/
theorem Readable.scanStart (h : Readable s d es log active) (target : EntryId) :
    ∃ older seg newer offset, s.scanStart target = some (seg.id, offset) ∧
      s.state.segments = older ++ seg :: newer ∧ (older = [] ∨ s.index.Reaches seg.id target) ∧
      ∀ later ∈ newer, ¬ s.index.Reaches later.id target := by
  unfold Store.scanStart
  cases hfind : s.index.find target with
  | none =>
    -- no checkpoint is up to the target
    have hnone := h.index.sorted.find_none hfind
    obtain ⟨seg, newer, hsegs⟩ := List.exists_cons_of_ne_nil h.kept.shaped.nonempty
    refine ⟨[], seg, newer, magicLen, ?_, hsegs, Or.inl rfl, ?_⟩
    · rw [hsegs]
      rfl
    · rintro later _ ⟨t, ht, _, c, hc, hle⟩
      exact absurd hle (not_le.mpr (hnone t ht c hc))
  | some pos =>
    obtain ⟨t, ht, hid, hmem, hle, hmax⟩ := h.index.sorted.find_some hfind
    have hlive := h.index.live t ht (List.ne_nil_of_mem hmem)
    obtain ⟨seg, hseg, hsegid⟩ := (lists_iff _ _).mp hlive
    obtain ⟨older, newer, hsplit⟩ := List.append_of_mem hseg
    have hstart : some (pos.segment, pos.byteOffset) = some (seg.id, pos.byteOffset) := by
      rw [← hid, hsegid]
    refine ⟨older, seg, newer, pos.byteOffset, hstart, hsplit,
      Or.inr ⟨t, ht, hsegid.symm, _, hmem, hle⟩, ?_⟩
    -- a checkpoint of a later segment has a larger id than the one found
    rintro later hlater ⟨u, hu, huid, c, hc, hct⟩
    obtain ⟨e, he, hce⟩ := (h.index.marks t ht _ hmem).mem
    obtain ⟨f, hf, hcf⟩ := (h.index.marks u hu c hc).mem
    have hacross := h.ordered.across_ids
    rw [hsplit] at hacross
    have hlt := (List.pairwise_cons.mp (List.pairwise_append.mp hacross).2.1).1 later hlater e
      (hsegid ▸ he) f (huid ▸ hf)
    rw [← hce, ← hcf] at hlt
    exact absurd (hmax u hu c hc hct) (not_le.mpr hlt)

/-- An indexed segment holds an entry up to the target. -/
theorem IndexOk.reaches {x : EntryIndex} {st : StoreState} (h : IndexOk x st log) {id : SegmentId}
    {target : EntryId} (hr : x.Reaches id target) : ∃ e ∈ log id, e.1 ≤ target := by
  obtain ⟨t, ht, rfl, c, hc, hle⟩ := hr
  obtain ⟨e, he, hce⟩ := (h.marks t ht c hc).mem
  exact ⟨e, he, hce ▸ hle⟩

omit [Crates] in
theorem entriesFrom_append (target : EntryId) (xs ys : List Entry) :
    entriesFrom target (xs ++ ys) = entriesFrom target xs ++ entriesFrom target ys :=
  List.filter_append xs ys

omit [Crates] in
theorem entriesFrom_eq_nil (target : EntryId) (xs : List Entry) :
    entriesFrom target xs = [] ↔ ∀ e ∈ xs, e.1 < target := by
  rw [entriesFrom, List.filter_eq_nil_iff]
  simp only [decide_eq_true_eq, not_le]

omit [Crates] in
theorem entriesFrom_eq_self (target : EntryId) (xs : List Entry) :
    entriesFrom target xs = xs ↔ ∀ e ∈ xs, target ≤ e.1 := by
  rw [entriesFrom, List.filter_eq_self]
  simp only [decide_eq_true_eq]

omit [Crates] in
/-- The last of ascending entries. -/
theorem le_of_getLast {xs : List Entry} (h : xs.Pairwise fun a b => a.1 < b.1) {e last : Entry}
    (hlast : xs.getLast? = some last) (he : e ∈ xs) : e.1 ≤ last.1 := by
  obtain ⟨front, rfl⟩ := List.getLast?_eq_some_iff.mp hlast
  rcases List.mem_append.mp he with he | he
  · exact ((List.pairwise_append.mp h).2.2 e he last (by simp)).le
  · rw [List.mem_singleton.mp he]

omit [Crates] in
/-- The last of ascending entries is before `target` just when all are. -/
theorem last_lt_iff {xs : List Entry} (h : xs.Pairwise fun a b => a.1 < b.1) (target : EntryId) :
    (∀ e, xs.getLast? = some e → e.1 < target) ↔ ∀ e ∈ xs, e.1 < target := by
  rcases List.eq_nil_or_concat xs with rfl | ⟨front, last, rfl⟩
  · simp
  · rw [List.concat_eq_append] at h ⊢
    rw [List.getLast?_concat]
    constructor
    · intro hlast e he
      have hl := hlast last rfl
      rcases List.mem_append.mp he with he | he
      · exact ((List.pairwise_append.mp h).2.2 e he last (by simp)).trans hl
      · rw [List.mem_singleton.mp he]
        exact hl
    · rintro hall e ⟨⟩
      exact hall _ (by simp)

/-- What a scan from an id not before the head yields: nothing when all entries are before it, else
the entries of the start segment from it on, and all entries of later segments. -/
theorem Readable.yields (h : Readable s d es log active) {target : EntryId}
    (hge : s.state.firstEntry ≤ target) :
    (∀ e ∈ liveLog s.state log, e.1 < target) ∧ Machine.Yields ⟨s, calm d⟩ target [] ∨
    ¬ (∀ e ∈ liveLog s.state log, e.1 < target) ∧ ∃ older seg newer,
      s.state.segments = older ++ seg :: newer ∧
      (older = [] ∨ s.index.Reaches seg.id target) ∧
      (∀ later ∈ newer, ¬ s.index.Reaches later.id target) ∧
      Machine.Yields ⟨s, calm d⟩ target
        (entriesFrom target (log seg.id) ++ newer.flatMap fun seg => log seg.id) := by
  have hmax : max target s.state.firstEntry = target := max_eq_left hge
  have hall := (h.lastEntry_all hge).trans (last_lt_iff h.ordered.liveLog target)
  by_cases hlast : s.lastEntry.all (fun last => decide (last < target)) = true
  · left
    exact ⟨hall.mp hlast, Machine.yields_nil (by rw [hmax]; exact hlast)⟩
  · right
    refine ⟨fun hbefore => hlast (hall.mpr hbefore), ?_⟩
    obtain ⟨older, seg, newer, offset, hstart, hsplit, hreach, hlater⟩ := h.scanStart target
    have hseg : seg ∈ s.state.segments := by
      rw [hsplit]
      simp
    have hyields := yields_from target h.kept.shaped.nodup h.kept.holds h.whole
      (by rw [hmax]; exact hlast) (by rw [hmax]; exact hstart) hsplit
    rw [hmax, dropWhile_entriesFrom target (h.ordered.inside seg hseg)] at hyields
    exact ⟨older, seg, newer, hsplit, hreach, hlater, hyields⟩

/-! ### Scans that yield exactly the entries from an id on -/

omit [Crates] in
/-- A live segment behind the first that holds an entry before `target`: it, or one behind it, has
a checkpoint that is not behind `target`. -/
def Covered (x : EntryIndex) (st : StoreState) (log : SegmentId → List Entry) (target : EntryId) :
    Prop :=
  ∀ older seg newer, st.segments = older ++ seg :: newer → older ≠ [] →
    (∃ e ∈ log seg.id, e.1 < target) → ∃ later ∈ seg :: newer, x.Reaches later.id target

omit [Crates] in
/-- Entries from `target` on in segments up to one that holds an entry up to `target`. -/
theorem Ordered.entriesFrom_split {st : StoreState} (h : Ordered st log)
    {older newer : List SegmentEntry} {seg : SegmentEntry} {target : EntryId}
    (hsplit : st.segments = older ++ seg :: newer)
    (hold : older = [] ∨ ∃ e ∈ log seg.id, e.1 ≤ target) :
    entriesFrom target (Woodshed.liveLog st log) = entriesFrom target (log seg.id) ++
      entriesFrom target (newer.flatMap fun seg => log seg.id) := by
  have hnil : entriesFrom target (older.flatMap fun seg => log seg.id) = [] := by
    rw [entriesFrom_eq_nil]
    intro f hf
    obtain ⟨a, ha, hfa⟩ := List.mem_flatMap.mp hf
    rcases hold with rfl | ⟨e, he, hle⟩
    · cases ha
    · have hacross := h.across_ids
      rw [hsplit] at hacross
      exact ((List.pairwise_append.mp hacross).2.2 a ha seg (by simp) f hfa e he).trans_le hle
  rw [Woodshed.liveLog, hsplit, List.flatMap_append, List.flatMap_cons, entriesFrom_append,
    entriesFrom_append, hnil, List.nil_append]

/-- A scan yields exactly the entries from its argument on, just when that is behind the last entry
or the index covers it. -/
theorem Readable.yields_iff (h : Readable s d es log active) {target : EntryId}
    (hge : s.state.firstEntry ≤ target) :
    Machine.Yields ⟨s, calm d⟩ target (entriesFrom target (liveLog s.state log)) ↔
      (∀ e ∈ liveLog s.state log, e.1 < target) ∨ Covered s.index s.state log target := by
  rcases h.yields hge with ⟨hall, hyields⟩ | ⟨hsome, older, seg, newer, hsplit, hreach, hlater, hyields⟩
  · have hnil := (entriesFrom_eq_nil target (liveLog s.state log)).mpr hall
    rw [hnil]
    exact ⟨fun _ => Or.inl hall, fun _ => hyields⟩
  · have hold : older = [] ∨ ∃ e ∈ log seg.id, e.1 ≤ target := hreach.imp_right h.index.reaches
    have hexact : Machine.Yields ⟨s, calm d⟩ target (entriesFrom target (liveLog s.state log)) ↔
        ∀ later ∈ newer, ∀ e ∈ log later.id, target ≤ e.1 := by
      have hall : (∀ later ∈ newer, ∀ e ∈ log later.id, target ≤ e.1) ↔
          ∀ e ∈ newer.flatMap (fun seg => log seg.id), target ≤ e.1 := by
        simp only [List.mem_flatMap]
        constructor
        · rintro hl e ⟨later, hlater, he⟩
          exact hl later hlater e he
        · intro hl later hlater e he
          exact hl e ⟨later, hlater, he⟩
      rw [hall, ← entriesFrom_eq_self, h.ordered.entriesFrom_split hsplit hold]
      constructor
      · intro hy
        exact (List.append_cancel_left (hyields.unique hy)).symm
      · intro heq
        rw [heq]
        exact hyields
    rw [hexact]
    constructor
    · intro hnew
      right
      intro older' seg' newer' hsplit' hne hbefore
      obtain ⟨e, he, hlt⟩ := hbefore
      -- the segment is not behind the one the scan starts at
      rw [hsplit] at hsplit'
      rcases List.append_eq_append_iff.mp hsplit' with ⟨mid, rfl, hmid⟩ | ⟨mid, hmid, hrest⟩
      · cases mid with
        | nil =>
          obtain ⟨rfl, rfl⟩ := List.cons.inj hmid
          refine ⟨seg, by simp, hreach.resolve_left ?_⟩
          intro hnil
          rw [hnil] at hne
          exact hne rfl
        | cons a mid =>
          rw [List.cons_append, List.cons.injEq] at hmid
          exact absurd hlt (not_lt.mpr (hnew seg' (by rw [hmid.2]; simp) e he))
      · cases mid with
        | nil =>
          obtain ⟨rfl, rfl⟩ := List.cons.inj hrest
          rw [List.append_nil] at hmid
          refine ⟨seg', by simp, hreach.resolve_left ?_⟩
          rw [hmid]
          exact hne
        | cons a mid =>
          rw [List.cons_append, List.cons.injEq] at hrest
          refine ⟨seg, by rw [hrest.2]; simp, hreach.resolve_left ?_⟩
          rw [hmid]
          simp
    · intro hcov later hmem e he
      by_contra hlt
      obtain ⟨mid, newer', hnewer⟩ := List.append_of_mem hmem
      obtain ⟨behind, hbehind, hreached⟩ := hcov.resolve_left hsome (older ++ seg :: mid) later
        newer' (by rw [hsplit, hnewer]; simp) (by simp) ⟨e, he, not_le.mp hlt⟩
      have hin : behind ∈ newer := by
        rw [hnewer]
        exact List.mem_append_right _ hbehind
      exact hlater behind hin hreached

/-- A scan from the head yields all entries from it on. -/
theorem Readable.yields_head (h : Readable s d es log active) (hh : Headed s.state log) :
    Machine.Yields ⟨s, calm d⟩ s.state.firstEntry
      (entriesFrom s.state.firstEntry (liveLog s.state log)) := by
  refine (h.yields_iff le_rfl).mpr (Or.inr ?_)
  rintro older seg newer hsplit hne ⟨e, he, hlt⟩
  have htail : seg ∈ s.state.segments.tail := by
    obtain ⟨a, rest, rfl⟩ := List.exists_cons_of_ne_nil hne
    rw [hsplit, List.cons_append, List.tail_cons]
    simp
  exact absurd (hh seg htail e he) (not_le.mpr hlt)

/-- An index with the checkpoints of all live entries covers every id. -/
theorem covered_indexOf (st : StoreState) (log : SegmentId → List Entry)
    (ho : ∀ seg ∈ st.segments, (log seg.id).Pairwise fun a b => a.1 < b.1) (target : EntryId) :
    Covered (indexOf st log) st log target := by
  rintro older seg newer hsplit _ ⟨e, he, hlt⟩
  have hseg : seg ∈ st.segments := by
    rw [hsplit]
    simp
  refine ⟨seg, by simp, (seg.id, ⟨checkpointsOf (log seg.id)⟩), List.mem_map_of_mem hseg, rfl, ?_⟩
  -- the first entry of the segment is one of its checkpoints
  have hasc := ho seg hseg
  cases hlog : log seg.id with
  | nil =>
    rw [hlog] at he
    cases he
  | cons first rest =>
    refine ⟨_, FrameScanner.checkpointsFrom_head indexStride magicLen first rest, ?_⟩
    rw [hlog] at he hasc
    rcases List.mem_cons.mp he with rfl | he
    · exact hlt.le
    · exact ((List.pairwise_cons.mp hasc).1 e he).le.trans hlt.le

end
end Woodshed
