import Woodshed.Session

/-! The calls that record something in the manifest: advancing the head, deleting dead segments,
writing metadata. Each keeps a session, and the entries from the head on. -/
namespace Woodshed
open Sequencing Framing

section
variable [Crates]

/-! ### Recording an op -/

/-- A directory that keeps a state after its op was appended to the manifest. -/
theorem Kept.append {d : Dir} {es : List Entry} {st st' : StoreState}
    {log : SegmentId → List Entry} {active : SegmentEntry} {op : ManifestOp}
    (hp : d.present = true) (hrec : Recorded d es st) (hfit : Fits (opFrame op))
    (ha : StoreState.apply op st = .ok ⟨⟩ st') (hshape : Shaped st' active) (hholds : Holds d st' log)
    (hseals : SealsOk st' log) (hfiled : Filed d st')
    (hroom : ∀ id, st'.lists id = true ∨ id ∈ st'.dead → id.val.toNat+1 < 2^32) :
    Kept (d.appended (manifestEnd es) op) (es ++ [opFrame op]) st' log active := by
  have hdiff := d.differs_appended (manifestEnd es) op
  refine ⟨hdiff.present.trans hp, hrec.append hfit ha, hshape, ?_, hseals, hfiled.differs hdiff,
    hroom⟩
  intro seg hseg
  rw [hdiff.bytes _ (segmentPath_ne_manifest _)]
  exact hholds seg hseg

/-- The store behind an append to its manifest. -/
def Store.recorded (s : Store) (op : ManifestOp) (st' : StoreState) : Store :=
  { s with
    state := st'
    manifestCursor := ⟨⟨[]⟩, s.manifestCursor.position+(frame (opFrame op)).length⟩ }

theorem Running.appendOp {s : Store} {d d₁ : Dir} {es : List Entry}
    {log : SegmentId → List Entry} {active : SegmentEntry} (h : Running s d es log active)
    {op : ManifestOp} {st' : StoreState} (ha : StoreState.apply op s.state = .ok ⟨⟩ st')
    (message : String) :
    Store.appendOp op message ⟨s, calm d₁⟩ =
      .ok ⟨⟩ ⟨s.recorded op st', calm (d₁.appended (manifestEnd es) op)⟩ := by
  have happend := Store.appendOp_ok (w := calm d₁) message h.manifestCursor rfl rfl ha
  rw [happend, Store.recorded, h.manifestCursor]
  rfl

/-! ### Segments that die -/

omit [Crates] in
/-- A state without the segments in `drop`, which are dead instead. -/
def killed (st : StoreState) (drop : List SegmentId) : StoreState :=
  { st with
    segments := st.segments.filter fun seg => decide (seg.id ∉ drop)
    seals := fun id => if id ∈ drop then none else st.seals id
    dead := drop.toFinset ∪ st.dead }

omit [Crates] in
theorem foldl_killSegment (drop : List SegmentId) (st : StoreState) :
    drop.foldl StoreState.killSegment st = killed st drop := by
  induction drop generalizing st with
  | nil => simp [killed]
  | cons id drop ih =>
    rw [List.foldl_cons, ih]
    ext1
    · simp only [killed, StoreState.killSegment, List.filter_filter]
      apply List.filter_congr
      intro seg _
      rw [Bool.eq_iff_iff]
      simp only [Bool.and_eq_true, decide_eq_true_eq, List.mem_cons, not_or]
      exact and_comm
    · funext other
      simp only [killed, StoreState.killSegment, List.mem_cons]
      by_cases hd : other ∈ drop
      · simp [hd]
      · by_cases he : other = id
        · simp [he]
        · simp [hd, he]
    · rfl
    · ext other
      simp only [killed, StoreState.killSegment, List.toFinset_cons, Finset.mem_union,
        Finset.mem_insert]
      tauto
    · rfl
    · rfl

omit [Crates] in
theorem lists_killed (st : StoreState) (drop : List SegmentId) (id : SegmentId) :
    (killed st drop).lists id = true ↔ st.lists id = true ∧ id ∉ drop := by
  rw [lists_iff, lists_iff]
  simp only [killed, List.mem_filter, decide_eq_true_eq]
  constructor
  · rintro ⟨seg, ⟨hseg, hnot⟩, rfl⟩
    exact ⟨⟨seg, hseg, rfl⟩, hnot⟩
  · rintro ⟨⟨seg, hseg, rfl⟩, hnot⟩
    exact ⟨seg, ⟨hseg, hnot⟩, rfl⟩

omit [Crates] in
theorem mem_killed {st : StoreState} {drop : List SegmentId} {seg : SegmentEntry}
    (h : seg ∈ (killed st drop).segments) : seg ∈ st.segments :=
  List.mem_of_mem_filter h

omit [Crates] in
/-- Live or dead is what was live or dead before. -/
theorem known_killed {st : StoreState} {drop : List SegmentId}
    (hdrop : ∀ id ∈ drop, st.lists id = true) (id : SegmentId) :
    (killed st drop).lists id = true ∨ id ∈ (killed st drop).dead ↔
      st.lists id = true ∨ id ∈ st.dead := by
  have hd := hdrop id
  rw [lists_killed]
  simp only [killed, Finset.mem_union, List.mem_toFinset]
  tauto

omit [Crates] in
theorem Shaped.killed {st : StoreState} {active : SegmentEntry} (h : Shaped st active)
    {drop : List SegmentId} (hactive : active.id ∉ drop) : Shaped (killed st drop) active := by
  refine ⟨?_, ?_, h.activeId, ?_, ?_⟩
  · change (st.segments.filter fun seg => decide (seg.id ∉ drop)).getLast? = some active
    rw [h.split, List.filter_append]
    simp [hactive]
  · exact h.nodup.sublist (List.filter_sublist.map _)
  · intro id
    have hs := h.seals id
    rw [lists_killed]
    change (if id ∈ drop then none else st.seals id).isSome = true ↔ _
    by_cases hid : id ∈ drop
    · simp [hid]
    · rw [if_neg hid, hs]
      simp [hid]
  · intro id hid
    have hnot : ¬ (Woodshed.killed st drop).lists id = true := by
      rw [lists_killed]
      rintro ⟨hl, hnd⟩
      rcases Finset.mem_union.mp hid with hid | hid
      · exact hnd (List.mem_toFinset.mp hid)
      · rw [h.dead id hid] at hl
        cases hl
    exact Bool.eq_false_iff.mpr hnot

omit [Crates] in
theorem Filed.killed {d : Dir} {st : StoreState} (h : Filed d st) {drop : List SegmentId}
    (hdrop : ∀ id ∈ drop, st.lists id = true)
    (hfiles : ∀ id ∈ drop, segmentPath id ∈ d.files) : Filed d (killed st drop) := by
  refine ⟨?_, ?_⟩
  · intro name hname id hid
    obtain ⟨hcanon, hknown⟩ := h.known name hname id hid
    exact ⟨hcanon, (known_killed hdrop id).mpr hknown⟩
  · intro id hid
    rcases Finset.mem_union.mp hid with hid | hid
    · exact hfiles id (List.mem_toFinset.mp hid)
    · exact h.found id hid

theorem SealsOk.killed {st : StoreState} {log : SegmentId → List Entry} (h : SealsOk st log)
    (drop : List SegmentId) : SealsOk (killed st drop) log := by
  intro seg hseg info hi
  have hnot : seg.id ∉ drop := of_decide_eq_true (List.mem_filter.mp hseg).2
  refine h seg (mem_killed hseg) info ?_
  rw [← hi]
  exact (if_neg hnot).symm

/-! ### Advancing the head -/

omit [Crates] in
/-- The segments `truncate_start` evicts. -/
def toEvict (st : StoreState) (first : EntryId) : List SegmentId :=
  (st.segments.filter fun seg =>
    (st.sealInfo seg.id).any fun info => decide (info.lastEntry < first)).map (·.id)

/-- The op `truncate_start` records. -/
def headOp (st : StoreState) (first : EntryId) (metaPairs : Meta) : ManifestOp :=
  ManifestOp.withMeta (.truncateStart first (toEvict st first)) metaPairs

/-- The state with its head advanced. -/
def advanced (st : StoreState) (first : EntryId) (metaPairs : Meta) : StoreState :=
  { killed st (toEvict st first) with
    firstEntry := first
    metaPairs := metaPairs.foldl StoreState.setMeta st.metaPairs }

omit [Crates] in
theorem apply_headOp {st : StoreState} {first : EntryId} (metaPairs : Meta)
    (h : st.firstEntry ≤ first) :
    StoreState.apply (headOp st first metaPairs) st = .ok ⟨⟩ (advanced st first metaPairs) := by
  have hop : StoreState.applyOp (.truncateStart first (toEvict st first)) st =
      .ok ⟨⟩ { killed st (toEvict st first) with firstEntry := first } := by
    rw [StoreState.applyOp, StoreState.truncateStart, get_bind]
    refine (congrFun (if_neg (not_lt.mpr h)) _).trans ?_
    rw [modify_apply, foldl_killSegment]
  rw [headOp, StoreState.apply, ManifestOp.withMeta, bind_ok hop]
  rfl

section
variable {s : Store} {d : Dir} {es : List Entry} {log : SegmentId → List Entry}
  {active : SegmentEntry}

omit [Crates] in
theorem mem_toEvict {st : StoreState} {first : EntryId} {id : SegmentId} :
    id ∈ toEvict st first ↔ st.lists id = true ∧
      ∃ info, st.seals id = some info ∧ info.lastEntry < first := by
  simp only [toEvict, List.mem_map, List.mem_filter, lists_iff, Option.any_eq_true,
    decide_eq_true_eq, StoreState.sealInfo]
  constructor
  · rintro ⟨seg, ⟨hseg, info, hi, hlt⟩, rfl⟩
    exact ⟨⟨seg, hseg, rfl⟩, info, hi, hlt⟩
  · rintro ⟨⟨seg, hseg, rfl⟩, info, hi, hlt⟩
    exact ⟨seg, ⟨hseg, info, hi, hlt⟩, rfl⟩

/-- All entries of an evicted segment are before the new head. -/
theorem evicted_before (hs : SealsOk s.state log) (ho : Ordered s.state log) {first : EntryId}
    {id : SegmentId} (h : id ∈ toEvict s.state first) : ∀ e ∈ log id, e.1 < first := by
  obtain ⟨hl, info, hi, hlt⟩ := mem_toEvict.mp h
  obtain ⟨seg, hseg, rfl⟩ := (lists_iff _ _).mp hl
  obtain ⟨_, last, hlast, hle⟩ := hs seg hseg info hi
  intro e he
  obtain ⟨front, hfront⟩ := List.getLast?_eq_some_iff.mp hlast
  have hasc := ho.inside seg hseg
  rw [hle] at hlt
  rw [hfront] at he hasc
  rcases List.mem_append.mp he with he | he
  · exact ((List.pairwise_append.mp hasc).2.2 e he last (by simp)).trans hlt
  · rw [List.mem_singleton.mp he]
    exact hlt

omit [Crates] in
/-- Entries that a filter keeps are in segments that stay. -/
theorem filter_liveLog_killed (st : StoreState) (log : SegmentId → List Entry)
    (drop : List SegmentId) (p : Entry → Bool) (h : ∀ id ∈ drop, ∀ e ∈ log id, p e = false) :
    (liveLog (killed st drop) log).filter p = (liveLog st log).filter p := by
  have hempty : ∀ id ∈ drop, (log id).filter p = [] := by
    intro id hid
    rw [List.filter_eq_nil_iff]
    intro e he
    rw [h id hid e he]
    decide
  have hsegs (segs : List SegmentEntry) :
      (segs.filter fun seg => decide (seg.id ∉ drop)).flatMap (fun seg => (log seg.id).filter p) =
        segs.flatMap fun seg => (log seg.id).filter p := by
    induction segs with
    | nil => rfl
    | cons seg segs ih =>
      by_cases hd : seg.id ∈ drop
      · rw [List.filter_cons_of_neg (by simpa using hd), ih, List.flatMap_cons, hempty seg.id hd,
          List.nil_append]
      · rw [List.filter_cons_of_pos (by simpa using hd), List.flatMap_cons, List.flatMap_cons, ih]
  rw [liveLog, liveLog, List.filter_flatMap, List.filter_flatMap]
  exact hsegs st.segments

/-- The first segment that stays reaches up to the new head. -/
theorem headed_advanced {st : StoreState} (hk : Kept d es st log active) {first : EntryId}
    {metaPairs : Meta} (hs : Shaped (advanced st first metaPairs) active) (ho : Ordered st log) :
    Headed (advanced st first metaPairs) log := by
  intro seg hseg e he
  have hsegs : (advanced st first metaPairs).segments =
      st.segments.filter fun seg => decide (seg.id ∉ toEvict st first) := rfl
  obtain ⟨front, rest, hcons⟩ := List.exists_cons_of_ne_nil hs.nonempty
  rw [hcons, List.tail_cons] at hseg
  have hfront : front ∈ st.segments ∧ front.id ∉ toEvict st first := by
    have hmem : front ∈ (advanced st first metaPairs).segments := by
      rw [hcons]
      simp
    rw [hsegs] at hmem
    exact ⟨List.mem_of_mem_filter hmem, of_decide_eq_true (List.mem_filter.mp hmem).2⟩
  -- it is not the active one, for that is the last
  have hne : front ≠ active := by
    have hnd := hs.nodup
    have hlast := hs.last
    rw [hcons] at hnd hlast
    have hx := List.getLast?_eq_some_getLast (List.ne_nil_of_mem hseg)
    rw [List.getLast?_cons, hx, Option.getD_some, Option.some.injEq] at hlast
    rintro rfl
    refine (List.nodup_cons.mp hnd).1 (List.mem_map_of_mem ?_)
    rw [← hlast]
    exact List.getLast_mem _
  obtain ⟨info, last, hi, hlast, hle⟩ := hk.sealsOk.full hk.shaped hfront.1 hne
  have hge : first ≤ last.1 := by
    by_contra hlt
    refine hfront.2 (mem_toEvict.mpr ⟨lists_of_mem hfront.1, info, hi, ?_⟩)
    rw [hle]
    exact not_le.mp hlt
  have hacross := ho.across_ids.sublist (List.filter_sublist
    (p := fun seg => decide (seg.id ∉ toEvict st first)))
  rw [← hsegs, hcons] at hacross
  exact hge.trans ((List.pairwise_cons.mp hacross).1 seg hseg last (List.mem_of_getLast? hlast) e
    he).le

/-- Advancing the head keeps a session, and the entries from the new head on. -/
theorem Session.truncateStart (h : Session s d es log active) {first : EntryId} {metaPairs : Meta}
    (hfirst : s.state.firstEntry ≤ first) (hfit : Fits (opFrame (headOp s.state first metaPairs))) :
    ∃ s' d' es', Store.truncateStart first metaPairs ⟨s, calm d⟩ = .ok ⟨⟩ ⟨s', calm d'⟩ ∧
      Session s' d' es' log active ∧ s'.state = advanced s.state first metaPairs ∧
      s'.cfg = s.cfg ∧ s'.index = s.index.truncateStart first ∧
      (∀ p : Entry → Bool, (∀ e, e.1 < first → p e = false) →
        (liveLog s'.state log).filter p = (liveLog s.state log).filter p) ∧
      Headed s'.state log := by
  set st' := advanced s.state first metaPairs with hst'
  set drop := toEvict s.state first with hdrop
  have hshape := h.kept.shaped
  have hlive : ∀ id ∈ drop, s.state.lists id = true := fun id hid => (mem_toEvict.mp hid).1
  have hactive : active.id ∉ drop := by
    intro hin
    obtain ⟨_, info, hi, _⟩ := mem_toEvict.mp hin
    rw [hshape.unsealed] at hi
    cases hi
  have hbefore : ∀ id ∈ drop, ∀ e ∈ log id, e.1 < first := fun id hid =>
    evicted_before h.kept.sealsOk h.ordered hid
  have hfiles : ∀ id ∈ drop, segmentPath id ∈ d.files := by
    intro id hid
    obtain ⟨seg, hseg, rfl⟩ := (lists_iff _ _).mp (hlive id hid)
    exact Dir.mem_of_bytes (h.kept.holds seg hseg)
  have hkilled := hshape.killed hactive
  have hshape' : Shaped st' active :=
    ⟨hkilled.last, hkilled.nodup, hkilled.activeId, hkilled.seals, hkilled.dead⟩
  have hfiled := h.kept.filed.killed hlive hfiles
  have ha := apply_headOp metaPairs hfirst
  have hkept : Kept (d.appended (manifestEnd es) (headOp s.state first metaPairs))
      (es ++ [opFrame (headOp s.state first metaPairs)]) st' log active := by
    refine Kept.append h.kept.present h.kept.recorded hfit ha hshape' ?_ ?_
      ⟨hfiled.known, hfiled.found⟩ ?_
    · exact fun seg hseg => h.kept.holds seg (mem_killed hseg)
    · exact h.kept.sealsOk.killed drop
    · exact fun id hid => h.kept.room id ((known_killed hlive id).mp hid)
  have hfilter : ∀ p : Entry → Bool, (∀ e, e.1 < first → p e = false) →
      (liveLog st' log).filter p = (liveLog s.state log).filter p := by
    intro p hp
    exact filter_liveLog_killed s.state log drop p fun id hid e he => hp e (hbefore id hid e he)
  set s' : Store := { s.recorded (headOp s.state first metaPairs) st' with
    segments := s.segments \ drop.toFinset
    index := s.index.truncateStart first } with hs'
  refine ⟨s', _, _, ?_, ⟨⟨hkept, ?_, h.activeId, h.activeFirst, h.position, ?_, h.pending, ?_⟩,
    ?_, ?_, ?_, h.idle, ?_⟩, rfl, rfl, rfl, hfilter,
    headed_advanced h.kept hshape' h.ordered⟩
  · unfold Store.truncateStart
    rw [get_bind]
    dsimp only
    refine (congrFun (if_neg (not_lt.mpr hfirst)) _).trans ?_
    exact bind_ok (h.appendOp ha _)
  · change FrameCursor.mk ⟨[]⟩ (s.manifestCursor.position+_) = _
    rw [manifestEnd_snoc, h.manifestCursor]
  · intro id hid
    exact h.next id ((known_killed hlive id).mp hid)
  · -- the active segment stays, and it has the last entry if there is any
    change s.lastEntryId = (liveLog st' log).getLast?.map (·.1) ∨ liveLog st' log = [] ∧ _
    by_cases hnil : log active.id = []
    · have hone := (h.start hnil).1
      have hnone : liveLog s.state log = [] := by simp [liveLog, hone, hnil]
      have hnone' : liveLog st' log = [] := by
        rw [liveLog_split hshape', hnil, List.append_nil, List.flatMap_eq_nil_iff]
        intro seg hseg
        have hmem := mem_killed (List.mem_of_mem_dropLast hseg)
        rw [hone, List.mem_singleton] at hmem
        rw [hmem, hnil]
      rcases h.last with hl | ⟨_, hl⟩
      · left
        rw [hl, hnone, hnone']
      · right
        exact ⟨hnone', fun x hx => (hl x hx).trans_le hfirst⟩
    · obtain ⟨e, he⟩ : ∃ e, (log active.id).getLast? = some e :=
        ⟨_, List.getLast?_eq_some_getLast hnil⟩
      left
      rcases h.last with hl | ⟨hl, _⟩
      · rw [hl, liveLog_split hshape, liveLog_split hshape', List.getLast?_append,
          List.getLast?_append, he]
        rfl
      · rw [liveLog_split hshape] at hl
        exact absurd (List.append_eq_nil_iff.mp hl).2 hnil
  · exact fun seg hseg => h.whole seg (mem_killed hseg)
  · exact ⟨fun seg hseg => h.ordered.inside seg (mem_killed hseg),
      fun seg hseg => h.ordered.first seg (mem_killed hseg),
      h.ordered.across.sublist List.filter_sublist⟩
  · obtain ⟨hsorted, hwithin⟩ := h.index.sorted.truncateStart first
    refine ⟨hsorted, ?_, ?_⟩
    · intro x hx hne
      obtain ⟨c, hc⟩ := List.exists_mem_of_ne_nil _ hne
      obtain ⟨t, ht, heq, hsub⟩ := hwithin x hx
      obtain ⟨hct, hge⟩ := hsub c hc
      rw [heq]
      refine (lists_killed s.state drop t.1).mpr ⟨h.index.live t ht (List.ne_nil_of_mem hct), ?_⟩
      intro hin
      obtain ⟨e, he, hce⟩ := (h.index.marks t ht c hct).mem
      have hlt := hbefore t.1 hin e he
      rw [← hce] at hlt
      exact absurd hge (not_le.mpr hlt)
    · intro x hx c hc
      obtain ⟨t, ht, heq, hsub⟩ := hwithin x hx
      rw [heq]
      exact h.index.marks t ht c (hsub c hc).1
  · intro hnil
    obtain ⟨hone, hzero⟩ := h.start hnil
    refine ⟨?_, hzero⟩
    change s.state.segments.filter (fun seg => decide (seg.id ∉ drop)) = [active]
    rw [hone]
    simp [hactive]

/-- A head before the current one is refused, and nothing changes. -/
theorem Store.truncateStart_refused {m : Machine} {first : EntryId} (metaPairs : Meta)
    (h : first < m.store.state.firstEntry) :
    Store.truncateStart first metaPairs m = .error (.err ⟨.invalidInput,
      "truncate_start: first_entry is before the current log head"⟩) m := by
  unfold Store.truncateStart
  rw [get_bind]
  exact congrFun (if_pos h) _

/-- From the head on, the op is recorded before anything is evicted. -/
theorem Store.truncateStart_begins {m : Machine} {first : EntryId} (metaPairs : Meta)
    (h : m.store.state.firstEntry ≤ first) :
    Store.truncateStart first metaPairs m =
      (Store.appendOp (headOp m.store.state first metaPairs) "truncate_start was pre-validated" >>=
        fun _ => modify fun m' => { m' with store := { m'.store with
          segments := m'.store.segments \ (toEvict m.store.state first).toFinset
          index := m'.store.index.truncateStart first } }) m := by
  unfold Store.truncateStart
  rw [get_bind]
  exact congrFun (if_neg (not_lt.mpr h)) _

/-! ### Deleting and recording -/

omit [Crates] in
theorem apply_segmentDeleted {st : StoreState} {id : SegmentId} (h : id ∈ st.dead) :
    StoreState.apply (ManifestOp.bare (.segmentDeleted id)) st =
      .ok ⟨⟩ { st with dead := st.dead.erase id } := by
  have hop : StoreState.applyOp (.segmentDeleted id) st =
      .ok ⟨⟩ { st with dead := st.dead.erase id } := by
    rw [StoreState.applyOp, StoreState.segmentDeleted, get_bind]
    exact congrFun (if_pos h) _
  rw [StoreState.apply, ManifestOp.bare, bind_ok hop]
  rfl

/-- A change of the dead segments or the metadata keeps a session. -/
theorem Session.recorded (h : Session s d es log active) (d₁ : Dir) {op : ManifestOp}
    {st' : StoreState} (hfit : Fits (opFrame op)) (ha : StoreState.apply op s.state = .ok ⟨⟩ st')
    (hst : st' = { s.state with dead := st'.dead, metaPairs := st'.metaPairs })
    (hdead : st'.dead ⊆ s.state.dead) (hp : d₁.present = true)
    (hbytes : ∀ name, (∀ id, name = segmentPath id → id ∉ s.state.dead) →
      d₁.bytes name = d.bytes name)
    (hfiled : Filed d₁ st') :
    Session (s.recorded op st') (d₁.appended (manifestEnd es) op) (es ++ [opFrame op]) log active := by
  have hsegs : st'.segments = s.state.segments := by rw [hst]
  have hseals : st'.seals = s.state.seals := by rw [hst]
  have hfirst : st'.firstEntry = s.state.firstEntry := by rw [hst]
  have hlists (id : SegmentId) : st'.lists id = s.state.lists id := by
    rw [StoreState.lists, StoreState.lists, hsegs]
  have hlog : liveLog st' log = liveLog s.state log := by rw [liveLog, liveLog, hsegs]
  have hshape := h.kept.shaped
  have hshape' : Shaped st' active := by
    refine ⟨by rw [hsegs]; exact hshape.last, by rw [hsegs]; exact hshape.nodup, ?_, ?_, ?_⟩
    · rw [hst]
      exact hshape.activeId
    · intro id
      rw [hseals, hlists]
      exact hshape.seals id
    · intro id hid
      rw [hlists]
      exact hshape.dead id (hdead hid)
  have hrec : Recorded d₁ es s.state := by
    refine ⟨?_, h.kept.recorded.fits, h.kept.recorded.replays⟩
    rw [hbytes _ fun id hid => absurd hid.symm (segmentPath_ne_manifest id)]
    exact h.kept.recorded.manifest
  have hkept : Kept (d₁.appended (manifestEnd es) op) (es ++ [opFrame op]) st' log active := by
    refine Kept.append hp hrec hfit ha hshape' ?_ ?_ hfiled ?_
    · intro seg hseg
      rw [hsegs] at hseg
      rw [hbytes]
      · exact h.kept.holds seg hseg
      · intro id hid hin
        rw [← segmentPath_injective hid] at hin
        have hl := hshape.dead _ hin
        rw [lists_of_mem hseg] at hl
        cases hl
    · intro seg hseg info hi
      rw [hsegs] at hseg
      rw [hseals] at hi
      exact h.kept.sealsOk seg hseg info hi
    · intro id hid
      rw [hlists] at hid
      exact h.kept.room id (hid.imp_right fun hin => hdead hin)
  refine ⟨⟨hkept, ?_, h.activeId, h.activeFirst, h.position, ?_, h.pending, ?_⟩, ?_, ?_, ?_, h.idle,
    ?_⟩
  · change FrameCursor.mk ⟨[]⟩ (s.manifestCursor.position+_) = _
    rw [manifestEnd_snoc, h.manifestCursor]
  · intro id hid
    change st'.lists id = true ∨ id ∈ st'.dead at hid
    rw [hlists] at hid
    exact h.next id (hid.imp_right fun hin => hdead hin)
  · change s.lastEntryId = (liveLog st' log).getLast?.map (·.1) ∨
      liveLog st' log = [] ∧ ∀ x, s.lastEntryId = some x → x < st'.firstEntry
    rw [hlog, hfirst]
    exact h.last
  · intro seg hseg
    exact h.whole seg (hsegs ▸ hseg)
  · refine ⟨fun seg hseg => h.ordered.inside seg (hsegs ▸ hseg),
      fun seg hseg => h.ordered.first seg (hsegs ▸ hseg), ?_⟩
    change st'.segments.Pairwise _
    rw [hsegs]
    exact h.ordered.across
  · exact h.index.grow (fun id hid => (hlists id).trans hid) fun id _ => List.prefix_refl _
  · intro hnil
    change st'.segments = _ ∧ _
    rw [hsegs]
    exact h.start hnil

/-- Writing metadata keeps a session. -/
theorem Session.writeMetadata (h : Session s d es log active) {pairs : Meta}
    (hfit : Fits (opFrame (ManifestOp.withMeta .metadata pairs))) :
    ∃ s' d' es', Store.writeMetadata pairs ⟨s, calm d⟩ = .ok ⟨⟩ ⟨s', calm d'⟩ ∧
      Session s' d' es' log active ∧ s'.cfg = s.cfg ∧ s'.index = s.index ∧
      s'.state = { s.state with
        metaPairs := pairs.foldl StoreState.setMeta s.state.metaPairs } := by
  have ha : StoreState.apply (ManifestOp.withMeta .metadata pairs) s.state =
      .ok ⟨⟩ { s.state with
        metaPairs := pairs.foldl StoreState.setMeta s.state.metaPairs } := rfl
  have hsess := h.recorded d hfit ha rfl (Finset.Subset.refl _) h.kept.present (fun _ _ => rfl)
    ⟨h.kept.filed.known, h.kept.filed.found⟩
  exact ⟨_, _, _, h.appendOp ha _, hsess, rfl, rfl, rfl⟩

/-- Deleting one dead segment keeps a session. -/
theorem Session.deleteDead (h : Session s d es log active) {id : SegmentId}
    (hid : id ∈ s.state.dead) :
    ∃ s' d' es', Store.deleteDead id ⟨s, calm d⟩ = .ok ⟨⟩ ⟨s', calm d'⟩ ∧
      Session s' d' es' log active ∧ s'.cfg = s.cfg ∧ s'.index = s.index ∧
      s'.state = { s.state with dead := s.state.dead.erase id } := by
  have ha := apply_segmentDeleted hid
  have hremove : deleteSegment id (calm d) = .ok () (calm (d.remove (segmentPath id))) := by
    unfold deleteSegment
    rw [bind_ok (attempt_ok (File.remove_calm d _ (h.kept.filed.found id hid)))]
    rfl
  have hfiled : Filed (d.remove (segmentPath id)) { s.state with dead := s.state.dead.erase id } := by
    refine ⟨?_, ?_⟩
    · intro name hname other hother
      obtain ⟨hne, hname⟩ := (Dir.mem_remove d _ _).mp hname
      obtain ⟨hcanon, hknown⟩ := h.kept.filed.known name hname other hother
      refine ⟨hcanon, hknown.imp_right fun hin => Finset.mem_erase.mpr ⟨?_, hin⟩⟩
      rintro rfl
      exact hne hcanon
    · intro other hother
      obtain ⟨hne, hin⟩ := Finset.mem_erase.mp hother
      refine (Dir.mem_remove d _ _).mpr ⟨fun heq => hne (segmentPath_injective heq), ?_⟩
      exact h.kept.filed.found other hin
  have hsess := h.recorded (d.remove (segmentPath id))
    (fits_short _ (by simp [Op.fields]) (by simp [Op.fields])) ha rfl
    (Finset.erase_subset _ _) h.kept.present
    (by
      intro name hname
      rw [Dir.bytes_remove, if_neg]
      rintro rfl
      exact hname id rfl hid) hfiled
  refine ⟨_, _, _, ?_, hsess, rfl, rfl, rfl⟩
  unfold Store.deleteDead
  rw [bind_ok (fs_ok hremove)]
  exact h.appendOp ha _

/-- Deleting all dead segments keeps a session and leaves none. -/
theorem Session.deleteDeadSegments (h : Session s d es log active) :
    ∃ s' d' es', Store.deleteDeadSegments ⟨s, calm d⟩ =
        .ok (Crates.hashIter s.state.dead).length ⟨s', calm d'⟩ ∧
      Session s' d' es' log active ∧ s'.cfg = s.cfg ∧ s'.index = s.index ∧
      s'.state = { s.state with dead := ∅ } := by
  have hloop (ids : List SegmentId) : ∀ (s : Store) (d : Dir) (es : List Entry),
      Session s d es log active → ids.Nodup → (∀ id ∈ ids, id ∈ s.state.dead) →
      ∃ s' d' es', (forM ids Store.deleteDead) ⟨s, calm d⟩ = .ok ⟨⟩ ⟨s', calm d'⟩ ∧
        Session s' d' es' log active ∧ s'.cfg = s.cfg ∧ s'.index = s.index ∧
        s'.state = { s.state with dead := s.state.dead \ ids.toFinset } := by
    induction ids with
    | nil =>
      intro s d es h _ _
      exact ⟨s, d, es, rfl, h, rfl, rfl, by simp⟩
    | cons id ids ih =>
      intro s d es h hnd hin
      obtain ⟨hnot, hnd⟩ := List.nodup_cons.mp hnd
      obtain ⟨s₁, d₁, es₁, hrun₁, h₁, hcfg₁, hindex₁, hst₁⟩ := h.deleteDead (hin id (by simp))
      have hin₁ : ∀ other ∈ ids, other ∈ s₁.state.dead := by
        intro other ho
        rw [hst₁]
        refine Finset.mem_erase.mpr ⟨?_, hin other (by simp [ho])⟩
        rintro rfl
        exact hnot ho
      obtain ⟨s₂, d₂, es₂, hrun₂, h₂, hcfg₂, hindex₂, hst₂⟩ := ih s₁ d₁ es₁ h₁ hnd hin₁
      refine ⟨s₂, d₂, es₂, ?_, h₂, hcfg₂.trans hcfg₁, hindex₂.trans hindex₁, ?_⟩
      · rw [forM_cons, bind_ok hrun₁, hrun₂]
      · rw [hst₂, hst₁]
        dsimp only
        congr 1
        ext other
        simp only [Finset.mem_sdiff, Finset.mem_erase, List.toFinset_cons, Finset.mem_insert]
        tauto
  obtain ⟨s', d', es', hrun, h', hcfg, hindex, hst⟩ := hloop (Crates.hashIter s.state.dead) s d es h
    (Crates.hashIter_nodup _) (fun id hid => (Crates.mem_hashIter _ _).mp hid)
  refine ⟨s', d', es', ?_, h', hcfg, hindex, ?_⟩
  · unfold Store.deleteDeadSegments
    rw [get_bind]
    dsimp only
    rw [bind_ok hrun]
    rfl
  · have hnone : s.state.dead \ (Crates.hashIter s.state.dead).toFinset = ∅ := by
      ext id
      simp [Crates.mem_hashIter]
    rw [hst, hnone]

end

end
end Woodshed
