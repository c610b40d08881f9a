import Woodshed.Trimming

/-! What a running store and its directory have in common whatever the segment files hold, and what
each call does to that and to the manifest. -/
namespace Woodshed
open Sequencing Framing PartitionPoint

section
variable [Crates]

/-- A running store between calls, next to its directory: the last live segment is the active one,
the segment files are those of the live and the dead segments, each live one has its magic number,
and the active cursor is at the end of its file. -/
structure Upright (s : Store) (d : Dir) (active : SegmentEntry) : Prop where
  present : d.present = true
  shaped : Shaped s.state active
  files : ∀ seg ∈ s.state.segments, HasSegment d seg.id
  filed : Filed d s.state
  recorded : s.manifestCursor.buf = ⟨[]⟩
  activeId : s.activeId = active.id
  idle : s.activeCursor.buf = ⟨[]⟩
  position : s.activeCursor.position = (segmentMagic ++ body d active.id).length
  offsets : ∀ x ∈ s.index.segments, ∀ c ∈ x.2.checkpoints, magicLen ≤ c.2

/-- The manifest file is `bytes`, and the manifest cursor is at its end. -/
structure ManifestAt (s : Store) (d : Dir) (bytes : Bytes) : Prop where
  file : d.bytes manifestFileName = some bytes
  cursor : s.manifestCursor = ⟨⟨[]⟩, bytes.length⟩

/-- The frames of `ops` are appended to the manifest, and applied to the state. -/
structure Logged (s : Store) (d : Dir) (s' : Store) (d' : Dir) (ops : List ManifestOp) : Prop where
  manifest : ∀ bytes, ManifestAt s d bytes →
    ManifestAt s' d' (bytes ++ frames.encodeAll (ops.map opFrame))
  replays : ∀ p, replayEntries s.state p (ops.map opFrame) = .ok s'.state

theorem Logged.refl (s : Store) (d : Dir) : Logged s d s d [] :=
  ⟨fun bytes h => by rwa [List.map_nil, Grammar.encodeAll_nil, List.append_nil], fun _ => rfl⟩

theorem Logged.trans {s s' s'' : Store} {d d' d'' : Dir} {ops ops' : List ManifestOp}
    (h : Logged s d s' d' ops) (h' : Logged s' d' s'' d'' ops') :
    Logged s d s'' d'' (ops ++ ops') := by
  refine ⟨fun bytes hb => ?_, fun p => ?_⟩
  · rw [List.map_append, Grammar.encodeAll_append, ← List.append_assoc]
    exact h'.manifest _ (h.manifest bytes hb)
  · rw [List.map_append, replayEntries_append _ _ _ _ p (h.replays p)]
    exact h'.replays _

/-- What is not the manifest, its cursor or the state does not matter to the log. -/
theorem Logged.congr {s s₁ s' s₁' : Store} {d d' : Dir} {ops : List ManifestOp}
    (h : Logged s d s' d' ops) (hc : s₁.manifestCursor = s.manifestCursor)
    (hst : s₁.state = s.state) (hc' : s₁'.manifestCursor = s'.manifestCursor)
    (hst' : s₁'.state = s'.state) : Logged s₁ d s₁' d' ops := by
  refine ⟨fun bytes hb => ?_, fun p => ?_⟩
  · obtain ⟨hbytes, hcursor⟩ := h.manifest bytes ⟨hb.file, hc ▸ hb.cursor⟩
    exact ⟨hbytes, hc'.trans hcursor⟩
  · rw [hst, hst']
    exact h.replays p

/-- Recording one op, in a directory with the same manifest. -/
theorem logged_recorded {s : Store} {d d₁ : Dir} {op : ManifestOp} {st' : StoreState}
    (ha : StoreState.apply op s.state = .ok ⟨⟩ st')
    (hd : d₁.bytes manifestFileName = d.bytes manifestFileName) :
    Logged s d (s.recorded op st') (d₁.appended s.manifestCursor.position op) [op] := by
  refine ⟨fun bytes hb => ?_, fun p => ?_⟩
  · have hpos : s.manifestCursor.position = bytes.length := by rw [hb.cursor]
    have hone : frames.encodeAll ([op].map opFrame) = frame (opFrame op) := by simp
    rw [hone]
    refine ⟨?_, ?_⟩
    · rw [Dir.appended, Dir.bytes_sync, Dir.bytes_writeAt, if_pos rfl, hd, hb.file,
        Option.map_some, hpos, overwrite_end]
    · rw [Store.recorded, hpos, List.length_append]
  · rw [List.map_cons, List.map_nil, replayEntries, opFrame, decode_encode]
    dsimp only
    rw [ha]
    rfl

section
variable {s : Store} {d : Dir} {active : SegmentEntry}

theorem Upright.appendOp (h : Upright s d active) {op : ManifestOp} {st' : StoreState}
    (ha : StoreState.apply op s.state = .ok ⟨⟩ st') (d₁ : Dir) (message : String) :
    Store.appendOp op message ⟨s, calm d₁⟩ =
      .ok ⟨⟩ ⟨s.recorded op st', calm (d₁.appended s.manifestCursor.position op)⟩ := by
  have hcursor : s.manifestCursor = ⟨⟨[]⟩, s.manifestCursor.position⟩ := by rw [← h.recorded]
  exact Store.appendOp_ok (w := calm d₁) message hcursor rfl rfl ha

/-- The segment files are not touched by an append to the manifest. -/
theorem hasSegment_appended {d : Dir} {id : SegmentId} (pos : ℕ) (op : ManifestOp)
    (h : HasSegment d id) : HasSegment (d.appended pos op) id := by
  have hdiff := d.differs_appended pos op
  rw [HasSegment, hdiff.body, hdiff.bytes _ (segmentPath_ne_manifest id)]
  exact h

omit [Crates] in
theorem Upright.activeState (h : Upright s d active) : s.state.activeSegmentId = some s.activeId := by
  rw [h.activeId]
  exact h.shaped.activeId

/-! ### Metadata, and deleting dead segments -/

/-- A change of the dead segments or the metadata. -/
theorem Upright.recorded_same (h : Upright s d active) (d₁ : Dir) {op : ManifestOp}
    {st' : StoreState}
    (hst : st' = { s.state with dead := st'.dead, metaPairs := st'.metaPairs })
    (hdead : st'.dead ⊆ s.state.dead) (hp : d₁.present = true)
    (hbytes : ∀ seg ∈ s.state.segments, d₁.bytes (segmentPath seg.id) = d.bytes (segmentPath seg.id))
    (hfiled : Filed d₁ st') :
    Upright (s.recorded op st') (d₁.appended s.manifestCursor.position op) active := by
  have hsegs : st'.segments = s.state.segments := by rw [hst]
  have hlists (id : SegmentId) : st'.lists id = s.state.lists id := by
    rw [StoreState.lists, StoreState.lists, hsegs]
  have hdiff := d₁.differs_appended s.manifestCursor.position op
  have hshape := h.shaped
  refine ⟨hdiff.present.trans hp, ⟨?_, ?_, ?_, ?_, ?_⟩, ?_, hfiled.differs hdiff, rfl, h.activeId,
    h.idle, ?_, h.offsets⟩
  · exact hsegs ▸ hshape.last
  · exact hsegs ▸ hshape.nodup
  · change st'.activeSegmentId = some active.id
    rw [hst]
    exact hshape.activeId
  · intro id
    change (st'.seals id).isSome = true ↔ st'.lists id = true ∧ _
    rw [hlists, hst]
    exact hshape.seals id
  · intro id hid
    exact (hlists id).trans (hshape.dead id (hdead hid))
  · intro seg hseg
    have hold : seg ∈ s.state.segments := hsegs ▸ hseg
    refine hasSegment_appended _ _ ?_
    have hkeep := h.files seg hold
    rw [HasSegment, body, hbytes seg hold]
    exact hkeep
  · change s.activeCursor.position = _
    rw [hdiff.body, h.position, body, body, hbytes active hshape.mem]

theorem Upright.writeMetadata (h : Upright s d active) (pairs : Meta) :
    ∃ s' d', Store.writeMetadata pairs ⟨s, calm d⟩ = .ok ⟨⟩ ⟨s', calm d'⟩ ∧ Upright s' d' active ∧
      Logged s d s' d' [ManifestOp.withMeta .metadata pairs] := by
  have ha : StoreState.apply (ManifestOp.withMeta .metadata pairs) s.state =
      .ok ⟨⟩ { s.state with
        metaPairs := pairs.foldl StoreState.setMeta s.state.metaPairs } := rfl
  exact ⟨_, _, h.appendOp ha d _, h.recorded_same d rfl (Finset.Subset.refl _) h.present
    (fun _ _ => rfl) ⟨h.filed.known, h.filed.found⟩, logged_recorded ha rfl⟩

theorem Upright.deleteDead (h : Upright s d active) {id : SegmentId} (hid : id ∈ s.state.dead) :
    ∃ s' d', Store.deleteDead id ⟨s, calm d⟩ = .ok ⟨⟩ ⟨s', calm d'⟩ ∧ Upright s' d' active ∧
      Logged s d s' d' [ManifestOp.bare (.segmentDeleted id)] ∧
      s' = { s with state := s'.state, manifestCursor := s'.manifestCursor } ∧
      s'.state = { s.state with dead := s.state.dead.erase id } ∧
      (∀ seg ∈ s.state.segments, d'.bytes (segmentPath seg.id) = d.bytes (segmentPath seg.id)) ∧
      ∀ name, name ∈ d'.files ↔ name ∈ d.files ∧ name ≠ segmentPath id := by
  have ha := apply_segmentDeleted hid
  have hremove : deleteSegment id (calm d) = .ok () (calm (d.remove (segmentPath id))) := by
    unfold deleteSegment
    rw [bind_ok (attempt_ok (File.remove_calm d _ (h.filed.found id hid)))]
    rfl
  have hfiled : Filed (d.remove (segmentPath id)) { s.state with dead := s.state.dead.erase id } := by
    refine ⟨?_, ?_⟩
    · intro name hname other hother
      obtain ⟨hne, hname⟩ := (Dir.mem_remove d _ _).mp hname
      obtain ⟨hcanon, hknown⟩ := h.filed.known name hname other hother
      refine ⟨hcanon, hknown.imp_right fun hin => Finset.mem_erase.mpr ⟨?_, hin⟩⟩
      rintro rfl
      exact hne hcanon
    · intro other hother
      obtain ⟨hne, hin⟩ := Finset.mem_erase.mp hother
      refine (Dir.mem_remove d _ _).mpr ⟨fun heq => hne (segmentPath_injective heq), ?_⟩
      exact h.filed.found other hin
  have hbytes : ∀ seg ∈ s.state.segments,
      (d.remove (segmentPath id)).bytes (segmentPath seg.id) = d.bytes (segmentPath seg.id) := by
    intro seg hseg
    rw [Dir.bytes_remove, if_neg]
    intro heq
    have hl := h.shaped.dead id hid
    rw [← segmentPath_injective heq, lists_of_mem hseg] at hl
    cases hl
  have hmanifest : (d.remove (segmentPath id)).bytes manifestFileName = d.bytes manifestFileName := by
    rw [Dir.bytes_remove, if_neg (segmentPath_ne_manifest id).symm]
  have hdiff := (d.remove (segmentPath id)).differs_appended s.manifestCursor.position
    (ManifestOp.bare (.segmentDeleted id))
  refine ⟨_, _, ?_, h.recorded_same (d.remove (segmentPath id)) rfl (Finset.erase_subset _ _)
    h.present hbytes hfiled, logged_recorded ha hmanifest, rfl, rfl, ?_, ?_⟩
  · unfold Store.deleteDead
    rw [bind_ok (fs_ok hremove)]
    exact h.appendOp ha _ _
  · intro seg hseg
    rw [hdiff.bytes _ (segmentPath_ne_manifest _)]
    exact hbytes seg hseg
  · intro name
    rw [hdiff.mem, Dir.mem_remove, and_comm]

/-- Deleting the dead segments leaves none. -/
theorem Upright.deleteDeadSegments (h : Upright s d active) :
    ∃ s' d', Store.deleteDeadSegments ⟨s, calm d⟩ =
        .ok (Crates.hashIter s.state.dead).length ⟨s', calm d'⟩ ∧ Upright s' d' active ∧
      Logged s d s' d' ((Crates.hashIter s.state.dead).map fun id =>
        ManifestOp.bare (.segmentDeleted id)) ∧
      s' = { s with state := s'.state, manifestCursor := s'.manifestCursor } ∧
      s'.state = { s.state with dead := ∅ } ∧
      (∀ seg ∈ s.state.segments, d'.bytes (segmentPath seg.id) = d.bytes (segmentPath seg.id)) ∧
      ∀ name, name ∈ d'.files ↔ name ∈ d.files ∧ ∀ id ∈ s.state.dead, name ≠ segmentPath id := by
  have hloop (ids : List SegmentId) : ∀ (s : Store) (d : Dir), Upright s d active → ids.Nodup →
      (∀ id ∈ ids, id ∈ s.state.dead) →
      ∃ s' d', (forM ids Store.deleteDead) ⟨s, calm d⟩ = .ok ⟨⟩ ⟨s', calm d'⟩ ∧
        Upright s' d' active ∧
        Logged s d s' d' (ids.map fun id => ManifestOp.bare (.segmentDeleted id)) ∧
        s' = { s with state := s'.state, manifestCursor := s'.manifestCursor } ∧
        s'.state = { s.state with dead := s.state.dead \ ids.toFinset } ∧
        (∀ seg ∈ s.state.segments,
          d'.bytes (segmentPath seg.id) = d.bytes (segmentPath seg.id)) ∧
        ∀ name, name ∈ d'.files ↔ name ∈ d.files ∧ ∀ id ∈ ids, name ≠ segmentPath id := by
    induction ids with
    | nil =>
      intro s d h _ _
      exact ⟨s, d, rfl, h, Logged.refl s d, rfl, by simp, fun _ _ => rfl, by simp⟩
    | cons id ids ih =>
      intro s d h hnd hin
      obtain ⟨hnot, hnd⟩ := List.nodup_cons.mp hnd
      obtain ⟨s₁, d₁, hrun₁, h₁, hlog₁, hsame₁, hst₁, hbytes₁, hmem₁⟩ :=
        h.deleteDead (hin id (by simp))
      have hin₁ : ∀ other ∈ ids, other ∈ s₁.state.dead := by
        intro other ho
        rw [hst₁]
        refine Finset.mem_erase.mpr ⟨?_, hin other (by simp [ho])⟩
        rintro rfl
        exact hnot ho
      have hsegs : s₁.state.segments = s.state.segments := by rw [hst₁]
      obtain ⟨s₂, d₂, hrun₂, h₂, hlog₂, hsame₂, hst₂, hbytes₂, hmem₂⟩ := ih s₁ d₁ h₁ hnd hin₁
      refine ⟨s₂, d₂, ?_, h₂, hlog₁.trans hlog₂, ?_, ?_, ?_, ?_⟩
      · rw [forM_cons, bind_ok hrun₁, hrun₂]
      · rw [hsame₂, hsame₁]
      · rw [hst₂, hst₁]
        dsimp only
        congr 1
        ext other
        simp only [Finset.mem_sdiff, Finset.mem_erase, List.toFinset_cons, Finset.mem_insert]
        tauto
      · intro seg hseg
        rw [hbytes₂ seg (hsegs ▸ hseg), hbytes₁ seg hseg]
      · intro name
        rw [hmem₂, hmem₁, List.forall_mem_cons, and_assoc]
  obtain ⟨s', d', hrun, h', hlog, hsame, hst, hbytes, hmem⟩ := hloop (Crates.hashIter s.state.dead) s d h
    (Crates.hashIter_nodup _) (fun id hid => (Crates.mem_hashIter _ _).mp hid)
  refine ⟨s', d', ?_, h', hlog, hsame, ?_, hbytes, ?_⟩
  · unfold Store.deleteDeadSegments
    rw [get_bind]
    dsimp only
    rw [bind_ok hrun]
    rfl
  · have hnone : s.state.dead \ (Crates.hashIter s.state.dead).toFinset = ∅ := by
      ext id
      simp [Crates.mem_hashIter]
    rw [hst, hnone]
  · intro name
    rw [hmem]
    simp only [Crates.mem_hashIter]

/-! ### Advancing the head -/

/-- The store behind `truncate_start`. -/
def Store.headed (s : Store) (first : EntryId) (metaPairs : Meta) : Store :=
  { s.recorded (headOp s.state first metaPairs) (advanced s.state first metaPairs) with
    segments := s.segments \ (toEvict s.state first).toFinset
    index := s.index.truncateStart first }

omit [Crates] in
/-- What is left of an index has checkpoints of the index. -/
theorem checkpoints_truncateStart (x : EntryIndex) (first : EntryId) :
    ∀ s ∈ (x.truncateStart first).segments, ∃ t ∈ x.segments, s.1 = t.1 ∧
      ∀ c ∈ s.2.checkpoints, c ∈ t.2.checkpoints := by
  intro s hs
  unfold EntryIndex.truncateStart at hs
  dsimp only at hs
  split at hs
  · exact ⟨s, hs, rfl, fun c hc => hc⟩
  · split at hs
    · exact ⟨s, hs, rfl, fun c hc => hc⟩
    · rename_i id idx rest heq
      have hmem : ∀ t ∈ (id, idx) :: rest, t ∈ x.segments := fun t ht =>
        List.mem_of_mem_drop (heq ▸ ht)
      rcases List.mem_cons.mp hs with rfl | hs
      · exact ⟨(id, idx), hmem _ (by simp), rfl, fun c hc => List.mem_of_mem_drop hc⟩
      · exact ⟨s, hmem s (by simp [hs]), rfl, fun c hc => hc⟩

omit [Crates] in
theorem checkpoints_truncateEnd (x : EntryIndex) (last : EntryId) :
    ∀ s ∈ (x.truncateEnd last).segments, ∃ t ∈ x.segments, s.1 = t.1 ∧
      ∀ c ∈ s.2.checkpoints, c ∈ t.2.checkpoints := by
  intro s hs
  unfold EntryIndex.truncateEnd at hs
  dsimp only at hs
  split at hs
  · exact ⟨s, List.mem_of_mem_take hs, rfl, fun c hc => hc⟩
  · rename_i id idx heq
    rcases List.mem_append.mp hs with hs | hs
    · exact ⟨s, List.mem_of_mem_take (List.mem_of_mem_dropLast hs), rfl, fun c hc => hc⟩
    · rw [List.mem_singleton.mp hs]
      exact ⟨(id, idx), List.mem_of_mem_take (List.mem_of_getLast? heq), rfl,
        fun c hc => List.mem_of_mem_take hc⟩

theorem Upright.truncateStart (h : Upright s d active) {first : EntryId} (metaPairs : Meta)
    (hfirst : s.state.firstEntry ≤ first) :
    Store.truncateStart first metaPairs ⟨s, calm d⟩ = .ok ⟨⟩ ⟨s.headed first metaPairs,
        calm (d.appended s.manifestCursor.position (headOp s.state first metaPairs))⟩ ∧
      Upright (s.headed first metaPairs)
        (d.appended s.manifestCursor.position (headOp s.state first metaPairs)) active ∧
      Logged s d (s.headed first metaPairs)
        (d.appended s.manifestCursor.position (headOp s.state first metaPairs))
        [headOp s.state first metaPairs] := by
  set drop := toEvict s.state first with hdrop
  have ha := apply_headOp metaPairs hfirst
  have hlive : ∀ id ∈ drop, s.state.lists id = true := fun id hid => (mem_toEvict.mp hid).1
  have hactive : active.id ∉ drop := by
    intro hin
    obtain ⟨_, info, hi, _⟩ := mem_toEvict.mp hin
    rw [h.shaped.unsealed] at hi
    cases hi
  have hfiles : ∀ id ∈ drop, segmentPath id ∈ d.files := by
    intro id hid
    obtain ⟨seg, hseg, rfl⟩ := (lists_iff _ _).mp (hlive id hid)
    exact Dir.mem_of_bytes (h.files seg hseg)
  have hkilled := h.shaped.killed hactive
  have hfiled := h.filed.killed hlive hfiles
  have hdiff := d.differs_appended s.manifestCursor.position (headOp s.state first metaPairs)
  refine ⟨?_, ⟨hdiff.present.trans h.present,
    ⟨hkilled.last, hkilled.nodup, hkilled.activeId, hkilled.seals, hkilled.dead⟩, ?_,
    Filed.differs ⟨hfiled.known, hfiled.found⟩ hdiff, rfl, h.activeId, h.idle, ?_, ?_⟩,
    (logged_recorded ha rfl).congr rfl rfl rfl rfl⟩
  · unfold Store.truncateStart
    rw [get_bind]
    dsimp only
    refine (congrFun (if_neg (not_lt.mpr hfirst)) _).trans ?_
    exact bind_ok (h.appendOp ha d _)
  · exact fun seg hseg => hasSegment_appended _ _ (h.files seg (mem_killed hseg))
  · change s.activeCursor.position = _
    rw [hdiff.body, h.position]
  · intro x hx c hc
    obtain ⟨t, ht, _, hsub⟩ := checkpoints_truncateStart s.index first x hx
    exact h.offsets t ht c (hsub c hc)

/-! ### Batches -/

omit [Crates] in
theorem buffered_readyFor [Crates] (s : Store) (xs : List Entry) (first : EntryId) :
    (s.buffered xs).readyFor first = (s.readyFor first).buffered xs := by
  unfold Store.readyFor
  by_cases hp : s.rolloverPending = true
  · have hp' : (s.buffered xs).rolloverPending = true := hp
    rw [if_pos hp, if_pos hp']
    rfl
  · have hp' : ¬ (s.buffered xs).rolloverPending = true := hp
    rw [if_neg hp, if_neg hp']

omit [Crates] in
/-- A file that is not there is not one of a live or a dead segment. -/
theorem Upright.unused (h : Upright s d active) {id : SegmentId} (hnew : segmentPath id ∉ d.files) :
    s.state.lists id = false ∧ id ∉ s.state.dead := by
  constructor
  · rw [Bool.eq_false_iff]
    intro hl
    obtain ⟨seg, hseg, rfl⟩ := (lists_iff _ _).mp hl
    exact hnew (Dir.mem_of_bytes (h.files seg hseg))
  · exact fun hd => hnew (h.filed.found id hd)

/-- The segment that a rollover creates has no frames. -/
theorem Dir.bytes_rolled (d : Dir) (s : Store) (first : EntryId) :
    (d.rolled s first).bytes (segmentPath s.nextSegId) = some (segmentMagic ++ []) := by
  have hdiff := (d.create (segmentPath s.nextSegId) segmentMagic).differs_appended
    s.manifestCursor.position (rollOp s first)
  rw [Dir.rolled, hdiff.bytes _ (segmentPath_ne_manifest _), Dir.bytes_create, if_pos rfl,
    List.append_nil]

/-- A rollover puts an empty segment behind the others. -/
theorem Upright.rolled (h : Upright s d active) (hnew : segmentPath s.nextSegId ∉ d.files)
    (first : EntryId) :
    Upright (s.rolled first) (d.rolled s first) ⟨s.nextSegId, first⟩ ∧
      Logged s d (s.rolled first) (d.rolled s first) [rollOp s first] ∧
      ∀ seg ∈ s.state.segments,
        (d.rolled s first).bytes (segmentPath seg.id) = d.bytes (segmentPath seg.id) := by
  obtain ⟨hnl, hnd⟩ := h.unused hnew
  have hlists := lists_rolledState s first
  have hne {id : SegmentId} (hid : s.state.lists id = true) : id ≠ s.nextSegId := by
    rintro rfl
    rw [hnl] at hid
    cases hid
  have hdiff := (d.create (segmentPath s.nextSegId) segmentMagic).differs_appended
    s.manifestCursor.position (rollOp s first)
  have hcreated := Dir.bytes_rolled d s first
  have hbytes : ∀ seg ∈ s.state.segments,
      (d.rolled s first).bytes (segmentPath seg.id) = d.bytes (segmentPath seg.id) := by
    intro seg hseg
    rw [Dir.rolled, hdiff.bytes _ (segmentPath_ne_manifest _), Dir.bytes_create, if_neg]
    exact fun heq => hne (lists_of_mem hseg) (segmentPath_injective heq)
  have hmanifest : (d.create (segmentPath s.nextSegId) segmentMagic).bytes manifestFileName =
      d.bytes manifestFileName := by
    rw [Dir.bytes_create, if_neg (segmentPath_ne_manifest _).symm]
  have hlogged := logged_recorded (s := s) (d := d) (apply_rollOp first h.activeState) hmanifest
  refine ⟨⟨?_, ⟨List.getLast?_concat, ?_, rfl, ?_, ?_⟩, ?_, ⟨?_, ?_⟩, rfl, rfl, ?_, ?_, h.offsets⟩,
    hlogged.congr rfl rfl rfl rfl, hbytes⟩
  · exact hdiff.present.trans ((Dir.present_create d _ _).trans h.present)
  · change ((s.state.segments ++ [(⟨s.nextSegId, first⟩ : SegmentEntry)]).map
      (fun seg => seg.id)).Nodup
    rw [List.map_append, List.nodup_append]
    refine ⟨h.shaped.nodup, by simp, ?_⟩
    intro id hid other hother heq
    obtain ⟨seg, hseg, rfl⟩ := List.mem_map.mp hid
    rw [List.map_cons, List.map_nil, List.mem_singleton] at hother
    exact hne (lists_of_mem hseg) (heq.trans hother)
  · intro id
    change (Function.update s.state.seals s.activeId _ id).isSome = true ↔
      (rolledState s first).lists id = true ∧ id ≠ s.nextSegId
    rw [hlists]
    by_cases hid : id = s.activeId
    · have hactive : s.state.lists id = true := by
        rw [hid, h.activeId]
        exact lists_of_mem h.shaped.mem
      rw [hid, Function.update_self, ← hid]
      simp [hactive, hne hactive]
    · rw [Function.update_of_ne hid, h.shaped.seals, ← h.activeId]
      constructor
      · rintro ⟨hl, _⟩
        exact ⟨Or.inl hl, hne hl⟩
      · rintro ⟨hl | heq, hnot⟩
        · exact ⟨hl, hid⟩
        · exact absurd heq hnot
  · intro id hid
    have hold := h.shaped.dead id hid
    change (rolledState s first).lists id = false
    rw [Bool.eq_false_iff, ne_eq, hlists, hold]
    rintro (hc | rfl)
    · cases hc
    · exact hnd hid
  · intro seg hseg
    rcases List.mem_append.mp hseg with hseg | hseg
    · rw [HasSegment, body, hbytes seg hseg]
      exact h.files seg hseg
    · rw [List.mem_singleton.mp hseg]
      exact hasSegment_of hcreated
  · intro name hname id hid
    rw [Dir.rolled, hdiff.mem, Dir.mem_create] at hname
    change _ ∧ ((rolledState s first).lists id = true ∨ id ∈ s.state.dead)
    rw [hlists]
    rcases hname with rfl | hname
    · rw [parseSegmentPath_segmentPath] at hid
      obtain rfl := Option.some.inj hid
      exact ⟨rfl, Or.inl (Or.inr rfl)⟩
    · obtain ⟨hcanon, hl | hdead⟩ := h.filed.known name hname id hid
      · exact ⟨hcanon, Or.inl (Or.inl hl)⟩
      · exact ⟨hcanon, Or.inr hdead⟩
  · intro id hid
    rw [Dir.rolled, hdiff.mem, Dir.mem_create]
    exact Or.inr (h.filed.found id hid)
  · change (s.activeCursor.setPosition magicLen).buf = ⟨[]⟩
    exact h.idle
  · rw [body_eq hcreated]
    rfl

/-- Flushing frames adds them to the active segment's file. -/
theorem Upright.flushed (h : Upright s d active) (xs : List Entry) (last : EntryId) (count : ℕ) :
    Upright ((s.buffered xs).flushed last count) (d.flushed (s.buffered xs)) active ∧
      Logged s d ((s.buffered xs).flushed last count) (d.flushed (s.buffered xs)) [] ∧
      ∀ seg ∈ s.state.segments, body (d.flushed (s.buffered xs)) seg.id =
        if seg = active then body d seg.id ++ frames.encodeAll xs else body d seg.id := by
  have hdiff : d.Differs (d.flushed (s.buffered xs)) (segmentPath active.id) := by
    have hact : (s.buffered xs).activeId = active.id := h.activeId
    rw [Dir.flushed, hact]
    exact d.differs_writeAt _ _ _
  have hbuf : (s.buffered xs).activeCursor.buf.buf = frames.encodeAll xs := by
    rw [Store.buffered, h.idle]
    rfl
  have hfile : (d.flushed (s.buffered xs)).bytes (segmentPath active.id) =
      some (segmentMagic ++ (body d active.id ++ frames.encodeAll xs)) := by
    have hact : (s.buffered xs).activeId = active.id := h.activeId
    have hpos : (s.buffered xs).activeCursor.position = (segmentMagic ++ body d active.id).length :=
      h.position
    have hhas := h.files active h.shaped.mem
    rw [HasSegment] at hhas
    rw [Dir.flushed, hact, Dir.bytes_writeAt, if_pos rfl, hhas, Option.map_some, hpos, hbuf,
      overwrite_end, List.append_assoc]
  have hother : ∀ seg ∈ s.state.segments, seg ≠ active →
      (d.flushed (s.buffered xs)).bytes (segmentPath seg.id) = d.bytes (segmentPath seg.id) := by
    intro seg hseg hne
    refine hdiff.bytes _ fun heq => hne ?_
    exact h.shaped.inj hseg h.shaped.mem (segmentPath_injective heq)
  refine ⟨⟨hdiff.present.trans h.present, h.shaped, ?_, h.filed.differs hdiff, h.recorded,
    h.activeId, rfl, ?_, h.offsets⟩, ⟨fun bytes hb => ?_, fun p => rfl⟩, ?_⟩
  · intro seg hseg
    by_cases heq : seg = active
    · rw [heq]
      exact hasSegment_of hfile
    · rw [HasSegment, body, hother seg hseg heq]
      exact h.files seg hseg
  · change s.activeCursor.position+(s.buffered xs).activeCursor.buf.buf.length = _
    rw [hbuf, body_eq hfile, h.position]
    simp only [List.length_append]
    omega
  · rw [List.map_nil, Grammar.encodeAll_nil, List.append_nil]
    refine ⟨?_, hb.cursor⟩
    rw [hdiff.bytes _ (segmentPath_ne_manifest _).symm]
    exact hb.file
  · intro seg hseg
    by_cases heq : seg = active
    · rw [if_pos heq, heq]
      exact body_eq hfile
    · rw [if_neg heq, body, hother seg hseg heq, body]

/-- A batch fails with its rollover, and leaves its frames in the buffer. -/
theorem Store.batch_unrolled {xs rest : List Entry} {first : Entry} (hcons : xs = first :: rest)
    {w : World} (hp : s.rolloverPending = true) {e : Failure IoError} {m : Machine}
    (hroll : Store.doRollover first.1 ⟨s.buffered xs, w⟩ = .error e m) :
    Store.batch xs ⟨s, w⟩ = .error e m := by
  have hne : xs ≠ [] := by simp [hcons]
  have hwriter : writerOf xs = ⟨some first.1, some (xs.getLast hne).1, xs.length⟩ :=
    writerOf_eq hcons (List.getLast?_eq_some_getLast hne)
  have hp' : (s.buffered xs).rolloverPending = true := hp
  rw [Store.batch, bind_ok (Store.pushAll_eq xs s w), hwriter]
  unfold StoreWriter.write
  dsimp only
  rw [get_bind, if_pos hp']
  exact bind_error hroll

/-- A batch that has to roll over fails if the file of the next segment exists. -/
theorem Store.batch_blocked (hpresent : d.present = true) {xs : List Entry} (hne : xs ≠ [])
    (hp : s.rolloverPending = true) (hfile : segmentPath s.nextSegId ∈ d.files) :
    ∃ e m, Store.batch xs ⟨s, calm d⟩ = .error (.err e) m := by
  obtain ⟨first, rest, hcons⟩ := List.exists_cons_of_ne_nil hne
  have hcreate : createSegment s.nextSegId (calm d) =
      .error ⟨.alreadyExists, "file exists"⟩ (calm d) := by
    unfold createSegment
    refine bind_error ?_
    unfold File.createNew
    have hp : ¬ (calm d).dir.present = false := by
      rw [show (calm d).dir.present = true from hpresent]
      decide
    rw [bind_ok (call_calm _ d), get_bind]
    exact (congrFun (if_neg hp) _).trans (congrFun (if_pos hfile) _)
  have hroll : Store.doRollover first.1 ⟨s.buffered xs, calm d⟩ =
      .error (.err ⟨.alreadyExists, "file exists"⟩) ⟨s.buffered xs, calm d⟩ := by
    unfold Store.doRollover
    rw [get_bind]
    exact bind_error (fs_error hcreate)
  exact ⟨_, _, Store.batch_unrolled hcons hp hroll⟩

/-- What a batch does to a store whose pending rollover finds no file in its way. -/
theorem Upright.batch (h : Upright s d active) (xs : List Entry)
    (hnew : xs ≠ [] → s.rolloverPending = true → segmentPath s.nextSegId ∉ d.files) :
    ∃ c s' d' active' ops, Store.batch xs ⟨s, calm d⟩ = .ok c ⟨s', calm d'⟩ ∧
      Upright s' d' active' ∧ Logged s d s' d' ops ∧ (∀ op ∈ ops, Fits (opFrame op)) ∧
      s'.index = s.index ∧ (xs = [] → s' = s) ∧
      (∀ last, xs.getLast? = some last → s'.lastEntryId = some last.1) ∧
      (s'.nextSegId = s.nextSegId ∧ s'.state = s.state ∧ active' = active ∨
        s.rolloverPending = true ∧ s'.nextSegId = s.nextSegId.succ ∧
          ∃ first, s'.state = rolledState s first ∧ active' = ⟨s.nextSegId, first⟩) ∧
      body d' active'.id = (if xs ≠ [] ∧ s.rolloverPending = true then [] else body d active.id) ++
        frames.encodeAll xs ∧
      ∀ seg ∈ s.state.segments, body d seg.id <+: body d' seg.id := by
  by_cases hne : xs = []
  · subst hne
    have hsame : s.buffered [] = s := by
      rw [Store.buffered, h.idle]
      obtain ⟨cfg, state, index, manifestCursor, segments, activeId, ⟨buf, position⟩, rest⟩ := s
      have hb : buf = ⟨[]⟩ := h.idle
      rw [hb]
      rfl
    refine ⟨none, s, d, active, [], ?_, h, Logged.refl s d, by simp, rfl, fun _ => rfl, ?_,
      Or.inl ⟨rfl, rfl, rfl⟩, by simp, fun seg _ => List.prefix_refl _⟩
    · rw [Store.batch, bind_ok (Store.pushAll_eq [] s (calm d)), hsame]
      rfl
    · intro last hlast
      cases hlast
  · obtain ⟨first, rest, hcons⟩ := List.exists_cons_of_ne_nil hne
    have hlast := List.getLast?_eq_some_getLast hne
    set last := xs.getLast hne with hlastdef
    have hwriter : writerOf xs = ⟨some first.1, some last.1, xs.length⟩ :=
      writerOf_eq hcons hlast
    -- the store and the directory behind the rollover, if there is one
    have hready : ∃ active' ops, Upright (s.readyFor first.1) (d.readyFor s first.1) active' ∧
        Logged s d (s.readyFor first.1) (d.readyFor s first.1) ops ∧
        (∀ op ∈ ops, Fits (opFrame op)) ∧ (s.readyFor first.1).index = s.index ∧
        ((s.readyFor first.1).nextSegId = s.nextSegId ∧ (s.readyFor first.1).state = s.state ∧
            active' = active ∨
          s.rolloverPending = true ∧ (s.readyFor first.1).nextSegId = s.nextSegId.succ ∧
            ∃ first', (s.readyFor first.1).state = rolledState s first' ∧
              active' = ⟨s.nextSegId, first'⟩) ∧
        body (d.readyFor s first.1) active'.id =
          (if xs ≠ [] ∧ s.rolloverPending = true then [] else body d active.id) ∧
        ∀ seg ∈ s.state.segments, seg ∈ (s.readyFor first.1).state.segments ∧
          (d.readyFor s first.1).bytes (segmentPath seg.id) = d.bytes (segmentPath seg.id) := by
      by_cases hp : s.rolloverPending = true
      · have hs : s.readyFor first.1 = s.rolled first.1 := if_pos hp
        have hd : d.readyFor s first.1 = d.rolled s first.1 := if_pos hp
        obtain ⟨hup, hlog, hbytes⟩ := h.rolled (hnew hne hp) first.1
        rw [hs, hd]
        refine ⟨_, _, hup, hlog, ?_, rfl, Or.inr ⟨hp, rfl, first.1, rfl, rfl⟩, ?_, ?_⟩
        · intro op hop
          rw [List.mem_singleton.mp hop]
          exact fits_short _ (by simp [Op.fields]) (by simp [Op.fields])
        · rw [if_pos ⟨hne, hp⟩]
          exact body_eq (Dir.bytes_rolled d s first.1)
        · exact fun seg hseg => ⟨List.mem_append_left _ hseg, hbytes seg hseg⟩
      · have hs : s.readyFor first.1 = s := if_neg hp
        have hd : d.readyFor s first.1 = d := if_neg hp
        rw [hs, hd]
        exact ⟨active, [], h, Logged.refl s d, by simp, rfl, Or.inl ⟨rfl, rfl, rfl⟩,
          by rw [if_neg fun hc => hp hc.2], fun seg hseg => ⟨hseg, rfl⟩⟩
    obtain ⟨active', ops, hup, hlog, hfits, hindex, hstate, hready, hbytes⟩ := hready
    obtain ⟨hup', hlog', hbody⟩ := hup.flushed xs last.1 xs.length
    have hreadyEq := buffered_readyFor s xs first.1
    have hdirEq : d.readyFor (s.buffered xs) first.1 = d.readyFor s first.1 := rfl
    have hwrite : StoreWriter.write ⟨some first.1, some last.1, xs.length⟩
        ⟨s.buffered xs, calm d⟩ = .ok (some (s.readyFor first.1).activeId)
          ⟨((s.readyFor first.1).buffered xs).flushed last.1 xs.length,
            calm ((d.readyFor s first.1).flushed ((s.readyFor first.1).buffered xs))⟩ := by
      have hseg : HasSegment ((calm d).dir.readyFor (s.buffered xs) first.1)
          ((s.buffered xs).readyFor first.1).activeId := by
        have hact : (s.readyFor first.1).activeId = active'.id := hup.activeId
        rw [hreadyEq]
        change HasSegment (d.readyFor s first.1) (s.readyFor first.1).activeId
        rw [hact]
        exact hup.files active' hup.shaped.mem
      rw [← hreadyEq, StoreWriter.write_eq (s := s.buffered xs) (w := calm d) (steady_calm d)
        h.recorded h.present (hnew hne) h.activeState hseg]
      dsimp only
      rw [show (calm d).flushFails = false from rfl, if_neg Bool.false_ne_true, popped_calm,
        show ((s.buffered xs).readyFor first.1).activeId = (s.readyFor first.1).activeId by
          rw [hreadyEq]; rfl]
      rfl
    refine ⟨some (s.readyFor first.1).activeId,
      ((s.readyFor first.1).buffered xs).flushed last.1 xs.length,
      (d.readyFor s first.1).flushed ((s.readyFor first.1).buffered xs), active', ops, ?_, hup', ?_,
      hfits, hindex, fun hnil => absurd hnil hne, ?_, hstate, ?_, ?_⟩
    · rw [Store.batch, bind_ok (Store.pushAll_eq xs s (calm d)), hwriter, hwrite]
    · have htrans := hlog.trans hlog'
      rwa [List.append_nil] at htrans
    · intro last' hlast'
      rw [hlast] at hlast'
      cases hlast'
      rfl
    · rw [hbody active' hup.shaped.mem, if_pos rfl, hready]
    · intro seg hseg
      obtain ⟨hmem, hkeep⟩ := hbytes seg hseg
      have hold : body (d.readyFor s first.1) seg.id = body d seg.id := by
        rw [body, hkeep, body]
      rw [hbody seg hmem, hold]
      split
      · exact List.prefix_append _ _
      · exact List.prefix_refl _

end
end
end Woodshed
