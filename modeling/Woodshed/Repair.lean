import Woodshed.Layout

/-! Automatic recovery step by step: every fix-up keeps a layout, works off one issue and adds
none, so that any part of the fix-ups, followed by a fresh scan and recovery, ends the same way. -/
namespace Woodshed
open Sequencing Framing

section
variable [Crates]

/-- The frame of a manifest op. -/
def opFrame (op : ManifestOp) : Entry := (⟨0⟩, op.encode)

theorem replayEntries_append (es fs : List Entry) (st st' : StoreState) (p : ℕ)
    (h : replayEntries st p es = .ok st') :
    replayEntries st p (es ++ fs) = replayEntries st' (p+(frames.encodeAll es).length) fs := by
  induction es generalizing st p with
  | nil =>
    cases h
    simp
  | cons e es ih =>
    rw [replayEntries] at h
    rw [List.cons_append, replayEntries]
    cases hd : ManifestOp.decode e.2 with
    | error source => rw [hd] at h; cases h
    | ok op =>
      rw [hd] at h
      dsimp only at h ⊢
      cases ha : StoreState.apply op st with
      | error source s => rw [ha] at h; cases h
      | ok u s =>
        rw [ha] at h
        dsimp only at h ⊢
        rw [ih s _ h, Grammar.encodeAll_cons, frames_encode, List.length_append, Nat.add_assoc]

/-- One more op behind a replayed manifest. -/
theorem replayEntries_snoc {es : List Entry} {st st' : StoreState} {p : ℕ} {op : ManifestOp}
    (h : replayEntries StoreState.empty p es = .ok st) (ha : StoreState.apply op st = .ok ⟨⟩ st') :
    replayEntries StoreState.empty p (es ++ [opFrame op]) = .ok st' := by
  rw [replayEntries_append es _ _ st p h, replayEntries, opFrame, decode_encode]
  dsimp only
  rw [ha]
  rfl

/-- A change of the manifest alone keeps what a layout says of the segments. -/
theorem Layout.of_outline {d d' : Dir} {es es' : List Entry} {tail tail' : Bytes}
    {st st' : StoreState} (h : Layout d es tail st) (hd : d.Differs d' manifestFileName)
    (ho : Outline d' es' tail' st') (hsegs : st'.segments = st.segments)
    (hseals : st'.seals = st.seals) : Layout d' es' tail' st' := by
  refine ⟨ho.present, ho.manifest, ho.fits, ho.short, ho.replays, ho.nonempty, ?_, ?_⟩
  · intro seg hseg
    rw [hsegs] at hseg
    rw [HasSegment, hd.body, hd.bytes _ (segmentPath_ne_manifest _)]
    exact h.files seg hseg
  · intro seg hseg info hi
    rw [hsegs] at hseg
    rw [hseals] at hi
    rw [hd.body]
    exact h.sealedIntact seg hseg info hi

/-! ### What the fix-ups do to a layout -/

omit [Crates] in
theorem openManifest_ok {d : Dir} {xs : Bytes}
    (h : d.bytes manifestFileName = some (manifestMagic ++ xs)) :
    openManifest (calm d) = .ok (⟨manifestFileName, ⟨xs, []⟩⟩, magicLen) (calm d) := by
  rw [openManifest_calm, h]
  dsimp only
  rw [behindMagic_append manifestMagic xs rfl]

omit [Crates] in
theorem openSegment_ok {d : Dir} {id : SegmentId} (h : HasSegment d id) :
    openSegment id (calm d) = .ok (⟨segmentPath id, ⟨body d id, []⟩⟩, magicLen) (calm d) := by
  rw [openSegment_calm, h]
  dsimp only
  rw [behindMagic_append segmentMagic _ rfl]

omit [Crates] in
theorem onDisk_ok {α : Type} {m : Fs α} {w w' : World} {a : α} (h : m w = .ok a w') :
    onDisk m w = .ok a w' := by
  rw [onDisk]
  exact onPart_ok h

theorem writeOp_calm (d : Dir) (op : ManifestOp) (pos : ℕ) :
    writeOp (FrameCursor.new pos) op (calm d) =
      .ok ⟨⟨[]⟩, pos+(frame (opFrame op)).length⟩
        (calm ((d.writeAt manifestFileName pos (frame (opFrame op))).sync manifestFileName)) := by
  have hbuf : ((FrameCursor.new pos).write ⟨0⟩ op.encode).buf = ⟨frame (opFrame op)⟩ := by
    rw [FrameCursor.write]
    exact FrameBuffer.write_eq FrameBuffer.new (opFrame op)
  unfold writeOp FrameCursor.flush
  rw [hbuf]
  rfl

section
variable {d d' : Dir} {es : List Entry} {tail : Bytes} {st st' : StoreState}

/-- A change of the manifest alone. -/
theorem Outline.of_manifest {es' : List Entry} {tail' : Bytes} (h : Outline d es tail st)
    (hd : d.Differs d' manifestFileName)
    (hm : d'.bytes manifestFileName = some (manifestMagic ++ (frames.encodeAll es' ++ tail')))
    (hf : ∀ e ∈ es', Fits e) (hs : tail'.length < headerLen)
    (hr : replayEntries StoreState.empty magicLen es' = .ok st')
    (hsegs : st'.segments = st.segments) : Outline d' es' tail' st' :=
  ⟨hd.present.trans h.present, hm, hf, hs, hr, by rw [hsegs]; exact h.nonempty⟩

/-- An op appended to the manifest. -/
theorem Outline.append (h : Outline d es [] st) (op : Op) (hfit : Fits (opFrame (ManifestOp.bare op)))
    (ha : StoreState.apply (ManifestOp.bare op) st = .ok ⟨⟩ st') (hsegs : st'.segments = st.segments) :
    ∃ d', appendManifestOp op (calm d) = .ok ⟨⟩ (calm d') ∧ d.Differs d' manifestFileName ∧
      Outline d' (es ++ [opFrame (ManifestOp.bare op)]) [] st' := by
  have hm := h.manifest
  rw [List.append_nil] at hm
  set pos := (manifestMagic ++ frames.encodeAll es).length with hpos
  set d' := (d.writeAt manifestFileName pos (frame (opFrame (ManifestOp.bare op)))).sync
    manifestFileName with hd'
  have hdiff : d.Differs d' manifestFileName := d.differs_writeAt_sync _ _ _
  refine ⟨d', ?_, hdiff, ?_⟩
  · apply onDisk_ok
    rw [bind_ok (openManifest_ok hm)]
    dsimp only
    rw [bind_ok (File.len_calm d _ _ hm), bind_ok (writeOp_calm d _ _)]
    rfl
  · refine h.of_manifest hdiff ?_ ?_ (by decide) (replayEntries_snoc h.replays ha) hsegs
    · rw [hd', Dir.bytes_sync, Dir.bytes_writeAt, if_pos rfl, hm, Option.map_some, hpos,
        overwrite_end, Grammar.encodeAll_append, List.append_nil, List.append_assoc]
      simp
    · intro e he
      rcases List.mem_append.mp he with he | he
      · exact h.fits e he
      · rw [List.mem_singleton.mp he]
        exact hfit

/-- The torn tail cut off the manifest. -/
theorem Outline.truncateManifest (h : Outline d es tail st) :
    ∃ d', Woodshed.truncateManifest (manifestEnd es) (calm d) = .ok ⟨⟩ (calm d') ∧
      d.Differs d' manifestFileName ∧ Outline d' es [] st := by
  set d' := (d.setLen manifestFileName (manifestEnd es)).sync manifestFileName with hd'
  have hdiff : d.Differs d' manifestFileName := d.differs_setLen_sync _ _
  refine ⟨d', ?_, hdiff, ?_⟩
  · apply onDisk_ok
    rw [bind_ok (openManifest_ok h.manifest)]
    rfl
  · refine h.of_manifest hdiff ?_ h.fits (by decide) h.replays rfl
    have hend : manifestEnd es = (manifestMagic ++ frames.encodeAll es).length := by
      rw [manifestEnd, List.length_append]
      rfl
    rw [hd', Dir.bytes_sync, Dir.bytes_setLen, if_pos rfl, h.manifest, Option.map_some,
      ← List.append_assoc, hend, resize_of_le _ _ (by simp), List.take_left, List.append_nil]

/-- An op appended to the manifest of a layout. -/
theorem Layout.append (h : Layout d es [] st) (op : Op) (hfit : Fits (opFrame (ManifestOp.bare op)))
    (ha : StoreState.apply (ManifestOp.bare op) st = .ok ⟨⟩ st')
    (hsegs : st'.segments = st.segments) (hseals : st'.seals = st.seals) :
    ∃ d', appendManifestOp op (calm d) = .ok ⟨⟩ (calm d') ∧ d.Differs d' manifestFileName ∧
      Layout d' (es ++ [opFrame (ManifestOp.bare op)]) [] st' := by
  obtain ⟨d', hrun, hdiff, ho⟩ := h.outline.append op hfit ha hsegs
  exact ⟨d', hrun, hdiff, h.of_outline hdiff ho hsegs hseals⟩

/-- The torn tail cut off the manifest of a layout. -/
theorem Layout.truncateManifest (h : Layout d es tail st) :
    ∃ d', Woodshed.truncateManifest (manifestEnd es) (calm d) = .ok ⟨⟩ (calm d') ∧
      d.Differs d' manifestFileName ∧ Layout d' es [] st := by
  obtain ⟨d', hrun, hdiff, ho⟩ := h.outline.truncateManifest
  exact ⟨d', hrun, hdiff, h.of_outline hdiff ho rfl rfl⟩

end

/-- A segment's file cut behind its valid frames. -/
theorem Layout.truncateSegment {d : Dir} {es : List Entry} {tail : Bytes} {st : StoreState}
    (h : Layout d es tail st) {id : SegmentId} (hid : st.lists id = true)
    (hseal : st.seals id = none) :
    ∃ d', Woodshed.truncateSegment id (validEnd d id) (calm d) = .ok ⟨⟩ (calm d') ∧
      d.Differs d' (segmentPath id) ∧ body d' id = validPrefix (body d id) ∧
      Layout d' es tail st := by
  obtain ⟨seg, hseg, hsegid⟩ := List.any_eq_true.mp hid
  have hsegid' : seg.id = id := by simpa using hsegid
  have hfile : HasSegment d id := hsegid' ▸ h.files seg hseg
  set d' := (d.setLen (segmentPath id) (validEnd d id)).sync (segmentPath id) with hd'
  have hdiff : d.Differs d' (segmentPath id) := d.differs_setLen_sync _ _
  have hbytes : d'.bytes (segmentPath id) = some (segmentMagic ++ validPrefix (body d id)) := by
    obtain ⟨rest, hrest⟩ := validPrefix_prefix (body d id)
    have hend : validEnd d id = (segmentMagic ++ validPrefix (body d id)).length := by
      rw [validEnd, List.length_append]
      rfl
    rw [HasSegment] at hfile
    rw [hd', Dir.bytes_sync, Dir.bytes_setLen, if_pos rfl, hfile, Option.map_some]
    conv_lhs => rw [← hrest, ← List.append_assoc]
    rw [hend, resize_of_le _ _ (by simp), List.take_left]
  have hother {other : SegmentId} (hne : other ≠ id) :
      d'.bytes (segmentPath other) = d.bytes (segmentPath other) :=
    hdiff.bytes _ fun heq => hne (segmentPath_injective heq)
  refine ⟨d', ?_, hdiff, body_eq hbytes, ?_⟩
  · apply onDisk_ok
    rw [bind_ok (openSegment_ok hfile)]
    rfl
  · refine ⟨hdiff.present.trans h.present, ?_, h.fits, h.short, h.replays, h.nonempty, ?_, ?_⟩
    · rw [hdiff.bytes _ (segmentPath_ne_manifest id).symm]
      exact h.manifest
    · intro other ho
      by_cases heq : other.id = id
      · rw [heq]
        exact hasSegment_of hbytes
      · rw [HasSegment, body, hother heq]
        exact h.files other ho
    · intro other ho info hi
      have hne : other.id ≠ id := by
        rintro rfl
        rw [hseal] at hi
        cases hi
      rw [body, hother hne]
      exact h.sealedIntact other ho info hi

/-! ### Working off the fix-ups -/

/-- The fix-ups `todo` are applicable to a layout, and cover all of its issues. -/
structure Todo (d : Dir) (es : List Entry) (tail : Bytes) (st : StoreState)
    (todo : List FixUp) : Prop where
  layout : Layout d es tail st
  /-- The manifest is cut first, if it has to be. -/
  manifest : tail = [] ∧ (∀ f ∈ todo, ∀ n, f.action ≠ .truncateManifest n) ∨
    ∃ f rest, todo = f :: rest ∧ f.action = .truncateManifest (manifestEnd es) ∧
      ∀ g ∈ rest, ∀ n, g.action ≠ .truncateManifest n
  noCreate : ∀ f ∈ todo, ∀ id, f.action ≠ .createActiveSegment id
  orphanSound : ∀ f ∈ todo, ∀ id, f.action = .orphanFound id →
    id ∈ diskIds d ∧ st.lists id = false
  orphanDone : ∀ id ∈ diskIds d, st.lists id = false → id ∉ st.dead →
    ∃ f ∈ todo, f.action = .orphanFound id
  deadSound : ∀ f ∈ todo, ∀ id, f.action = .deadSegmentMissing id →
    id ∈ st.dead ∧ id ∉ diskIds d
  deadOnce : todo.Pairwise fun f g => ∀ id, f.action = .deadSegmentMissing id →
    g.action ≠ .deadSegmentMissing id
  deadDone : ∀ id ∈ st.dead, id ∉ diskIds d → ∃ f ∈ todo, f.action = .deadSegmentMissing id
  cutSound : ∀ f ∈ todo, ∀ id n, f.action = .truncateSegment id n →
    st.lists id = true ∧ st.seals id = none ∧ n = validEnd d id
  cutDone : ∀ seg ∈ st.segments, isTorn d st seg.id = true →
    ∃ f ∈ todo, f.action = .truncateSegment seg.id (validEnd d seg.id)

/-- What every part of a recovery keeps: the segments that have to stay as they are, the valid
frames of the others, and all of the state but dead ids without a live segment of that name. -/
structure Toward (d : Dir) (st : StoreState) (d' : Dir) (st' : StoreState) : Prop where
  mem : ∀ name, name ∈ d'.files ↔ name ∈ d.files
  state : st' = { st with dead := st'.dead }
  dead : ∀ id ∈ diskIds d, st.lists id = true → (id ∈ st'.dead ↔ id ∈ st.dead)
  files : ∀ name, name ≠ manifestFileName →
    (∀ id, name = segmentPath id → st.lists id = true → st.seals id ≠ none) →
    d'.bytes name = d.bytes name
  cuts : ∀ seg ∈ st.segments, validPrefix (body d' seg.id) = validPrefix (body d seg.id)

theorem Toward.refl (d : Dir) (st : StoreState) : Toward d st d st :=
  ⟨fun _ => Iff.rfl, rfl, fun _ _ _ => Iff.rfl, fun _ _ _ => rfl, fun _ _ => rfl⟩

theorem Toward.mem_diskIds {d d' : Dir} {st st' : StoreState} (h : Toward d st d' st')
    (id : SegmentId) : id ∈ diskIds d' ↔ id ∈ diskIds d := by
  rw [Woodshed.mem_diskIds, Woodshed.mem_diskIds]
  constructor
  · rintro ⟨name, hn, hp⟩
    exact ⟨name, (h.mem name).mp hn, hp⟩
  · rintro ⟨name, hn, hp⟩
    exact ⟨name, (h.mem name).mpr hn, hp⟩

theorem Toward.lists {d d' : Dir} {st st' : StoreState} (h : Toward d st d' st')
    (id : SegmentId) : st'.lists id = st.lists id := by
  rw [h.state]
  rfl

theorem Toward.trans {d d' d'' : Dir} {st st' st'' : StoreState} (h : Toward d st d' st')
    (h' : Toward d' st' d'' st'') : Toward d st d'' st'' := by
  have hseals : st'.seals = st.seals := by rw [h.state]
  have hsegs : st'.segments = st.segments := by rw [h.state]
  refine ⟨fun name => (h'.mem name).trans (h.mem name), ?_, ?_, ?_, ?_⟩
  · rw [h'.state, h.state]
  · intro id hid hl
    rw [h'.dead id ((h.mem_diskIds id).mpr hid) ((h.lists id).trans hl), h.dead id hid hl]
  · intro name hm hu
    rw [h'.files name hm ?_, h.files name hm hu]
    intro id hid hl
    rw [hseals]
    exact hu id hid ((h.lists id).symm.trans hl)
  · intro seg hseg
    rw [h'.cuts seg (hsegs ▸ hseg), h.cuts seg hseg]

/-- A step that changes the manifest and the dead ids only. -/
theorem Toward.of_manifest {d d' : Dir} {st : StoreState} (dead : Finset SegmentId)
    (hd : d.Differs d' manifestFileName)
    (h : ∀ id ∈ diskIds d, st.lists id = true → (id ∈ dead ↔ id ∈ st.dead)) :
    Toward d st d' { st with dead := dead } :=
  ⟨hd.mem, rfl, h, fun name hn _ => hd.bytes name hn, fun seg _ => by rw [hd.body]⟩

/-- The rest of the fix-ups is what there is to do after a step that works off the first. -/
theorem Todo.advance {d d' : Dir} {es es' : List Entry} {tail : Bytes} {st st' : StoreState}
    {f : FixUp} {rest : List FixUp} (h : Todo d es tail st (f :: rest))
    (hl : Layout d' es' [] st') (ht : Toward d st d' st')
    (hman : ∀ g ∈ rest, ∀ n, g.action ≠ .truncateManifest n)
    (horphan : ∀ id, f.action = .orphanFound id → id ∈ st'.dead)
    (hdead : ∀ id, f.action = .deadSegmentMissing id → id ∉ st'.dead)
    (hkeep : ∀ id, f.action ≠ .deadSegmentMissing id → id ∈ st.dead → id ∈ st'.dead)
    (hnew : ∀ id, id ∉ diskIds d → id ∈ st'.dead → id ∈ st.dead)
    (hcut : ∀ seg ∈ st.segments, isTorn d' st' seg.id = true → isTorn d st seg.id = true ∧
      f.action ≠ .truncateSegment seg.id (validEnd d seg.id)) :
    Todo d' es' [] st' rest := by
  have hsegs : st'.segments = st.segments := by rw [ht.state]
  have hseals : st'.seals = st.seals := by rw [ht.state]
  have hend {id : SegmentId} (hid : st.lists id = true) : validEnd d' id = validEnd d id := by
    obtain ⟨seg, hseg, hsegid⟩ := List.any_eq_true.mp hid
    have hsegid' : seg.id = id := by simpa using hsegid
    rw [validEnd, validEnd, ← hsegid', ht.cuts seg hseg]
  refine ⟨hl, Or.inl ⟨rfl, hman⟩, fun g hg => h.noCreate g (by simp [hg]), ?_, ?_, ?_,
    (List.pairwise_cons.mp h.deadOnce).2, ?_, ?_, ?_⟩
  · intro g hg id ha
    obtain ⟨hd, hlive⟩ := h.orphanSound g (by simp [hg]) id ha
    exact ⟨(ht.mem_diskIds id).mpr hd, (ht.lists id).trans hlive⟩
  · intro id hid hlive hnot
    have hdisk := (ht.mem_diskIds id).mp hid
    have hnotdead : id ∉ st.dead := by
      intro hin
      refine hnot (hkeep id ?_ hin)
      intro ha
      exact (h.deadSound f (by simp) id ha).2 hdisk
    obtain ⟨g, hg, ha⟩ := h.orphanDone id hdisk ((ht.lists id).symm.trans hlive) hnotdead
    rcases List.mem_cons.mp hg with rfl | hg
    · exact absurd (horphan id ha) hnot
    · exact ⟨g, hg, ha⟩
  · intro g hg id ha
    obtain ⟨hin, hdisk⟩ := h.deadSound g (by simp [hg]) id ha
    refine ⟨hkeep id ?_ hin, fun hd => hdisk ((ht.mem_diskIds id).mp hd)⟩
    intro hf
    exact (List.pairwise_cons.mp h.deadOnce).1 g hg id hf ha
  · intro id hin hdisk
    have hdisk' : id ∉ diskIds d := fun hd => hdisk ((ht.mem_diskIds id).mpr hd)
    obtain ⟨g, hg, ha⟩ := h.deadDone id (hnew id hdisk' hin) hdisk'
    rcases List.mem_cons.mp hg with rfl | hg
    · exact absurd hin (hdead id ha)
    · exact ⟨g, hg, ha⟩
  · intro g hg id n ha
    obtain ⟨hlive, hseal, hn⟩ := h.cutSound g (by simp [hg]) id n ha
    exact ⟨(ht.lists id).trans hlive, by rw [hseals]; exact hseal, by rw [hend hlive, hn]⟩
  · intro seg hseg htorn
    rw [hsegs] at hseg
    obtain ⟨htorn', hne⟩ := hcut seg hseg htorn
    have hlive : st.lists seg.id = true := List.any_eq_true.mpr ⟨seg, hseg, by simp⟩
    obtain ⟨g, hg, ha⟩ := h.cutDone seg hseg htorn'
    rcases List.mem_cons.mp hg with rfl | hg
    · exact absurd ha hne
    · exact ⟨g, hg, by rw [hend hlive, ha]⟩

/-- A fix-up other than the first cut of the manifest finds the manifest whole. -/
theorem Todo.tail_nil {d : Dir} {es : List Entry} {tail : Bytes} {st : StoreState}
    {f : FixUp} {rest : List FixUp} (h : Todo d es tail st (f :: rest))
    (hf : f.action ≠ .truncateManifest (manifestEnd es)) :
    tail = [] ∧ ∀ g ∈ rest, ∀ n, g.action ≠ .truncateManifest n := by
  rcases h.manifest with ⟨hnil, hnone⟩ | ⟨g, gs, heq, ha, _⟩
  · exact ⟨hnil, fun g hg => hnone g (by simp [hg])⟩
  · rw [← (List.cons.inj heq).1] at ha
    exact absurd ha hf

theorem isTorn_of_manifest {d d' : Dir} {st st' : StoreState} (hd : d.Differs d' manifestFileName)
    (hs : st'.seals = st.seals) (id : SegmentId) : isTorn d' st' id = isTorn d st id := by
  rw [isTorn, isTorn, hd.body, hs]

theorem fits_short (op : Op) (hop : op.fields.length ≤ 7)
    (hshort : ∀ f ∈ op.fields, f.bytes.length ≤ 8) : Fits (opFrame (ManifestOp.bare op)) :=
  encode_short op hop hshort

/-- The manifest frames `es'` are `es` with frames that recovery writes behind them. -/
def RecoveryFrames (es es' : List Entry) : Prop :=
  ∃ ops : List Op, es' = es ++ ops.map (fun op => opFrame (ManifestOp.bare op)) ∧
    ∀ op ∈ ops, (∃ id, op = .recordOrphan id) ∨ ∃ id, op = .segmentDeleted id

theorem RecoveryFrames.refl (es : List Entry) : RecoveryFrames es es :=
  ⟨[], by simp, by simp⟩

theorem RecoveryFrames.trans {es es' es'' : List Entry} (h : RecoveryFrames es es')
    (h' : RecoveryFrames es' es'') : RecoveryFrames es es'' := by
  obtain ⟨ops, rfl, hops⟩ := h
  obtain ⟨ops', rfl, hops'⟩ := h'
  refine ⟨ops ++ ops', by simp, ?_⟩
  intro op hop
  rcases List.mem_append.mp hop with hop | hop
  · exact hops op hop
  · exact hops' op hop

/-- One fix-up of a recovery. -/
theorem Todo.step {d : Dir} {es : List Entry} {tail : Bytes} {st : StoreState} {f : FixUp}
    {rest : List FixUp} (h : Todo d es tail st (f :: rest)) :
    ∃ d' es' tail' st', f.action.apply (calm d) = .ok ⟨⟩ (calm d') ∧
      Todo d' es' tail' st' rest ∧ Toward d st d' st' ∧ RecoveryFrames es es' := by
  cases hf : f.action with
  | createActiveSegment id => exact absurd hf (h.noCreate f (by simp) id)
  | truncateManifest n =>
    rcases h.manifest with ⟨_, hnone⟩ | ⟨g, gs, heq, ha, hrest⟩
    · exact absurd hf (hnone f (by simp) n)
    · obtain ⟨rfl, rfl⟩ := List.cons.inj heq
      obtain ⟨d', hd', hdiff, hl⟩ := h.layout.truncateManifest
      have hn : n = manifestEnd es := by
        rw [hf] at ha
        injection ha
      refine ⟨d', es, [], st, by rw [FixUpAction.apply, hn, hd'], ?_, ?_, RecoveryFrames.refl es⟩
      · refine h.advance hl (Toward.of_manifest st.dead hdiff fun _ _ _ => Iff.rfl) hrest ?_ ?_ ?_
          ?_ ?_
        · intro id ha'; rw [hf] at ha'; cases ha'
        · intro id ha'; rw [hf] at ha'; cases ha'
        · intro id _ hin; exact hin
        · intro id _ hin; exact hin
        · intro seg _ htorn
          rw [isTorn_of_manifest hdiff rfl] at htorn
          exact ⟨htorn, by rw [hf]; simp⟩
      · exact Toward.of_manifest st.dead hdiff fun _ _ _ => Iff.rfl
  | orphanFound id =>
    obtain ⟨rfl, hman⟩ := h.tail_nil (by rw [hf]; simp)
    obtain ⟨hdisk, hlive⟩ := h.orphanSound f (by simp) id hf
    have happly : StoreState.apply (ManifestOp.bare (.recordOrphan id)) st =
        .ok ⟨⟩ { st with dead := insert id st.dead } := rfl
    obtain ⟨d', hd', hdiff, hl⟩ := h.layout.append (.recordOrphan id)
      (fits_short _ (by simp [Op.fields]) (by simp [Op.fields])) happly rfl rfl
    have ht : Toward d st d' { st with dead := insert id st.dead } := by
      refine Toward.of_manifest _ hdiff fun other _ hother => ?_
      have hne : other ≠ id := by
        rintro rfl
        rw [hlive] at hother
        cases hother
      simp [hne]
    refine ⟨d', es ++ [opFrame (ManifestOp.bare (.recordOrphan id))], [],
      { st with dead := insert id st.dead }, hd', ?_, ht,
      ⟨[.recordOrphan id], rfl, by simp⟩⟩
    refine h.advance hl ht hman ?_ ?_ ?_ ?_ ?_
    · intro other ha
      rw [hf] at ha
      injection ha with ha
      simp [ha]
    · intro other ha; rw [hf] at ha; cases ha
    · intro other _ hin; simp [hin]
    · intro other hnot hin
      rcases Finset.mem_insert.mp hin with rfl | hin
      · exact absurd hdisk hnot
      · exact hin
    · intro seg _ htorn
      rw [isTorn_of_manifest hdiff rfl] at htorn
      exact ⟨htorn, by rw [hf]; simp⟩
  | deadSegmentMissing id =>
    obtain ⟨rfl, hman⟩ := h.tail_nil (by rw [hf]; simp)
    obtain ⟨hin, hdisk⟩ := h.deadSound f (by simp) id hf
    have happly : StoreState.apply (ManifestOp.bare (.segmentDeleted id)) st =
        .ok ⟨⟩ { st with dead := st.dead.erase id } := by
      have hop : StoreState.applyOp (.segmentDeleted id) st =
          .ok ⟨⟩ { st with dead := st.dead.erase id } := by
        rw [StoreState.applyOp, StoreState.segmentDeleted, get_bind]
        exact congrFun (if_pos hin) _
      rw [StoreState.apply, ManifestOp.bare, bind_ok hop]
      rfl
    obtain ⟨d', hd', hdiff, hl⟩ := h.layout.append (.segmentDeleted id)
      (fits_short _ (by simp [Op.fields]) (by simp [Op.fields])) happly rfl rfl
    have ht : Toward d st d' { st with dead := st.dead.erase id } := by
      refine Toward.of_manifest _ hdiff fun other hother _ => ?_
      have hne : other ≠ id := by
        rintro rfl
        exact hdisk hother
      simp [hne]
    refine ⟨d', es ++ [opFrame (ManifestOp.bare (.segmentDeleted id))], [],
      { st with dead := st.dead.erase id }, hd', ?_, ht,
      ⟨[.segmentDeleted id], rfl, by simp⟩⟩
    refine h.advance hl ht hman ?_ ?_ ?_ ?_ ?_
    · intro other ha; rw [hf] at ha; cases ha
    · intro other ha
      rw [hf] at ha
      injection ha with ha
      simp [ha]
    · intro other ha hother
      have hne : other ≠ id := by
        rintro rfl
        exact ha hf
      simp [hne, hother]
    · intro other _ hother
      exact Finset.mem_of_mem_erase hother
    · intro seg _ htorn
      rw [isTorn_of_manifest hdiff rfl] at htorn
      exact ⟨htorn, by rw [hf]; simp⟩
  | truncateSegment id n =>
    obtain ⟨rfl, hman⟩ := h.tail_nil (by rw [hf]; simp)
    obtain ⟨hlive, hseal, rfl⟩ := h.cutSound f (by simp) id n hf
    obtain ⟨d', hd', hdiff, hbody, hl⟩ := h.layout.truncateSegment hlive hseal
    have hother {other : SegmentId} (hne : other ≠ id) : body d' other = body d other := by
      rw [body, body, hdiff.bytes _ fun heq => hne (segmentPath_injective heq)]
    have ht : Toward d st d' st := by
      refine ⟨hdiff.mem, rfl, fun _ _ _ => Iff.rfl, ?_, ?_⟩
      · intro name _ huntouched
        refine hdiff.bytes name ?_
        rintro rfl
        exact huntouched id rfl hlive hseal
      · intro seg _
        by_cases heq : seg.id = id
        · rw [heq, hbody, validPrefix_validPrefix]
        · rw [hother heq]
    refine ⟨d', es, [], st, hd', ?_, ht, RecoveryFrames.refl es⟩
    refine h.advance hl ht hman ?_ ?_ ?_ ?_ ?_
    · intro other ha; rw [hf] at ha; cases ha
    · intro other ha; rw [hf] at ha; cases ha
    · intro other _ hin; exact hin
    · intro other _ hin; exact hin
    · intro seg _ htorn
      by_cases heq : seg.id = id
      · -- the cut file holds valid frames only
        rw [isTorn, heq, hbody, decode_validPrefix] at htorn
        simp at htorn
      · rw [isTorn, hother heq] at htorn
        refine ⟨htorn, ?_⟩
        rw [hf]
        intro hcontra
        injection hcontra with hid
        exact heq hid.symm

/-- Any number of fix-ups from the front. -/
theorem Todo.run {d : Dir} {es : List Entry} {tail : Bytes} {st : StoreState}
    {done rest : List FixUp} (h : Todo d es tail st (done ++ rest)) :
    ∃ d' es' tail' st', applyFixUps done (calm d) = .ok ⟨⟩ (calm d') ∧
      Todo d' es' tail' st' rest ∧ Toward d st d' st' ∧ RecoveryFrames es es' := by
  induction done generalizing d es tail st with
  | nil => exact ⟨d, es, tail, st, rfl, h, Toward.refl d st, RecoveryFrames.refl es⟩
  | cons f fs ih =>
    obtain ⟨d₁, es₁, tail₁, st₁, hf, h₁, ht₁, hr₁⟩ := h.step
    obtain ⟨d₂, es₂, tail₂, st₂, hfs, h₂, ht₂, hr₂⟩ := ih h₁
    refine ⟨d₂, es₂, tail₂, st₂, ?_, h₂, ht₁.trans ht₂, hr₁.trans hr₂⟩
    rw [applyFixUps, forM_cons, bind_ok hf]
    exact hfs

/-- A layout's fix-ups are what there is to do. -/
theorem Layout.todo {d : Dir} {es : List Entry} {tail : Bytes} {st : StoreState}
    (h : Layout d es tail st) : Todo d es tail st (layoutFixUps d es tail st) := by
  have hmem (f : FixUp) : f ∈ layoutFixUps d es tail st ↔
      tail ≠ [] ∧ f = ⟨.manifestFileClean, false, .truncateManifest (manifestEnd es)⟩ ∨
      (∃ id ∈ diskIds d, (st.lists id = false ∧ id ∉ st.dead) ∧
        f = ⟨.manifestAppends, false, .orphanFound id⟩) ∨
      (∃ id ∈ st.dead, id ∉ diskIds d ∧
        f = ⟨.manifestAppends, false, .deadSegmentMissing id⟩) ∨
      (∃ seg ∈ st.segments, isTorn d st seg.id = true ∧
        f = ⟨.segmentFileClean, false, .truncateSegment seg.id (validEnd d seg.id)⟩) := by
    unfold layoutFixUps
    rw [List.mem_append, List.mem_append, List.mem_append, or_assoc, or_assoc]
    refine or_congr ?_ (or_congr ?_ (or_congr ?_ ?_))
    · by_cases hnil : tail = [] <;> simp [hnil]
    · simp only [List.mem_map, List.mem_filter, decide_eq_true_eq, not_or, Bool.not_eq_true]
      constructor
      · rintro ⟨id, ⟨hd, hl⟩, rfl⟩; exact ⟨id, hd, hl, rfl⟩
      · rintro ⟨id, hd, hl, rfl⟩; exact ⟨id, ⟨hd, hl⟩, rfl⟩
    · simp only [List.mem_map, List.mem_filter, decide_eq_true_eq, Crates.mem_hashIter]
      constructor
      · rintro ⟨id, ⟨hd, hl⟩, rfl⟩; exact ⟨id, hd, hl, rfl⟩
      · rintro ⟨id, hd, hl, rfl⟩; exact ⟨id, ⟨hd, hl⟩, rfl⟩
    · simp only [List.mem_map, List.mem_filter]
      constructor
      · rintro ⟨seg, ⟨hs, hl⟩, rfl⟩; exact ⟨seg, hs, hl, rfl⟩
      · rintro ⟨seg, hs, hl, rfl⟩; exact ⟨seg, ⟨hs, hl⟩, rfl⟩
  refine ⟨h, ?_, ?_, ?_, ?_, ?_, ?_, ?_, ?_, ?_⟩
  · by_cases hnil : tail = []
    · left
      refine ⟨hnil, fun f hf n => ?_⟩
      rcases (hmem f).mp hf with ⟨hne, _⟩ | ⟨_, _, _, rfl⟩ | ⟨_, _, _, rfl⟩ | ⟨_, _, _, rfl⟩
      · exact absurd hnil hne
      · simp
      · simp
      · simp
    · right
      unfold layoutFixUps
      rw [if_neg hnil]
      refine ⟨_, _, rfl, rfl, fun g hg n => ?_⟩
      simp only [List.nil_append, List.append_eq, List.mem_append, List.mem_map] at hg
      rcases hg with (⟨_, _, rfl⟩ | ⟨_, _, rfl⟩) | ⟨_, _, rfl⟩ <;> simp
  · intro f hf id
    rcases (hmem f).mp hf with ⟨_, rfl⟩ | ⟨_, _, _, rfl⟩ | ⟨_, _, _, rfl⟩ | ⟨_, _, _, rfl⟩ <;> simp
  · intro f hf id ha
    rcases (hmem f).mp hf with ⟨_, rfl⟩ | ⟨_, hd, hl, rfl⟩ | ⟨_, _, _, rfl⟩ | ⟨_, _, _, rfl⟩
    · cases ha
    · cases ha
      exact ⟨hd, hl.1⟩
    · cases ha
    · cases ha
  · intro id hd hl hn
    exact ⟨_, (hmem _).mpr (Or.inr (Or.inl ⟨id, hd, ⟨hl, hn⟩, rfl⟩)), rfl⟩
  · intro f hf id ha
    rcases (hmem f).mp hf with ⟨_, rfl⟩ | ⟨_, _, _, rfl⟩ | ⟨_, hd, hl, rfl⟩ | ⟨_, _, _, rfl⟩
    · cases ha
    · cases ha
    · cases ha
      exact ⟨hd, hl⟩
    · cases ha
  · unfold layoutFixUps
    have hdistinct : (((Crates.hashIter st.dead).filter (· ∉ diskIds d)).map
        (fun id => (⟨.manifestAppends, false, .deadSegmentMissing id⟩ : FixUp))).Pairwise
        fun f g => ∀ id, f.action = .deadSegmentMissing id → g.action ≠ .deadSegmentMissing id := by
      rw [List.pairwise_map]
      refine ((Crates.hashIter_nodup st.dead).filter _).imp ?_
      intro a b hab id ha hb
      cases ha
      cases hb
      exact hab rfl
    have hnone {fs : List FixUp} (hfs : ∀ f ∈ fs, ∀ id, f.action ≠ .deadSegmentMissing id) :
        fs.Pairwise fun f g => ∀ id, f.action = .deadSegmentMissing id →
          g.action ≠ .deadSegmentMissing id :=
      List.pairwise_of_forall_mem_list fun f hf g _ id ha => absurd ha (hfs f hf id)
    have hfront : ∀ f ∈ (if tail = [] then [] else
        [(⟨.manifestFileClean, false, .truncateManifest (manifestEnd es)⟩ : FixUp)]) ++
        ((diskIds d).filter fun id => ¬ (st.lists id = true ∨ id ∈ st.dead)).map
          (fun id => (⟨.manifestAppends, false, .orphanFound id⟩ : FixUp)),
        ∀ id, f.action ≠ .deadSegmentMissing id := by
      intro f hf id
      rcases List.mem_append.mp hf with hf | hf
      · by_cases hnil : tail = []
        · simp [hnil] at hf
        · simp only [if_neg hnil, List.mem_singleton] at hf
          simp [hf]
      · obtain ⟨_, _, rfl⟩ := List.mem_map.mp hf
        simp
    have hback : ∀ f ∈ (st.segments.filter fun seg => isTorn d st seg.id).map
        (fun seg => (⟨.segmentFileClean, false,
          .truncateSegment seg.id (validEnd d seg.id)⟩ : FixUp)),
        ∀ id, f.action ≠ .deadSegmentMissing id := by
      intro f hf id
      obtain ⟨_, _, rfl⟩ := List.mem_map.mp hf
      simp
    rw [List.pairwise_append, List.pairwise_append]
    refine ⟨⟨hnone hfront, hdistinct, ?_⟩, hnone hback, ?_⟩
    · intro f hf g _ id ha
      exact absurd ha (hfront f hf id)
    · intro f _ g hg id _
      exact hback g hg id
  · intro id hin hd
    exact ⟨_, (hmem _).mpr (Or.inr (Or.inr (Or.inl ⟨id, hin, hd, rfl⟩))), rfl⟩
  · intro f hf id n ha
    rcases (hmem f).mp hf with ⟨_, rfl⟩ | ⟨_, _, _, rfl⟩ | ⟨_, _, _, rfl⟩ | ⟨seg, hs, ht, rfl⟩
    · cases ha
    · cases ha
    · cases ha
    · cases ha
      rw [isTorn, Bool.and_eq_true] at ht
      exact ⟨List.any_eq_true.mpr ⟨seg, hs, by simp⟩, Option.isNone_iff_eq_none.mp ht.1, rfl⟩
  · intro seg hs ht
    exact ⟨_, (hmem _).mpr (Or.inr (Or.inr (Or.inr ⟨seg, hs, ht, rfl⟩))), rfl⟩

end
end Woodshed
