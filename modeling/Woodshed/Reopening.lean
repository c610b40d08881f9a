import Woodshed.Commands

/-! Opening a directory that a running store has left: whatever the segment files hold, an open that
succeeds starts from the state that was recorded. -/
namespace Woodshed
open Sequencing Framing

section
variable [Crates]

omit [Crates] in
/-- The store holds the checkpoint `c` for the segment `id`. -/
def Store.Checkpoint (s : Store) (id : SegmentId) (c : EntryId × ℕ) : Prop :=
  ∃ x ∈ s.index.segments, x.1 = id ∧ c ∈ x.2.checkpoints

section
variable {cfg : StoreCfg} {s : Store} {d : Dir} {es : List Entry} {st : StoreState}
  {log : SegmentId → List Entry} {active : SegmentEntry}

/-- The checkpoints of an index that an open builds. -/
theorem Opened.marks (ho : Opened cfg s es st log active) {id : SegmentId} {c : EntryId × ℕ}
    (hc : s.Checkpoint id c) : ∃ seg ∈ s.state.segments, seg.id = id ∧ Marks (log id) c := by
  obtain rfl := ho.state
  rw [Store.Checkpoint, ho.index] at hc
  obtain ⟨x, hx, rfl, hc⟩ := hc
  obtain ⟨seg, hseg, rfl⟩ := List.mem_map.mp hx
  exact ⟨seg, hseg, rfl, marks_checkpointsOf hc⟩

/-- Opening a directory with nothing to recover. -/
theorem Opened.upright (ho : Opened cfg s es st log active) (h : Sound d es st log active) :
    Upright s d active := by
  obtain rfl := ho.state
  refine ⟨h.present, h.shaped, fun seg hseg => (h.holds.hasSegment hseg).1, h.filed, ?_, ho.activeId,
    ?_, ?_, ?_⟩
  · rw [ho.manifestCursor]
  · rw [ho.activeCursor]
  · rw [ho.activeCursor, (h.holds.hasSegment h.shaped.mem).2, segmentEnd, List.length_append]
    rfl
  · intro x hx c hc
    obtain ⟨_, _, _, before, e, _, _, rfl⟩ := ho.marks ⟨x, hx, rfl, hc⟩
    exact Nat.le_add_right _ _

end

/-- An open without approval only succeeds if it can fix all issues. -/
theorem isAuto_of_openStore {cfg : StoreCfg} {d : Dir} {s : Store} {w : World}
    (h : Store.openStore cfg (calm d) = .ok s w) : ∀ issue ∈ (survey d).issues, IsAuto issue := by
  unfold Store.openStore at h
  rw [bind_ok (onScan_ok (scan_calm d))] at h
  by_cases hno : (survey d).issues = []
  · rw [hno]
    intro issue hi
    cases hi
  · rw [if_neg hno] at h
    obtain ⟨_, w', hrec, _⟩ := bind_eq_ok h
    cases hc : collectFixUps false (survey d).issues with
    | ok fs => exact isAuto_of_collect hc
    | error e =>
      have hfail : attemptRecovery (survey d) false (calm d) = .error e (calm d) := by
        rw [attemptRecovery, hc]
        rfl
      rw [onPart, hfail] at hrec
      cases hrec

/-- A manifest has one way to be taken apart. -/
theorem Layout.of_recorded {d : Dir} {es es' : List Entry} {tail : Bytes} {st st' : StoreState}
    (h : Layout d es' tail st') (hr : Recorded d es st) : Layout d es [] st := by
  have hbytes := h.manifest
  rw [hr.manifest] at hbytes
  have heq := List.append_cancel_left (Option.some.inj hbytes)
  have hdec := decode_entries_short es' tail h.fits h.short
  rw [← heq, frames.decode_encodeAll es hr.fits] at hdec
  obtain ⟨rfl, rfl⟩ : es = es' ∧ [] = tail := by
    injection hdec with hitems hrest
    exact ⟨hitems, hrest⟩
  have hstate := h.replays
  rw [hr.replays] at hstate
  obtain rfl := Except.ok.inj hstate
  exact h

/-- The checkpoints of a report lie behind the magic number. -/
theorem magicLen_le_surveySegment (d : Dir) (id : SegmentId) (expected : Option UInt64) :
    ∀ c ∈ (surveySegment d id expected).1.index.checkpoints, magicLen ≤ c.2 := by
  unfold surveySegment
  dsimp only
  cases d.bytes (segmentPath id) with
  | none => exact fun c hc => by cases hc
  | some bytes =>
    dsimp only
    cases expected.filter (UInt64.ofNat bytes.length ≠ ·) with
    | some x => exact fun c hc => by cases hc
    | none =>
      dsimp only
      cases behindMagic segmentMagic bytes with
      | none => exact fun c hc => by cases hc
      | some xs =>
        have hsum : ∀ c ∈ (summaryOf indexStride xs).checkpoints, magicLen ≤ c.2 := by
          intro c hc
          obtain ⟨before, e, after, _, rfl⟩ :=
            FrameScanner.checkpointsFrom_marks indexStride 0 magicLen _ c hc
          exact Nat.le_add_right _ _
        dsimp only
        unfold segmentReport
        dsimp only
        cases (summaryOf indexStride xs).status <;> exact hsum

/-- The report on an unsealed segment with whole frames. -/
theorem writeOffset_clean {d : Dir} {id : SegmentId} (hf : HasSegment d id)
    (hclean : (frames.decode (body d id)).stop = .clean) :
    (surveySegment d id none).1.writeOffset = (segmentMagic ++ body d id).length := by
  have hvalid := validPrefix_of_clean hclean
  rw [HasSegment] at hf
  have hsum : (summaryOf indexStride (body d id)).status = .clean := by
    rw [summaryOf, hclean]
    rfl
  have hnext : (summaryOf indexStride (body d id)).nextOffset =
      magicLen+(validPrefix (body d id)).length := rfl
  unfold surveySegment
  rw [hf]
  dsimp only [Option.filter_none]
  rw [behindMagic_append segmentMagic _ rfl]
  dsimp only
  rw [segmentReport, hsum]
  dsimp only
  rw [hnext, hvalid, List.length_append]
  rfl

/-- The store that opens a directory. -/
structure Reopened (cfg : StoreCfg) (d : Dir) (st : StoreState) (s : Store) (d' : Dir)
    (active : SegmentEntry) (es' : List Entry) : Prop where
  upright : Upright s d' active
  recorded : Recorded d' es' s.state
  manifest : ManifestAt s d' (manifestMagic ++ frames.encodeAll es')
  cfg : s.cfg = cfg
  /-- The files are those of the state, so recovery does not change it. -/
  state : s.state = st
  next : s.nextSegId = Store.nextSegIdOf st
  pending : s.rolloverPending = false

/-- Opening a directory that an upright store has left. -/
theorem Upright.reopen {s : Store} {d : Dir} {active : SegmentEntry} (h : Upright s d active)
    {es : List Entry} (hr : Recorded d es s.state) {cfg : StoreCfg} {s' : Store} {w : World}
    (hopen : Store.openStore cfg (calm d) = .ok s' w) :
    ∃ d' es', w = calm d' ∧ Reopened cfg d s.state s' d' active es' := by
  obtain ⟨_, _, _, hlayout⟩ := layout_of_isAuto (isAuto_of_openStore hopen)
  have hl := hlayout.of_recorded hr
  obtain ⟨d', es', st', report, htodo, ht, _, _, hfind, hopen'⟩ :=
    hl.openStore_ok cfg h.shaped.activeSegment
  rw [hopen] at hopen'
  obtain ⟨rfl, rfl⟩ : s' = storeOf cfg (survey d') active report ∧ w = calm d' := by
    cases hopen'
    exact ⟨rfl, rfl⟩
  have hsurvey := htodo.layout.survey_eq
  have hfiles : ∀ seg ∈ s.state.segments, segmentPath seg.id ∈ d.files := fun seg hseg =>
    Dir.mem_of_bytes (h.files seg hseg)
  have hdisk (id : SegmentId) : id ∈ diskIds d' ↔ s.state.lists id = true ∨ id ∈ s.state.dead :=
    (ht.mem_diskIds id).trans (h.filed.mem_diskIds hfiles id)
  -- the files are those of the state, so no segment was missing and none an orphan
  have hdead : st'.dead = s.state.dead := by
    ext id
    constructor
    · intro hid
      by_contra hnot
      by_cases hin : id ∈ diskIds d'
      · rcases (hdisk id).mp hin with hl | hd
        · exact hnot ((ht.dead id ((ht.mem_diskIds id).mp hin) hl).mp hid)
        · exact hnot hd
      · obtain ⟨f, hf, _⟩ := htodo.deadDone id hid hin
        cases hf
    · intro hid
      by_contra hnot
      have hl : st'.lists id = false := (ht.lists id).trans (h.shaped.dead id hid)
      obtain ⟨f, hf, _⟩ := htodo.orphanDone id ((hdisk id).mpr (Or.inr hid)) hl hnot
      cases hf
  have hst : st' = s.state := by
    rw [ht.state, hdead]
  subst hst
  have hstate : (survey d').state = s.state := by rw [hsurvey]
  refine ⟨d', es', rfl, ⟨htodo.layout.present, ?_, ?_, ?_, rfl, rfl, rfl, ?_, ?_⟩, ?_, ?_, rfl, hstate,
    ?_, rfl⟩
  · rw [storeOf, hstate]
    exact h.shaped
  · rw [storeOf, hstate]
    exact htodo.layout.files
  · rw [storeOf, hstate]
    exact ⟨fun name hname => h.filed.known name ((ht.mem name).mp hname),
      fun id hid => (ht.mem _).mpr (h.filed.found id hid)⟩
  · -- the report on the active segment, whose frames are whole
    have hreport : report = (surveySegment d' active.id none).1 := by
      have hfind' := h.shaped.find h.shaped.mem
      rw [hsurvey] at hfind
      dsimp only at hfind
      rw [surveySegments, List.map_map, List.find?_map] at hfind
      simp only [Function.comp_def, surveySegment_id, hfind', Option.map_some, Option.some.injEq,
        StoreState.sealInfo, h.shaped.unsealed, Option.map_none] at hfind
      exact hfind.symm
    have hclean : (frames.decode (body d' active.id)).stop = .clean := by
      by_contra hstop
      have htorn : isTorn d' s.state active.id = true := by
        rw [isTorn, h.shaped.unsealed]
        simpa using hstop
      obtain ⟨f, hf, _⟩ := htodo.cutDone active h.shaped.mem htorn
      cases hf
    rw [storeOf, hreport]
    exact writeOffset_clean (htodo.layout.files active h.shaped.mem) hclean
  · intro x hx c hc
    have hindex : (storeOf cfg (survey d') active report).index =
        ⟨(survey d').segments.map fun r => (r.id, r.index)⟩ := by
      rw [storeOf, foldl_addSegment (fun r : SegmentReport => r.id) (fun r => r.index)]
      rfl
    rw [hindex, hsurvey] at hx
    obtain ⟨r, hr', rfl⟩ := List.mem_map.mp hx
    obtain ⟨y, hy, rfl⟩ := List.mem_map.mp hr'
    obtain ⟨seg, _, rfl⟩ := List.mem_map.mp hy
    exact magicLen_le_surveySegment d' seg.id _ c hc
  · rw [storeOf, hstate]
    refine ⟨?_, htodo.layout.fits, htodo.layout.replays⟩
    rw [htodo.layout.manifest, List.append_nil]
  · refine ⟨?_, ?_⟩
    · rw [htodo.layout.manifest, List.append_nil]
    · rw [storeOf, hsurvey, List.length_append]
      rfl
  · rw [storeOf, hstate]

end
end Woodshed
