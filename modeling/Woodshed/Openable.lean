import Woodshed.Failing

/-! What an open that succeeds leaves of a directory, whatever it held before. -/
namespace Woodshed
open Sequencing Framing

section
variable [Crates]

/-- A store that was opened on `d`: the directory it is in now, and what its manifest records. -/
structure Entered (cfg : StoreCfg) (d : Dir) (s : Store) (d' : Dir) (es : List Entry) : Prop where
  layout : Layout d' es [] s.state
  names : ∀ name, name ∈ d'.files ↔ name ∈ d.files
  /-- Every segment file is known, and every dead segment has a file of its id. -/
  known : ∀ id, id ∈ diskIds d' → s.state.lists id = true ∨ id ∈ s.state.dead
  dead : ∀ id ∈ s.state.dead, id ∈ diskIds d'
  manifestCursor : s.manifestCursor = ⟨⟨[]⟩, manifestEnd es⟩
  active : s.state.activeSegmentId = some s.activeId
  next : s.nextSegId = Store.nextSegIdOf s.state
  pending : s.rolloverPending = false
  state : s.state = (survey d').state

omit [Crates] in
theorem activeSegmentId_of_activeSegment {st : StoreState} {active : SegmentEntry}
    (h : st.activeSegment = some active) : st.activeSegmentId = some active.id := by
  unfold StoreState.activeSegment at h
  cases hid : st.activeSegmentId with
  | none => rw [hid] at h; cases h
  | some id =>
    rw [hid] at h
    have hfound : active.id = id := by simpa using List.find?_some h
    rw [hfound]

/-- Opening is possible only where recovery finds a layout with an active segment, which it works off. -/
theorem openStore_entered {cfg : StoreCfg} {d : Dir} {s : Store} {w : World}
    (h : Store.openStore cfg (calm d) = .ok s w) :
    ∃ d' es, w = calm d' ∧ Entered cfg d s d' es := by
  obtain ⟨es, tail, st, hl⟩ := layout_of_isAuto (isAuto_of_openStore h)
  cases hactive : st.activeSegment with
  | none =>
    obtain ⟨w', hpanic⟩ := hl.openStore_panic cfg hactive
    rw [h] at hpanic
    cases hpanic
  | some active =>
    obtain ⟨d', es', st', activeReport, htodo, ht, _, _, hfind, hopen⟩ := hl.openStore_ok cfg hactive
    rw [h] at hopen
    obtain ⟨rfl, rfl⟩ := EStateM.Result.ok.inj hopen
    have hsurvey := htodo.layout.survey_eq
    have hstate : (survey d').state = st' := by rw [hsurvey]
    refine ⟨d', es', rfl, ?_, ht.mem, ?_, ?_, ?_, ?_, rfl, rfl, rfl⟩
    · rw [storeOf, hstate]
      exact htodo.layout
    · intro id hid
      rw [storeOf, hstate]
      by_contra hnot
      obtain ⟨hlists, hdead⟩ := not_or.mp hnot
      obtain ⟨f, hf, _⟩ := htodo.orphanDone id hid (by simpa using hlists) hdead
      cases hf
    · intro id hid
      rw [storeOf, hstate] at hid
      by_contra hnot
      obtain ⟨f, hf, _⟩ := htodo.deadDone id hid hnot
      cases hf
    · rw [storeOf, hsurvey]
      rfl
    · have hactive' := ht.activeSegment.trans hactive
      rw [storeOf, hstate]
      exact activeSegmentId_of_activeSegment hactive'

/-- An open store and its manifest agree, and no op is in the buffer. -/
theorem Entered.matched {cfg : StoreCfg} {d d' : Dir} {s : Store} {es : List Entry}
    (h : Entered cfg d s d' es) : Matched True True es ⟨s, calm d'⟩ := by
  refine ⟨⟨?_, h.layout.fits, h.layout.replays⟩, ?_, h.active, ?_, fun _ => ?_⟩
  · have hbytes := h.layout.manifest
    rwa [List.append_nil] at hbytes
  · rw [h.manifestCursor]
  · intro _ b hb
    cases hb
  · rw [h.manifestCursor]

/-! ### Deletion without failure -/

omit [Crates] in
/-- Deleting a segment leaves no file of its name, whether there was one or not. -/
theorem deleteSegment_calm (d : Dir) (id : SegmentId) :
    ∃ d', deleteSegment id (calm d) = .ok ⟨⟩ (calm d') ∧ d'.present = d.present ∧
      (∀ name, name ∈ d'.files ↔ name ∈ d.files ∧ name ≠ segmentPath id) ∧
      ∀ name, name ≠ segmentPath id → d'.bytes name = d.bytes name := by
  by_cases hin : segmentPath id ∈ d.files
  · refine ⟨d.remove (segmentPath id), ?_, rfl, fun name => ?_, fun name hne => ?_⟩
    · unfold deleteSegment
      rw [bind_ok (attempt_ok (File.remove_calm d _ hin))]
      rfl
    · rw [Dir.mem_remove, and_comm]
    · rw [Dir.bytes_remove, if_neg hne]
  · have hremove : File.remove (segmentPath id) (calm d) = .error notFound (calm d) := by
      unfold File.remove
      rw [bind_ok (call_calm _ d), get_bind]
      exact congrFun (if_neg hin) _
    refine ⟨d, ?_, rfl, fun name => ⟨fun hname => ⟨hname, ?_⟩, fun hname => hname.1⟩, fun _ _ => rfl⟩
    · unfold deleteSegment
      rw [bind_ok (attempt_error hremove)]
      rfl
    · rintro rfl
      exact hin hname

theorem Matched.deleteDead_calm {ids : List SegmentId} (hnd : ids.Nodup) {s : Store} {d : Dir}
    {es : List Entry} (h : Matched True True es ⟨s, calm d⟩) (hin : ∀ id ∈ ids, id ∈ s.state.dead) :
    ∃ s' d' es', (forM ids Store.deleteDead) ⟨s, calm d⟩ = .ok ⟨⟩ ⟨s', calm d'⟩ ∧
      Matched True True es' ⟨s', calm d'⟩ ∧
      s' = { s with state := s'.state, manifestCursor := s'.manifestCursor } ∧
      s'.state = { s.state with dead := s.state.dead \ ids.toFinset } ∧ d'.present = d.present ∧
      ∀ name, name ∈ d'.files ↔ name ∈ d.files ∧ ∀ id ∈ ids, name ≠ segmentPath id := by
  induction ids generalizing s d es with
  | nil => exact ⟨s, d, es, rfl, h, rfl, by simp, rfl, by simp⟩
  | cons id ids ih =>
    obtain ⟨hnot, hnd⟩ := List.nodup_cons.mp hnd
    obtain ⟨d₁, hdel, hpresent₁, hmem₁, hbytes₁⟩ := deleteSegment_calm d id
    have ha := apply_segmentDeleted (hin id (by simp))
    have hm : Matched True True es ⟨s, calm d₁⟩ := by
      refine h.of_held (w := calm d₁) ⟨hbytes₁ _ (segmentPath_ne_manifest id).symm, ?_⟩
      intro _ b hb
      cases hb
    have hcursor : s.manifestCursor = ⟨⟨[]⟩, s.manifestCursor.position⟩ := by
      rw [← hm.empty trivial]
    have happend := Store.appendOp_ok (w := calm d₁)
      "SegmentDeleted on a dead segment must be valid" hcursor rfl rfl ha
    have hfit : Fits (opFrame (ManifestOp.bare (.segmentDeleted id))) :=
      fits_short _ (by simp [Op.fields]) (by simp [Op.fields])
    have hstep : Store.deleteDead id ⟨s, calm d⟩ = .ok ⟨⟩ _ :=
      (bind_ok (fs_ok hdel)).trans happend
    rcases hm.append hfit ha rfl "SegmentDeleted on a dead segment must be valid" with
      ⟨e, m', hrun, _⟩ | ⟨w', hrun, hm'⟩
    · rw [happend] at hrun
      cases hrun
    · rw [happend] at hrun
      obtain rfl : _ = w' := congrArg Machine.world (EStateM.Result.ok.inj hrun).2
      obtain ⟨s', d', es', hloop, hm'', hrest, hstate, hpresent, hmem⟩ := ih hnd hm' fun other ho => by
        refine Finset.mem_erase.mpr ⟨?_, hin other (by simp [ho])⟩
        rintro rfl
        exact hnot ho
      have hdiff := d₁.differs_appended s.manifestCursor.position
        (ManifestOp.bare (.segmentDeleted id))
      rw [forM_cons, bind_ok hstep]
      refine ⟨s', d', es', hloop, hm'', ?_, ?_, ?_, fun name => ?_⟩
      · rw [hrest]
        rfl
      · rw [hstate, Store.recorded]
        dsimp only
        rw [List.toFinset_cons, Finset.sdiff_insert, Finset.erase_sdiff_comm]
      · exact hpresent.trans (hdiff.present.trans hpresent₁)
      · refine (hmem name).trans ((and_congr_left' ((hdiff.mem name).trans (hmem₁ name))).trans ?_)
        simp only [List.mem_cons, forall_eq_or_imp, and_assoc]

theorem Matched.deleteDeadSegments_calm {s : Store} {d : Dir} {es : List Entry}
    (h : Matched True True es ⟨s, calm d⟩) :
    ∃ s' d' es', Store.deleteDeadSegments ⟨s, calm d⟩ =
        .ok (Crates.hashIter s.state.dead).length ⟨s', calm d'⟩ ∧
      Matched True True es' ⟨s', calm d'⟩ ∧
      s' = { s with state := s'.state, manifestCursor := s'.manifestCursor } ∧
      s'.state = { s.state with dead := ∅ } ∧ d'.present = d.present ∧
      ∀ name, name ∈ d'.files ↔ name ∈ d.files ∧ ∀ id ∈ s.state.dead, name ≠ segmentPath id := by
  obtain ⟨s', d', es', hloop, hm, hrest, hstate, hpresent, hmem⟩ :=
    h.deleteDead_calm (Crates.hashIter_nodup s.state.dead)
      fun id hid => (Crates.mem_hashIter _ _).mp hid
  refine ⟨s', d', es', ?_, hm, hrest, ?_, hpresent, fun name => ?_⟩
  · unfold Store.deleteDeadSegments
    rw [get_bind, bind_ok hloop]
    rfl
  · have hall : (Crates.hashIter s.state.dead).toFinset = s.state.dead := by
      ext id
      rw [List.mem_toFinset, Crates.mem_hashIter]
    rw [hstate, hall, Finset.sdiff_self]
  · simp only [hmem, Crates.mem_hashIter]

/-! ### Orphans -/

omit [Crates] in
/-- The scan of a segment finds no orphan. -/
theorem orphan_notMem_surveySegment [Crates] (d : Dir) (id other : SegmentId)
    (expected : Option UInt64) :
    ⟨.segment other, .orphanSegmentFound⟩ ∉ (surveySegment d id expected).2 := by
  unfold surveySegment
  dsimp only
  cases d.bytes (segmentPath id) with
  | none => cases expected <;> simp [SegmentReport.empty, missingIssue]
  | some bytes =>
    dsimp only
    cases expected.filter (UInt64.ofNat bytes.length ≠ ·) with
    | some x => simp [SegmentReport.empty]
    | none =>
      dsimp only
      cases behindMagic segmentMagic bytes with
      | none => cases expected <;> simp [SegmentReport.empty, missingIssue]
      | some xs =>
        dsimp only
        unfold segmentReport
        dsimp only
        cases (summaryOf indexStride xs).status <;> cases expected <;> simp

/-- An orphan that a scan finds is the id of a file, and not known to the manifest. -/
theorem Recorded.orphan {d : Dir} {es : List Entry} {st : StoreState} (h : Recorded d es st)
    {id : SegmentId} (ho : ⟨.segment id, .orphanSegmentFound⟩ ∈ (survey d).issues) :
    id ∈ diskIds d ∧ st.lists id = false ∧ id ∉ st.dead := by
  have hdec := frames.decode_encodeAll es h.fits
  have hreplay : surveyReplay (frames.encodeAll es) = .ok ⟨st, manifestEnd es⟩ := by
    rw [surveyReplay, hdec]
    dsimp only
    rw [h.replays]
    rfl
  unfold survey at ho
  by_cases hp : d.present = false
  · rw [if_pos hp] at ho
    simp [emptyReport] at ho
  · rw [if_neg hp, h.manifest] at ho
    dsimp only at ho
    rw [behindMagic_append manifestMagic _ rfl] at ho
    dsimp only at ho
    unfold surveyManifest at ho
    rw [hdec, hreplay] at ho
    dsimp only at ho
    rw [if_neg (by decide)] at ho
    split at ho
    · simp [emptyReport, tornManifest] at ho
    · simp only [surveyState, tornManifest, List.mem_append, List.mem_flatMap, findMissingDead,
        findOrphans, List.mem_map, List.mem_filter] at ho
      rcases ho with ((ho | ⟨other, ⟨hother, hnot⟩, heq⟩) | ⟨other, _, heq⟩) | ⟨report, hr, ho⟩
      · simp at ho
      · obtain rfl : other = id := by
          injection heq with hfile
          exact FileRef.segment.inj hfile
        obtain ⟨hl, hd⟩ := not_or.mp (of_decide_eq_true hnot)
        exact ⟨hother, by simpa using hl, hd⟩
      · cases heq
      · obtain ⟨seg, _, rfl⟩ := List.mem_map.mp hr
        exact absurd ho (orphan_notMem_surveySegment d seg.id id _)

end
end Woodshed
