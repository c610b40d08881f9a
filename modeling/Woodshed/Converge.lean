import Woodshed.Repair
import Woodshed.Sample

/-! Recovery without approval: it only starts on a layout, it ends on one without issues, and where
it ends does not depend on how often it was interrupted. -/
namespace Woodshed
open Sequencing Framing

section
variable [Crates]

/-- An issue that is fixed without approval. -/
def IsAuto (issue : FileIssue) : Prop :=
  ∃ f, createFixUp issue = some f ∧ f.approvalRequired = false

omit [Crates] in
theorem isAuto_of_collect {issues : IssueReport} {fs : List FixUp}
    (h : collectFixUps false issues = .ok fs) : ∀ issue ∈ issues, IsAuto issue := by
  induction issues generalizing fs with
  | nil => simp
  | cons x xs ih =>
    rw [collectFixUps] at h
    cases hc : createFixUp x with
    | none => rw [hc] at h; cases h
    | some f =>
      rw [hc] at h
      dsimp only at h
      by_cases ha : f.approvalRequired = true
      · rw [ha] at h
        cases h
      · have ha' : f.approvalRequired = false := by simpa using ha
        rw [ha'] at h
        cases hr : collectFixUps false xs with
        | error e => rw [hr] at h; cases h
        | ok rest =>
          intro issue hi
          rcases List.mem_cons.mp hi with rfl | hi
          · exact ⟨f, hc, ha'⟩
          · exact ih hr issue hi

omit [Crates] in
theorem not_isAuto {issue : FileIssue}
    (h : ∀ f, createFixUp issue = some f → f.approvalRequired = true) : ¬ IsAuto issue := by
  rintro ⟨f, hf, ha⟩
  rw [h f hf] at ha
  cases ha

/-- Every issue has a fix-up. -/
def Fixable (d : Dir) : Prop := ∀ issue ∈ (survey d).issues, (createFixUp issue).isSome = true

omit [Crates] in
/-- A report that stops at an issue without a fix-up is refused. -/
theorem not_fixable_last {issues : IssueReport} {last : FileIssue} (hlast : createFixUp last = none) :
    ¬ ∀ issue ∈ (emptyReport (issues ++ [last])).issues, (createFixUp issue).isSome = true := by
  intro h
  have hsome := h last (by simp [emptyReport])
  rw [hlast] at hsome
  cases hsome

/-- With approval, recovery starts wherever the manifest can be replayed. -/
theorem outline_of_fixable {d : Dir} (h : Fixable d) : ∃ es tail st, Outline d es tail st := by
  unfold Fixable survey at h
  by_cases hp : d.present = false
  · rw [if_pos hp] at h
    exact absurd h (@not_fixable_last [] _ rfl)
  · rw [if_neg hp] at h
    have hpresent : d.present = true := by simpa using hp
    cases hb : d.bytes manifestFileName with
    | none =>
      rw [hb] at h
      exact absurd h (@not_fixable_last [] _ rfl)
    | some bytes =>
      rw [hb] at h
      dsimp only at h
      cases hm : behindMagic manifestMagic bytes with
      | none =>
        rw [hm] at h
        exact absurd h (@not_fixable_last [] _ rfl)
      | some xs =>
        rw [hm] at h
        dsimp only [surveyManifest] at h
        obtain rfl := behindMagic_eq_some hm
        obtain ⟨hsplit, hfits, _⟩ := frames.decode_sound xs
        by_cases hc : (frames.decode xs).stop = .corrupt
        · rw [if_pos hc] at h
          exact absurd h (@not_fixable_last [] _ rfl)
        · rw [if_neg hc] at h
          cases hr : surveyReplay xs with
          | error x =>
            rw [hr] at h
            cases x with
            | invalidOp offset source => exact absurd h (not_fixable_last rfl)
            | applyFailed offset source => exact absurd h (not_fixable_last rfl)
            | io e => exact absurd h (not_fixable_last rfl)
          | ok replayed =>
            rw [hr] at h
            dsimp only at h
            by_cases he : replayed.state.isEmpty = true
            · rw [if_pos he] at h
              exact absurd h (not_fixable_last rfl)
            · rw [StoreState.isEmpty, List.isEmpty_iff] at he
              rw [surveyReplay] at hr
              split at hr
              · cases hr
              · rename_i hok
                split at hr
                · rename_i hshort
                  cases hr
                  refine ⟨(frames.decode xs).items, (frames.decode xs).rest, _, hpresent, ?_, hfits,
                    hshort, hok, he⟩
                  rw [← hsplit]
                  exact hb
                · cases hr

/-- A segment is reported to be missing. -/
def Missing (d : Dir) (st : StoreState) (id : SegmentId) : Prop :=
  segmentIssues d st id = [⟨.segment id, .activeSegmentMissing⟩]

section
variable {d : Dir} {st : StoreState} {id : SegmentId}

/-- A file with another size than recorded. -/
theorem segmentIssues_mismatch {bytes : Bytes} {info : SealInfo}
    (hb : d.bytes (segmentPath id) = some bytes) (hs : st.seals id = some info)
    (hne : UInt64.ofNat bytes.length ≠ info.finalSize) :
    segmentIssues d st id =
      [⟨.segment id, .sealedSegmentSizeMismatch info.finalSize bytes.length⟩] := by
  unfold segmentIssues surveySegment StoreState.sealInfo
  simp only [hb, hs, Option.map_some, Option.filter_some, if_pos (decide_eq_true hne)]
  rfl

/-- A segment of which every issue has a fix-up is missing, or opens and has the size it should have. -/
theorem segmentIssues_cases
    (hfix : ∀ issue ∈ segmentIssues d st id, (createFixUp issue).isSome = true) :
    Missing d st id ∧ st.seals id = none ∨ HasSegment d id ∧ ∀ info, st.seals id = some info →
      UInt64.ofNat (segmentMagic ++ body d id).length = info.finalSize := by
  have hmissing (h : segmentIssues d st id = [⟨.segment id, missingIssue (st.seals id).isSome⟩]) :
      Missing d st id ∧ st.seals id = none := by
    cases hs : st.seals id with
    | none =>
      rw [hs] at h
      exact ⟨h, rfl⟩
    | some info =>
      rw [hs] at h
      have hsome := hfix ⟨.segment id, missingIssue (some info).isSome⟩ (by rw [h]; simp)
      cases hsome
  cases hb : d.bytes (segmentPath id) with
  | none =>
    left
    refine hmissing ?_
    unfold segmentIssues surveySegment StoreState.sealInfo
    simp only [hb, Option.isSome_map]
    rfl
  | some bytes =>
    by_cases hsize : ∀ info, st.seals id = some info → UInt64.ofNat bytes.length = info.finalSize
    · cases hm : behindMagic segmentMagic bytes with
      | none =>
        left
        refine hmissing ?_
        have hf : ((st.seals id).map (·.finalSize)).filter
            (fun x => UInt64.ofNat bytes.length ≠ x) = none := by
          cases hs : st.seals id with
          | none => rfl
          | some info => simp [hsize info hs]
        unfold segmentIssues surveySegment StoreState.sealInfo
        simp only [hb, hf, hm, Option.isSome_map]
        rfl
      | some xs =>
        right
        obtain rfl := behindMagic_eq_some hm
        rw [body_eq hb]
        exact ⟨hasSegment_of hb, hsize⟩
    · exfalso
      obtain ⟨info, himp⟩ := not_forall.mp hsize
      obtain ⟨hs, hne⟩ := Classical.not_imp.mp himp
      have hsome := hfix _ (by rw [segmentIssues_mismatch hb hs hne]; exact List.mem_singleton.mpr rfl)
      cases hsome

end

theorem fixable_of_isAuto {d : Dir} (h : ∀ issue ∈ (survey d).issues, IsAuto issue) : Fixable d := by
  intro issue hi
  obtain ⟨f, hf, _⟩ := h issue hi
  rw [hf]
  rfl

theorem Outline.mem_survey {d : Dir} {es : List Entry} {tail : Bytes} {st : StoreState}
    (h : Outline d es tail st) {seg : SegmentEntry} (hseg : seg ∈ st.segments) {issue : FileIssue}
    (hi : issue ∈ segmentIssues d st seg.id) : issue ∈ (survey d).issues := by
  rw [h.survey_eq]
  exact List.mem_append_right _ (List.mem_flatMap.mpr ⟨seg, hseg, hi⟩)

/-- Recovery without approval only starts on a layout. -/
theorem layout_of_isAuto {d : Dir} (h : ∀ issue ∈ (survey d).issues, IsAuto issue) :
    ∃ es tail st, Layout d es tail st := by
  have hfixable := fixable_of_isAuto h
  obtain ⟨es, tail, st, ho⟩ := outline_of_fixable hfixable
  -- what needs an approval is not reported
  have hintact : ∀ seg ∈ st.segments, HasSegment d seg.id ∧ ∀ info, st.seals seg.id = some info →
      UInt64.ofNat (segmentMagic ++ body d seg.id).length = info.finalSize ∧
        (frames.decode (body d seg.id)).stop = .clean := by
    intro seg hseg
    have hauto : ∀ issue ∈ segmentIssues d st seg.id, IsAuto issue :=
      fun issue hi => h issue (ho.mem_survey hseg hi)
    rcases segmentIssues_cases fun issue hi => hfixable issue (ho.mem_survey hseg hi) with
      ⟨hmissing, _⟩ | ⟨hfile, hsize⟩
    · refine absurd (hauto ⟨.segment seg.id, .activeSegmentMissing⟩ (by rw [hmissing]; simp))
        (not_isAuto ?_)
      intro f hf
      cases hf
      rfl
    · refine ⟨hfile, fun info hs => ⟨hsize info hs, ?_⟩⟩
      by_contra hstop
      have hissues := segmentIssues_eq hfile hsize
      rw [if_neg hstop, cutIssue, hs] at hissues
      refine absurd (hauto _ (by rw [hissues]; exact List.mem_singleton_self _)) (not_isAuto ?_)
      intro f hf
      cases hf
      rfl
  exact ⟨es, tail, st, ho.present, ho.manifest, ho.fits, ho.short, ho.replays, ho.nonempty,
    fun seg hseg => (hintact seg hseg).1, fun seg hseg => (hintact seg hseg).2⟩

/-- The issues that are left when there is nothing to do. -/
theorem Todo.issues_nil {d : Dir} {es : List Entry} {tail : Bytes} {st : StoreState}
    (h : Todo d es tail st []) : (survey d).issues = [] := by
  have htail : tail = [] := by
    rcases h.manifest with ⟨hnil, _⟩ | ⟨f, rest, heq, _⟩
    · exact hnil
    · cases heq
  rw [h.layout.survey_eq]
  dsimp only [layoutIssues]
  have horphans : findOrphans st (diskIds d) = [] := by
    rw [findOrphans, List.map_eq_nil_iff, List.filter_eq_nil_iff]
    intro id hid
    simp only [decide_eq_true_eq, not_not]
    by_contra hnot
    rw [not_or, Bool.not_eq_true] at hnot
    obtain ⟨f, hf, _⟩ := h.orphanDone id hid hnot.1 hnot.2
    cases hf
  have hmissing : findMissingDead st (diskIds d) = [] := by
    rw [findMissingDead, List.map_eq_nil_iff, List.filter_eq_nil_iff]
    intro id hid
    simp only [decide_eq_true_eq, not_not]
    by_contra hnot
    obtain ⟨f, hf, _⟩ := h.deadDone id ((Crates.mem_hashIter st.dead id).mp hid) hnot
    cases hf
  have htorn : tornIssues d st = [] := by
    rw [tornIssues, List.map_eq_nil_iff, List.filter_eq_nil_iff]
    intro seg hseg ht
    obtain ⟨f, hf, _⟩ := h.cutDone seg hseg ht
    cases hf
  rw [horphans, hmissing, htorn, tailIssue, if_pos htail]
  rfl

/-- A recovery that runs to its end. -/
theorem Layout.recover {d : Dir} {es : List Entry} {tail : Bytes} {st : StoreState}
    (h : Layout d es tail st) (approved : Bool) :
    ∃ d' es' tail' st', attemptRecovery (survey d) approved (calm d) = .ok ⟨⟩ (calm d') ∧
      Todo d' es' tail' st' [] ∧ Toward d st d' st' ∧ RecoveryFrames es es' := by
  have hall : Todo d es tail st (layoutFixUps d es tail st ++ []) := by
    rw [List.append_nil]
    exact h.todo
  obtain ⟨d', es', tail', st', ha, htodo, ht, hr⟩ := hall.run
  exact ⟨d', es', tail', st', by rw [h.attemptRecovery_eq, ha], htodo, ht, hr⟩

/-- The dead ids at the end: those recorded before and the orphans, less those without a file. -/
theorem Toward.mem_dead {d d' : Dir} {es' : List Entry} {tail' : Bytes} {st st' : StoreState}
    (h : Toward d st d' st') (hd : Todo d' es' tail' st' []) (id : SegmentId) :
    id ∈ st'.dead ↔ id ∈ diskIds d ∧ (id ∈ st.dead ∨ st.lists id = false) := by
  have hdisk : id ∈ st'.dead → id ∈ diskIds d := by
    intro hin
    by_contra hnot
    obtain ⟨f, hf, _⟩ := hd.deadDone id hin fun hc => hnot ((h.mem_diskIds id).mp hc)
    cases hf
  constructor
  · intro hin
    refine ⟨hdisk hin, ?_⟩
    cases hl : st.lists id with
    | false => exact Or.inr rfl
    | true => exact Or.inl ((h.dead id (hdisk hin) hl).mp hin)
  · rintro ⟨hid, hor⟩
    cases hl : st.lists id with
    | true =>
      refine (h.dead id hid hl).mpr (hor.resolve_right ?_)
      rw [hl]
      decide
    | false =>
      by_contra hnot
      obtain ⟨f, hf, _⟩ := hd.orphanDone id ((h.mem_diskIds id).mpr hid)
        ((h.lists id).trans hl) hnot
      cases hf

/-- The file of an unsealed segment at the end. -/
theorem Toward.bytes_unsealed {d d' : Dir} {es' : List Entry} {tail' : Bytes} {st st' : StoreState}
    (h : Toward d st d' st') (hd : Todo d' es' tail' st' []) {seg : SegmentEntry}
    (hseg : seg ∈ st.segments) (hs : st.seals seg.id = none) :
    d'.bytes (segmentPath seg.id) = some (segmentMagic ++ validPrefix (body d seg.id)) := by
  have hseg' : seg ∈ st'.segments := by
    rw [h.state]
    exact hseg
  have hclean : (frames.decode (body d' seg.id)).stop = .clean := by
    by_contra hne
    have ht : isTorn d' st' seg.id = true := by
      rw [isTorn, h.state, hs]
      simpa using hne
    obtain ⟨f, hf, _⟩ := hd.cutDone seg hseg' ht
    cases hf
  have hfile := hd.layout.files seg hseg'
  rw [HasSegment] at hfile
  rw [hfile, ← h.cuts seg hseg, validPrefix_of_clean hclean]

/-- Two recoveries of one directory end with the same state and the same files. -/
theorem Toward.unique {d d₁ d₂ : Dir} {es₁ es₂ : List Entry} {tail₁ tail₂ : Bytes}
    {st st₁ st₂ : StoreState} (h₁ : Toward d st d₁ st₁) (hd₁ : Todo d₁ es₁ tail₁ st₁ [])
    (h₂ : Toward d st d₂ st₂) (hd₂ : Todo d₂ es₂ tail₂ st₂ []) :
    st₁ = st₂ ∧ ∀ name, name ≠ manifestFileName → d₁.bytes name = d₂.bytes name := by
  constructor
  · have hdead : st₁.dead = st₂.dead := by
      ext id
      rw [h₁.mem_dead hd₁, h₂.mem_dead hd₂]
    rw [h₁.state, h₂.state, hdead]
  · intro name hname
    by_cases hcut : ∃ seg ∈ st.segments, name = segmentPath seg.id ∧ st.seals seg.id = none
    · obtain ⟨seg, hseg, rfl, hs⟩ := hcut
      rw [h₁.bytes_unsealed hd₁ hseg hs, h₂.bytes_unsealed hd₂ hseg hs]
    · have huntouched : ∀ id, name = segmentPath id → st.lists id = true → st.seals id ≠ none := by
        intro id hid hl hs
        obtain ⟨seg, hseg, hsegid⟩ := List.any_eq_true.mp hl
        have hsegid' : seg.id = id := by simpa using hsegid
        exact hcut ⟨seg, hseg, by rw [hsegid', hid], by rw [hsegid']; exact hs⟩
      rw [h₁.files name hname huntouched, h₂.files name hname huntouched]

/-- Automatic recovery, on any directory: what it leaves, and that stopping after any part of its
fix-ups and starting again leaves the same. -/
theorem attemptRecovery_converges (d : Dir) (report : ScanReport) (w : World)
    (hscan : scan (calm d) = .ok report (calm d))
    (hok : attemptRecovery report false (calm d) = .ok ⟨⟩ w) :
    ∃ d' report', w = calm d' ∧ scan w = .ok report' w ∧ report'.issues = [] ∧
      report'.state.segments = report.state.segments ∧ report'.state.seals = report.state.seals ∧
      report'.state.activeSegmentId = report.state.activeSegmentId ∧
      report'.state.firstEntry = report.state.firstEntry ∧
      report'.state.metaPairs = report.state.metaPairs ∧
      (∀ id, id ∈ report'.state.dead ↔
        (id ∈ report.state.dead ∨ ⟨.segment id, .orphanSegmentFound⟩ ∈ report.issues) ∧
          ⟨.segment id, .deadSegmentNotFound⟩ ∉ report.issues) ∧
      (∀ seg ∈ report.state.segments, report.state.seals seg.id ≠ none →
        d'.bytes (segmentPath seg.id) = d.bytes (segmentPath seg.id)) ∧
      (∀ seg ∈ report.state.segments, report.state.seals seg.id = none →
        ∃ xs, d.bytes (segmentPath seg.id) = some (segmentMagic ++ xs) ∧
          d'.bytes (segmentPath seg.id) = some (segmentMagic ++ validPrefix xs)) ∧
      ∃ fixUps, collectFixUps false report.issues = .ok fixUps ∧
        ∀ k, ∃ dk reportk d'' report'',
          applyFixUps ((sortFixUps fixUps).take k) (calm d) = .ok ⟨⟩ (calm dk) ∧
          scan (calm dk) = .ok reportk (calm dk) ∧
          attemptRecovery reportk false (calm dk) = .ok ⟨⟩ (calm d'') ∧
          scan (calm d'') = .ok report'' (calm d'') ∧
          report''.state = report'.state ∧
          ∀ name, name ≠ manifestFileName → d''.bytes name = d'.bytes name := by
  rw [scan_calm] at hscan
  cases hscan
  -- only a layout gets past the collection of the fix-ups
  have hcollect : ∃ fs, collectFixUps false (survey d).issues = .ok fs := by
    rw [attemptRecovery] at hok
    cases hc : collectFixUps false (survey d).issues with
    | error e => rw [hc] at hok; cases hok
    | ok fs => exact ⟨fs, rfl⟩
  obtain ⟨fs, hfs⟩ := hcollect
  obtain ⟨es, tail, st, hl⟩ := layout_of_isAuto (isAuto_of_collect hfs)
  obtain ⟨d', es', tail', st', hrec, htodo, ht, _⟩ := hl.recover false
  rw [hrec] at hok
  cases hok
  have hs := hl.survey_eq
  have hs' := htodo.layout.survey_eq
  have horphan (id : SegmentId) : ⟨.segment id, .orphanSegmentFound⟩ ∈ layoutIssues d es tail st ↔
      id ∈ diskIds d ∧ st.lists id = false ∧ id ∉ st.dead := by
    simp only [layoutIssues, tailIssue, findOrphans, findMissingDead, tornIssues, List.mem_append,
      List.mem_map, List.mem_filter]
    by_cases hnil : tail = [] <;> simp [hnil]
  have hmiss (id : SegmentId) : ⟨.segment id, .deadSegmentNotFound⟩ ∈ layoutIssues d es tail st ↔
      id ∈ st.dead ∧ id ∉ diskIds d := by
    simp only [layoutIssues, tailIssue, findOrphans, findMissingDead, tornIssues, List.mem_append,
      List.mem_map, List.mem_filter, Crates.mem_hashIter]
    by_cases hnil : tail = [] <;> simp [hnil]
  refine ⟨d', survey d', rfl, scan_calm d', htodo.issues_nil, ?_⟩
  rw [hs, hs'] at *
  dsimp only
  refine ⟨by rw [ht.state], by rw [ht.state], by rw [ht.state], by rw [ht.state], by rw [ht.state],
    ?_, ?_, ?_, ?_⟩
  · intro id
    rw [ht.mem_dead htodo, horphan, hmiss]
    cases hlive : st.lists id <;> by_cases hdisk : id ∈ diskIds d <;>
      by_cases hdead : id ∈ st.dead <;> simp [hdisk, hdead]
  · intro seg hseg hsealed
    refine ht.files _ (segmentPath_ne_manifest _) ?_
    intro id hid _
    rw [← segmentPath_injective hid]
    exact hsealed
  · intro seg hseg hs
    exact ⟨body d seg.id, hl.files seg hseg, ht.bytes_unsealed htodo hseg hs⟩
  · have hfs' := collect_layoutIssues d es tail st false
    refine ⟨layoutFixUps d es tail st, hfs', fun k => ?_⟩
    rw [sort_layoutFixUps]
    have hsplit : Todo d es tail st ((layoutFixUps d es tail st).take k ++
        (layoutFixUps d es tail st).drop k) := by
      rw [List.take_append_drop]
      exact hl.todo
    obtain ⟨dk, esk, tailk, stk, hrun, htodok, htk, _⟩ := hsplit.run
    obtain ⟨d'', es'', tail'', st'', hrec', htodo', ht', _⟩ := htodok.layout.recover false
    obtain ⟨hst, hfiles⟩ := (htk.trans ht').unique htodo' ht htodo
    refine ⟨dk, survey dk, d'', survey d'', hrun, scan_calm dk, hrec', scan_calm d'', ?_, hfiles⟩
    rw [htodo'.layout.survey_eq]
    exact hst

end

section
attribute [local instance] sample

/-- A manifest with a torn tail and a dead segment without a file, an orphan, and a torn segment. -/
def damaged : Dir :=
  let created := opFrame (ManifestOp.bare (.createSegment ⟨1⟩ ⟨0⟩))
  let orphaned := opFrame (ManifestOp.bare (.recordOrphan ⟨7⟩))
  let manifest := manifestMagic ++ frames.encodeAll [created, orphaned] ++ [1, 2, 3]
  let segment := segmentMagic ++ frame (⟨5⟩, [1, 2]) ++ [9, 9]
  let empty : Dir := ⟨true, ∅⟩
  ((empty.put manifestFileName ⟨manifest, manifest⟩).put (segmentPath ⟨1⟩) ⟨segment, segment⟩).put
    (segmentPath ⟨3⟩) ⟨segmentMagic, segmentMagic⟩

theorem attemptRecovery_converges_damaged :
    ∃ report report' w, scan (calm damaged) = .ok report (calm damaged) ∧
      report.issues.length = 4 ∧ attemptRecovery report false (calm damaged) = .ok ⟨⟩ w ∧
      scan w = .ok report' w ∧ report'.issues = [] := by
  have hrun : succeeds (attemptRecovery (survey damaged) false (calm damaged)) = true := by
    decide +kernel
  have hissues : (survey damaged).issues.length = 4 := by decide +kernel
  obtain ⟨_, w, hok⟩ := exists_of_succeeds hrun
  obtain ⟨_, report', _, hscan, hnil, _⟩ :=
    attemptRecovery_converges damaged (survey damaged) w (scan_calm damaged) hok
  exact ⟨survey damaged, report', w, scan_calm damaged, hissues, hok, hscan, hnil⟩

end
end Woodshed
