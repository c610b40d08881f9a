import Woodshed.Openable
import Woodshed.Verdict

/-! Recovery with approval: what it makes of a directory whose issues all have a fix-up, and when
nothing is left to report then. -/
namespace Woodshed
open Sequencing Framing

section
variable [Crates]

/-- A recovery with approval runs to its end, a scan behind it has nothing to report, and the store
opens, if its manifest has an active segment. -/
def RecoversFully (d : Dir) : Prop :=
  ∃ w' report, Store.recover (calm d) = .ok ⟨⟩ w' ∧ scan w' = .ok report w' ∧ report.issues = [] ∧
    ∀ cfg, report.state.activeSegment ≠ none → ∃ s, Store.openStore cfg w' = .ok s w'

/-- A segment that is reported to be missing has no file, and is listed once, and a sealed one that is
cut keeps its size. -/
structure Mendable (d : Dir) : Prop where
  absent : ∀ id, ⟨.segment id, .activeSegmentMissing⟩ ∈ (survey d).issues → segmentPath id ∉ d.files
  once : (survey d).state.segments.Pairwise fun a b => a.id = b.id →
    ⟨.segment b.id, .activeSegmentMissing⟩ ∉ (survey d).issues
  intact : ∀ id n, ⟨.segment id, .sealedSegmentChecksumCorrupt n⟩ ∈ (survey d).issues →
    (d.bytes (segmentPath id)).map (fun bytes => UInt64.ofNat bytes.length) = some (UInt64.ofNat n)

/-! ### The fix-ups of the manifest -/

section
variable {d d' : Dir} {es : List Entry} {tail : Bytes} {st : StoreState}

omit [Crates] in
theorem Dir.Differs.refl (d : Dir) (name : FileName) : d.Differs d name :=
  ⟨rfl, fun _ => Iff.rfl, fun _ _ => rfl⟩

omit [Crates] in
theorem Dir.Differs.trans {d'' : Dir} {name : FileName} (h : d.Differs d' name)
    (h' : d'.Differs d'' name) : d.Differs d'' name :=
  ⟨h'.present.trans h.present, fun other => (h'.mem other).trans (h.mem other),
    fun other hne => (h'.bytes other hne).trans (h.bytes other hne)⟩

def tailFixUps (es : List Entry) (tail : Bytes) : List FixUp :=
  if tail = [] then [] else [⟨.manifestFileClean, false, .truncateManifest (manifestEnd es)⟩]

def orphanFixUps (ids : List SegmentId) : List FixUp :=
  ids.map fun id => ⟨.manifestAppends, false, .orphanFound id⟩

def deadFixUps (ids : List SegmentId) : List FixUp :=
  ids.map fun id => ⟨.manifestAppends, false, .deadSegmentMissing id⟩

theorem Outline.applyTail (h : Outline d es tail st) :
    ∃ d', applyFixUps (tailFixUps es tail) (calm d) = .ok ⟨⟩ (calm d') ∧
      d.Differs d' manifestFileName ∧ Outline d' es [] st := by
  unfold tailFixUps
  by_cases hnil : tail = []
  · subst hnil
    rw [if_pos rfl]
    exact ⟨d, rfl, Dir.Differs.refl d _, h⟩
  · rw [if_neg hnil]
    obtain ⟨d', hrun, hdiff, h'⟩ := h.truncateManifest
    refine ⟨d', ?_, hdiff, h'⟩
    rw [applyFixUps, forM_cons]
    exact bind_ok hrun

theorem Outline.applyOrphans (ids : List SegmentId) (h : Outline d es [] st) :
    ∃ d' es', applyFixUps (orphanFixUps ids) (calm d) = .ok ⟨⟩ (calm d') ∧
      d.Differs d' manifestFileName ∧ Outline d' es' [] { st with dead := st.dead ∪ ids.toFinset } := by
  induction ids generalizing d es st with
  | nil =>
    refine ⟨d, es, rfl, Dir.Differs.refl d _, ?_⟩
    rw [List.toFinset_nil, Finset.union_empty]
    exact h
  | cons id ids ih =>
    obtain ⟨d₁, hrun, hdiff, h₁⟩ := h.append (.recordOrphan id)
      (fits_short _ (by simp [Op.fields]) (by simp [Op.fields]))
      (show StoreState.apply _ st = .ok ⟨⟩ { st with dead := insert id st.dead } from rfl) rfl
    obtain ⟨d₂, es₂, hrest, hdiff', h₂⟩ := ih h₁
    have hdead : insert id st.dead ∪ ids.toFinset = st.dead ∪ (id :: ids).toFinset := by
      rw [List.toFinset_cons, Finset.insert_union, Finset.union_insert]
    refine ⟨d₂, es₂, ?_, hdiff.trans hdiff', ?_⟩
    · rw [applyFixUps, orphanFixUps, List.map_cons, forM_cons]
      exact (bind_ok hrun).trans hrest
    · rw [← hdead]
      exact h₂

theorem Outline.applyDeads {ids : List SegmentId} (hnd : ids.Nodup) (h : Outline d es [] st)
    (hin : ∀ id ∈ ids, id ∈ st.dead) :
    ∃ d' es', applyFixUps (deadFixUps ids) (calm d) = .ok ⟨⟩ (calm d') ∧
      d.Differs d' manifestFileName ∧ Outline d' es' [] { st with dead := st.dead \ ids.toFinset } := by
  induction ids generalizing d es st with
  | nil =>
    refine ⟨d, es, rfl, Dir.Differs.refl d _, ?_⟩
    rw [List.toFinset_nil, Finset.sdiff_empty]
    exact h
  | cons id ids ih =>
    obtain ⟨hnot, hnd⟩ := List.nodup_cons.mp hnd
    obtain ⟨d₁, hrun, hdiff, h₁⟩ := h.append (.segmentDeleted id)
      (fits_short _ (by simp [Op.fields]) (by simp [Op.fields]))
      (apply_segmentDeleted (hin id (by simp))) rfl
    obtain ⟨d₂, es₂, hrest, hdiff', h₂⟩ := ih hnd h₁ fun other hother => by
      refine Finset.mem_erase.mpr ⟨?_, hin other (by simp [hother])⟩
      rintro rfl
      exact hnot hother
    have hdead : st.dead.erase id \ ids.toFinset = st.dead \ (id :: ids).toFinset := by
      ext other
      simp only [Finset.mem_sdiff, Finset.mem_erase, List.toFinset_cons, Finset.mem_insert]
      tauto
    refine ⟨d₂, es₂, ?_, hdiff.trans hdiff', ?_⟩
    · rw [applyFixUps, deadFixUps, List.map_cons, forM_cons]
      exact (bind_ok hrun).trans hrest
    · rw [← hdead]
      exact h₂

end

/-! ### The fix-ups of the segments -/

def segmentFixUps (d : Dir) (st : StoreState) (id : SegmentId) : List FixUp :=
  (segmentIssues d st id).filterMap createFixUp

section
variable {d d' : Dir} {st st' : StoreState} {id : SegmentId}

theorem segmentIssues_congr (hb : d'.bytes (segmentPath id) = d.bytes (segmentPath id))
    (hs : st'.seals = st.seals) : segmentIssues d' st' id = segmentIssues d st id := by
  unfold segmentIssues surveySegment StoreState.sealInfo
  rw [hb, hs]

theorem Missing.fixUps (h : Missing d st id) :
    segmentFixUps d st id = [⟨.segmentFileClean, true, .createActiveSegment id⟩] := by
  rw [segmentFixUps, h]
  rfl

/-- Of a segment that opens the valid frames are left, whether it is sealed or not. -/
theorem segmentFixUps_eq (hfile : HasSegment d id) (hsize : ∀ info, st.seals id = some info →
      UInt64.ofNat (segmentMagic ++ body d id).length = info.finalSize) :
    (frames.decode (body d id)).stop = .clean ∧ segmentFixUps d st id = [] ∨
      ∃ approval, segmentFixUps d st id =
        [⟨.segmentFileClean, approval, .truncateSegment id (validEnd d id)⟩] := by
  have hissues := segmentIssues_eq hfile hsize
  by_cases hstop : (frames.decode (body d id)).stop = .clean
  · left
    rw [if_pos hstop] at hissues
    exact ⟨hstop, by rw [segmentFixUps, hissues]; rfl⟩
  · right
    rw [if_neg hstop] at hissues
    rw [segmentFixUps, hissues, cutIssue]
    cases (st.seals id).isSome with
    | true => exact ⟨true, rfl⟩
    | false => exact ⟨false, rfl⟩

/-- A segment that opens is not reported to be missing. -/
theorem not_missing (hfile : HasSegment d id) (hsize : ∀ info, st.seals id = some info →
      UInt64.ofNat (segmentMagic ++ body d id).length = info.finalSize) : ¬ Missing d st id := by
  intro hmissing
  rw [Missing, segmentIssues_eq hfile hsize, cutIssue] at hmissing
  split at hmissing
  · cases hmissing
  · split at hmissing <;> simp at hmissing

end

/-- What the fix-ups of the segments `ids` have made of a directory. -/
structure Worked (d d' : Dir) (ids : List SegmentId) : Prop where
  present : d'.present = d.present
  manifest : d'.bytes manifestFileName = d.bytes manifestFileName
  mem : ∀ name, name ∈ d'.files ↔ name ∈ d.files ∨ ∃ id ∈ ids, name = segmentPath id
  done : ∀ id ∈ ids, d'.bytes (segmentPath id) = some (segmentMagic ++ validPrefix (body d id))
  other : ∀ id, id ∉ ids → d'.bytes (segmentPath id) = d.bytes (segmentPath id)

/-- The missing ones among some segments can be created behind others. -/
def Addable (d : Dir) (st : StoreState) (ids : List SegmentId) (segs : List SegmentEntry) : Prop :=
  (∀ seg ∈ segs, Missing d st seg.id → segmentPath seg.id ∉ d.files ∧ seg.id ∉ ids) ∧
    segs.Pairwise fun a b => a.id = b.id → ¬ Missing d st b.id

section
variable {d d' : Dir} {st : StoreState} {ids : List SegmentId} {id : SegmentId}
  {seg : SegmentEntry} {segs : List SegmentEntry}

theorem addable_cons : Addable d st ids (seg :: segs) ↔
    (Missing d st seg.id → segmentPath seg.id ∉ d.files ∧ seg.id ∉ ids) ∧
      Addable d st (ids ++ [seg.id]) segs := by
  unfold Addable
  rw [List.forall_mem_cons, List.pairwise_cons]
  constructor
  · rintro ⟨⟨hseg, hrest⟩, hfirst, hlater⟩
    refine ⟨hseg, fun other hother hm => ⟨(hrest other hother hm).1, fun hin => ?_⟩, hlater⟩
    rcases List.mem_append.mp hin with hin | hin
    · exact (hrest other hother hm).2 hin
    · exact hfirst other hother (List.mem_singleton.mp hin).symm hm
  · rintro ⟨hseg, hrest, hlater⟩
    refine ⟨⟨hseg, fun other hother hm => ?_⟩, fun other hother heq hm => ?_, hlater⟩
    · obtain ⟨habsent, hnot⟩ := hrest other hother hm
      exact ⟨habsent, fun hin => hnot (List.mem_append_left _ hin)⟩
    · exact (hrest other hother hm).2 (by simp [heq])

theorem Worked.start (d : Dir) : Worked d d [] :=
  ⟨rfl, rfl, by simp, by simp, fun _ _ => rfl⟩

/-- One more segment has its valid frames. -/
theorem Worked.add (h : Worked d d' ids) {d'' : Dir} (hpresent : d''.present = d'.present)
    (hmem : ∀ name, name ∈ d''.files ↔ name ∈ d'.files ∨ name = segmentPath id)
    (hbytes : d''.bytes (segmentPath id) = some (segmentMagic ++ validPrefix (body d id)))
    (hother : ∀ name, name ≠ segmentPath id → d''.bytes name = d'.bytes name) :
    Worked d d'' (ids ++ [id]) := by
  refine ⟨hpresent.trans h.present, ?_, fun name => ?_, fun other hin => ?_, fun other hnot => ?_⟩
  · rw [hother _ (segmentPath_ne_manifest id).symm, h.manifest]
  · rw [hmem, h.mem, or_assoc]
    simp only [List.mem_append, List.mem_singleton, or_and_right, exists_or, exists_eq_left]
  · by_cases heq : other = id
    · rw [heq, hbytes]
    · rw [hother _ fun hpath => heq (segmentPath_injective hpath)]
      exact h.done other (by simpa [heq] using hin)
  · rw [List.mem_append, not_or, List.mem_singleton] at hnot
    rw [hother _ fun hpath => hnot.2 (segmentPath_injective hpath), h.other other hnot.1]

/-- A segment that opens has at least its valid frames, whatever was done already. -/
theorem Worked.opens (h : Worked d d' ids) (hfile : HasSegment d id) :
    ∃ xs, d'.bytes (segmentPath id) = some (segmentMagic ++ xs) ∧ validPrefix (body d id) <+: xs := by
  by_cases hin : id ∈ ids
  · exact ⟨_, h.done id hin, List.prefix_rfl⟩
  · exact ⟨_, (h.other id hin).trans hfile, validPrefix_prefix _⟩

/-- The cut of a segment file behind its valid frames. -/
theorem Worked.truncateSegment (h : Worked d d' ids) (hfile : HasSegment d id) :
    ∃ d'', Woodshed.truncateSegment id (validEnd d id) (calm d') = .ok ⟨⟩ (calm d'') ∧
      Worked d d'' (ids ++ [id]) := by
  obtain ⟨xs, hbytes, rest, rfl⟩ := h.opens hfile
  have hdiff := d'.differs_setLen_sync (segmentPath id) (validEnd d id)
  have hopens : HasSegment d' id := hasSegment_of hbytes
  refine ⟨(d'.setLen (segmentPath id) (validEnd d id)).sync (segmentPath id), ?_,
    h.add hdiff.present (fun name => ?_) ?_ hdiff.bytes⟩
  · apply onDisk_ok
    rw [bind_ok (openSegment_ok hopens)]
    rfl
  · rw [hdiff.mem, iff_self_or]
    rintro rfl
    exact Dir.mem_of_bytes hbytes
  · have hend : validEnd d id = (segmentMagic ++ validPrefix (body d id)).length := by
      rw [validEnd, List.length_append]
      rfl
    rw [Dir.bytes_sync, Dir.bytes_setLen, if_pos rfl, hbytes, Option.map_some, ← List.append_assoc,
      hend, resize_of_le _ _ (by simp), List.take_left]

/-- The creation of a segment file. -/
theorem Worked.createActiveSegment (h : Worked d d' ids) (hp : d.present = true)
    (habsent : segmentPath id ∉ d.files) (hnot : id ∉ ids) :
    ∃ d'', Woodshed.createActiveSegment id (calm d') = .ok ⟨⟩ (calm d'') ∧
      Worked d d'' (ids ++ [id]) := by
  have hfree : segmentPath id ∉ d'.files := by
    rw [h.mem, not_or]
    refine ⟨habsent, ?_⟩
    rintro ⟨other, hin, hpath⟩
    rw [segmentPath_injective hpath] at hnot
    exact hnot hin
  have hbody : body d id = [] := by
    have hnone : d.bytes (segmentPath id) = none := by
      cases hb : d.bytes (segmentPath id) with
      | none => rfl
      | some bytes => exact absurd (Dir.mem_of_bytes hb) habsent
    rw [body, hnone]
    rfl
  have hrun := createSegment_quiet (w := calm d') id rfl rfl rfl (h.present.trans hp) hfree
  refine ⟨d'.create (segmentPath id) segmentMagic, ?_, h.add (Dir.present_create d' _ _)
    (fun name => ?_) ?_ fun name hne => ?_⟩
  · apply onDisk_ok
    rw [bind_ok hrun]
    rfl
  · rw [Dir.mem_create, or_comm]
  · rw [Dir.bytes_create, if_pos rfl, hbody, validPrefix, Grammar.decode_nil, Grammar.encodeAll_nil,
      List.append_nil]
  · rw [Dir.bytes_create, if_neg hne]

omit [Crates] in
/-- A file that is there is not created. -/
theorem createActiveSegment_exists (hp : d.present = true) (hin : segmentPath id ∈ d.files) :
    ∃ e, Woodshed.createActiveSegment id (calm d) = .error e (calm d) := by
  have hnew : File.createNew (segmentPath id) .segment (calm d) =
      .error ⟨.alreadyExists, "file exists"⟩ (calm d) := by
    unfold File.createNew
    rw [bind_ok (call_calm _ d), get_bind]
    simp only [calm, hp, Bool.true_eq_false, if_false, hin, if_true]
    rfl
  have hcreate : createSegment id (calm d) = .error ⟨.alreadyExists, "file exists"⟩ (calm d) := by
    unfold createSegment
    exact bind_error hnew
  refine ⟨.ioError ⟨.alreadyExists, "file exists"⟩, ?_⟩
  unfold Woodshed.createActiveSegment
  rw [onDisk]
  exact onPart_error (bind_error hcreate)

/-- The fix-ups of one segment. -/
theorem Worked.step (h : Worked d d' ids) (hp : d.present = true)
    (hfix : ∀ issue ∈ segmentIssues d st id, (createFixUp issue).isSome = true) :
    (Missing d st id → segmentPath id ∉ d.files ∧ id ∉ ids) ∧
        (∃ d'', applyFixUps (segmentFixUps d st id) (calm d') = .ok ⟨⟩ (calm d'') ∧
          Worked d d'' (ids ++ [id])) ∨
      ¬ (Missing d st id → segmentPath id ∉ d.files ∧ id ∉ ids) ∧
        ∃ e, applyFixUps (segmentFixUps d st id) (calm d') = .error e (calm d') := by
  have hone (f : FixUp) : applyFixUps [f] = f.action.apply >>= fun _ => pure ⟨⟩ := by
    rw [applyFixUps, forM_cons]
    rfl
  rcases segmentIssues_cases hfix with ⟨hmissing, _⟩ | ⟨hfile, hsize⟩
  · -- a file of that name was there before, or was created for the same id
    rw [hmissing.fixUps, hone]
    by_cases hfree : segmentPath id ∉ d.files ∧ id ∉ ids
    · left
      obtain ⟨d'', hrun, hworked⟩ := h.createActiveSegment hp hfree.1 hfree.2
      exact ⟨fun _ => hfree, d'', bind_ok hrun, hworked⟩
    · right
      have hin : segmentPath id ∈ d'.files := by
        rw [h.mem]
        by_contra hnot
        obtain ⟨habsent, hnone⟩ := not_or.mp hnot
        exact hfree ⟨habsent, fun hid => hnone ⟨id, hid, rfl⟩⟩
      obtain ⟨e, herr⟩ := createActiveSegment_exists (h.present.trans hp) hin
      exact ⟨fun himp => hfree (himp hmissing), e, bind_error herr⟩
  · left
    refine ⟨fun hmissing => absurd hmissing (not_missing hfile hsize), ?_⟩
    rcases segmentFixUps_eq hfile hsize with ⟨hstop, hnil⟩ | ⟨approval, hcut⟩
    · rw [hnil]
      refine ⟨d', rfl, h.add rfl (fun name => ?_) ?_ fun _ _ => rfl⟩
      · rw [iff_self_or]
        rintro rfl
        rw [h.mem]
        exact Or.inl (Dir.mem_of_bytes hfile)
      · by_cases hin : id ∈ ids
        · exact h.done id hin
        · rw [h.other id hin, validPrefix_of_clean hstop]
          exact hfile
    · rw [hcut, hone]
      obtain ⟨d'', hrun, hworked⟩ := h.truncateSegment hfile
      exact ⟨d'', bind_ok hrun, hworked⟩

/-- The fix-ups of the segments run to their end just if the missing ones can be created. -/
theorem Worked.run (h : Worked d d' ids) (hp : d.present = true)
    (hfix : ∀ seg ∈ segs, ∀ issue ∈ segmentIssues d st seg.id, (createFixUp issue).isSome = true) :
    Addable d st ids segs ∧
        (∃ d'', applyFixUps (segs.flatMap fun seg => segmentFixUps d st seg.id) (calm d') =
          .ok ⟨⟩ (calm d'') ∧ Worked d d'' (ids ++ segs.map (·.id))) ∨
      ¬ Addable d st ids segs ∧
        ∃ e w, applyFixUps (segs.flatMap fun seg => segmentFixUps d st seg.id) (calm d') =
          .error e w := by
  induction segs generalizing d' ids with
  | nil =>
    left
    refine ⟨⟨by simp, List.Pairwise.nil⟩, d', rfl, ?_⟩
    rw [List.map_nil, List.append_nil]
    exact h
  | cons seg segs ih =>
    have happly : applyFixUps ((seg :: segs).flatMap fun seg => segmentFixUps d st seg.id) =
        applyFixUps (segmentFixUps d st seg.id) >>= fun _ =>
          applyFixUps (segs.flatMap fun seg => segmentFixUps d st seg.id) := by
      rw [List.flatMap_cons, applyFixUps, List.forM_append]
      rfl
    rw [happly, addable_cons]
    rcases h.step hp (hfix seg (by simp)) with ⟨hfree, d₁, hrun, h₁⟩ | ⟨hnot, e, herr⟩
    · rcases ih h₁ fun other hother => hfix other (by simp [hother]) with
        ⟨hadd, d₂, hrest, h₂⟩ | ⟨hadd, e, w, hrest⟩
      · left
        refine ⟨⟨hfree, hadd⟩, d₂, (bind_ok hrun).trans hrest, ?_⟩
        rw [List.map_cons, List.append_cons]
        exact h₂
      · right
        exact ⟨fun hall => hadd hall.2, e, w, (bind_ok hrun).trans hrest⟩
    · right
      exact ⟨fun hall => hnot hall.1, e, _, bind_error herr⟩

end

/-! ### The recovery -/

def orphanIds (d : Dir) (st : StoreState) : List SegmentId :=
  (diskIds d).filter fun id => ¬ (st.lists id = true ∨ id ∈ st.dead)

def missingIds (d : Dir) (st : StoreState) : List SegmentId :=
  (Crates.hashIter st.dead).filter (· ∉ diskIds d)

/-- The fix-ups of a directory, in the order in which they are applied. -/
def approvedFixUps (d : Dir) (es : List Entry) (tail : Bytes) (st : StoreState) : List FixUp :=
  tailFixUps es tail ++ orphanFixUps (orphanIds d st) ++ deadFixUps (missingIds d st) ++
    st.segments.flatMap fun seg => segmentFixUps d st seg.id

omit [Crates] in
theorem collectFixUps_approved {issues : IssueReport}
    (h : ∀ issue ∈ issues, (createFixUp issue).isSome = true) :
    collectFixUps true issues = .ok (issues.filterMap createFixUp) := by
  induction issues with
  | nil => rfl
  | cons x xs ih =>
    obtain ⟨f, hf⟩ := Option.isSome_iff_exists.mp (h x (by simp))
    rw [collectFixUps, hf, List.filterMap_cons_some hf]
    dsimp only
    rw [Bool.not_true, Bool.and_false, if_neg Bool.false_ne_true,
      ih fun issue hi => h issue (by simp [hi])]
    rfl

section
variable {d d' : Dir} {es : List Entry} {tail : Bytes} {st : StoreState} {id : SegmentId}

theorem phase_segmentFixUps
    (hfix : ∀ issue ∈ segmentIssues d st id, (createFixUp issue).isSome = true) :
    ∀ f ∈ segmentFixUps d st id, f.phase = .segmentFileClean := by
  intro f hf
  rcases segmentIssues_cases hfix with ⟨hmissing, _⟩ | ⟨hfile, hsize⟩
  · rw [hmissing.fixUps, List.mem_singleton] at hf
    rw [hf]
  · rcases segmentFixUps_eq hfile hsize with ⟨_, hnil⟩ | ⟨approval, hcut⟩
    · rw [hnil] at hf
      cases hf
    · rw [hcut, List.mem_singleton] at hf
      rw [hf]

theorem Outline.fixable_segment (h : Outline d es tail st) (hf : Fixable d) {seg : SegmentEntry}
    (hseg : seg ∈ st.segments) :
    ∀ issue ∈ segmentIssues d st seg.id, (createFixUp issue).isSome = true :=
  fun issue hi => hf issue (h.mem_survey hseg hi)

/-- What the issues are turned into. -/
theorem Outline.filterMap_issues (h : Outline d es tail st) :
    (survey d).issues.filterMap createFixUp = approvedFixUps d es tail st := by
  have htail : (tailIssue es tail).filterMap createFixUp = tailFixUps es tail := by
    unfold tailIssue tailFixUps
    split <;> rfl
  have horphans : (findOrphans st (diskIds d)).filterMap createFixUp =
      orphanFixUps (orphanIds d st) := by
    rw [findOrphans, List.filterMap_map]
    exact congrFun List.filterMap_eq_map' _
  have hdeads : (findMissingDead st (diskIds d)).filterMap createFixUp =
      deadFixUps (missingIds d st) := by
    rw [findMissingDead, List.filterMap_map]
    exact congrFun List.filterMap_eq_map' _
  rw [h.survey_eq]
  dsimp only
  rw [List.filterMap_append, List.filterMap_append, List.filterMap_append, htail, horphans, hdeads,
    List.filterMap_flatMap]
  rfl

/-- The issues come in the order of the phases, here too. -/
theorem Outline.sort_approvedFixUps (h : Outline d es tail st) (hf : Fixable d) :
    sortFixUps (approvedFixUps d es tail st) = approvedFixUps d es tail st := by
  have htails : ∀ f ∈ tailFixUps es tail, f.phase = .manifestFileClean := by
    intro f hf
    unfold tailFixUps at hf
    split at hf
    · cases hf
    · rw [List.mem_singleton.mp hf]
  have hmap {ids : List SegmentId} {action : SegmentId → FixUpAction} :
      ∀ f ∈ ids.map (fun id => (⟨.manifestAppends, false, action id⟩ : FixUp)),
        f.phase = .manifestAppends := by
    intro f hf
    obtain ⟨_, _, rfl⟩ := List.mem_map.mp hf
    rfl
  refine List.Pairwise.insertionSort_eq (phases_append (phases_append (phases_append
    (phases_append List.Pairwise.nil (by simp) htails) ?_ hmap) ?_ hmap) (p := .segmentFileClean) ?_ ?_)
  · intro f hf
    rw [htails f hf]
    decide
  · intro f hf
    rcases List.mem_append.mp hf with hf | hf
    · rw [htails f hf]
      decide
    · rw [hmap f hf]
  · intro f _
    exact f.phase.rank_le
  · intro f hin
    obtain ⟨seg, hseg, hin⟩ := List.mem_flatMap.mp hin
    exact phase_segmentFixUps (h.fixable_segment hf hseg) f hin

/-- Recovery with approval applies all the fix-ups. -/
theorem Outline.recover_eq (h : Outline d es tail st) (hf : Fixable d) :
    Store.recover (calm d) = applyFixUps (approvedFixUps d es tail st) (calm d) := by
  have hrecover : Store.recover (calm d) = attemptRecovery (survey d) true (calm d) :=
    bind_ok (onPart_ok (scan_calm d))
  rw [hrecover, attemptRecovery, collectFixUps_approved hf]
  dsimp only
  rw [h.filterMap_issues, h.sort_approvedFixUps hf]

/-- Behind the fix-ups of the manifest the dead ids are those that are not live and have a file. -/
theorem Outline.applyManifest (h : Outline d es tail st) : ∃ d' es' dead,
    applyFixUps (tailFixUps es tail ++ orphanFixUps (orphanIds d st) ++ deadFixUps (missingIds d st))
      (calm d) = .ok ⟨⟩ (calm d') ∧ d.Differs d' manifestFileName ∧
    Outline d' es' [] { st with dead := dead } ∧
    ∀ id, id ∈ dead ↔ id ∈ diskIds d ∧ (st.lists id = false ∨ id ∈ st.dead) := by
  have hmissing {id : SegmentId} : id ∈ missingIds d st ↔ id ∈ st.dead ∧ id ∉ diskIds d := by
    rw [missingIds, List.mem_filter, Crates.mem_hashIter, decide_eq_true_eq]
  have horphan {id : SegmentId} :
      id ∈ orphanIds d st ↔ id ∈ diskIds d ∧ ¬ (st.lists id = true ∨ id ∈ st.dead) := by
    rw [orphanIds, List.mem_filter, decide_eq_true_eq]
  obtain ⟨d₁, hrun₁, hdiff₁, h₁⟩ := h.applyTail
  obtain ⟨d₂, es₂, hrun₂, hdiff₂, h₂⟩ := h₁.applyOrphans (orphanIds d st)
  have hnd : (missingIds d st).Nodup := (Crates.hashIter_nodup st.dead).filter _
  obtain ⟨d₃, es₃, hrun₃, hdiff₃, h₃⟩ := h₂.applyDeads hnd
    fun id hid => Finset.mem_union_left _ (hmissing.mp hid).1
  refine ⟨d₃, es₃, _, ?_, (hdiff₁.trans hdiff₂).trans hdiff₃, h₃, fun id => ?_⟩
  · rw [applyFixUps, List.forM_append, List.forM_append]
    exact bind_ok ((bind_ok hrun₁).trans hrun₂) |>.trans hrun₃
  · rw [Finset.mem_sdiff, Finset.mem_union, List.mem_toFinset, List.mem_toFinset, hmissing, horphan,
      ← Bool.not_eq_true]
    tauto

/-- A directory behind its recovery: every file has a known id, every dead id has a file, the live
segments have their valid frames, and the rest is as it was. -/
structure Recovered (d : Dir) (st : StoreState) (d' : Dir) (es : List Entry) (dead : Finset SegmentId) :
    Prop where
  outline : Outline d' es [] { st with dead := dead }
  known : ∀ id ∈ diskIds d', st.lists id = true ∨ id ∈ dead
  deads : ∀ id, id ∈ dead ↔ id ∈ diskIds d ∧ (st.lists id = false ∨ id ∈ st.dead)
  dead : ∀ id ∈ dead, id ∈ diskIds d'
  bytes : ∀ seg ∈ st.segments,
    d'.bytes (segmentPath seg.id) = some (segmentMagic ++ validPrefix (body d seg.id))
  others : ∀ id, st.lists id = false → d'.bytes (segmentPath id) = d.bytes (segmentPath id)
  files : ∀ name, name ∈ d'.files ↔ name ∈ d.files ∨ ∃ seg ∈ st.segments, name = segmentPath seg.id

/-- Recovery with approval runs to its end just if the missing segments can be created. -/
theorem Outline.recover (h : Outline d es tail st) (hf : Fixable d) :
    Addable d st [] st.segments ∧
        (∃ d' es' dead, Store.recover (calm d) = .ok ⟨⟩ (calm d') ∧ Recovered d st d' es' dead) ∨
      ¬ Addable d st [] st.segments ∧ ∃ e w, Store.recover (calm d) = .error e w := by
  obtain ⟨d₁, es₁, dead, hrun₁, hdiff, h₁, hdead⟩ := h.applyManifest
  have hsame (id : SegmentId) : segmentIssues d₁ st id = segmentIssues d st id :=
    segmentIssues_congr (hdiff.bytes _ (segmentPath_ne_manifest id)) rfl
  have hfixUps (id : SegmentId) : segmentFixUps d₁ st id = segmentFixUps d st id := by
    rw [segmentFixUps, segmentFixUps, hsame]
  have haddable : Addable d₁ st [] st.segments ↔ Addable d st [] st.segments := by
    unfold Addable Missing
    simp only [hsame, hdiff.mem]
  have hrecover : Store.recover (calm d) =
      applyFixUps (st.segments.flatMap fun seg => segmentFixUps d₁ st seg.id) (calm d₁) := by
    simp only [hfixUps]
    rw [h.recover_eq hf, approvedFixUps, applyFixUps, List.forM_append]
    exact bind_ok hrun₁
  have hfix : ∀ seg ∈ st.segments, ∀ issue ∈ segmentIssues d₁ st seg.id,
      (createFixUp issue).isSome = true := by
    intro seg hseg
    rw [hsame]
    exact h.fixable_segment hf hseg
  rcases (Worked.start d₁).run h₁.present hfix with ⟨hadd, d₂, hrun, hworked⟩ | ⟨hadd, e, w, hrun⟩
  · left
    rw [List.nil_append] at hworked
    have hlisted {id : SegmentId} (hin : id ∈ diskIds d₂) : st.lists id = true ∨ id ∈ diskIds d := by
      obtain ⟨name, hname, hparse⟩ := (mem_diskIds d₂ id).mp hin
      rcases (hworked.mem name).mp hname with hname | ⟨other, hother, rfl⟩
      · exact Or.inr ((mem_diskIds d id).mpr ⟨name, (hdiff.mem name).mp hname, hparse⟩)
      · rw [parseSegmentPath_segmentPath] at hparse
        obtain ⟨seg, hseg, hid⟩ := List.mem_map.mp hother
        exact Or.inl ((lists_iff st id).mpr ⟨seg, hseg, hid.trans (Option.some.inj hparse)⟩)
    have hkept {id : SegmentId} (hin : id ∈ diskIds d) : id ∈ diskIds d₂ := by
      obtain ⟨name, hname, hparse⟩ := (mem_diskIds d id).mp hin
      exact (mem_diskIds d₂ id).mpr
        ⟨name, (hworked.mem name).mpr (Or.inl ((hdiff.mem name).mpr hname)), hparse⟩
    refine ⟨haddable.mp hadd, d₂, es₁, _, hrecover.trans hrun, ⟨⟨hworked.present.trans h₁.present,
      hworked.manifest.trans h₁.manifest, h₁.fits, h₁.short, h₁.replays, h₁.nonempty⟩, ?_, hdead, ?_,
      ?_, ?_, ?_⟩⟩
    · intro id hin
      rcases hlisted hin with hlists | hdisk
      · exact Or.inl hlists
      · cases hlists : st.lists id with
        | true => exact Or.inl rfl
        | false => exact Or.inr ((hdead id).mpr ⟨hdisk, Or.inl hlists⟩)
    · intro id hin
      exact hkept ((hdead id).mp hin).1
    · intro seg hseg
      rw [hworked.done seg.id (List.mem_map_of_mem hseg), hdiff.body]
    · intro id hnot
      have hout : id ∉ st.segments.map (·.id) := by
        intro hin
        obtain ⟨seg, hseg, rfl⟩ := List.mem_map.mp hin
        rw [lists_of_mem hseg] at hnot
        cases hnot
      rw [hworked.other id hout, hdiff.bytes _ (segmentPath_ne_manifest id)]
    · intro name
      rw [hworked.mem, hdiff.mem]
      simp
  · right
    exact ⟨fun hall => hadd (haddable.mpr hall), e, w, hrecover.trans hrun⟩

/-! ### What is left to report -/

/-- A segment with valid frames only is reported just if it has not the size it should have. -/
theorem segmentIssues_valid {xs : Bytes}
    (hb : d.bytes (segmentPath id) = some (segmentMagic ++ validPrefix xs)) :
    segmentIssues d st id = [] ↔ ∀ info, st.seals id = some info →
      UInt64.ofNat (segmentMagic ++ validPrefix xs).length = info.finalSize := by
  constructor
  · intro hnil info hs
    by_contra hne
    rw [segmentIssues_mismatch hb hs hne] at hnil
    cases hnil
  · intro hsize
    rw [segmentIssues_eq hb hsize, decode_validPrefix]
    rfl

theorem Recovered.issues_nil_iff {es' : List Entry} {dead : Finset SegmentId}
    (h : Recovered d st d' es' dead) : (survey d').issues = [] ↔
      ∀ seg ∈ st.segments, ∀ info, st.seals seg.id = some info →
        UInt64.ofNat (segmentMagic ++ validPrefix (body d seg.id)).length = info.finalSize := by
  have horphans : findOrphans { st with dead := dead } (diskIds d') = [] := by
    rw [findOrphans, List.map_eq_nil_iff, List.filter_eq_nil_iff]
    intro id hid
    simp only [decide_eq_true_eq, not_not]
    exact h.known id hid
  have hmissing : findMissingDead { st with dead := dead } (diskIds d') = [] := by
    rw [findMissingDead, List.map_eq_nil_iff, List.filter_eq_nil_iff]
    intro id hid
    simp only [decide_eq_true_eq, not_not]
    exact h.dead id ((Crates.mem_hashIter dead id).mp hid)
  rw [h.outline.survey_eq]
  dsimp only
  rw [horphans, hmissing, tailIssue, if_pos rfl, List.append_nil, List.append_nil, List.nil_append,
    List.flatMap_eq_nil_iff]
  exact forall₂_congr fun seg hseg => segmentIssues_valid (h.bytes seg hseg)

/-- A sealed segment that was cut is reported, with an issue that has no fix-up. -/
theorem Recovered.mem_fatal {es' : List Entry} {dead : Finset SegmentId}
    (h : Recovered d st d' es' dead) (hissues : (survey d').issues ≠ []) :
    ∃ issue ∈ (survey d').issues, issue.Fatal := by
  rw [Ne, h.issues_nil_iff] at hissues
  push Not at hissues
  obtain ⟨seg, hseg, info, hi, hne⟩ := hissues
  have hmismatch : segmentIssues d' { st with dead := dead } seg.id = _ :=
    segmentIssues_mismatch (h.bytes seg hseg) hi hne
  refine ⟨⟨.segment seg.id, .sealedSegmentSizeMismatch info.finalSize
    (segmentMagic ++ validPrefix (body d seg.id)).length⟩, h.outline.mem_survey hseg ?_, rfl⟩
  rw [hmismatch]
  exact List.mem_singleton_self _

/-- Where the sizes are those of the seals, the directory has nothing to recover. -/
theorem Recovered.layout {es' : List Entry} {dead : Finset SegmentId} (h : Recovered d st d' es' dead)
    (hsizes : ∀ seg ∈ st.segments, ∀ info, st.seals seg.id = some info →
      UInt64.ofNat (segmentMagic ++ validPrefix (body d seg.id)).length = info.finalSize) :
    Layout d' es' [] { st with dead := dead } := by
  refine ⟨h.outline.present, h.outline.manifest, h.outline.fits, h.outline.short, h.outline.replays,
    h.outline.nonempty, fun seg hseg => hasSegment_of (h.bytes seg hseg), fun seg hseg info hs => ?_⟩
  rw [body_eq (h.bytes seg hseg), decode_validPrefix]
  exact ⟨hsizes seg hseg info hs, rfl⟩

theorem mem_segmentIssues_missing {other : SegmentId}
    (hfix : ∀ issue ∈ segmentIssues d st id, (createFixUp issue).isSome = true) :
    ⟨.segment other, .activeSegmentMissing⟩ ∈ segmentIssues d st id ↔ other = id ∧ Missing d st id := by
  rcases segmentIssues_cases hfix with ⟨hmissing, _⟩ | ⟨hfile, hsize⟩
  · rw [hmissing]
    simp [hmissing]
  · have hissues := segmentIssues_eq hfile hsize
    rw [Missing, hissues]
    by_cases hstop : (frames.decode (body d id)).stop = .clean
    · simp [hstop]
    · cases hs : (st.seals id).isSome <;> simp [hstop, cutIssue, hs]

theorem mem_segmentIssues_corrupt {other : SegmentId} {n : ℕ}
    (hfix : ∀ issue ∈ segmentIssues d st id, (createFixUp issue).isSome = true) :
    ⟨.segment other, .sealedSegmentChecksumCorrupt n⟩ ∈ segmentIssues d st id ↔
      other = id ∧ HasSegment d id ∧ (frames.decode (body d id)).stop ≠ .clean ∧
        (st.seals id).isSome = true ∧ n = validEnd d id := by
  rcases segmentIssues_cases hfix with ⟨hmissing, hnone⟩ | ⟨hfile, hsize⟩
  · rw [hmissing, hnone]
    simp
  · rw [segmentIssues_eq hfile hsize]
    by_cases hstop : (frames.decode (body d id)).stop = .clean
    · simp [hstop]
    · cases hs : (st.seals id).isSome <;> simp [hstop, cutIssue, hs, hfile, validEnd]

/-- The issues that have only to do with a segment's file. -/
theorem Outline.mem_issues (h : Outline d es tail st) {issue : Issue} {other : SegmentId}
    (hissue : issue = .activeSegmentMissing ∨ ∃ n, issue = .sealedSegmentChecksumCorrupt n) :
    ⟨.segment other, issue⟩ ∈ (survey d).issues ↔
      ∃ seg ∈ st.segments, ⟨.segment other, issue⟩ ∈ segmentIssues d st seg.id := by
  rw [h.survey_eq]
  dsimp only
  rw [List.mem_append, List.mem_append, List.mem_append, List.mem_flatMap]
  refine or_iff_right ?_
  unfold tailIssue findOrphans findMissingDead
  rintro ((hin | hin) | hin)
  · split at hin
    · cases hin
    · cases List.mem_singleton.mp hin
  · obtain ⟨_, _, heq⟩ := List.mem_map.mp hin
    injection heq with _ heq
    rcases hissue with rfl | ⟨_, rfl⟩ <;> cases heq
  · obtain ⟨_, _, heq⟩ := List.mem_map.mp hin
    injection heq with _ heq
    rcases hissue with rfl | ⟨_, rfl⟩ <;> cases heq

theorem Outline.mendable_iff (h : Outline d es tail st) (hf : Fixable d) : Mendable d ↔
    Addable d st [] st.segments ∧ ∀ seg ∈ st.segments, ∀ info, st.seals seg.id = some info →
      UInt64.ofNat (segmentMagic ++ validPrefix (body d seg.id)).length = info.finalSize := by
  have hstate : (survey d).state = st := by rw [h.survey_eq]
  have hmissing {id : SegmentId} : ⟨.segment id, .activeSegmentMissing⟩ ∈ (survey d).issues ↔
      ∃ seg ∈ st.segments, seg.id = id ∧ Missing d st id := by
    rw [h.mem_issues (Or.inl rfl)]
    constructor
    · rintro ⟨seg, hseg, hin⟩
      obtain ⟨rfl, hm⟩ := (mem_segmentIssues_missing (h.fixable_segment hf hseg)).mp hin
      exact ⟨seg, hseg, rfl, hm⟩
    · rintro ⟨seg, hseg, rfl, hm⟩
      exact ⟨seg, hseg, (mem_segmentIssues_missing (h.fixable_segment hf hseg)).mpr ⟨rfl, hm⟩⟩
  have hlen (id : SegmentId) : (segmentMagic ++ validPrefix (body d id)).length = validEnd d id := by
    rw [validEnd, List.length_append]
    rfl
  constructor
  · intro hm
    refine ⟨⟨fun seg hseg hms => ⟨hm.absent seg.id (hmissing.mpr ⟨seg, hseg, rfl, hms⟩), by simp⟩, ?_⟩,
      ?_⟩
    · have honce := hm.once
      rw [hstate] at honce
      refine honce.imp_of_mem fun {a b} _ hb hnot heq hms => hnot heq ?_
      exact hmissing.mpr ⟨b, hb, rfl, hms⟩
    · intro seg hseg info hs
      rcases segmentIssues_cases (h.fixable_segment hf hseg) with ⟨_, hnone⟩ | ⟨hfile, hsize⟩
      · rw [hnone] at hs
        cases hs
      · by_cases hstop : (frames.decode (body d seg.id)).stop = .clean
        · rw [validPrefix_of_clean hstop]
          exact hsize info hs
        · have hin := (h.mem_issues (Or.inr ⟨validEnd d seg.id, rfl⟩)).mpr ⟨seg, hseg,
            (mem_segmentIssues_corrupt (h.fixable_segment hf hseg)).mpr
              ⟨rfl, hfile, hstop, by rw [hs]; rfl, rfl⟩⟩
          have hcut := hm.intact seg.id _ hin
          rw [HasSegment] at hfile
          rw [hfile, Option.map_some] at hcut
          rw [hlen, ← Option.some.inj hcut]
          exact hsize info hs
  · rintro ⟨⟨hfree, honce⟩, hsizes⟩
    refine ⟨?_, ?_, ?_⟩
    · intro id hin
      obtain ⟨seg, hseg, rfl, hms⟩ := hmissing.mp hin
      exact (hfree seg hseg hms).1
    · rw [hstate]
      refine honce.imp fun {a b} hnot heq hin => hnot heq ?_
      obtain ⟨_, _, _, hms⟩ := hmissing.mp hin
      exact hms
    · intro id n hin
      obtain ⟨seg, hseg, hin⟩ := (h.mem_issues (Or.inr ⟨n, rfl⟩)).mp hin
      obtain ⟨rfl, hfile, _, hsome, rfl⟩ :=
        (mem_segmentIssues_corrupt (h.fixable_segment hf hseg)).mp hin
      obtain ⟨info, hs⟩ := Option.isSome_iff_exists.mp hsome
      rcases segmentIssues_cases (h.fixable_segment hf hseg) with ⟨_, hnone⟩ | ⟨_, hsize⟩
      · rw [hnone] at hs
        cases hs
      · rw [HasSegment] at hfile
        rw [hfile, Option.map_some, hsize info hs, ← hsizes seg hseg info hs, hlen]

theorem mendable_of_recoversFully (hf : Fixable d) (hr : RecoversFully d) : Mendable d := by
  obtain ⟨es, tail, st, h⟩ := outline_of_fixable hf
  obtain ⟨w', report, hrun, hscan, hnil, _⟩ := hr
  rcases h.recover hf with ⟨hadd, d', es', dead, hok, hrecovered⟩ | ⟨_, e, w, herr⟩
  · rw [hok] at hrun
    obtain ⟨_, rfl⟩ := EStateM.Result.ok.inj hrun
    rw [scan_calm] at hscan
    obtain ⟨rfl, _⟩ := EStateM.Result.ok.inj hscan
    exact (h.mendable_iff hf).mpr ⟨hadd, hrecovered.issues_nil_iff.mp hnil⟩
  · rw [herr] at hrun
    cases hrun

theorem recoversFully_of_mendable (hf : Fixable d) (hm : Mendable d) : RecoversFully d := by
  obtain ⟨es, tail, st, h⟩ := outline_of_fixable hf
  obtain ⟨hadd, hsizes⟩ := (h.mendable_iff hf).mp hm
  rcases h.recover hf with ⟨_, d', es', dead, hok, hrecovered⟩ | ⟨hnot, _⟩
  · have hnil := hrecovered.issues_nil_iff.mpr hsizes
    refine ⟨calm d', survey d', hok, scan_calm d', hnil, fun cfg hactive => ?_⟩
    have hlayout := hrecovered.layout hsizes
    rw [hlayout.survey_eq] at hnil hactive
    obtain ⟨active, ha⟩ := Option.ne_none_iff_exists'.mp hactive
    obtain ⟨d'', _, _, report, _, _, _, hsame, _, hopen⟩ := hlayout.openStore_ok cfg ha
    rw [hsame hnil] at hopen
    exact ⟨_, hopen⟩
  · exact absurd hadd hnot

end

/-- Where every issue has a fix-up, a recovery with approval leaves nothing to report, just if no
sealed segment is cut to another size and what is reported to be missing can be created. The cut takes
no notice of the size in the manifest, and a segment file without its magic number is reported to be
missing. -/
theorem recoversFully_iff {d : Dir} (hf : Fixable d) : RecoversFully d ↔ Mendable d :=
  ⟨mendable_of_recoversFully hf, recoversFully_of_mendable hf⟩

end

section
attribute [local instance] sample

/-- A new store whose segment file is gone. -/
def bereft : Dir := blank.formatted.remove (segmentPath ⟨1⟩)

theorem recoversFully_iff_bereft : RecoversFully bereft := by
  have hissues : (survey bereft).issues = [⟨.segment ⟨1⟩, .activeSegmentMissing⟩] := by decide +kernel
  have hsegs : (survey bereft).state.segments = [⟨⟨1⟩, ⟨0⟩⟩] := by decide +kernel
  have hfix : Fixable bereft := by
    unfold Fixable
    rw [hissues]
    decide
  refine (recoversFully_iff hfix).mpr ⟨?_, ?_, ?_⟩
  · intro id hin
    rw [hissues] at hin
    obtain rfl : id = ⟨1⟩ := by simpa using hin
    decide +kernel
  · rw [hsegs]
    exact List.pairwise_singleton _ _
  · intro id n hin
    rw [hissues] at hin
    simp at hin

/-- Two segments; the sealed one has a corrupt frame. -/
def bruised : Dir :=
  match openedBlank ⟨0⟩ with
  | none => blank
  | some m =>
    let d := (performAll m [.batch [(⟨1⟩, [])], .batch [(⟨2⟩, [])]]).world.dir
    let bytes := ((d.bytes (segmentPath ⟨1⟩)).getD []).set 27 0xee
    d.put (segmentPath ⟨1⟩) ⟨bytes, bytes⟩

/-- The corrupt segment is cut, and has not the recorded size then. -/
theorem not_recoversFully : ¬ ∀ d, Fixable d → RecoversFully d := by
  intro hall
  have hissues : (survey bruised).issues = [⟨.segment ⟨1⟩, .sealedSegmentChecksumCorrupt 8⟩] := by
    decide +kernel
  have hfix : Fixable bruised := by
    unfold Fixable
    rw [hissues]
    decide
  have hsize : (bruised.bytes (segmentPath ⟨1⟩)).map (fun bytes => UInt64.ofNat bytes.length) ≠
      some (UInt64.ofNat 8) := by decide +kernel
  exact hsize ((mendable_of_recoversFully hfix (hall bruised hfix)).intact ⟨1⟩ 8 (by rw [hissues]; simp))

end
end Woodshed
