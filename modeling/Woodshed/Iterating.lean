import Woodshed.Entering
import Woodshed.Rescuing

/-! Every hash set is iterated in an order of its own. In a recovery and the open behind it the order
decides only how the missing segments follow each other in the report and in the manifest. -/
namespace Woodshed
open Sequencing Framing

/-- An order in which sets are iterated: every member of the set, once. -/
structure HashOrder where
  iter : Finset SegmentId → List SegmentId
  nodup : ∀ s, (iter s).Nodup
  mem : ∀ s id, id ∈ iter s ↔ id ∈ s

/-- The same crates, with sets that are iterated in this order. -/
@[reducible] def Crates.reordered (c : Crates) (o : HashOrder) : Crates :=
  { c with hashIter := o.iter, hashIter_nodup := o.nodup, mem_hashIter := o.mem }

/-! ### What does not depend on the order -/

section
variable (c : Crates) (o : HashOrder)

theorem checkpointsFrom_reordered : @FrameScanner.checkpointsFrom (c.reordered o) =
    @FrameScanner.checkpointsFrom c := by
  funext stride count p es
  induction es generalizing count p with
  | nil => rfl
  | cons e es ih => exact congrArg _ (ih _ _)

theorem decode_reordered : @ManifestOp.decode (c.reordered o) = @ManifestOp.decode c := rfl

theorem replayEntries_reordered : @replayEntries (c.reordered o) = @replayEntries c := by
  funext st p es
  induction es generalizing st p with
  | nil => rfl
  | cons e es ih =>
    rw [@replayEntries.eq_2 (c.reordered o), @replayEntries.eq_2 c, decode_reordered]
    cases @ManifestOp.decode c e.2 with
    | error source => rfl
    | ok entry =>
      dsimp only
      cases StoreState.apply entry st with
      | error source st' => rfl
      | ok u st' => exact ih _ _

theorem summaryOf_reordered : @summaryOf (c.reordered o) = @summaryOf c := by
  funext stride xs
  unfold summaryOf
  rw [checkpointsFrom_reordered]
  rfl

theorem surveySegment_reordered : @surveySegment (c.reordered o) = @surveySegment c := by
  funext d id expected
  unfold surveySegment
  rw [summaryOf_reordered]

theorem segmentIssues_reordered : @segmentIssues (c.reordered o) = @segmentIssues c := by
  funext d st id
  unfold segmentIssues
  rw [surveySegment_reordered]

theorem outline_reordered {d : Dir} {es : List Entry} {tail : Bytes} {st : StoreState} :
    @Outline (c.reordered o) d es tail st ↔ @Outline c d es tail st := by
  constructor
  · rintro ⟨present, manifest, fits, short, replays, nonempty⟩
    rw [replayEntries_reordered] at replays
    exact @Outline.mk c d es tail st present manifest fits short replays nonempty
  · rintro ⟨present, manifest, fits, short, replays, nonempty⟩
    rw [← replayEntries_reordered c o] at replays
    exact @Outline.mk (c.reordered o) d es tail st present manifest fits short replays nonempty

theorem addable_reordered : @Addable (c.reordered o) = @Addable c := by
  funext d st ids segs
  unfold Addable Missing
  rw [segmentIssues_reordered]

theorem recovered_reordered {d d' : Dir} {st : StoreState} {es : List Entry} {dead : Finset SegmentId} :
    @Recovered (c.reordered o) d st d' es dead ↔ @Recovered c d st d' es dead := by
  constructor
  · rintro ⟨outline, known, deads, gone, bytes, others, files⟩
    exact @Recovered.mk c d st d' es dead ((outline_reordered c o).mp outline) known deads gone bytes
      others files
  · rintro ⟨outline, known, deads, gone, bytes, others, files⟩
    exact @Recovered.mk (c.reordered o) d st d' es dead ((outline_reordered c o).mpr outline) known deads
      gone bytes others files

end

/-! ### Recoveries -/

section
variable [Crates] {d d' : Dir} {st : StoreState}

theorem mem_findMissingDead {ids : List SegmentId} {issue : FileIssue} :
    issue ∈ findMissingDead st ids ↔
      ∃ id ∈ st.dead, id ∉ ids ∧ issue = ⟨.segment id, .deadSegmentNotFound⟩ := by
  unfold findMissingDead
  simp only [List.mem_map, List.mem_filter, Crates.mem_hashIter, decide_eq_true_eq]
  constructor
  · rintro ⟨id, ⟨hdead, hids⟩, rfl⟩
    exact ⟨id, hdead, hids, rfl⟩
  · rintro ⟨id, hdead, hids, rfl⟩
    exact ⟨id, ⟨hdead, hids⟩, rfl⟩

/-- When a recovery with approval comes to its end. -/
theorem recover_ok_iff : (∃ w, Store.recover (calm d) = .ok ⟨⟩ w) ↔
    ∃ es tail st, Outline d es tail st ∧ Fixable d ∧ Addable d st [] st.segments := by
  constructor
  · rintro ⟨w, hok⟩
    have hf := fixable_of_recover hok
    obtain ⟨es, tail, st, h⟩ := outline_of_fixable hf
    rcases h.recover hf with ⟨hadd, _⟩ | ⟨_, e, w', hrun⟩
    · exact ⟨es, tail, st, h, hf, hadd⟩
    · rw [hok] at hrun
      cases hrun
  · rintro ⟨es, tail, st, h, hf, hadd⟩
    rcases h.recover hf with ⟨_, d', es', dead, hrun, _⟩ | ⟨hnot, _⟩
    · exact ⟨_, hrun⟩
    · exact absurd hadd hnot

theorem Outline.recovered {es : List Entry} {tail : Bytes} (h : Outline d es tail st) {w : World}
    (hok : Store.recover (calm d) = .ok ⟨⟩ w) :
    ∃ d' es' dead, w = calm d' ∧ Recovered d st d' es' dead := by
  rcases h.recover (fixable_of_recover hok) with ⟨_, d', es', dead, hrun, hrec⟩ | ⟨_, e, w', hrun⟩
  · rw [hok] at hrun
    obtain ⟨_, rfl⟩ := EStateM.Result.ok.inj hrun
    exact ⟨d', es', dead, rfl, hrec⟩
  · rw [hok] at hrun
    cases hrun

/-- Where a sealed segment was cut, the next open is refused. -/
theorem Recovered.refused {es' : List Entry} {dead : Finset SegmentId}
    (h : Recovered d st d' es' dead) (hissues : (survey d').issues ≠ []) (cfg : StoreCfg) :
    ∃ e w, Store.openStore cfg (calm d') = .error e w := by
  obtain ⟨issue, hi, hfatal⟩ := h.mem_fatal hissues
  have hblocks : issue.blocks false = some .notPossible :=
    FileIssue.blocks_notPossible_iff.mpr hfatal
  cases hv : (survey d').issues.findSome? (FileIssue.blocks false) with
  | none =>
    rw [List.findSome?_eq_none_iff.mp hv issue hi] at hblocks
    cases hblocks
  | some e =>
    exact ⟨_, _, openStore_refused cfg (e := openErrorOf (survey d').issues e) (by
      rw [openVerdict, hv]
      rfl)⟩

omit [Crates] in
/-- Only the members of the dead set matter to the next segment id. -/
theorem le_nextSegIds {c c' : Crates} (st : StoreState) :
    (st.segments.map (·.id) ++ c.hashIter st.dead).foldl max ⟨0⟩ ≤
      (st.segments.map (·.id) ++ c'.hashIter st.dead).foldl max ⟨0⟩ := by
  obtain ⟨hle, hall, _⟩ := le_foldl_max (st.segments.map (·.id) ++ c'.hashIter st.dead) ⟨0⟩
  obtain ⟨_, _, heq | hin⟩ := le_foldl_max (st.segments.map (·.id) ++ c.hashIter st.dead) ⟨0⟩
  · rw [heq]
    exact hle
  · refine hall _ ?_
    rw [List.mem_append] at hin ⊢
    exact hin.imp_right fun h => (c'.mem_hashIter _ _).mpr ((c.mem_hashIter _ _).mp h)

theorem surveySegment_congr {d d' : Dir} {id : SegmentId}
    (h : d'.bytes (segmentPath id) = d.bytes (segmentPath id)) (expected : Option UInt64) :
    surveySegment d' id expected = surveySegment d id expected := by
  unfold surveySegment
  rw [h]

end

section
variable (c : Crates) (o : HashOrder)

theorem nextSegIdOf_reordered : @Store.nextSegIdOf (c.reordered o) = @Store.nextSegIdOf c := by
  funext st
  unfold Store.nextSegIdOf
  exact congrArg SegmentId.succ (le_antisymm (le_nextSegIds st) (le_nextSegIds st))

theorem storeOf_reordered : @storeOf (c.reordered o) = @storeOf c := by
  funext cfg report active activeReport
  unfold storeOf
  rw [nextSegIdOf_reordered]

theorem fixable_reordered {d : Dir} {es : List Entry} {tail : Bytes} {st : StoreState}
    (h : @Outline c d es tail st) : @Fixable (c.reordered o) d ↔ @Fixable c d := by
  have h' := (outline_reordered c o).mpr h
  unfold Fixable
  rw [@Outline.survey_eq (c.reordered o) d es tail st h', @Outline.survey_eq c d es tail st h,
    segmentIssues_reordered]
  simp only [List.mem_append, mem_findMissingDead]
  exact Iff.rfl

theorem recover_reordered (d : Dir) : (∃ w, @Store.recover (c.reordered o) (calm d) = .ok ⟨⟩ w) ↔
    ∃ w, @Store.recover c (calm d) = .ok ⟨⟩ w := by
  rw [@recover_ok_iff (c.reordered o), @recover_ok_iff c]
  refine exists₃_congr fun es tail st => ?_
  rw [outline_reordered, addable_reordered]
  exact and_congr_right fun h => and_congr_left fun _ => fixable_reordered c o h

end

/-! ### One store -/

/-- The store that was returned, and the world behind it. -/
def storeBehind {ε : Type} : EStateM.Result ε World Store → Option (Store × World)
  | .ok s w => some (s, w)
  | .error _ _ => none

/-- Both come to one store, but for where the manifest ends, and to the same segment files; or neither
comes to a store. -/
def Agree : Option (Store × World) → Option (Store × World) → Prop
  | some (s, w), some (s', w') => s' = { s with manifestCursor := s'.manifestCursor } ∧
      (∀ id, w'.dir.bytes (segmentPath id) = w.dir.bytes (segmentPath id)) ∧
      ∀ name, name ∈ w'.dir.files ↔ name ∈ w.dir.files
  | none, none => True
  | _, _ => False

theorem Agree.symm {x y : Option (Store × World)} (h : Agree x y) : Agree y x := by
  match x, y, h with
  | some (s, w), some (s', w'), ⟨hs, hbytes, hfiles⟩ =>
    refine ⟨?_, fun id => (hbytes id).symm, fun name => (hfiles name).symm⟩
    rw [hs]
  | none, none, _ => trivial

theorem Agree.trans {x y z : Option (Store × World)} (h : Agree x y) (h' : Agree y z) : Agree x z := by
  match x, y, z, h, h' with
  | some (s, w), some (s', w'), some (s'', w''), ⟨hs, hbytes, hfiles⟩, ⟨hs', hbytes', hfiles'⟩ =>
    refine ⟨?_, fun id => (hbytes' id).trans (hbytes id),
      fun name => (hfiles' name).trans (hfiles name)⟩
    rw [hs', hs]
  | none, none, none, _, _ => trivial

theorem storeOf_congr [Crates] (cfg : StoreCfg) {report report' : ScanReport} (active : SegmentEntry)
    (activeReport : SegmentReport) (hstate : report'.state = report.state)
    (hsegs : report'.segments = report.segments) :
    storeOf cfg report' active activeReport = { storeOf cfg report active activeReport with
      manifestCursor := (storeOf cfg report' active activeReport).manifestCursor } := by
  unfold storeOf
  rw [hstate, hsegs]

/-- What an open behind the recovery comes to. -/
theorem Recovered.openStore [Crates] {d d' : Dir} {st : StoreState} {es : List Entry}
    {dead : Finset SegmentId} (h : Recovered d st d' es dead) (cfg : StoreCfg) :
    storeBehind (Store.openStore cfg (calm d')) =
      if (survey d').issues = [] then
        st.activeSegment.bind fun active =>
          ((survey d').segments.find? (·.id = active.id)).map fun activeReport =>
            (storeOf cfg (survey d') active activeReport, calm d')
      else none := by
  by_cases hnil : (survey d').issues = []
  · have hstate : (survey d').state = { st with dead := dead } := by rw [h.outline.survey_eq]
    have hopen : Store.openStore cfg (calm d') = fromScanReport cfg (survey d') (calm d') := by
      unfold Store.openStore
      rw [bind_ok (onScan_ok (scan_calm d')), if_pos hnil]
    rw [if_pos hnil, hopen]
    cases ha : st.activeSegment with
    | none =>
      rw [fromScanReport_panic cfg hnil (by rw [hstate]; exact ha)]
      rfl
    | some active =>
      have hlayout := h.layout (h.issues_nil_iff.mp hnil)
      obtain ⟨activeReport, hfind⟩ := hlayout.find_report (activeSegment_mem ha)
      rw [fromScanReport_ok cfg hnil (by rw [hstate]; exact ha) hfind hlayout.manifest,
        Option.bind_some, hfind]
      rfl
  · obtain ⟨e, w, hrefused⟩ := h.refused hnil cfg
    rw [if_neg hnil, hrefused]
    rfl

/-- Recoveries of one directory leave the same segment files. -/
theorem Recovered.bytes_eq [Crates] {d d₁ d₂ : Dir} {st : StoreState} {es₁ es₂ : List Entry}
    {dead₁ dead₂ : Finset SegmentId} (h₁ : Recovered d st d₁ es₁ dead₁)
    (h₂ : Recovered d st d₂ es₂ dead₂) (id : SegmentId) :
    d₂.bytes (segmentPath id) = d₁.bytes (segmentPath id) := by
  cases hlists : st.lists id with
  | true =>
    obtain ⟨seg, hseg, rfl⟩ := (lists_iff st id).mp hlists
    rw [h₂.bytes seg hseg, h₁.bytes seg hseg]
  | false => rw [h₂.others id hlists, h₁.others id hlists]

section
variable (c : Crates) (o : HashOrder) {d d₁ d₂ : Dir} {st : StoreState} {es₁ es₂ : List Entry}
  {dead₁ dead₂ : Finset SegmentId}

/-- The reports behind two recoveries differ only in where the manifest ends. -/
theorem recovered_survey (h₁ : @Recovered c d st d₁ es₁ dead₁)
    (h₂ : @Recovered (c.reordered o) d st d₂ es₂ dead₂) :
    (@survey (c.reordered o) d₂).state = (@survey c d₁).state ∧
    (@survey (c.reordered o) d₂).segments = (@survey c d₁).segments ∧
    ((@survey (c.reordered o) d₂).issues = [] ↔ (@survey c d₁).issues = []) := by
  have hnil := @Recovered.issues_nil_iff (c.reordered o) _ _ _ _ _ h₂
  have houtline := @Recovered.outline (c.reordered o) _ _ _ _ _ h₂
  have hsurvey := @Outline.survey_eq (c.reordered o) _ _ _ _ houtline
  have h₂ := (recovered_reordered c o).mp h₂
  have hdead : dead₂ = dead₁ := Finset.ext fun id => (h₂.deads id).trans (h₁.deads id).symm
  subst hdead
  refine ⟨?_, ?_, hnil.trans h₁.issues_nil_iff.symm⟩
  · rw [h₁.outline.survey_eq, hsurvey]
  · rw [h₁.outline.survey_eq, hsurvey]
    dsimp only
    unfold surveySegments
    rw [surveySegment_reordered]
    simp only [surveySegment_congr (h₁.bytes_eq h₂ _)]

theorem openStore_agree (h₁ : @Recovered c d st d₁ es₁ dead₁)
    (h₂ : @Recovered (c.reordered o) d st d₂ es₂ dead₂) (cfg : StoreCfg) :
    Agree (storeBehind (@Store.openStore c cfg (calm d₁)))
      (storeBehind (@Store.openStore (c.reordered o) cfg (calm d₂))) := by
  obtain ⟨hstate, hsegs, hissues⟩ := recovered_survey c o h₁ h₂
  rw [h₁.openStore, @Recovered.openStore (c.reordered o) _ _ _ _ _ h₂]
  have h₂ := (recovered_reordered c o).mp h₂
  by_cases hnil : (@survey c d₁).issues = []
  · rw [if_pos hnil, if_pos (hissues.mpr hnil), hsegs]
    cases st.activeSegment with
    | none => trivial
    | some active =>
      rw [Option.bind_some, Option.bind_some]
      cases (@survey c d₁).segments.find? (·.id = active.id) with
      | none => trivial
      | some activeReport =>
        refine ⟨?_, h₁.bytes_eq h₂,
          fun name => (h₂.files name).trans (h₁.files name).symm⟩
        rw [storeOf_reordered]
        exact storeOf_congr cfg active activeReport hstate hsegs
  · rw [if_neg hnil, if_neg (mt hissues.mp hnil)]
    trivial

end
end Woodshed
