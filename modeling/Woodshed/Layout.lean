import Woodshed.OpCodec
import Woodshed.Recovery
import Woodshed.Survey

/-! Directories that recovery can work on: a manifest of whole frames that replay, with less than a
header behind them, intact sealed segments, and unsealed segments of any content. -/
namespace Woodshed
open Sequencing Framing

/-- What is behind the magic number of a segment's file. -/
def body (d : Dir) (id : SegmentId) : Bytes :=
  ((d.bytes (segmentPath id)).getD []).drop magicLen

/-- The file of a segment is there, with its magic number. -/
def HasSegment (d : Dir) (id : SegmentId) : Prop :=
  d.bytes (segmentPath id) = some (segmentMagic ++ body d id)

theorem body_eq {d : Dir} {id : SegmentId} {xs : Bytes}
    (h : d.bytes (segmentPath id) = some (segmentMagic ++ xs)) : body d id = xs := by
  rw [body, h]
  rfl

theorem hasSegment_of {d : Dir} {id : SegmentId} {xs : Bytes}
    (h : d.bytes (segmentPath id) = some (segmentMagic ++ xs)) : HasSegment d id := by
  rw [HasSegment, body_eq h, h]

/-- A directory that differs from another in the content of one file. -/
structure Dir.Differs (d d' : Dir) (name : FileName) : Prop where
  present : d'.present = d.present
  mem : ∀ other, other ∈ d'.files ↔ other ∈ d.files
  bytes : ∀ other, other ≠ name → d'.bytes other = d.bytes other

theorem Dir.differs_writeAt (d : Dir) (name : FileName) (pos : ℕ) (data : Bytes) :
    d.Differs (d.writeAt name pos data) name := by
  refine ⟨by simp [Dir.writeAt], ?_, ?_⟩
  · intro other
    rw [Dir.writeAt, Dir.mem_edit]
  · intro other h
    rw [Dir.bytes_writeAt, if_neg h]

theorem Dir.differs_writeAt_sync (d : Dir) (name : FileName) (pos : ℕ) (data : Bytes) :
    d.Differs ((d.writeAt name pos data).sync name) name := by
  refine ⟨by simp [Dir.sync, Dir.writeAt], ?_, ?_⟩
  · intro other
    rw [Dir.sync, Dir.mem_edit, Dir.writeAt, Dir.mem_edit]
  · intro other h
    rw [Dir.bytes_sync, Dir.bytes_writeAt, if_neg h]

theorem Dir.differs_setLen_sync (d : Dir) (name : FileName) (len : ℕ) :
    d.Differs ((d.setLen name len).sync name) name := by
  refine ⟨by simp [Dir.sync, Dir.setLen], ?_, ?_⟩
  · intro other
    rw [Dir.sync, Dir.mem_edit, Dir.setLen, Dir.mem_edit]
  · intro other h
    rw [Dir.bytes_sync, Dir.bytes_setLen, if_neg h]

theorem Dir.Differs.mem_diskIds {d d' : Dir} {name : FileName} (h : d.Differs d' name)
    (id : SegmentId) : id ∈ diskIds d' ↔ id ∈ diskIds d := by
  rw [Woodshed.mem_diskIds, Woodshed.mem_diskIds]
  constructor
  · rintro ⟨other, ho, hp⟩
    exact ⟨other, (h.mem other).mp ho, hp⟩
  · rintro ⟨other, ho, hp⟩
    exact ⟨other, (h.mem other).mpr ho, hp⟩

theorem Dir.Differs.body {d d' : Dir} (h : d.Differs d' manifestFileName) (id : SegmentId) :
    body d' id = body d id := by
  rw [Woodshed.body, Woodshed.body, h.bytes _ (segmentPath_ne_manifest id)]

section
variable [Crates]

/-- The longest prefix of complete valid frames. -/
def validPrefix (xs : Bytes) : Bytes := frames.encodeAll (frames.decode xs).items

theorem validPrefix_prefix (xs : Bytes) : validPrefix xs <+: xs := by
  refine ⟨(frames.decode xs).rest, ?_⟩
  exact (frames.decode_sound xs).1.symm

/-- No list of valid frames in front of the input is longer. -/
theorem validPrefix_longest (xs : Bytes) (es : List Entry) (hf : ∀ e ∈ es, Fits e)
    (hp : frames.encodeAll es <+: xs) : frames.encodeAll es <+: validPrefix xs := by
  obtain ⟨rest, hrest⟩ := frames.prefix_decode es xs hf hp
  rw [validPrefix, ← hrest, Grammar.encodeAll_append]
  exact List.prefix_append _ _

theorem decode_validPrefix (xs : Bytes) :
    frames.decode (validPrefix xs) = ⟨(frames.decode xs).items, [], .clean⟩ :=
  frames.decode_encodeAll _ (frames.decode_sound xs).2.1

@[simp] theorem validPrefix_validPrefix (xs : Bytes) :
    validPrefix (validPrefix xs) = validPrefix xs := by
  conv_lhs => rw [validPrefix, decode_validPrefix]
  rfl

theorem validPrefix_of_clean {xs : Bytes} (h : (frames.decode xs).stop = .clean) :
    validPrefix xs = xs := by
  obtain ⟨hsplit, _, hstop⟩ := frames.decode_sound xs
  rw [h] at hstop
  have hnil : (frames.decode xs).rest = [] := hstop
  rw [hnil, List.append_nil] at hsplit
  exact hsplit.symm

/-- Decoding stops at a corrupt frame behind whole ones. -/
theorem decode_stop_corrupt {es : List Entry} {xs : Bytes} (hf : ∀ e ∈ es, Fits e)
    (hc : frameHead xs = .corrupt) : (frames.decode (frames.encodeAll es ++ xs)).stop = .corrupt := by
  rw [frames.decode_encodeAll_append es xs hf, Grammar.decode_corrupt hc]

/-- A manifest with a corrupt frame behind whole ones is reported. -/
theorem survey_corrupt {d : Dir} {es : List Entry} {xs : Bytes} (hp : d.present = true)
    (hm : d.bytes manifestFileName = some (manifestMagic ++ (frames.encodeAll es ++ xs)))
    (hf : ∀ e ∈ es, Fits e) (hc : frameHead xs = .corrupt) : (survey d).issues ≠ [] := by
  have hdec := decode_stop_corrupt hf hc
  unfold survey
  rw [hp, if_neg (by decide), hm]
  dsimp only
  rw [behindMagic_append _ _ rfl]
  dsimp only
  rw [surveyManifest, hdec]
  simp [emptyReport]

/-- Less than a header is a torn frame, unless there is nothing. -/
theorem decode_short (tail : Bytes) (h : tail.length < headerLen) :
    frames.decode tail = ⟨[], tail, if tail = [] then .clean else .torn⟩ := by
  by_cases hnil : tail = []
  · rw [hnil, Grammar.decode_nil, if_pos rfl]
  · have hhead : frames.head tail = .torn := by
      change frameHead tail = .torn
      rw [frameHead, if_neg hnil, if_pos h]
    rw [Grammar.decode_torn hhead, if_neg hnil]

theorem decode_entries_short (es : List Entry) (tail : Bytes) (hf : ∀ e ∈ es, Fits e)
    (h : tail.length < headerLen) :
    frames.decode (frames.encodeAll es ++ tail) =
      ⟨es, tail, if tail = [] then .clean else .torn⟩ := by
  rw [frames.decode_encodeAll_append es tail hf, decode_short tail h, List.append_nil]

/-- A directory whose manifest holds the frames `es`, with `tail` behind them, that replay to `st`,
whatever is in the segment files. -/
structure Outline (d : Dir) (es : List Entry) (tail : Bytes) (st : StoreState) : Prop where
  present : d.present = true
  manifest : d.bytes manifestFileName = some (manifestMagic ++ (frames.encodeAll es ++ tail))
  fits : ∀ e ∈ es, Fits e
  short : tail.length < headerLen
  replays : replayEntries StoreState.empty magicLen es = .ok st
  nonempty : st.segments ≠ []

/-- A directory whose manifest holds the frames `es`, with `tail` behind them, that replay to
`st`. -/
structure Layout (d : Dir) (es : List Entry) (tail : Bytes) (st : StoreState) : Prop where
  present : d.present = true
  manifest : d.bytes manifestFileName = some (manifestMagic ++ (frames.encodeAll es ++ tail))
  fits : ∀ e ∈ es, Fits e
  short : tail.length < headerLen
  replays : replayEntries StoreState.empty magicLen es = .ok st
  nonempty : st.segments ≠ []
  files : ∀ seg ∈ st.segments, HasSegment d seg.id
  sealedIntact : ∀ seg ∈ st.segments, ∀ info, st.seals seg.id = some info →
    UInt64.ofNat (segmentMagic ++ body d seg.id).length = info.finalSize ∧
      (frames.decode (body d seg.id)).stop = .clean

theorem Layout.outline {d : Dir} {es : List Entry} {tail : Bytes} {st : StoreState}
    (h : Layout d es tail st) : Outline d es tail st :=
  ⟨h.present, h.manifest, h.fits, h.short, h.replays, h.nonempty⟩

/-- Where the manifest's whole frames end. -/
def manifestEnd (es : List Entry) : ℕ := magicLen+(frames.encodeAll es).length

/-- Where the valid frames of a segment end. -/
def validEnd (d : Dir) (id : SegmentId) : ℕ := magicLen+(validPrefix (body d id)).length

def tailIssue (es : List Entry) (tail : Bytes) : IssueReport :=
  if tail = [] then [] else [⟨.manifest, .manifestTornTail (manifestEnd es)⟩]

/-- A segment that is not sealed and has something else than valid frames. -/
def isTorn (d : Dir) (st : StoreState) (id : SegmentId) : Bool :=
  (st.seals id).isNone && decide ((frames.decode (body d id)).stop ≠ .clean)

def tornIssues (d : Dir) (st : StoreState) : IssueReport :=
  (st.segments.filter fun seg => isTorn d st seg.id).map fun seg =>
    ⟨.segment seg.id, .activeSegmentTornTail (validEnd d seg.id)⟩

/-- What is reported of a segment. -/
def segmentIssues (d : Dir) (st : StoreState) (id : SegmentId) : IssueReport :=
  (surveySegment d id ((st.sealInfo id).map (·.finalSize))).2

/-- The issue that something else than valid frames makes. -/
def cutIssue (st : StoreState) (id : SegmentId) (n : ℕ) : Issue :=
  if (st.seals id).isSome then .sealedSegmentChecksumCorrupt n else .activeSegmentTornTail n

/-- What is reported of a segment whose file opens and has the size it should have. -/
theorem segmentIssues_eq {d : Dir} {st : StoreState} {id : SegmentId} {xs : Bytes}
    (hb : d.bytes (segmentPath id) = some (segmentMagic ++ xs))
    (hsize : ∀ info, st.seals id = some info →
      UInt64.ofNat (segmentMagic ++ xs).length = info.finalSize) :
    segmentIssues d st id = if (frames.decode xs).stop = .clean then []
      else [⟨.segment id, cutIssue st id (magicLen+(validPrefix xs).length)⟩] := by
  have hmagic := behindMagic_append segmentMagic xs rfl
  unfold segmentIssues surveySegment StoreState.sealInfo
  cases hs : st.seals id with
  | some info =>
    have hf : (some info.finalSize).filter (fun x =>
        UInt64.ofNat (segmentMagic ++ xs).length ≠ x) = none := by
      simp only [Option.filter, hsize info hs, ne_eq, not_true_eq_false, decide_false,
        Bool.false_eq_true, if_false]
    simp only [hb, Option.map_some, hf, hmagic, Option.isSome_some]
    rw [segmentReport, summaryOf, cutIssue, hs]
    dsimp only
    cases (frames.decode xs).stop <;> rfl
  | none =>
    simp only [hb, Option.map_none, Option.filter_none, hmagic, Option.isSome_none]
    rw [segmentReport, summaryOf, cutIssue, hs]
    dsimp only
    cases (frames.decode xs).stop <;> rfl

/-- The report on a segment of a layout. -/
theorem Layout.segmentIssues_eq {d : Dir} {es : List Entry} {tail : Bytes} {st : StoreState}
    (h : Layout d es tail st) {seg : SegmentEntry} (hseg : seg ∈ st.segments) :
    segmentIssues d st seg.id =
      if isTorn d st seg.id then
        [⟨.segment seg.id, .activeSegmentTornTail (validEnd d seg.id)⟩]
      else [] := by
  have hsize : ∀ info, st.seals seg.id = some info →
      UInt64.ofNat (segmentMagic ++ body d seg.id).length = info.finalSize :=
    fun info hs => (h.sealedIntact seg hseg info hs).1
  rw [Woodshed.segmentIssues_eq (h.files seg hseg) hsize, isTorn, cutIssue, validEnd]
  cases hs : st.seals seg.id with
  | some info =>
    rw [if_pos (h.sealedIntact seg hseg info hs).2]
    rfl
  | none =>
    by_cases hstop : (frames.decode (body d seg.id)).stop = .clean
    · simp [hstop]
    · simp [hstop]

omit [Crates] in
theorem flatMap_ite_singleton {α β : Type} (p : α → Bool) (f : α → β) (xs : List α) :
    xs.flatMap (fun x => if p x then [f x] else []) = (xs.filter p).map f := by
  induction xs with
  | nil => rfl
  | cons x xs ih =>
    rw [List.flatMap_cons, ih, List.filter_cons]
    cases p x <;> simp

/-- The issues of a layout, in the order in which they are reported. -/
def layoutIssues (d : Dir) (es : List Entry) (tail : Bytes) (st : StoreState) : IssueReport :=
  tailIssue es tail ++ findOrphans st (diskIds d) ++ findMissingDead st (diskIds d) ++
    tornIssues d st

/-- The issues, in the order in which they are reported. -/
theorem Outline.survey_eq {d : Dir} {es : List Entry} {tail : Bytes} {st : StoreState}
    (h : Outline d es tail st) : survey d =
    ⟨st, manifestEnd es, (surveySegments d st).map (·.1), tailIssue es tail ++
      findOrphans st (diskIds d) ++ findMissingDead st (diskIds d) ++
      st.segments.flatMap fun seg => segmentIssues d st seg.id⟩ := by
  have hdec := decode_entries_short es tail h.fits h.short
  have hstop : (frames.decode (frames.encodeAll es ++ tail)).stop ≠ .corrupt := by
    rw [hdec]
    dsimp only
    split <;> decide
  have hreplay : surveyReplay (frames.encodeAll es ++ tail) = .ok ⟨st, manifestEnd es⟩ := by
    rw [surveyReplay, hdec]
    dsimp only
    rw [h.replays]
    dsimp only
    rw [if_pos h.short]
    rfl
  have htail : tornManifest (frames.decode (frames.encodeAll es ++ tail)) = tailIssue es tail := by
    rw [tornManifest, tailIssue, hdec]
    by_cases hnil : tail = [] <;> simp [hnil, manifestEnd]
  have hempty : st.isEmpty = false := by
    rw [StoreState.isEmpty, List.isEmpty_eq_false_iff]
    exact h.nonempty
  have hsegs : (surveySegments d st).flatMap (·.2) =
      st.segments.flatMap fun seg => segmentIssues d st seg.id := by
    rw [surveySegments, List.flatMap_map]
    rfl
  unfold survey
  rw [if_neg (by rw [h.present]; decide), h.manifest]
  dsimp only
  rw [behindMagic_append manifestMagic _ rfl]
  dsimp only [surveyManifest]
  rw [if_neg hstop, hreplay]
  dsimp only
  rw [if_neg (by rw [hempty]; decide), surveyState, htail, hsegs]

theorem Layout.survey_eq {d : Dir} {es : List Entry} {tail : Bytes} {st : StoreState}
    (h : Layout d es tail st) :
    survey d = ⟨st, manifestEnd es, (surveySegments d st).map (·.1), layoutIssues d es tail st⟩ := by
  have htorn : (st.segments.flatMap fun seg => segmentIssues d st seg.id) = tornIssues d st := by
    rw [tornIssues, ← flatMap_ite_singleton]
    apply List.flatMap_congr
    intro seg hseg
    exact h.segmentIssues_eq hseg
  rw [h.outline.survey_eq, htorn]
  rfl

/-! ### The fix-ups of a layout -/

/-- The fix-ups recovery makes of a layout's issues, in order. -/
def layoutFixUps (d : Dir) (es : List Entry) (tail : Bytes) (st : StoreState) : List FixUp :=
  (if tail = [] then [] else [⟨.manifestFileClean, false, .truncateManifest (manifestEnd es)⟩]) ++
    ((diskIds d).filter fun id => ¬ (st.lists id = true ∨ id ∈ st.dead)).map
      (fun id => ⟨.manifestAppends, false, .orphanFound id⟩) ++
    ((Crates.hashIter st.dead).filter (· ∉ diskIds d)).map
      (fun id => ⟨.manifestAppends, false, .deadSegmentMissing id⟩) ++
    (st.segments.filter fun seg => isTorn d st seg.id).map
      (fun seg => ⟨.segmentFileClean, false, .truncateSegment seg.id (validEnd d seg.id)⟩)

omit [Crates] in
theorem collectFixUps_append {approved : Bool} {xs ys : IssueReport} {fs gs : List FixUp}
    (hx : collectFixUps approved xs = .ok fs) (hy : collectFixUps approved ys = .ok gs) :
    collectFixUps approved (xs ++ ys) = .ok (fs ++ gs) := by
  induction xs generalizing fs with
  | nil => cases hx; exact hy
  | cons x xs ih =>
    rw [collectFixUps] at hx
    rw [List.cons_append, collectFixUps]
    cases hc : createFixUp x with
    | none => rw [hc] at hx; cases hx
    | some f =>
      rw [hc] at hx
      dsimp only at hx ⊢
      by_cases ha : (f.approvalRequired && !approved) = true
      · rw [if_pos ha] at hx
        cases hx
      · rw [if_neg ha] at hx ⊢
        cases hr : collectFixUps approved xs with
        | error e => rw [hr] at hx; cases hx
        | ok rest =>
          rw [hr] at hx
          cases hx
          rw [ih hr]
          rfl

omit [Crates] in
/-- Issues that are fixed without approval. -/
theorem collectFixUps_map {α : Type} (issue : α → FileIssue) (fixUp : α → FixUp)
    (h : ∀ x, createFixUp (issue x) = some (fixUp x) ∧ (fixUp x).approvalRequired = false)
    (approved : Bool) (xs : List α) :
    collectFixUps approved (xs.map issue) = .ok (xs.map fixUp) := by
  induction xs with
  | nil => rfl
  | cons x xs ih =>
    rw [List.map_cons, collectFixUps, (h x).1]
    dsimp only
    rw [(h x).2, ih]
    rfl

theorem collect_layoutIssues (d : Dir) (es : List Entry) (tail : Bytes) (st : StoreState)
    (approved : Bool) :
    collectFixUps approved (layoutIssues d es tail st) = .ok (layoutFixUps d es tail st) := by
  have htail : collectFixUps approved (tailIssue es tail) =
      .ok (if tail = [] then [] else
        [⟨.manifestFileClean, false, .truncateManifest (manifestEnd es)⟩]) := by
    unfold tailIssue
    by_cases hnil : tail = []
    · rw [if_pos hnil, if_pos hnil]
      rfl
    · rw [if_neg hnil, if_neg hnil]
      rfl
  unfold layoutIssues layoutFixUps
  refine collectFixUps_append (collectFixUps_append (collectFixUps_append htail ?_) ?_) ?_
  · exact collectFixUps_map _ _ (fun _ => ⟨rfl, rfl⟩) approved _
  · exact collectFixUps_map _ _ (fun _ => ⟨rfl, rfl⟩) approved _
  · exact collectFixUps_map _ _ (fun _ => ⟨rfl, rfl⟩) approved _

omit [Crates] in
theorem FixUpPhase.rank_le (p : FixUpPhase) : p.rank ≤ FixUpPhase.segmentFileClean.rank := by
  cases p <;> decide

omit [Crates] in
/-- Fix-ups of a later phase come behind. -/
theorem phases_append {fs gs : List FixUp} {p : FixUpPhase}
    (hfs : fs.Pairwise fun a b => a.phase.rank ≤ b.phase.rank) (hle : ∀ f ∈ fs, f.phase.rank ≤ p.rank)
    (hgs : ∀ g ∈ gs, g.phase = p) :
    (fs ++ gs).Pairwise fun a b => a.phase.rank ≤ b.phase.rank := by
  rw [List.pairwise_append]
  refine ⟨hfs, List.pairwise_of_forall_mem_list fun a ha b hb => ?_, fun a ha b hb => ?_⟩
  · rw [hgs a ha, hgs b hb]
  · rw [hgs b hb]
    exact hle a ha

/-- The issues come in the order of the phases, so sorting leaves the fix-ups where they are. -/
theorem sort_layoutFixUps (d : Dir) (es : List Entry) (tail : Bytes) (st : StoreState) :
    sortFixUps (layoutFixUps d es tail st) = layoutFixUps d es tail st := by
  have hmap {α : Type} (phase : FixUpPhase) (action : α → FixUpAction) (xs : List α) :
      ∀ f ∈ xs.map (fun x => (⟨phase, false, action x⟩ : FixUp)), f.phase = phase := by
    intro f hf
    obtain ⟨x, _, rfl⟩ := List.mem_map.mp hf
    rfl
  have horphans := hmap .manifestAppends .orphanFound
    ((diskIds d).filter fun id => ¬ (st.lists id = true ∨ id ∈ st.dead))
  have hmissing := hmap .manifestAppends .deadSegmentMissing
    ((Crates.hashIter st.dead).filter (· ∉ diskIds d))
  have hcuts := hmap .segmentFileClean
    (fun seg : SegmentEntry => .truncateSegment seg.id (validEnd d seg.id))
    (st.segments.filter fun seg => isTorn d st seg.id)
  have htail : ∀ f ∈ (if tail = [] then [] else
      [(⟨.manifestFileClean, false, .truncateManifest (manifestEnd es)⟩ : FixUp)]),
      f.phase = .manifestFileClean := by
    intro f hf
    by_cases hnil : tail = []
    · simp [hnil] at hf
    · simp only [if_neg hnil, List.mem_singleton] at hf
      rw [hf]
  unfold sortFixUps
  apply List.Pairwise.insertionSort_eq
  unfold layoutFixUps
  refine phases_append (phases_append (phases_append
    (phases_append List.Pairwise.nil (by simp) htail) ?_ horphans) ?_ hmissing) ?_ hcuts
  · intro f hf
    rw [htail f hf]
    decide
  · intro f hf
    rcases List.mem_append.mp hf with hf | hf
    · rw [htail f hf]
      decide
    · rw [horphans f hf]
  · intro f _
    exact f.phase.rank_le

/-- Recovery of a layout applies its fix-ups, in any world that holds it. -/
theorem Layout.attemptRecovery_eq {d : Dir} {es : List Entry} {tail : Bytes} {st : StoreState}
    (h : Layout d es tail st) (approved : Bool) :
    attemptRecovery (survey d) approved = applyFixUps (layoutFixUps d es tail st) := by
  rw [attemptRecovery, h.survey_eq]
  dsimp only
  rw [collect_layoutIssues]
  dsimp only
  rw [sort_layoutFixUps]

end
end Woodshed
