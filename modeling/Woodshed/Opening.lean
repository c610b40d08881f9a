import Woodshed.Checkpoints
import Woodshed.Converge
import Woodshed.Store

/-! Opening a store: what `open` returns on a directory with nothing to recover, that it gets there
from every layout, and what `open_or_create` makes of a directory without a store. -/
namespace Woodshed
open Sequencing Framing

section
variable [Crates]

/-- The store that is built from a report without issues. -/
def storeOf (cfg : StoreCfg) (report : ScanReport) (active : SegmentEntry)
    (activeReport : SegmentReport) : Store where
  cfg := cfg
  state := report.state
  index := report.segments.foldl (fun x seg => x.addSegment seg.id seg.index) EntryIndex.new
  manifestCursor := FrameCursor.new report.manifestNextOffset
  segments := ∅
  activeId := active.id
  activeCursor := FrameCursor.new activeReport.writeOffset
  activeFirstEntry := active.firstEntry
  activeEntryCount := activeReport.numEntries
  lastEntryId := activeReport.lastEntryId.or ((report.state.segments.reverse.drop 1).findSome?
    fun seg => (report.state.sealInfo seg.id).map (·.lastEntry))
  nextSegId := Store.nextSegIdOf report.state
  rolloverPending := false

theorem fromScanReport_legible (cfg : StoreCfg) {report : ScanReport} {w : World}
    {active : SegmentEntry} {activeReport : SegmentReport} {xs : Bytes} (hq : w.Legible)
    (hi : report.issues = []) (ha : report.state.activeSegment = some active)
    (hf : report.segments.find? (·.id = active.id) = some activeReport)
    (hm : w.dir.bytes manifestFileName = some (manifestMagic ++ xs)) :
    fromScanReport cfg report w = .ok (storeOf cfg report active activeReport) w := by
  have hopen := openManifest_legible hq
  rw [hm] at hopen
  dsimp only at hopen
  rw [behindMagic_append manifestMagic xs rfl] at hopen
  unfold fromScanReport
  rw [if_neg (not_not.mpr hi), ha]
  dsimp only
  rw [hf]
  dsimp only
  rw [bind_ok (attempt_ok hopen)]
  rfl

theorem fromScanReport_ok (cfg : StoreCfg) {report : ScanReport} {d : Dir} {active : SegmentEntry}
    {activeReport : SegmentReport} {xs : Bytes} (hi : report.issues = [])
    (ha : report.state.activeSegment = some active)
    (hf : report.segments.find? (·.id = active.id) = some activeReport)
    (hm : d.bytes manifestFileName = some (manifestMagic ++ xs)) :
    fromScanReport cfg report (calm d) = .ok (storeOf cfg report active activeReport) (calm d) :=
  fromScanReport_legible cfg (legible_calm d) hi ha hf hm

theorem fromScanReport_panic (cfg : StoreCfg) {report : ScanReport} {d : Dir}
    (hi : report.issues = []) (ha : report.state.activeSegment = none) :
    fromScanReport cfg report (calm d) =
      .error (.panic "no issues guarantees a non-empty state with an active segment") (calm d) := by
  unfold fromScanReport
  rw [if_neg (not_not.mpr hi), ha]
  rfl

omit [Crates] in
theorem onScan_ok {α : Type} {m : Fs α} {w w' : World} {a : α} (h : m w = .ok a w') :
    onScan m w = .ok a w' := by
  rw [onScan]
  exact onPart_ok h

/-- Opening a layout is working off its fix-ups and building the store from a second scan. -/
theorem Layout.openStore_eq {d : Dir} {es : List Entry} {tail : Bytes} {st : StoreState}
    (h : Layout d es tail st) (cfg : StoreCfg) :
    ∃ d' es' st', Todo d' es' [] st' [] ∧ Toward d st d' st' ∧ RecoveryFrames es es' ∧
      (layoutIssues d es tail st = [] → d' = d) ∧
      (survey d').issues = [] ∧
      Store.openStore cfg (calm d) =
        if layoutIssues d es tail st = [] then fromScanReport cfg (survey d') (calm d')
        else onPart (fun w => w) (fun w _ => w) remainingOf (fromScanReport cfg (survey d'))
          (calm d') := by
  have hissues : (survey d).issues = layoutIssues d es tail st := by rw [h.survey_eq]
  have hnil {d' : Dir} {es' : List Entry} {tail' : Bytes} {st' : StoreState}
      (htodo : Todo d' es' tail' st' []) : tail' = [] := by
    rcases htodo.manifest with ⟨hnil, _⟩ | ⟨f, rest, heq, _⟩
    · exact hnil
    · cases heq
  by_cases hno : layoutIssues d es tail st = []
  · -- nothing to recover: the layout is already where recovery ends
    have hfix : layoutFixUps d es tail st = [] := by
      have hcollect := collect_layoutIssues d es tail st false
      rw [hno] at hcollect
      exact (Except.ok.inj hcollect).symm
    have htodo := h.todo
    rw [hfix] at htodo
    obtain rfl := hnil htodo
    refine ⟨d, es, st, htodo, Toward.refl d st, RecoveryFrames.refl es, fun _ => rfl,
      hissues.trans hno, ?_⟩
    rw [if_pos hno]
    unfold Store.openStore
    rw [bind_ok (onScan_ok (scan_calm d)), if_pos (hissues.trans hno)]
  · obtain ⟨d', es', tail', st', hrec, htodo, ht, hr⟩ := h.recover false
    obtain rfl := hnil htodo
    refine ⟨d', es', st', htodo, ht, hr, fun hc => absurd hc hno, htodo.issues_nil, ?_⟩
    have hrun : onPart (fun w : World => w) (fun w _ => w)
        (fun e => Failure.err (openErrorOf (survey d).issues e))
        (attemptRecovery (survey d) false) (calm d) = .ok ⟨⟩ (calm d') := by
      rw [onPart, hrec]
    rw [if_neg hno]
    unfold Store.openStore
    rw [bind_ok (onScan_ok (scan_calm d)), if_neg (by rw [hissues]; exact hno), bind_ok hrun,
      bind_ok (onScan_ok (scan_calm d'))]

theorem surveySegment_id (d : Dir) (id : SegmentId) (expected : Option UInt64) :
    (surveySegment d id expected).1.id = id := by
  unfold surveySegment
  dsimp only
  cases d.bytes (segmentPath id) with
  | none => rfl
  | some bytes =>
    dsimp only
    cases expected.filter (UInt64.ofNat bytes.length ≠ ·) with
    | some x => rfl
    | none =>
      dsimp only
      cases behindMagic segmentMagic bytes with
      | none => rfl
      | some xs =>
        dsimp only
        unfold segmentReport
        dsimp only
        cases (summaryOf indexStride xs).status <;> rfl

/-- Every live segment of a layout has a report. -/
theorem Layout.find_report {d : Dir} {es : List Entry} {tail : Bytes} {st : StoreState}
    (h : Layout d es tail st) {seg : SegmentEntry} (hseg : seg ∈ st.segments) :
    ∃ report, (survey d).segments.find? (·.id = seg.id) = some report := by
  rw [← Option.isSome_iff_exists, List.find?_isSome, h.survey_eq]
  refine ⟨(surveySegment d seg.id ((st.sealInfo seg.id).map (·.finalSize))).1, ?_, ?_⟩
  · exact List.mem_map_of_mem (List.mem_map.mpr ⟨seg, hseg, rfl⟩)
  · exact decide_eq_true (surveySegment_id d seg.id _)

omit [Crates] in
theorem activeSegment_mem {st : StoreState} {active : SegmentEntry}
    (h : st.activeSegment = some active) : active ∈ st.segments := by
  unfold StoreState.activeSegment at h
  cases hid : st.activeSegmentId with
  | none => rw [hid] at h; cases h
  | some id => rw [hid] at h; exact List.mem_of_find?_eq_some h

omit [Crates] in
theorem Toward.activeSegment {d d' : Dir} {st st' : StoreState} [Crates] (h : Toward d st d' st') :
    st'.activeSegment = st.activeSegment := by
  rw [h.state]
  rfl

/-- A layout with an active segment can be opened, without approval. -/
theorem Layout.openStore_ok {d : Dir} {es : List Entry} {tail : Bytes} {st : StoreState}
    (h : Layout d es tail st) (cfg : StoreCfg) {active : SegmentEntry}
    (ha : st.activeSegment = some active) :
    ∃ d' es' st' activeReport, Todo d' es' [] st' [] ∧ Toward d st d' st' ∧
      RecoveryFrames es es' ∧ (layoutIssues d es tail st = [] → d' = d) ∧
      (survey d').segments.find? (·.id = active.id) = some activeReport ∧
      Store.openStore cfg (calm d) =
        .ok (storeOf cfg (survey d') active activeReport) (calm d') := by
  obtain ⟨d', es', st', htodo, ht, hr, hsame, hissues, hopen⟩ := h.openStore_eq cfg
  have ha' : st'.activeSegment = some active := ht.activeSegment.trans ha
  obtain ⟨activeReport, hfind⟩ := htodo.layout.find_report (activeSegment_mem ha')
  have hfrom := fromScanReport_ok (d := d') cfg hissues
    (by rw [htodo.layout.survey_eq]; exact ha') hfind htodo.layout.manifest
  refine ⟨d', es', st', activeReport, htodo, ht, hr, hsame, hfind, ?_⟩
  rw [hopen]
  split
  · exact hfrom
  · exact onPart_ok hfrom

/-- Without an active segment, the open panics. -/
theorem Layout.openStore_panic {d : Dir} {es : List Entry} {tail : Bytes} {st : StoreState}
    (h : Layout d es tail st) (cfg : StoreCfg) (ha : st.activeSegment = none) :
    ∃ w, Store.openStore cfg (calm d) =
      .error (.panic "no issues guarantees a non-empty state with an active segment") w := by
  obtain ⟨d', es', st', htodo, ht, _, _, hissues, hopen⟩ := h.openStore_eq cfg
  have hpanic := fromScanReport_panic (d := d') cfg hissues
    (by rw [htodo.layout.survey_eq]; exact ht.activeSegment.trans ha)
  refine ⟨calm d', ?_⟩
  rw [hopen]
  split
  · exact hpanic
  · rw [onPart, hpanic]
    rfl

/-! ### A store in use -/

/-- What a store that is running knows agrees with its directory. Nothing is said of the frames in
the buffer of the active segment. -/
structure Running (s : Store) (d : Dir) (es : List Entry) (log : SegmentId → List Entry)
    (active : SegmentEntry) : Prop where
  kept : Kept d es s.state log active
  manifestCursor : s.manifestCursor = ⟨⟨[]⟩, manifestEnd es⟩
  activeId : s.activeId = active.id
  activeFirst : s.activeFirstEntry = active.firstEntry
  position : s.activeCursor.position = segmentEnd (log active.id)
  next : ∀ id, s.state.lists id = true ∨ id ∈ s.state.dead → id < s.nextSegId
  pending : s.rolloverPending = true → log active.id ≠ []
  /-- The last id is the one of the last stored entry, if that is not before the head. -/
  last : s.lastEntryId = (liveLog s.state log).getLast?.map (·.1) ∨
    liveLog s.state log = [] ∧ ∀ x, s.lastEntryId = some x → x < s.state.firstEntry

/-- A sealed segment has entries. -/
theorem SealsOk.full {st : StoreState} {log : SegmentId → List Entry} {active seg : SegmentEntry}
    (h : SealsOk st log) (hs : Shaped st active) (hseg : seg ∈ st.segments)
    (hne : seg ≠ active) :
    ∃ info e, st.seals seg.id = some info ∧ (log seg.id).getLast? = some e ∧
      info.lastEntry = e.1 := by
  obtain ⟨info, hi⟩ := hs.seals_of_ne hseg hne
  obtain ⟨_, e, he, hlast⟩ := h seg hseg info hi
  exact ⟨info, e, hi, he, hlast⟩

/-- The report of a clean directory on a live segment. -/
theorem Sound.report {d : Dir} {es : List Entry} {st : StoreState} {log : SegmentId → List Entry}
    {active seg : SegmentEntry} (h : Sound d es st log active) (hseg : seg ∈ st.segments) :
    (surveySegment d seg.id ((st.sealInfo seg.id).map (·.finalSize))).1 =
      ⟨seg.id, (log seg.id).length, segmentEnd (log seg.id),
        FrameScanner.lastIdOf none (log seg.id), ⟨checkpointsOf (log seg.id)⟩⟩ := by
  have hdec := frames.decode_encodeAll _ (h.whole seg hseg)
  have hmagic := behindMagic_append segmentMagic (frames.encodeAll (log seg.id)) rfl
  have hsum : summaryOf indexStride (frames.encodeAll (log seg.id)) =
      ⟨(log seg.id).length, checkpointsOf (log seg.id), FrameScanner.lastIdOf none (log seg.id),
        segmentEnd (log seg.id), .clean⟩ := by
    rw [summaryOf, hdec]
    rfl
  have hf : ((st.sealInfo seg.id).map (·.finalSize)).filter
      (UInt64.ofNat (segmentMagic ++ frames.encodeAll (log seg.id)).length ≠ ·) = none := by
    rw [StoreState.sealInfo]
    cases hs : st.seals seg.id with
    | none => rfl
    | some info =>
      have hsize := (h.sealsOk seg hseg info hs).1
      have hlen : (segmentMagic ++ frames.encodeAll (log seg.id)).length =
          segmentEnd (log seg.id) := by
        rw [List.length_append]
        rfl
      rw [hlen, Option.map_some, hsize]
      simp [Option.filter]
  unfold surveySegment
  rw [h.holds seg hseg]
  dsimp only
  rw [hf]
  dsimp only
  rw [hmagic]
  dsimp only
  rw [hsum]
  rfl

omit [Crates] in
theorem foldl_addSegment {α : Type} (id : α → SegmentId) (index : α → SegmentIndex)
    (xs : List α) (x : EntryIndex) :
    xs.foldl (fun x a => x.addSegment (id a) (index a)) x =
      ⟨x.segments ++ xs.map fun a => (id a, index a)⟩ := by
  induction xs generalizing x with
  | nil => simp
  | cons a xs ih =>
    rw [List.foldl_cons, ih]
    simp [EntryIndex.addSegment]

/-- The last stored id, found from the active segment's report or the seals of the others. -/
theorem SealsOk.lastId {st : StoreState} {log : SegmentId → List Entry} {active : SegmentEntry}
    (h : SealsOk st log) (hs : Shaped st active) :
    (FrameScanner.lastIdOf none (log active.id)).or ((st.segments.reverse.drop 1).findSome?
      fun seg => (st.sealInfo seg.id).map (·.lastEntry)) =
      (liveLog st log).getLast?.map (·.1) := by
  rw [liveLog_split hs, List.getLast?_append]
  have hrev : st.segments.reverse.drop 1 = st.segments.dropLast.reverse := by
    conv_lhs => rw [hs.split]
    simp
  rw [hrev, FrameScanner.lastIdOf, Option.or_none]
  cases hlast : (log active.id).getLast? with
  | some e => rfl
  | none =>
    -- the active segment is empty: the last entry is the last one of the last sealed segment
    rw [Option.map_none, Option.none_or, Option.none_or]
    rcases List.eq_nil_or_concat st.segments.dropLast with hnil | ⟨older, seg, holder⟩
    · rw [hnil]
      rfl
    · rw [List.concat_eq_append] at holder
      obtain ⟨hseg, hne⟩ := hs.dropLast (show seg ∈ st.segments.dropLast by rw [holder]; simp)
      obtain ⟨info, e, hi, he, hlast⟩ := h.full hs hseg hne
      rw [holder, List.reverse_append, List.flatMap_append, List.getLast?_append]
      simp [StoreState.sealInfo, hi, he, hlast]

omit [Crates] in
theorem le_foldl_max (ids : List SegmentId) (a : SegmentId) :
    a ≤ ids.foldl max a ∧ (∀ id ∈ ids, id ≤ ids.foldl max a) ∧
      (ids.foldl max a = a ∨ ids.foldl max a ∈ ids) := by
  induction ids generalizing a with
  | nil => simp
  | cons b ids ih =>
    obtain ⟨hle, hall, hmem⟩ := ih (max a b)
    rw [List.foldl_cons]
    refine ⟨(le_max_left a b).trans hle, ?_, ?_⟩
    · intro id hid
      rcases List.mem_cons.mp hid with rfl | hid
      · exact (le_max_right a id).trans hle
      · exact hall id hid
    · rcases hmem with hmem | hmem
      · rcases max_choice a b with hm | hm
        · exact Or.inl (hmem.trans hm)
        · exact Or.inr (by rw [hmem, hm]; simp)
      · exact Or.inr (List.mem_cons_of_mem _ hmem)

omit [Crates] in
theorem SegmentId.succ_toNat {id : SegmentId} (h : id.val.toNat+1 < 2^32) :
    id.succ.val.toNat = id.val.toNat+1 := by
  rw [SegmentId.succ, UInt32.toNat_add]
  exact Nat.mod_eq_of_lt h

/-- The next segment id is above all that are in use. -/
theorem lt_nextSegIdOf {st : StoreState}
    (hroom : ∀ id, st.lists id = true ∨ id ∈ st.dead → id.val.toNat+1 < 2^32) (id : SegmentId)
    (hid : st.lists id = true ∨ id ∈ st.dead) : id < Store.nextSegIdOf st := by
  unfold Store.nextSegIdOf
  dsimp only
  set ids := st.segments.map (·.id) ++ Crates.hashIter st.dead with hids
  have hmem (other : SegmentId) : other ∈ ids ↔ st.lists other = true ∨ other ∈ st.dead := by
    rw [hids, List.mem_append, List.mem_map, Crates.mem_hashIter, lists_iff]
  obtain ⟨_, hall, hmax⟩ := le_foldl_max ids ⟨0⟩
  have hbound : (ids.foldl max ⟨0⟩).val.toNat+1 < 2^32 := by
    rcases hmax with heq | hin
    · rw [heq]
      decide
    · exact hroom _ ((hmem _).mp hin)
  have hle := (SegmentId.le_iff _ _).mp (hall id ((hmem id).mpr hid))
  rw [SegmentId.lt_iff, SegmentId.succ_toNat hbound]
  omega

/-- What an open makes of a directory with nothing to recover. -/
structure Opened (cfg : StoreCfg) (s : Store) (es : List Entry) (st : StoreState)
    (log : SegmentId → List Entry) (active : SegmentEntry) : Prop where
  cfg : s.cfg = cfg
  state : s.state = st
  index : s.index = indexOf st log
  manifestCursor : s.manifestCursor = ⟨⟨[]⟩, manifestEnd es⟩
  activeId : s.activeId = active.id
  activeFirst : s.activeFirstEntry = active.firstEntry
  activeCursor : s.activeCursor = ⟨⟨[]⟩, segmentEnd (log active.id)⟩
  entryCount : s.activeEntryCount = (log active.id).length
  last : s.lastEntryId = (liveLog st log).getLast?.map (·.1)
  next : s.nextSegId = Store.nextSegIdOf st
  pending : s.rolloverPending = false

theorem Sound.openStore {d : Dir} {es : List Entry} {st : StoreState}
    {log : SegmentId → List Entry} {active : SegmentEntry} (h : Sound d es st log active)
    (cfg : StoreCfg) :
    ∃ s, Store.openStore cfg (calm d) = .ok s (calm d) ∧ Opened cfg s es st log active := by
  obtain ⟨d', _, _, activeReport, _, _, _, hsame, hfind, hopen⟩ :=
    h.layout.openStore_ok cfg h.shaped.activeSegment
  rw [hsame h.issues] at hfind hopen
  have hsurvey := h.layout.survey_eq
  have hreports : (survey d).segments = st.segments.map fun seg =>
      ⟨seg.id, (log seg.id).length, segmentEnd (log seg.id),
        FrameScanner.lastIdOf none (log seg.id), ⟨checkpointsOf (log seg.id)⟩⟩ := by
    rw [hsurvey]
    dsimp only
    rw [surveySegments, List.map_map]
    exact List.map_congr_left fun seg hseg => h.report hseg
  have hreport : activeReport = ⟨active.id, (log active.id).length, segmentEnd (log active.id),
      FrameScanner.lastIdOf none (log active.id), ⟨checkpointsOf (log active.id)⟩⟩ := by
    have hfind' := h.shaped.find h.shaped.mem
    rw [hreports, List.find?_map] at hfind
    simp only [Function.comp_def, hfind', Option.map_some, Option.some.injEq] at hfind
    exact hfind.symm
  have hstate : (survey d).state = st := by rw [hsurvey]
  have hindex : (survey d).segments.foldl (fun x seg => x.addSegment seg.id seg.index)
      EntryIndex.new = indexOf st log := by
    rw [foldl_addSegment (fun r : SegmentReport => r.id) (fun r => r.index), hreports, List.map_map]
    rfl
  refine ⟨storeOf cfg (survey d) active activeReport, hopen, rfl, hstate, hindex, ?_, rfl, rfl, ?_,
    ?_, ?_, ?_, rfl⟩
  · rw [storeOf, hsurvey]
    rfl
  · rw [storeOf, hreport]
    rfl
  · rw [storeOf, hreport]
  · rw [← h.sealsOk.lastId h.shaped, storeOf, hstate, hreport]
  · rw [storeOf, hstate]

/-- Opening a directory with nothing to recover. -/
theorem Clean.openStore {d : Dir} {es : List Entry} {st : StoreState}
    {log : SegmentId → List Entry} {active : SegmentEntry} (h : Clean d es st log active)
    (cfg : StoreCfg) :
    ∃ s, Store.openStore cfg (calm d) = .ok s (calm d) ∧ Running s d es log active ∧
      s.cfg = cfg ∧ s.state = st ∧ s.index = indexOf st log ∧ s.activeCursor.buf = ⟨[]⟩ ∧
      s.rolloverPending = false ∧ s.activeEntryCount = (log active.id).length ∧
      s.lastEntryId = (liveLog st log).getLast?.map (·.1) := by
  obtain ⟨s, hopen, ho⟩ := h.sound.openStore cfg
  obtain rfl := ho.state
  refine ⟨s, hopen, ⟨h.toKept, ho.manifestCursor, ho.activeId, ho.activeFirst, ?_, ?_, ?_,
    Or.inl ho.last⟩, ho.cfg, rfl, ho.index, ?_, ho.pending, ho.entryCount, ho.last⟩
  · rw [ho.activeCursor]
  · intro id hid
    rw [ho.next]
    exact lt_nextSegIdOf h.room id hid
  · intro hp
    rw [ho.pending] at hp
    cases hp
  · rw [ho.activeCursor]

end
end Woodshed
