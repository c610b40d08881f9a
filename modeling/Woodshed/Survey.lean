import Woodshed.FrameRead
import Woodshed.Scan

/-! What the scan reports on a directory, when no call fails, as a function of the bytes in it:
the frames greedy decoding finds in each file, and the state their ops replay to. -/
namespace Woodshed
open Sequencing Framing

/-- What is behind a file's magic number. -/
def behindMagic (magic bytes : Bytes) : Option Bytes :=
  if bytes.take magicLen = magic then some (bytes.drop magicLen) else none

theorem behindMagic_append (magic xs : Bytes) (h : magic.length = magicLen) :
    behindMagic magic (magic ++ xs) = some xs := by
  rw [behindMagic, List.take_left' h, if_pos rfl, List.drop_left' h]

theorem behindMagic_eq_some {magic bytes xs : Bytes} (h : behindMagic magic bytes = some xs) :
    bytes = magic ++ xs := by
  unfold behindMagic at h
  split at h
  · rename_i hm
    rw [← Option.some.inj h, ← hm, List.take_append_drop]
  · cases h

/-- A world in which no call of a scan fails. -/
structure World.Legible (w : World) : Prop where
  opens : w.faults.opens = []
  readDir : w.faults.calls .readDir = []
  stat : w.faults.calls (.stat .segment) = []

theorem legible_calm (d : Dir) : (calm d).Legible := ⟨rfl, rfl, rfl⟩

theorem call_quiet {w : World} {c : Call} (h : w.faults.calls c = []) : call c w = .ok () w := by
  unfold call
  rw [h]

theorem File.open_legible {w : World} (hq : w.Legible) (name : FileName) :
    File.open name w = match w.dir.bytes name with
      | none => .error notFound w
      | some bytes => .ok ⟨name, ⟨bytes, []⟩⟩ w := by
  unfold File.open
  rw [get_bind, hq.opens]
  cases w.dir.bytes name <;> rfl

/-- Opening a file and comparing its magic number. -/
theorem openWithMagic_legible {w : World} (hq : w.Legible) (name : FileName) (magic : Bytes)
    (hm : magic.length = magicLen) :
    (do
      let file ← File.open name
      let file ← checkMagic file magic
      return (file, magicLen)) w =
      match w.dir.bytes name with
      | none => .error notFound w
      | some bytes =>
        match behindMagic magic bytes with
        | none => .error (badMagic name) w
        | some xs => .ok (⟨name, ⟨xs, []⟩⟩, magicLen) w := by
  have hopen := File.open_legible hq name
  cases hb : w.dir.bytes name with
  | none =>
    rw [hb] at hopen
    rw [bind_error hopen]
  | some bytes =>
    rw [hb] at hopen
    rw [bind_ok hopen]
    unfold checkMagic behindMagic
    by_cases hlen : magicLen ≤ bytes.length
    · rw [Stream.readExact_quiet magicLen bytes hlen]
      by_cases heq : bytes.take magicLen = magic
      · simp only [heq, ne_eq, not_true_eq_false, if_false, if_true]
        rfl
      · simp only [heq, ne_eq, not_false_eq_true, if_true, if_false]
        rfl
    · -- a file shorter than a magic number has a bad one
      rw [Stream.readExact_short magicLen bytes (by omega)]
      have hne : bytes.take magicLen ≠ magic := by
        intro heq
        have := congrArg List.length heq
        rw [List.length_take, hm] at this
        omega
      simp only [hne, if_false]
      rfl

theorem openManifest_legible {w : World} (hq : w.Legible) :
    openManifest w = match w.dir.bytes manifestFileName with
      | none => .error notFound w
      | some bytes =>
        match behindMagic manifestMagic bytes with
        | none => .error (badMagic manifestFileName) w
        | some xs => .ok (⟨manifestFileName, ⟨xs, []⟩⟩, magicLen) w :=
  openWithMagic_legible hq manifestFileName manifestMagic rfl

theorem openSegment_legible {w : World} (hq : w.Legible) (id : SegmentId) :
    openSegment id w = match w.dir.bytes (segmentPath id) with
      | none => .error notFound w
      | some bytes =>
        match behindMagic segmentMagic bytes with
        | none => .error (badMagic (segmentPath id)) w
        | some xs => .ok (⟨segmentPath id, ⟨xs, []⟩⟩, magicLen) w :=
  openWithMagic_legible hq (segmentPath id) segmentMagic rfl

theorem openManifest_calm (d : Dir) :
    openManifest (calm d) = match d.bytes manifestFileName with
      | none => .error notFound (calm d)
      | some bytes =>
        match behindMagic manifestMagic bytes with
        | none => .error (badMagic manifestFileName) (calm d)
        | some xs => .ok (⟨manifestFileName, ⟨xs, []⟩⟩, magicLen) (calm d) :=
  openManifest_legible (legible_calm d)

theorem openSegment_calm (d : Dir) (id : SegmentId) :
    openSegment id (calm d) = match d.bytes (segmentPath id) with
      | none => .error notFound (calm d)
      | some bytes =>
        match behindMagic segmentMagic bytes with
        | none => .error (badMagic (segmentPath id)) (calm d)
        | some xs => .ok (⟨segmentPath id, ⟨xs, []⟩⟩, magicLen) (calm d) :=
  openSegment_legible (legible_calm d) id

theorem segmentSize_legible {w : World} (hq : w.Legible) (id : SegmentId) :
    segmentSize id w = match w.dir.bytes (segmentPath id) with
      | none => .error notFound w
      | some bytes => .ok bytes.length w := by
  unfold segmentSize File.len
  rw [bind_ok (call_quiet hq.stat), get_bind]
  cases w.dir.bytes (segmentPath id) <;> rfl

/-- The ids of the segment files of a directory, in order. -/
def diskIds (d : Dir) : List SegmentId :=
  (d.files.keys.filterMap parseSegmentPath).insertionSort (· ≤ ·)

theorem mem_diskIds (d : Dir) (id : SegmentId) :
    id ∈ diskIds d ↔ ∃ name ∈ d.files, parseSegmentPath name = some id := by
  simp [diskIds, List.mem_filterMap, AList.mem_keys]

theorem collectSegmentIds_legible {w : World} (hq : w.Legible) (h : w.dir.present = true) :
    collectSegmentIds w = .ok (diskIds w.dir) w := by
  unfold collectSegmentIds
  rw [bind_ok (call_quiet hq.readDir), get_bind]
  rw [if_neg (by rw [h]; decide)]
  rfl

section
variable [Crates]

/-! ### Segments -/

/-- The summary of the frames behind a magic number. -/
def summaryOf (stride : ℕ) (xs : Bytes) : ScanSummary :=
  let D := frames.decode xs
  ⟨D.items.length, FrameScanner.checkpointsFrom stride 0 magicLen D.items,
    FrameScanner.lastIdOf none D.items, magicLen+(frames.encodeAll D.items).length,
    FrameScanner.statusOf D.stop⟩

def surveySegment (d : Dir) (id : SegmentId) (expectedLen : Option UInt64) :
    SegmentReport × IssueReport :=
  let isSealed := expectedLen.isSome
  match d.bytes (segmentPath id) with
  | none => SegmentReport.empty id (missingIssue isSealed)
  | some bytes =>
    match expectedLen.filter (UInt64.ofNat bytes.length ≠ ·) with
    | some expected => SegmentReport.empty id (.sealedSegmentSizeMismatch expected bytes.length)
    | none =>
      match behindMagic segmentMagic bytes with
      | none => SegmentReport.empty id (missingIssue isSealed)
      | some xs => segmentReport id isSealed (summaryOf indexStride xs)

theorem scanSegmentFile_legible {w : World} (hq : w.Legible) (id : SegmentId) (isSealed : Bool) :
    scanSegmentFile id isSealed w =
      .ok (match (w.dir.bytes (segmentPath id)).bind (behindMagic segmentMagic) with
        | none => SegmentReport.empty id (missingIssue isSealed)
        | some xs => segmentReport id isSealed (summaryOf indexStride xs)) w := by
  have hopen := openSegment_legible hq id
  unfold scanSegmentFile
  cases hb : w.dir.bytes (segmentPath id) with
  | none =>
    rw [hb] at hopen
    rw [bind_ok (attempt_error hopen)]
    rfl
  | some bytes =>
    rw [hb] at hopen
    dsimp only [Option.bind_some] at hopen ⊢
    cases hx : behindMagic segmentMagic bytes with
    | none =>
      rw [hx] at hopen
      rw [bind_ok (attempt_error hopen)]
      rfl
    | some xs =>
      rw [hx] at hopen
      rw [bind_ok (attempt_ok hopen)]
      obtain ⟨s, hs⟩ := FrameScanner.scanAll_facing indexStride xs magicLen
      have hnew : FrameScanner.new ⟨segmentPath id, ⟨xs, []⟩⟩ magicLen =
          FrameScanner.facing xs magicLen := rfl
      simp only [hnew, hs]
      rfl

theorem scanSegment_legible {w : World} (hq : w.Legible) (id : SegmentId)
    (expectedLen : Option UInt64) :
    scanSegment id expectedLen w = .ok (surveySegment w.dir id expectedLen) w := by
  unfold scanSegment surveySegment
  cases expectedLen with
  | none =>
    dsimp only
    rw [scanSegmentFile_legible hq]
    cases w.dir.bytes (segmentPath id) with
    | none => rfl
    | some bytes =>
      dsimp only [Option.bind_some, Option.filter_none]
      cases behindMagic segmentMagic bytes <;> rfl
  | some expected =>
    have hsize := segmentSize_legible hq id
    dsimp only
    cases hb : w.dir.bytes (segmentPath id) with
    | none =>
      rw [hb] at hsize
      rw [bind_ok (attempt_error hsize)]
      rfl
    | some bytes =>
      rw [hb] at hsize
      rw [bind_ok (attempt_ok hsize)]
      by_cases hne : UInt64.ofNat bytes.length ≠ expected
      · have hf : (some expected).filter (fun x => UInt64.ofNat bytes.length ≠ x) =
            some expected := by simp [Option.filter, hne]
        simp only [if_pos hne, hf]
        rfl
      · have hf : (some expected).filter (fun x => UInt64.ofNat bytes.length ≠ x) = none := by
          simpa [Option.filter] using hne
        simp only [if_neg hne, hf]
        rw [scanSegmentFile_legible hq, hb]
        dsimp only [Option.bind_some]
        cases behindMagic segmentMagic bytes <;> rfl

/-! ### The manifest -/

/-- The replay of the bytes behind the manifest's magic number: all whole frames, provided that
less than a header follows them. -/
def surveyReplay (xs : Bytes) : Except ReplayError ReplayResult :=
  let D := frames.decode xs
  match replayEntries StoreState.empty magicLen D.items with
  | .error e => .error e
  | .ok state =>
    if D.rest.length < headerLen then .ok ⟨state, magicLen+(frames.encodeAll D.items).length⟩
    else .error (.io ⟨.unexpectedEof, "unexpected end of file"⟩)

/-- The issue a torn tail of the manifest makes. -/
def tornManifest (D : Decoded Entry UInt8) : IssueReport :=
  if D.stop = .torn then
    [⟨.manifest, .manifestTornTail (magicLen+(frames.encodeAll D.items).length)⟩]
  else []

def surveySegments (d : Dir) (state : StoreState) : List (SegmentReport × IssueReport) :=
  state.segments.map fun seg => surveySegment d seg.id ((state.sealInfo seg.id).map (·.finalSize))

/-- The report on a directory whose manifest replays to `replayed`. -/
def surveyState (d : Dir) (replayed : ReplayResult) (issues : IssueReport) : ScanReport :=
  ⟨replayed.state, replayed.nextOffset, (surveySegments d replayed.state).map (·.1),
    issues ++ findOrphans replayed.state (diskIds d) ++ findMissingDead replayed.state (diskIds d) ++
      (surveySegments d replayed.state).flatMap (·.2)⟩

def surveyManifest (d : Dir) (xs : Bytes) : ScanReport :=
  let D := frames.decode xs
  if D.stop = .corrupt then
    emptyReport [⟨.manifest, .manifestChecksumCorrupt (magicLen+(frames.encodeAll D.items).length)⟩]
  else
    match surveyReplay xs with
    | .error (.invalidOp offset _) | .error (.applyFailed offset _) =>
      emptyReport (tornManifest D ++ [⟨.manifest, .manifestChecksumCorrupt offset⟩])
    | .error (.io _) => emptyReport (tornManifest D ++ [⟨.manifest, .manifestNotReadable⟩])
    | .ok replayed =>
      if replayed.state.isEmpty then emptyReport (tornManifest D ++ [⟨.manifest, .manifestEmpty⟩])
      else surveyState d replayed (tornManifest D)

/-- The report on a directory. -/
def survey (d : Dir) : ScanReport :=
  if d.present = false then emptyReport [⟨.directory, .directoryNotFound⟩]
  else
    match d.bytes manifestFileName with
    | none => emptyReport [⟨.manifest, .manifestNotFound⟩]
    | some bytes =>
      match behindMagic manifestMagic bytes with
      | none => emptyReport [⟨.manifest, .manifestNotReadable⟩]
      | some xs => surveyManifest d xs

theorem scanSegments_legible {w : World} (hq : w.Legible) (replayed : ReplayResult)
    (issues : IssueReport) (h : w.dir.present = true) :
    scanSegments replayed issues w = .ok (surveyState w.dir replayed issues) w := by
  unfold scanSegments
  rw [bind_ok (attempt_ok (collectSegmentIds_legible hq h))]
  dsimp only
  rw [bind_ok (mapM_ok _ (fun seg : SegmentEntry =>
    surveySegment w.dir seg.id ((replayed.state.sealInfo seg.id).map (·.finalSize))) w _
    (fun seg _ => scanSegment_legible hq seg.id _))]
  rfl

/-- The two passes over the manifest agree on the whole frames; only the replay minds a header
whose payload is cut short. -/
theorem replay_calm (xs : Bytes) (hstop : (frames.decode xs).stop ≠ .corrupt) :
    replay ⟨manifestFileName, ⟨xs, []⟩⟩ magicLen = surveyReplay xs ∨
      ∃ e e', replay ⟨manifestFileName, ⟨xs, []⟩⟩ magicLen = .error (.io e) ∧
        surveyReplay xs = .error (.io e') := by
  obtain ⟨hsplit, hfits, hhead⟩ := frames.decode_sound xs
  set D := frames.decode xs with hD
  have hnew : replay ⟨manifestFileName, ⟨xs, []⟩⟩ magicLen =
      replayLoop (FrameScanner.facing (frames.encodeAll D.items ++ D.rest) magicLen)
        StoreState.empty magicLen := by
    rw [← hsplit]
    rfl
  unfold surveyReplay
  rw [hnew, ← hD]
  by_cases hshort : D.rest.length < headerLen
  · left
    rw [replayLoop_entries D.items D.rest magicLen StoreState.empty hfits hshort]
    dsimp only
    cases replayEntries StoreState.empty magicLen D.items with
    | error e => rfl
    | ok state => simp only [if_pos hshort]; rfl
  · have htorn : frameHead D.rest = .torn := by
      cases hs : D.stop with
      | clean =>
        rw [hs] at hhead
        have hnil : D.rest = [] := hhead
        rw [hnil] at hshort
        exact absurd (by decide) hshort
      | torn =>
        rw [hs] at hhead
        exact hhead
      | corrupt => exact absurd hs hstop
    dsimp only
    cases hr : replayEntries StoreState.empty magicLen D.items with
    | ok state =>
      right
      obtain ⟨e, he⟩ := replayLoop_tornPayload D.items D.rest magicLen StoreState.empty hfits
        (by omega) htorn ⟨state, hr⟩
      exact ⟨e, ⟨.unexpectedEof, "unexpected end of file"⟩, he, if_neg hshort⟩
    | error e =>
      left
      exact replayLoop_failed D.items D.rest magicLen StoreState.empty hfits hr

theorem scanReplay_legible {w : World} (hq : w.Legible) (xs bytes : Bytes) (issues : IssueReport)
    (h : w.dir.present = true) (hb : w.dir.bytes manifestFileName = some bytes)
    (hx : behindMagic manifestMagic bytes = some xs) (hstop : (frames.decode xs).stop ≠ .corrupt) :
    scanReplay magicLen issues w =
      .ok (match surveyReplay xs with
        | .error (.invalidOp offset _) | .error (.applyFailed offset _) =>
          emptyReport (issues ++ [⟨.manifest, .manifestChecksumCorrupt offset⟩])
        | .error (.io _) => emptyReport (issues ++ [⟨.manifest, .manifestNotReadable⟩])
        | .ok replayed =>
          if replayed.state.isEmpty then emptyReport (issues ++ [⟨.manifest, .manifestEmpty⟩])
          else surveyState w.dir replayed issues) w := by
  have hopen := openManifest_legible hq
  simp only [hb, hx] at hopen
  unfold scanReplay
  rw [bind_ok (attempt_ok hopen)]
  dsimp only
  rcases replay_calm xs hstop with heq | ⟨e, e', heq, hs⟩
  · rw [heq]
    cases surveyReplay xs with
    | error x => cases x <;> rfl
    | ok replayed =>
      dsimp only
      by_cases hempty : replayed.state.isEmpty = true
      · simp only [if_pos hempty]
        rfl
      · simp only [if_neg hempty]
        exact scanSegments_legible hq replayed issues h
  · rw [heq, hs]
    rfl

/-- The scan of a directory on which no call of it fails. -/
theorem scan_legible {w : World} (hq : w.Legible) : scan w = .ok (survey w.dir) w := by
  unfold scan survey
  rw [get_bind]
  by_cases hp : w.dir.present = false
  · simp only [if_pos hp]
    rfl
  · simp only [if_neg hp]
    have hp' : w.dir.present = true := by simpa using hp
    have hopen := openManifest_legible hq
    cases hb : w.dir.bytes manifestFileName with
    | none =>
      rw [hb] at hopen
      rw [bind_ok (attempt_error hopen)]
      rfl
    | some bytes =>
      rw [hb] at hopen
      dsimp only at hopen ⊢
      cases hx : behindMagic manifestMagic bytes with
      | none =>
        rw [hx] at hopen
        rw [bind_ok (attempt_error hopen)]
        rfl
      | some xs =>
        rw [hx] at hopen
        rw [bind_ok (attempt_ok hopen)]
        obtain ⟨s, hs⟩ := FrameScanner.scanAll_facing 1 xs magicLen
        have hnew : FrameScanner.new ⟨manifestFileName, ⟨xs, []⟩⟩ magicLen =
            FrameScanner.facing xs magicLen := rfl
        simp only [hnew, hs]
        unfold surveyManifest
        dsimp only
        cases hstop : (frames.decode xs).stop with
        | corrupt =>
          simp only [FrameScanner.statusOf]
          rw [if_pos trivial]
          rfl
        | clean =>
          simp only [FrameScanner.statusOf]
          have ht : tornManifest (frames.decode xs) = [] := by
            rw [tornManifest, if_neg (by rw [hstop]; decide)]
          rw [scanReplay_legible hq xs bytes [] hp' hb hx (by rw [hstop]; decide), ht,
            if_neg (by decide)]
        | torn =>
          simp only [FrameScanner.statusOf]
          have ht : tornManifest (frames.decode xs) = [⟨.manifest,
              .manifestTornTail (magicLen+(frames.encodeAll (frames.decode xs).items).length)⟩] := by
            rw [tornManifest, if_pos hstop]
          rw [scanReplay_legible hq xs bytes _ hp' hb hx (by rw [hstop]; decide), ht,
            if_neg (by decide)]

theorem scan_calm (d : Dir) : scan (calm d) = .ok (survey d) (calm d) :=
  scan_legible (legible_calm d)

end
end Woodshed
