import Woodshed.Index
import Woodshed.Manifest

/-! The scan of a store directory: the manifest, the list of files, every live segment, and the
issues found on the way. -/
namespace Woodshed
open Sequencing

def indexStride : ℕ := 64

/-! ### Issues -/

inductive FileRef where
  | directory
  | manifest
  | segment (id : SegmentId)
deriving DecidableEq, Repr

inductive Issue where
  | directoryNotFound
  | directoryNotReadable
  | manifestNotFound
  | manifestNotReadable
  | manifestChecksumCorrupt (offset : ℕ)
  | manifestEmpty
  | sealedSegmentMissing
  | sealedSegmentSizeMismatch (expected : UInt64) (actual : ℕ)
  | activeSegmentMissing
  | sealedSegmentChecksumCorrupt (corruptAt : ℕ)
  | deadSegmentNotFound
  | orphanSegmentFound
  | manifestTornTail (truncateTo : ℕ)
  | activeSegmentTornTail (truncateTo : ℕ)
deriving DecidableEq, Repr

structure FileIssue where
  file : FileRef
  issue : Issue
deriving DecidableEq, Repr

abbrev IssueReport := List FileIssue

/-! ### Reports -/

structure SegmentReport where
  id : SegmentId
  numEntries : ℕ
  writeOffset : ℕ
  lastEntryId : Option EntryId
  index : SegmentIndex
deriving DecidableEq, Repr

structure ScanReport where
  state : StoreState
  manifestNextOffset : ℕ
  segments : List SegmentReport
  issues : IssueReport

def emptyReport (issues : IssueReport) : ScanReport := ⟨StoreState.empty, 0, [], issues⟩

/-- A segment that could not be scanned, with the issue that stopped it. -/
def SegmentReport.empty (id : SegmentId) (issue : Issue) : SegmentReport × IssueReport :=
  (⟨id, 0, 0, none, SegmentIndex.new []⟩, [⟨.segment id, issue⟩])

def missingIssue (isSealed : Bool) : Issue :=
  if isSealed then .sealedSegmentMissing else .activeSegmentMissing

section
variable [Crates]

/-! ### Segments -/

/-- The report on a segment whose frames were scanned. -/
def segmentReport (id : SegmentId) (isSealed : Bool) (summary : ScanSummary) :
    SegmentReport × IssueReport :=
  let index := SegmentIndex.new summary.checkpoints
  match summary.status with
  | .clean => (⟨id, summary.count, summary.nextOffset, summary.lastId, index⟩, [])
  | .tornTail | .checksumCorrupt =>
    let issue := if isSealed then Issue.sealedSegmentChecksumCorrupt summary.nextOffset
      else .activeSegmentTornTail summary.nextOffset
    (⟨id, summary.count, 0, summary.lastId, index⟩, [⟨.segment id, issue⟩])

def scanSegmentFile (id : SegmentId) (isSealed : Bool) : Fs (SegmentReport × IssueReport) := do
  match ← attempt (openSegment id) with
  | .error _ => return SegmentReport.empty id (missingIssue isSealed)
  | .ok (file, offset) =>
    match FrameScanner.scanAll indexStride (FrameScanner.new file offset) with
    | .error _ _ => return SegmentReport.empty id (missingIssue isSealed)
    | .ok summary _ => return segmentReport id isSealed summary

/-- A sealed segment's size is compared first. -/
def scanSegment (id : SegmentId) (expectedLen : Option UInt64) :
    Fs (SegmentReport × IssueReport) := do
  match expectedLen with
  | none => scanSegmentFile id false
  | some expected =>
    match ← attempt (segmentSize id) with
    | .error _ => return SegmentReport.empty id .sealedSegmentMissing
    | .ok actual =>
      if UInt64.ofNat actual ≠ expected then
        return SegmentReport.empty id (.sealedSegmentSizeMismatch expected actual)
      else scanSegmentFile id true

/-! ### The directory -/

def findMissingDead (state : StoreState) (diskIds : List SegmentId) : IssueReport :=
  ((Crates.hashIter state.dead).filter (· ∉ diskIds)).map
    fun id => ⟨.segment id, .deadSegmentNotFound⟩

omit [Crates] in
def findOrphans (state : StoreState) (diskIds : List SegmentId) : IssueReport :=
  (diskIds.filter fun id => ¬ (state.lists id = true ∨ id ∈ state.dead)).map
    fun id => ⟨.segment id, .orphanSegmentFound⟩

/-- Phase 3: scan the segment files. -/
def scanSegments (replayed : ReplayResult) (issues : IssueReport) : Fs ScanReport := do
  match ← attempt collectSegmentIds with
  | .error e =>
    let issue := if e.kind = .notFound then Issue.directoryNotFound else .directoryNotReadable
    return emptyReport (issues ++ [⟨.directory, issue⟩])
  | .ok diskIds =>
    let state := replayed.state
    let reports ← state.segments.mapM fun seg =>
      scanSegment seg.id ((state.sealInfo seg.id).map (·.finalSize))
    return ⟨state, replayed.nextOffset, reports.map (·.1),
      issues ++ findOrphans state diskIds ++ findMissingDead state diskIds ++
        reports.flatMap (·.2)⟩

/-- Phase 2: replay the ops from a fresh handle. -/
def scanReplay (manifestOffset : ℕ) (issues : IssueReport) : Fs ScanReport := do
  match ← attempt openManifest with
  | .error _ => return emptyReport (issues ++ [⟨.manifest, .manifestNotReadable⟩])
  | .ok (manifestForReplay, _) =>
    match replay manifestForReplay manifestOffset with
    | .error (.invalidOp offset _) | .error (.applyFailed offset _) =>
      return emptyReport (issues ++ [⟨.manifest, .manifestChecksumCorrupt offset⟩])
    | .error (.io _) => return emptyReport (issues ++ [⟨.manifest, .manifestNotReadable⟩])
    | .ok replayed =>
      if replayed.state.isEmpty then
        return emptyReport (issues ++ [⟨.manifest, .manifestEmpty⟩])
      else scanSegments replayed issues

/-- `scan::scan`; phases 0 and 1 look for the directory and verify the manifest's checksums. -/
def scan : Fs ScanReport := do
  let w ← get
  if w.dir.present = false then return emptyReport [⟨.directory, .directoryNotFound⟩]
  else
    match ← attempt openManifest with
    | .error e =>
      let issue := if e.kind = .notFound then Issue.manifestNotFound else .manifestNotReadable
      return emptyReport [⟨.manifest, issue⟩]
    | .ok (manifestForScan, manifestOffset) =>
      match FrameScanner.scanAll 1 (FrameScanner.new manifestForScan manifestOffset) with
      | .error _ _ => return emptyReport [⟨.manifest, .manifestNotReadable⟩]
      | .ok summary _ =>
        match summary.status with
        | .tornTail =>
          scanReplay manifestOffset [⟨.manifest, .manifestTornTail summary.nextOffset⟩]
        | .checksumCorrupt =>
          return emptyReport [⟨.manifest, .manifestChecksumCorrupt summary.nextOffset⟩]
        | .clean => scanReplay manifestOffset []

end
end Woodshed
