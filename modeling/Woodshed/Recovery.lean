import Woodshed.Scan

/-! Recovery: every issue is turned into a fix-up or refused, and the fix-ups are applied in the
order of their phases. -/
namespace Woodshed
open Sequencing

inductive RecoveryError where
  | notPossible
  | approvalRequired
  | remainingIssues (issues : IssueReport)
  | ioError (e : IoError)
deriving DecidableEq, Repr

abbrev Recovering := EStateM RecoveryError World

def onDisk {α : Type} (m : Fs α) : Recovering α := onPart (fun w => w) (fun w _ => w) .ioError m

inductive FixUpPhase where
  | manifestFileClean
  | manifestAppends
  | segmentFileClean
deriving DecidableEq, Repr

/-- The derived order of the phases. -/
def FixUpPhase.rank : FixUpPhase → ℕ
  | .manifestFileClean => 0
  | .manifestAppends => 1
  | .segmentFileClean => 2

inductive FixUpAction where
  | orphanFound (id : SegmentId)
  | deadSegmentMissing (id : SegmentId)
  | truncateManifest (offset : ℕ)
  | truncateSegment (id : SegmentId) (offset : ℕ)
  | createActiveSegment (id : SegmentId)
deriving DecidableEq, Repr

structure FixUp where
  phase : FixUpPhase
  approvalRequired : Bool
  action : FixUpAction
deriving DecidableEq, Repr

def segmentOf (issue : FileIssue) : Option SegmentId :=
  match issue.file with
  | .segment id => some id
  | _ => none

def auto (phase : FixUpPhase) (action : FixUpAction) : Option FixUp := some ⟨phase, false, action⟩

def approval (phase : FixUpPhase) (action : FixUpAction) : Option FixUp := some ⟨phase, true, action⟩

def createFixUp (issue : FileIssue) : Option FixUp :=
  match issue.issue with
  | .directoryNotFound => none
  | .directoryNotReadable => none
  | .manifestNotFound => none
  | .manifestNotReadable => none
  | .manifestChecksumCorrupt _ => none
  | .manifestEmpty => none
  | .sealedSegmentMissing => none
  | .sealedSegmentSizeMismatch _ _ => none
  | .activeSegmentMissing =>
    (segmentOf issue).bind fun id => approval .segmentFileClean (.createActiveSegment id)
  | .sealedSegmentChecksumCorrupt corruptAt =>
    (segmentOf issue).bind fun id => approval .segmentFileClean (.truncateSegment id corruptAt)
  | .deadSegmentNotFound =>
    (segmentOf issue).bind fun id => auto .manifestAppends (.deadSegmentMissing id)
  | .orphanSegmentFound =>
    (segmentOf issue).bind fun id => auto .manifestAppends (.orphanFound id)
  | .manifestTornTail truncateTo => auto .manifestFileClean (.truncateManifest truncateTo)
  | .activeSegmentTornTail truncateTo =>
    (segmentOf issue).bind fun id => auto .segmentFileClean (.truncateSegment id truncateTo)

/-- The loop that turns issues into fix-ups; it stops at the first issue that cannot be fixed or
that needs an approval not given. -/
def collectFixUps (approved : Bool) : IssueReport → Except RecoveryError (List FixUp)
  | [] => .ok []
  | issue :: rest =>
    match createFixUp issue with
    | none => .error .notPossible
    | some fixUp =>
      if fixUp.approvalRequired && !approved then .error .approvalRequired
      else (collectFixUps approved rest).map (fixUp :: ·)

/-- The stable sort by phase. -/
def sortFixUps (fixUps : List FixUp) : List FixUp :=
  fixUps.insertionSort fun a b => a.phase.rank ≤ b.phase.rank

section
variable [Crates]

def appendManifestOp (op : Op) : Recovering Unit := onDisk do
  let (file, _) ← openManifest
  let offset ← File.len file.name .manifest
  let _ ← writeOp (FrameCursor.new offset) (ManifestOp.bare op)
  return ()

omit [Crates] in
def truncateManifest (offset : ℕ) : Recovering Unit := onDisk do
  let (file, _) ← openManifest
  File.setLen file.name .manifest offset
  File.syncAll file.name .manifest

omit [Crates] in
def truncateSegment (id : SegmentId) (offset : ℕ) : Recovering Unit := onDisk do
  let (file, _) ← openSegment id
  File.setLen file.name .segment offset
  File.syncAll file.name .segment

omit [Crates] in
def createActiveSegment (id : SegmentId) : Recovering Unit := onDisk do
  let _ ← createSegment id
  return ()

/-- `FixUpAction::apply`. -/
def FixUpAction.apply : FixUpAction → Recovering Unit
  | .truncateManifest offset => Woodshed.truncateManifest offset
  | .truncateSegment id offset => Woodshed.truncateSegment id offset
  | .createActiveSegment id => Woodshed.createActiveSegment id
  | .deadSegmentMissing id => appendManifestOp (.segmentDeleted id)
  | .orphanFound id => appendManifestOp (.recordOrphan id)

def applyFixUps (fixUps : List FixUp) : Recovering Unit :=
  forM fixUps fun fixUp => fixUp.action.apply

def attemptRecovery (report : ScanReport) (approved : Bool) : Recovering Unit := do
  match collectFixUps approved report.issues with
  | .error e => throw e
  | .ok fixUps => applyFixUps (sortFixUps fixUps)

end
end Woodshed
