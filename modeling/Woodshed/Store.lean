import Woodshed.Recovery

/-! The store: opening, writing, truncating, cleaning up and reading, as in a release build: additions on
segment ids wrap, where a debug build panics. -/
namespace Woodshed
open Sequencing PartitionPoint

structure Store where
  cfg : StoreCfg
  state : StoreState
  index : EntryIndex
  manifestCursor : FrameCursor
  /-- The segments with an open write handle. -/
  segments : Finset SegmentId
  activeId : SegmentId
  activeCursor : FrameCursor
  /-- First entry id of the active segment (from the manifest). -/
  activeFirstEntry : EntryId
  activeEntryCount : ℕ
  /-- Id of the last frame written across all segments. -/
  lastEntryId : Option EntryId
  nextSegId : SegmentId
  /-- The active segment is over the threshold; the next non-empty batch rolls it over. -/
  rolloverPending : Bool

inductive OpenError where
  | approvedRecoveredRequired (issues : IssueReport)
  | recoveryNotPossible (issues : IssueReport)
  | recoveryFailed (e : RecoveryError)
deriving DecidableEq, Repr

/-- A store in use, with the world it runs in. -/
structure Machine where
  store : Store
  world : World

abbrev StoreM := EStateM (Failure IoError) Machine
abbrev OpenM := EStateM (Failure OpenError) World

def fs {α : Type} (m : Fs α) : StoreM α :=
  onPart Machine.world (fun w x => { x with world := w }) .err m

/-- `n + 1` on a `u32`, which wraps. -/
def SegmentId.succ (id : SegmentId) : SegmentId := ⟨id.val+1⟩

section
variable [Crates]

/-! ### Open -/

def Store.nextSegIdOf (state : StoreState) : SegmentId :=
  let ids := state.segments.map (·.id) ++ Crates.hashIter state.dead
  (ids.foldl max ⟨0⟩).succ

def fromScanReport (cfg : StoreCfg) (report : ScanReport) : OpenM Store := do
  if report.issues ≠ [] then throw (.err (.recoveryNotPossible report.issues))
  else
    match report.state.activeSegment with
    | none => throw (.panic "no issues guarantees a non-empty state with an active segment")
    | some active =>
      match report.segments.find? (·.id = active.id) with
      | none => throw (.panic "scan produces a report for every segment in state")
      | some activeReport =>
        -- prefer the active segment's last frame, fall back to the last sealed segment
        let lastEntryId := activeReport.lastEntryId.or
          ((report.state.segments.reverse.drop 1).findSome? fun seg =>
            (report.state.sealInfo seg.id).map (·.lastEntry))
        let index := report.segments.foldl (fun x seg => x.addSegment seg.id seg.index)
          EntryIndex.new
        match ← attempt openManifest with
        | .error _ => throw (.panic "manifest open failed after clean scan")
        | .ok _ =>
          return {
            cfg := cfg
            state := report.state
            index := index
            manifestCursor := FrameCursor.new report.manifestNextOffset
            segments := ∅
            activeId := active.id
            activeCursor := FrameCursor.new activeReport.writeOffset
            activeFirstEntry := active.firstEntry
            activeEntryCount := activeReport.numEntries
            lastEntryId := lastEntryId
            nextSegId := Store.nextSegIdOf report.state
            rolloverPending := false }

def openErrorOf (issues : IssueReport) : RecoveryError → OpenError
  | .notPossible => .recoveryNotPossible issues
  | .approvalRequired => .approvedRecoveredRequired issues
  | e => .recoveryFailed e

/-- After recovery, what remains is reported as a failed recovery. -/
def remainingOf : Failure OpenError → Failure OpenError
  | .err (.recoveryNotPossible issues) => .err (.recoveryFailed (.remainingIssues issues))
  | e => e

def onScan {α : Type} (m : Fs α) : OpenM α :=
  onPart (fun w => w) (fun w _ => w) (fun e => .err (.recoveryFailed (.ioError e))) m

/-- `Store::open`. -/
def Store.openStore (cfg : StoreCfg) : OpenM Store := do
  let report ← onScan scan
  if report.issues = [] then fromScanReport cfg report
  else
    onPart (fun w => w) (fun w _ => w) (fun e => .err (openErrorOf report.issues e))
      (attemptRecovery report false)
    let report ← onScan scan
    onPart (fun w => w) (fun w _ => w) remainingOf (fromScanReport cfg report)

def createStore : Fs Unit := do
  let (_, offset) ← createManifest
  let segId : SegmentId := ⟨1⟩
  let _ ← createSegment segId
  let entry := ManifestOp.bare (.createSegment segId ⟨0⟩)
  let _ ← ((FrameCursor.new offset).write ⟨0⟩ entry.encode).flush manifestFileName .manifest
  return ()

def Store.openOrCreate (cfg : StoreCfg) : OpenM Store := do
  if ← onScan manifestExists then Store.openStore cfg
  else
    onScan createStore
    Store.openStore cfg

def Store.recover : Recovering Unit := do
  let report ← onDisk scan
  attemptRecovery report true

end

def Store.firstEntryId (s : Store) : EntryId := s.state.firstEntry

/-- `last_entry_id()`: nothing where all entries are before the head. -/
def Store.lastEntry (s : Store) : Option EntryId :=
  s.lastEntryId.bind fun last => if last < s.state.firstEntry then none else some last

section
variable [Crates]

/-! ### Manifest appends -/

def Store.setManifestCursor (c : FrameCursor) : StoreM Unit :=
  modify fun m => { m with store := { m.store with manifestCursor := c } }

/-- `self.state.apply(op).expect(..)` -/
def Store.applyExpect (op : ManifestOp) (expectation : String) : StoreM Unit := fun m =>
  match StoreState.apply op m.store.state with
  | .ok _ state => .ok () { m with store := { m.store with state := state } }
  | .error _ state =>
    .error (.panic expectation) { m with store := { m.store with state := state } }

/-- The four lines every recorded change of the state goes through: buffer the op's frame, flush
it, sync the manifest, apply the op. A failed flush leaves the frame in the cursor's buffer. -/
def Store.appendOp (op : ManifestOp) (expectation : String) : StoreM Unit := do
  let m ← get
  Store.setManifestCursor (m.store.manifestCursor.write ⟨0⟩ op.encode)
  let m ← get
  let cursor ← fs (m.store.manifestCursor.flush manifestFileName .manifest)
  Store.setManifestCursor cursor
  fs (File.syncAll manifestFileName .manifest)
  Store.applyExpect op expectation

/-! ### Writing -/

def Store.doRollover (newFirstEntry : EntryId) : StoreM Unit := do
  let m ← get
  let sealedId := m.store.activeId
  let finalSize := UInt64.ofNat m.store.activeCursor.position
  let firstEntry := m.store.activeFirstEntry
  let lastEntry := m.store.lastEntryId.getD firstEntry
  let entryCount := UInt32.ofNat m.store.activeEntryCount
  let newId := m.store.nextSegId
  let _ ← fs (createSegment newId)
  Store.appendOp (ManifestOp.bare (.rollSegment sealedId firstEntry lastEntry entryCount finalSize
    newId newFirstEntry)) "rollover op must be valid against current state"
  modify fun m => { m with store := { m.store with
    nextSegId := newId.succ
    activeId := newId
    -- buffered bytes remain
    activeCursor := m.store.activeCursor.setPosition magicLen
    activeFirstEntry := newFirstEntry
    activeEntryCount := 0 } }

structure StoreWriter where
  firstId : Option EntryId
  lastId : Option EntryId
  count : ℕ
deriving DecidableEq, Repr

def Store.writer : StoreWriter := ⟨none, none, 0⟩

/-- `push`: the frame goes straight into the store's buffer. -/
def StoreWriter.push (w : StoreWriter) (e : Entry) : StoreM StoreWriter := do
  modify fun m => { m with store := { m.store with
    activeCursor := m.store.activeCursor.write e.1 e.2 } }
  return { firstId := w.firstId.or (some e.1), lastId := some e.1, count := w.count+1 }

/-- A pending sync of the segment written to. -/
abbrev Commit := Option SegmentId

omit [Crates] in
def Commit.sync (c : Commit) : StoreM Unit :=
  match c with
  | none => return ()
  | some id => fs (File.syncAll (segmentPath id) .segment)

omit [Crates] in
/-- Open the write handle of the active segment unless it is open. -/
def Store.openActive : StoreM Unit := do
  let m ← get
  if m.store.activeId ∈ m.store.segments then return ()
  else
    let _ ← fs (openSegment m.store.activeId)
    modify fun m => { m with store := { m.store with
      segments := insert m.store.activeId m.store.segments } }

omit [Crates] in
/-- Flush the buffer to the active segment; a failed flush leaves the buffer as it is. -/
def Store.flushActive : StoreM Unit := do
  let m ← get
  let cursor ← fs (m.store.activeCursor.flush (segmentPath m.store.activeId) .segment)
  modify fun m => { m with store := { m.store with activeCursor := cursor } }

def StoreWriter.write (w : StoreWriter) : StoreM Commit := do
  match w.firstId, w.lastId with
  | some first, some last =>
    let m ← get
    if m.store.rolloverPending then
      Store.doRollover first
      modify fun m => { m with store := { m.store with rolloverPending := false } }
    Store.openActive
    Store.flushActive
    modify fun m => { m with store := { m.store with
      lastEntryId := some last
      activeEntryCount := m.store.activeEntryCount+w.count
      rolloverPending := m.store.rolloverPending ||
        decide (m.store.activeCursor.position > m.store.cfg.segmentRolloverTriggerBytes) } }
    let m ← get
    return some m.store.activeId
  -- no push: `count` is zero
  | _, _ => return none

/-- A writer that pushes a list of entries. -/
def Store.pushAll (es : List Entry) : StoreM StoreWriter :=
  es.foldlM StoreWriter.push Store.writer

/-! ### Truncation -/

def Store.truncateStart (firstEntry : EntryId) (metaPairs : Meta) : StoreM Unit := do
  let m ← get
  let state := m.store.state
  if firstEntry < state.firstEntry then
    throw (.err ⟨.invalidInput, "truncate_start: first_entry is before the current log head"⟩)
  else
    let toEvict := (state.segments.filter fun seg =>
      (state.sealInfo seg.id).any fun info => decide (info.lastEntry < firstEntry)).map (·.id)
    Store.appendOp (ManifestOp.withMeta (.truncateStart firstEntry toEvict) metaPairs)
      "truncate_start was pre-validated"
    modify fun m => { m with store := { m.store with
      segments := m.store.segments \ toEvict.toFinset
      index := m.store.index.truncateStart firstEntry } }

omit [Crates] in
/-- `scan_to_after` on a handle opened for it; its error becomes invalid data. -/
def scanTo (file : File) (startOffset : ℕ) (lastValid : EntryId) : StoreM ℕ :=
  match FrameScanner.scanToAfter lastValid (FrameScanner.new file startOffset) with
  | .ok byteOffset _ => return byteOffset
  | .error e _ => throw (.err ⟨.invalidData, e.toString⟩)

omit [Crates] in
/-- The segment `truncate_end` cuts, and the ones behind it. -/
def truncateTarget (segs : List SegmentEntry) (lastValid : EntryId) :
    Option (SegmentId × List SegmentId) :=
  let p := partitionPoint (fun s => decide (s.firstEntry ≤ lastValid)) segs
  (segs[p-1]?).map fun target => (target.id, (segs.drop (p-1+1)).map (·.id))

omit [Crates] in
/-- Where `truncate_end` believes it starts to scan. -/
def startOffset (index : EntryIndex) (lastValid : EntryId) (targetId : SegmentId) : ℕ :=
  match index.find lastValid with
  | some pos => if pos.segment = targetId then pos.byteOffset else magicLen
  | none => magicLen

def Store.truncateEnd (lastValid : EntryId) : StoreM Unit := do
  let m ← get
  if m.store.lastEntryId.all (fun last => decide (last ≤ lastValid)) then return ()
  else
    match truncateTarget m.store.state.segments lastValid with
    | none => throw (.panic "index out of bounds")
    | some (targetId, toDrop) =>
      let (segFile, _) ← fs (openSegment targetId)
      let byteOffset ← scanTo segFile (startOffset m.store.index lastValid targetId) lastValid
      let (rwFile, _) ← fs (openSegment targetId)
      fs (File.setLen rwFile.name .segment byteOffset)
      fs (File.syncAll rwFile.name .segment)
      Store.appendOp (ManifestOp.bare (.truncateEnd targetId (UInt64.ofNat byteOffset) toDrop))
        "truncate_end op was pre-validated"
      modify fun m => { m with store := { m.store with
        segments := (m.store.segments \ toDrop.toFinset).erase targetId
        activeId := targetId
        activeCursor := FrameCursor.new byteOffset
        lastEntryId := some lastValid
        rolloverPending := false
        index := m.store.index.truncateEnd lastValid
        activeFirstEntry := match m.store.state.sealInfo targetId with
          | some info => info.firstEntry
          | none => ((m.store.state.segments.find? (·.id = targetId)).map (·.firstEntry)).getD ⟨0⟩
        activeEntryCount := 0 } }

/-! ### Cleanup and metadata -/

def Store.deleteDead (id : SegmentId) : StoreM Unit := do
  fs (deleteSegment id)
  Store.appendOp (ManifestOp.bare (.segmentDeleted id))
    "SegmentDeleted on a dead segment must be valid"

def Store.deleteDeadSegments : StoreM ℕ := do
  let m ← get
  let dead := Crates.hashIter m.store.state.dead
  forM dead Store.deleteDead
  return dead.length

def Store.writeMetadata (pairs : Meta) : StoreM Unit :=
  Store.appendOp (ManifestOp.withMeta .metadata pairs) "NoOp must always be valid"

end

/-! ### Reading -/

/-- An iterator over entries; the machine it runs on is the store it borrows. -/
structure StoreReader where
  scanner : Option (SegmentId × FrameScanner)

def Store.scanStart (s : Store) (fromId : EntryId) : Option (SegmentId × ℕ) :=
  match s.index.find fromId with
  | some pos => some (pos.segment, pos.byteOffset)
  | none => s.state.segments.head?.map fun seg => (seg.id, magicLen)

/-- Open the segment to start from and seek; any failure leaves a reader that yields nothing. -/
def openAt (segId : SegmentId) (byteOffset : ℕ) (fromId : EntryId) : Fs StoreReader := do
  match ← attempt (openSegment segId) with
  | .error _ => return ⟨none⟩
  | .ok (file, _) =>
    match FrameScanner.seekToId fromId (FrameScanner.new file byteOffset) with
    | .ok _ s => return ⟨some (segId, s)⟩
    | .error _ _ => return ⟨none⟩

def Store.scan (fromId : EntryId) : StoreM StoreReader := do
  let m ← get
  let fromId := max fromId m.store.state.firstEntry
  if m.store.lastEntry.all (fun last => decide (last < fromId)) then return ⟨none⟩
  else
    match m.store.scanStart fromId with
    | none => throw (.panic "called `Option::unwrap()` on a `None` value")
    | some (segId, byteOffset) => fs (openAt segId byteOffset fromId)

/-- The segment behind `current` in the state. -/
def nextSegment (segs : List SegmentEntry) (current : SegmentId) : Option SegmentId := do
  let pos ← segs.findIdx? (·.id = current)
  let next ← segs[pos+1]?
  return next.id

/-- The loop of `next`: a frame of the current segment, or the first of a later one. It moves on
at most once for every segment, unless it goes round in circles. -/
def StoreReader.nextLoop : ℕ → StoreReader →
    StoreM (Option (Except IoError FrameReader) × StoreReader)
  | 0, _ => throw .diverges
  | rounds+1, r =>
    match r.scanner with
    | none => return (none, ⟨none⟩)
    | some (current, s) =>
      match FrameScanner.read s with
      | .error e s' => return (some (.error ⟨.invalidData, e.toString⟩), ⟨some (current, s')⟩)
      | .ok (some frameReader) s' => return (some (.ok frameReader), ⟨some (current, s')⟩)
      | .ok none _ => do
        let m ← get
        match nextSegment m.store.state.segments current with
        | none => return (none, ⟨none⟩)
        | some nextId =>
          match ← fs (attempt (openSegment nextId)) with
          | .ok (file, _) =>
            StoreReader.nextLoop rounds ⟨some (nextId, FrameScanner.new file magicLen)⟩
          | .error e => return (some (.error e), ⟨none⟩)

def StoreReader.next (r : StoreReader) :
    StoreM (Option (Except IoError FrameReader) × StoreReader) := do
  let m ← get
  StoreReader.nextLoop (m.store.state.segments.length+1) r

/-- Drain a reader, reading every payload to its end. -/
def StoreReader.collect : ℕ → StoreReader → StoreM (List Entry)
  | 0, _ => throw .diverges
  | steps+1, r => do
    match ← r.next with
    | (some (.ok reader), ⟨some (seg, s)⟩) =>
      match reader.readToEnd s [] with
      | .error e _ => throw (.err e)
      | .ok (payload, reader') s' =>
        let rest ← StoreReader.collect steps ⟨some (seg, reader'.drop s')⟩
        return (reader.id, payload) :: rest
    | (some (.error e), _) => throw (.err e)
    | _ => return []

/-- `scan(from)` and drain. -/
def Store.scanAll (steps : ℕ) (fromId : EntryId) : StoreM (List Entry) := do
  let r ← Store.scan fromId
  r.collect steps

end Woodshed
