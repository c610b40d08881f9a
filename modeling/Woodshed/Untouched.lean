import Woodshed.Triples
import Woodshed.Verdict

/-! Reading changes nothing: scans of a directory, readers of a store and opens that are refused leave
every file as it was, whichever calls fail. -/
namespace Woodshed
open Sequencing

/-- The directory is `d`. -/
def World.At (d : Dir) (w : World) : Prop := w.dir = d

/-- The store is `s`, and the directory `d`. -/
def Machine.At (s : Store) (d : Dir) (m : Machine) : Prop := m.store = s ∧ m.world.dir = d

section
variable {d : Dir}

/-! ### Files -/

theorem has_call (c : Call) : Keeps (World.At d) (call c) := by
  intro w hw
  unfold call
  cases w.faults.calls c with
  | nil => exact hw
  | cons b bs =>
    cases b with
    | false => exact hw
    | true => exact hw

theorem has_open (name : FileName) : Keeps (World.At d) (File.open name) := by
  unfold File.open
  refine Keeps.get fun w => ?_
  split
  · refine Keeps.bind (Keeps.modify fun _ hw => hw) fun _ => ?_
    exact Keeps.throw _
  · exact Keeps.throw _
  · exact Keeps.ret _
  · refine Keeps.bind (Keeps.modify fun _ hw => hw) fun _ => ?_
    exact Keeps.ret _

theorem has_checkMagic (file : File) (expected : Bytes) :
    Keeps (World.At d) (checkMagic file expected) := by
  unfold checkMagic
  split
  · exact Keeps.throw _
  · split
    · exact Keeps.throw _
    · exact Keeps.ret _

theorem has_openManifest : Keeps (World.At d) openManifest :=
  (has_open _).bind fun _ => (has_checkMagic _ _).bind fun _ => Keeps.ret _

theorem has_openSegment (id : SegmentId) : Keeps (World.At d) (openSegment id) :=
  (has_open _).bind fun _ => (has_checkMagic _ _).bind fun _ => Keeps.ret _

theorem has_segmentSize (id : SegmentId) : Keeps (World.At d) (segmentSize id) := by
  unfold segmentSize File.len
  refine (has_call _).bind fun _ => Keeps.get fun w => ?_
  split
  · exact Keeps.throw _
  · exact Keeps.ret _

theorem has_collectSegmentIds : Keeps (World.At d) collectSegmentIds := by
  unfold collectSegmentIds
  refine (has_call _).bind fun _ => Keeps.get fun w => ?_
  split
  · exact Keeps.throw _
  · exact Keeps.ret _

end

section
variable [Crates]
variable {s : Store} {d : Dir}

/-! ### The scan of a directory -/

theorem has_scanSegmentFile (id : SegmentId) (isSealed : Bool) :
    Keeps (World.At d) (scanSegmentFile id isSealed) := by
  unfold scanSegmentFile
  refine (has_openSegment id).attempt.bind fun opened => ?_
  split
  · exact Keeps.ret _
  · split
    · exact Keeps.ret _
    · exact Keeps.ret _

theorem has_scanSegment (id : SegmentId) (expectedLen : Option UInt64) :
    Keeps (World.At d) (scanSegment id expectedLen) := by
  unfold scanSegment
  split
  · exact has_scanSegmentFile id false
  · refine (has_segmentSize id).attempt.bind fun size => ?_
    split
    · exact Keeps.ret _
    · split
      · exact Keeps.ret _
      · exact has_scanSegmentFile id true

theorem has_scanSegments (replayed : ReplayResult) (issues : IssueReport) :
    Keeps (World.At d) (scanSegments replayed issues) := by
  unfold scanSegments
  refine has_collectSegmentIds.attempt.bind fun ids => ?_
  split
  · exact Keeps.ret _
  · exact (Keeps.mapM (fun _ => has_scanSegment _ _) _).bind fun _ => Keeps.ret _

theorem has_scanReplay (manifestOffset : ℕ) (issues : IssueReport) :
    Keeps (World.At d) (scanReplay manifestOffset issues) := by
  unfold scanReplay
  refine has_openManifest.attempt.bind fun opened => ?_
  split
  · exact Keeps.ret _
  · split
    · exact Keeps.ret _
    · exact Keeps.ret _
    · exact Keeps.ret _
    · split
      · exact Keeps.ret _
      · exact has_scanSegments _ _

theorem has_scan : Keeps (World.At d) scan := by
  unfold scan
  refine Keeps.get fun w => ?_
  split
  · exact Keeps.ret _
  · refine has_openManifest.attempt.bind fun opened => ?_
    split
    · exact Keeps.ret _
    · split
      · exact Keeps.ret _
      · split
        · exact has_scanReplay _ _
        · exact Keeps.ret _
        · exact has_scanReplay _ _

/-! ### Readers -/

omit [Crates] in
theorem has_fs {α : Type} {x : Fs α} (h : Keeps (World.At d) x) : Keeps (Machine.At s d) (fs x) := by
  refine Triple.onPart fun m hm => ?_
  refine h.weaken ?_ (fun _ _ hw => ⟨hm.1, hw⟩) fun _ hw => ⟨hm.1, hw⟩
  rintro _ rfl
  exact hm.2

omit [Crates] in
theorem has_openAt (segId : SegmentId) (byteOffset : ℕ) (fromId : EntryId) :
    Keeps (World.At d) (openAt segId byteOffset fromId) := by
  unfold openAt
  refine (has_openSegment segId).attempt.bind fun opened => ?_
  split
  · exact Keeps.ret _
  · split
    · exact Keeps.ret _
    · exact Keeps.ret _

omit [Crates] in
theorem has_storeScan (fromId : EntryId) : Keeps (Machine.At s d) (Store.scan fromId) := by
  unfold Store.scan
  refine Keeps.get fun m => ?_
  dsimp only
  split
  · exact Keeps.ret _
  · split
    · exact Keeps.throw _
    · exact has_fs (has_openAt _ _ _)

omit [Crates] in
/-- The loop of `next` opens at most files to read. -/
theorem has_nextLoop (rounds : ℕ) : ∀ r : StoreReader,
    Keeps (Machine.At s d) (r.nextLoop rounds) := by
  induction rounds with
  | zero => exact fun _ => Keeps.throw _
  | succ rounds ih =>
    intro r
    unfold StoreReader.nextLoop
    split
    · exact Keeps.ret _
    · split
      · exact Keeps.ret _
      · exact Keeps.ret _
      · -- the frames of a segment are used up: the next one is opened, in one round less
        refine Keeps.get fun m => ?_
        split
        · exact Keeps.ret _
        · refine (has_fs (has_openSegment _).attempt).bind fun opened => ?_
          split
          · exact ih _
          · exact Keeps.ret _

omit [Crates] in
theorem has_next (r : StoreReader) : Keeps (Machine.At s d) r.next :=
  Keeps.get fun _ => has_nextLoop _ r

omit [Crates] in
theorem has_collect (steps : ℕ) : ∀ r : StoreReader, Keeps (Machine.At s d) (r.collect steps) := by
  induction steps with
  | zero => exact fun _ => Keeps.throw _
  | succ steps ih =>
    intro r
    unfold StoreReader.collect
    refine (has_next r).bind fun result => ?_
    split
    · split
      · exact Keeps.throw _
      · exact (ih _).bind fun _ => Keeps.ret _
    · exact Keeps.throw _
    · exact Keeps.ret _

end

/-- The state that a program ends in, whether it returns or fails. -/
def finalState {ε σ α : Type} : EStateM.Result ε σ α → σ
  | .ok _ s => s
  | .error _ s => s

theorem finalState_of_keeps {ε σ α : Type} {I : σ → Prop} {x : EStateM ε σ α} (h : Keeps I x) {s : σ}
    (hs : I s) : I (finalState (x s)) := by
  cases hx : x s with
  | ok a s' => exact Triple.ok h hs hx
  | error e s' => exact Triple.error h hs hx

section
variable [Crates]

/-- Whatever a store and its directory are, and whichever calls fail: scanning the directory, scanning
the store, taking the next entry of any reader and draining a scan change no file, and not the store. -/
theorem reads_leave (m : Machine) (fromId : EntryId) (r : StoreReader) (steps : ℕ) :
    (finalState (scan m.world)).dir = m.world.dir ∧
      (finalState (Store.scan fromId m)).At m.store m.world.dir ∧
      (finalState (r.next m)).At m.store m.world.dir ∧
      (finalState (Store.scanAll steps fromId m)).At m.store m.world.dir :=
  ⟨finalState_of_keeps has_scan rfl, finalState_of_keeps (has_storeScan fromId) ⟨rfl, rfl⟩,
    finalState_of_keeps (has_next r) ⟨rfl, rfl⟩,
    finalState_of_keeps ((has_storeScan fromId).bind fun r => has_collect steps r) ⟨rfl, rfl⟩⟩

/-! ### Opens that are refused -/

theorem has_fromScanReport (cfg : StoreCfg) (report : ScanReport) {d : Dir} :
    Keeps (World.At d) (fromScanReport cfg report) := by
  unfold fromScanReport
  split
  · exact Keeps.throw _
  · split
    · exact Keeps.throw _
    · split
      · exact Keeps.throw _
      · refine has_openManifest.attempt.bind fun opened => ?_
        split
        · exact Keeps.throw _
        · exact Keeps.ret _

/-- What an operator is asked to look at: the directory needs an approval, or cannot be recovered. -/
def OpenError.asks : OpenError → Bool
  | .approvedRecoveredRequired _ => true
  | .recoveryNotPossible _ => true
  | .recoveryFailed _ => false

/-- An open that asks the operator has not touched a file, whichever calls failed on the way. -/
theorem openStore_asks {cfg : StoreCfg} {w w' : World} {e : OpenError}
    (h : Store.openStore cfg w = .error (.err e) w') (he : e.asks = true) : w'.dir = w.dir := by
  unfold Store.openStore at h
  cases hscan : scan w with
  | error io w₁ =>
    have hfail : onScan scan w = .error (.err (.recoveryFailed (.ioError io))) w₁ :=
      onPart_id_error hscan
    rw [bind_error hfail] at h
    cases h
    cases he
  | ok report w₁ =>
    have hdir : w₁.dir = w.dir := Triple.ok has_scan rfl hscan
    rw [bind_ok (onScan_ok hscan)] at h
    by_cases hno : report.issues = []
    · rw [if_pos hno] at h
      exact (Triple.error (has_fromScanReport cfg report) rfl h).trans hdir
    · rw [if_neg hno] at h
      cases hrec : attemptRecovery report false w₁ with
      | error e' w₂ =>
        rw [bind_error (onPart_id_error hrec)] at h
        cases h
        -- the two verdicts that ask are given before the first fix-up
        cases e' with
        | ioError io => cases he
        | remainingIssues issues => cases he
        | notPossible =>
          rw [((attemptRecovery_error_iff (by simp)).mp hrec).2]
          exact hdir
        | approvalRequired =>
          rw [((attemptRecovery_error_iff (by simp)).mp hrec).2]
          exact hdir
      | ok _ w₂ =>
        -- behind a recovery the errors are others
        rw [bind_ok (onPart_id_ok hrec)] at h
        cases hagain : scan w₂ with
        | error io w₃ =>
          have hfail : onScan scan w₂ = .error (.err (.recoveryFailed (.ioError io))) w₃ :=
            onPart_id_error hagain
          rw [bind_error hfail] at h
          cases h
          cases he
        | ok report' w₃ =>
          rw [bind_ok (onScan_ok hagain)] at h
          cases hreport : fromScanReport cfg report' w₃ with
          | ok s w₄ => rw [onPart_id_ok hreport] at h; cases h
          | error f w₄ =>
            rw [onPart_id_error hreport] at h
            cases f with
            | panic message => cases h
            | diverges => cases h
            | err f =>
              cases f with
              | recoveryNotPossible issues => cases h; cases he
              | recoveryFailed f => cases h; cases he
              | approvedRecoveredRequired issues =>
                exact absurd hreport (fromScanReport_ne_approval cfg _ _ _ _)

end

section
attribute [local instance] sample

/-- Whether an open asks the operator. -/
def askedBy : EStateM.Result (Failure OpenError) World Store → Bool
  | .error (.err e) _ => e.asks
  | _ => false

/-- The second open of the manifest fails, in a directory that could be recovered. -/
theorem openStore_asks_unreadable : ∃ e w, Store.openStore ⟨0⟩ ⟨damaged, ⟨fun _ => [], [some [], none]⟩⟩ =
    .error (.err e) w ∧ w.dir = damaged := by
  have hrun : askedBy (Store.openStore ⟨0⟩ ⟨damaged, ⟨fun _ => [], [some [], none]⟩⟩) = true := by
    decide +kernel
  cases h : Store.openStore ⟨0⟩ ⟨damaged, ⟨fun _ => [], [some [], none]⟩⟩ with
  | ok s w => rw [h] at hrun; cases hrun
  | error f w =>
    rw [h] at hrun
    cases f with
    | panic message => cases hrun
    | diverges => cases hrun
    | err e => exact ⟨e, w, rfl, openStore_asks h hrun⟩

end
end Woodshed
