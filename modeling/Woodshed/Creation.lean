import Woodshed.Runs

/-! Creating a store, interrupted: what a crash in an attempt leaves in the directory, and when the
next attempts get over it. -/
namespace Woodshed
open Sequencing Framing

/-- The calls that change files or make a change last. -/
inductive Effect where
  | create (kind : FileKind)
  | writeMagic (kind : FileKind)
  | flush (kind : FileKind)
  | sync (kind : FileKind)
  | setLen (kind : FileKind)
  | syncDir
  | remove
deriving DecidableEq, Repr

def Effect.call : Effect → Call
  | .create kind => .create kind
  | .writeMagic kind => .writeMagic kind
  | .flush kind => .flush kind
  | .sync kind => .sync kind
  | .setLen kind => .setLen kind
  | .syncDir => .syncDir
  | .remove => .remove

/-- The effects of creating a store, in order. -/
def creationEffects : List Effect :=
  [.create .manifest, .writeMagic .manifest, .sync .manifest, .syncDir, .create .segment,
    .writeMagic .segment, .sync .segment, .flush .manifest]

/-- Where an attempt is interrupted: before an effect, which it may not come to, or when the first
bytes of the first frame are in the manifest. -/
inductive CrashPoint where
  | before (e : Effect)
  | inFrame (bytes : ℕ)
deriving DecidableEq, Repr

/-- A world in which the first call of one kind fails. -/
def stopping (d : Dir) (c : Call) : World := ⟨d, ⟨Function.update (fun _ => []) c [true], []⟩⟩

/-- The directory behind a program. -/
def dirBehind {ε α : Type} : EStateM.Result ε World α → Dir
  | .ok _ w => w.dir
  | .error _ w => w.dir

section
variable [Crates]

/-- What an attempt leaves that gets no further than to the first call of one kind. -/
def stopped (cfg : StoreCfg) (d : Dir) (c : Call) : Dir :=
  dirBehind (Store.openOrCreate cfg (stopping d c))

/-- What an interrupted attempt leaves. One that finds a manifest does not write the first frame. -/
def interrupted (cfg : StoreCfg) (d : Dir) : CrashPoint → Dir
  | .before e => stopped cfg d e.call
  | .inFrame bytes =>
    let d' := stopped cfg d (.flush .manifest)
    if manifestFileName ∈ d.files then d'
    else d'.writeAt manifestFileName magicLen ((frame (opFrame creation)).take bytes)

/-- Attempts that are interrupted, one after the other. -/
def allInterrupted (d : Dir) (attempts : List (StoreCfg × CrashPoint)) : Dir :=
  attempts.foldl (fun d attempt => interrupted attempt.1 d attempt.2) d

omit [Crates] in
/-- The crash comes before the manifest is there. -/
def CrashPoint.untouched (p : CrashPoint) : Bool := decide (p = .before (.create .manifest))

/-- The crash comes when the whole of the first frame is in the manifest. -/
def CrashPoint.complete : CrashPoint → Bool
  | .before e => decide (e ∉ creationEffects)
  | .inFrame bytes => decide ((frame (opFrame creation)).length ≤ bytes)

/-- A store without entries: its head is zero, it has one segment, the active one, and no scan
yields anything. -/
structure BlankStore (m : Machine) : Prop where
  head : m.store.firstEntryId = ⟨0⟩
  last : m.store.lastEntry = none
  segment : ∃ seg, m.store.state.segments = [seg] ∧ m.store.state.activeSegment = some seg
  entries : ∀ fromId, m.Yields fromId []

/-! ### Where an attempt stops -/

omit [Crates] in
theorem stopping_calls {d : Dir} {c c' : Call} (h : c' ≠ c) :
    (stopping d c).faults.calls c' = [] := by
  simp [stopping, h]

omit [Crates] in
theorem stopping_legible (d : Dir) (e : Effect) : (stopping d e.call).Legible := by
  refine ⟨rfl, stopping_calls ?_, stopping_calls ?_⟩
  · cases e <;> exact Call.noConfusion
  · cases e <;> exact Call.noConfusion

/-- A program that fails and leaves a directory. -/
def Halts {α : Type} (m : Fs α) (w : World) (d : Dir) : Prop := ∃ e w', m w = .error e w' ∧ w'.dir = d

omit [Crates] in
theorem Halts.bind {α β : Type} {m : Fs α} {k : α → Fs β} {w : World} {d : Dir} (h : Halts m w d) :
    Halts (m >>= k) w d := by
  obtain ⟨e, w', hm, hd⟩ := h
  exact ⟨e, w', bind_error hm, hd⟩

omit [Crates] in
theorem halts_behind {α β : Type} {m : Fs α} {k : α → Fs β} {w w' : World} {a : α} {d : Dir}
    (hm : m w = .ok a w') (h : Halts (k a) w' d) : Halts (m >>= k) w d := by
  rw [Halts, bind_ok hm]
  exact h

omit [Crates] in
theorem halts_call (d : Dir) (c : Call) : Halts (call c) (stopping d c) d := by
  refine ⟨faulted, ⟨d, ⟨Function.update (stopping d c).faults.calls c [], []⟩⟩, ?_, rfl⟩
  unfold call
  have hqueue : (stopping d c).faults.calls c = [true] := by simp [stopping]
  rw [hqueue]
  rfl

omit [Crates] in
theorem createNew_stopping {d : Dir} {c : Call} {name : FileName} {kind : FileKind}
    (hc : Call.create kind ≠ c) (hp : d.present = true) (h : name ∉ d.files) :
    File.createNew name kind (stopping d c) =
      .ok ⟨name, ⟨[], []⟩⟩ (stopping (d.put name ⟨[], []⟩) c) :=
  File.createNew_quiet (stopping_calls hc) hp h

omit [Crates] in
theorem writeMagic_stopping {d : Dir} {c : Call} {f : File} {kind : FileKind} {magic : Bytes}
    (hc : Call.writeMagic kind ≠ c) :
    File.writeMagic f kind magic (stopping d c) = .ok ⟨⟩ (stopping (d.writeAt f.name 0 magic) c) :=
  File.writeMagic_quiet (stopping_calls hc)

omit [Crates] in
theorem syncAll_stopping {d : Dir} {c : Call} {name : FileName} {kind : FileKind}
    (hc : Call.sync kind ≠ c) :
    File.syncAll name kind (stopping d c) = .ok ⟨⟩ (stopping (d.sync name) c) :=
  File.syncAll_quiet (stopping_calls hc)

omit [Crates] in
/-- A file that is created with its magic number, up to the call that fails. -/
theorem createFile_halts {d : Dir} {name : FileName} {kind : FileKind} {magic : Bytes} {α : Type}
    {k : File → PUnit → Fs α} (hp : d.present = true) (h : name ∉ d.files) (c : Call)
    (hc : c = .create kind ∨ c = .writeMagic kind ∨ c = .sync kind) :
    Halts (do
      let file ← File.createNew name kind
      File.writeMagic file kind magic
      File.syncAll file.name kind >>= k file) (stopping d c)
      (if c = .create kind then d
        else if c = .writeMagic kind then d.put name ⟨[], []⟩
        else (d.put name ⟨[], []⟩).writeAt name 0 magic) := by
  rcases hc with rfl | rfl | rfl
  · rw [if_pos rfl]
    exact Halts.bind (Halts.bind (halts_call d _))
  · rw [if_neg (by nofun), if_pos rfl]
    refine halts_behind (createNew_stopping (by nofun) hp h) ?_
    exact Halts.bind (Halts.bind (halts_call _ _))
  · rw [if_neg (by nofun), if_neg (by nofun)]
    refine halts_behind (createNew_stopping (by nofun) hp h) ?_
    refine halts_behind (writeMagic_stopping (by nofun)) ?_
    exact Halts.bind (Halts.bind (halts_call _ _))

omit [Crates] in
theorem createFile_stopping {d : Dir} {name : FileName} {kind : FileKind} {magic : Bytes}
    {α : Type} (k : File → PUnit → Fs α) (hp : d.present = true) (h : name ∉ d.files) {c : Call}
    (hc : Call.create kind ≠ c) (hm : Call.writeMagic kind ≠ c) (hs : Call.sync kind ≠ c) :
    (do
      let file ← File.createNew name kind
      File.writeMagic file kind magic
      File.syncAll file.name kind >>= k file) (stopping d c) =
      k ⟨name, ⟨[], []⟩⟩ ⟨⟩ (stopping (d.create name magic) c) := by
  rw [bind_ok (createNew_stopping hc hp h), bind_ok (writeMagic_stopping hm),
    bind_ok (syncAll_stopping hs)]
  rfl

/-- A directory in which the manifest is there without its first frame. -/
structure Broken (d : Dir) : Prop where
  present : d.present = true
  manifest : d.bytes manifestFileName = some [] ∨ ∃ n < (frame (opFrame creation)).length,
    d.bytes manifestFileName = some (manifestMagic ++ (frame (opFrame creation)).take n)

theorem Broken.mem {d : Dir} (h : Broken d) : manifestFileName ∈ d.files := by
  rcases h.manifest with hm | ⟨_, _, hm⟩
  · exact Dir.mem_of_bytes hm
  · exact Dir.mem_of_bytes hm

/-- A directory whose manifest has nothing but its magic number. -/
theorem broken_of_magic {d : Dir} (hp : d.present = true)
    (hm : d.bytes manifestFileName = some manifestMagic) : Broken d := by
  refine ⟨hp, Or.inr ⟨0, ?_, by rw [List.take_zero, List.append_nil]; exact hm⟩⟩
  rw [length_frame, headerLen]
  omega

/-- Creation that stops between its first and its last effect. -/
theorem createStore_halts {d : Dir} (h : Fresh d) {e : Effect} (he : e ∈ creationEffects) :
    ∃ d', Halts createStore (stopping d e.call) d' ∧
      (e = .create .manifest ∧ d' = d ∨ e ≠ .create .manifest ∧ Broken d' ∧
        (e = .flush .manifest → d' = (d.create manifestFileName manifestMagic).create
          (segmentPath ⟨1⟩) segmentMagic)) := by
  have hempty : (d.put manifestFileName ⟨[], []⟩).bytes manifestFileName = some [] := by
    rw [Dir.bytes_put, if_pos rfl]
  have hmagic : ((d.put manifestFileName ⟨[], []⟩).writeAt manifestFileName 0
      manifestMagic).bytes manifestFileName = some manifestMagic := by
    rw [Dir.bytes_writeAt, if_pos rfl, hempty]
    rfl
  set d₁ := d.create manifestFileName manifestMagic with hd₁
  have hp₁ : d₁.present = true := (Dir.present_create d _ _).trans h.present
  have hm₁ : d₁.bytes manifestFileName = some manifestMagic := by
    rw [hd₁, Dir.bytes_create, if_pos rfl]
  have hne : manifestFileName ≠ segmentPath ⟨1⟩ := (segmentPath_ne_manifest ⟨1⟩).symm
  have hnew : segmentPath ⟨1⟩ ∉ d₁.files := by
    rw [hd₁, Dir.mem_create]
    rintro (heq | hin)
    · exact hne heq.symm
    · have hparse := h.segments _ hin
      rw [parseSegmentPath_segmentPath] at hparse
      cases hparse
  have hmanifest {c : Call} (hc : ∀ call ∈ [Call.create .manifest, .writeMagic .manifest,
      .sync .manifest, .syncDir], call ≠ c) :
      createManifest (stopping d c) =
        .ok (⟨manifestFileName, ⟨[], []⟩⟩, magicLen) (stopping d₁ c) := by
    refine (createFile_stopping _ h.present h.manifest (hc _ (by simp)) (hc _ (by simp))
      (hc _ (by simp))).trans ?_
    exact bind_ok (call_quiet (stopping_calls (hc _ (by simp))))
  simp only [creationEffects, List.mem_cons, List.not_mem_nil, or_false] at he
  rcases he with rfl | rfl | rfl | rfl | rfl | rfl | rfl | rfl
  · refine ⟨d, Halts.bind ?_, Or.inl ⟨rfl, rfl⟩⟩
    exact createFile_halts h.present h.manifest _ (Or.inl rfl)
  · refine ⟨d.put manifestFileName ⟨[], []⟩, Halts.bind ?_,
      Or.inr ⟨by decide, ⟨h.present, Or.inl hempty⟩, (absurd · (by decide))⟩⟩
    exact createFile_halts h.present h.manifest _ (Or.inr (Or.inl rfl))
  · refine ⟨(d.put manifestFileName ⟨[], []⟩).writeAt manifestFileName 0 manifestMagic,
      Halts.bind ?_, Or.inr ⟨by decide, broken_of_magic ?_ hmagic, (absurd · (by decide))⟩⟩
    · exact createFile_halts h.present h.manifest _ (Or.inr (Or.inr rfl))
    · simp [Dir.writeAt, h.present]
  · refine ⟨d₁, Halts.bind ?_, Or.inr ⟨by decide, broken_of_magic hp₁ hm₁, (absurd · (by decide))⟩⟩
    have hfile : createManifest (stopping d .syncDir) = (synchronizeDir >>= fun _ =>
        pure (⟨manifestFileName, ⟨[], []⟩⟩, magicLen)) (stopping d₁ .syncDir) :=
      createFile_stopping _ h.present h.manifest (by decide) (by decide) (by decide)
    rw [Effect.call, Halts, hfile]
    exact Halts.bind (halts_call d₁ _)
  · refine ⟨d₁, halts_behind (hmanifest (by decide)) (Halts.bind ?_),
      Or.inr ⟨by decide, broken_of_magic hp₁ hm₁, (absurd · (by decide))⟩⟩
    exact createFile_halts hp₁ hnew _ (Or.inl rfl)
  · refine ⟨d₁.put (segmentPath ⟨1⟩) ⟨[], []⟩, halts_behind (hmanifest (by decide))
      (Halts.bind ?_), Or.inr ⟨by decide, broken_of_magic hp₁ ?_, (absurd · (by decide))⟩⟩
    · exact createFile_halts hp₁ hnew _ (Or.inr (Or.inl rfl))
    · rw [Dir.bytes_put, if_neg hne, hm₁]
  · refine ⟨(d₁.put (segmentPath ⟨1⟩) ⟨[], []⟩).writeAt (segmentPath ⟨1⟩) 0 segmentMagic,
      halts_behind (hmanifest (by decide)) (Halts.bind ?_),
      Or.inr ⟨by decide, broken_of_magic ?_ ?_, (absurd · (by decide))⟩⟩
    · exact createFile_halts hp₁ hnew _ (Or.inr (Or.inr rfl))
    · rw [Dir.writeAt, Dir.present_edit]
      exact hp₁
    · rw [Dir.bytes_writeAt, if_neg hne, Dir.bytes_put, if_neg hne, hm₁]
  · have hsegment : createSegment ⟨1⟩ (stopping d₁ (.flush .manifest)) = _ :=
      createFile_stopping _ hp₁ hnew (by decide) (by decide) (by decide)
    refine ⟨d₁.create (segmentPath ⟨1⟩) segmentMagic,
      halts_behind (hmanifest (by decide)) (halts_behind hsegment ?_),
      Or.inr ⟨by decide, broken_of_magic ?_ ?_, fun _ => rfl⟩⟩
    · exact Halts.bind (Halts.bind (Halts.bind (halts_call _ _)))
    · rw [Dir.present_create]
      exact hp₁
    · rw [Dir.bytes_create, if_neg hne, hm₁]

/-- Creation in which every effect it comes to succeeds. -/
theorem createStore_stopping {d : Dir} (h : Fresh d) {e : Effect} (he : e ∉ creationEffects) :
    createStore (stopping d e.call) = .ok ⟨⟩ (stopping d.formatted e.call) := by
  have hq (e' : Effect) (he' : e' ∈ creationEffects) : e'.call ≠ e.call := by
    intro heq
    have hsame : e' = e := by
      cases e' <;> cases e <;> first | rfl | (cases heq; rfl) | cases heq
    exact he (hsame ▸ he')
  have hnew : segmentPath ⟨1⟩ ∉ (d.create manifestFileName manifestMagic).files := by
    rw [Dir.mem_create]
    rintro (heq | hin)
    · exact segmentPath_ne_manifest ⟨1⟩ heq
    · have hparse := h.segments _ hin
      rw [parseSegmentPath_segmentPath] at hparse
      cases hparse
  have hmanifest : createManifest (stopping d e.call) = .ok (⟨manifestFileName, ⟨[], []⟩⟩, magicLen)
      (stopping (d.create manifestFileName manifestMagic) e.call) := by
    refine (createFile_stopping _ h.present h.manifest (hq (.create .manifest) (by decide))
      (hq (.writeMagic .manifest) (by decide)) (hq (.sync .manifest) (by decide))).trans ?_
    exact bind_ok (call_quiet (stopping_calls (hq .syncDir (by decide))))
  have hsegment : createSegment ⟨1⟩ (stopping (d.create manifestFileName manifestMagic) e.call) =
      _ :=
    createFile_stopping _ ((Dir.present_create d _ _).trans h.present) hnew
      (hq (.create .segment) (by decide)) (hq (.writeMagic .segment) (by decide))
      (hq (.sync .segment) (by decide))
  have hbuf : (FrameCursor.new magicLen).write ⟨0⟩ creation.encode =
      ⟨⟨frame (opFrame creation)⟩, magicLen⟩ :=
    congrArg (FrameCursor.mk · magicLen) (FrameBuffer.write_eq ⟨[]⟩ (opFrame creation))
  have hflush := FrameCursor.flush_quiet
    (w := stopping ((d.create manifestFileName manifestMagic).create (segmentPath ⟨1⟩)
      segmentMagic) e.call) ⟨⟨frame (opFrame creation)⟩, magicLen⟩ manifestFileName
    (stopping_calls (hq (.flush .manifest) (by decide)))
  unfold createStore
  rw [bind_ok hmanifest]
  dsimp only
  rw [bind_ok hsegment, show ManifestOp.bare (.createSegment ⟨1⟩ ⟨0⟩) = creation from rfl, hbuf]
  rw [bind_ok hflush]
  rfl

/-! ### The attempts behind it -/

omit [Crates] in
theorem manifestExists_eq (w : World) :
    manifestExists w = .ok (w.dir.present && decide (manifestFileName ∈ w.dir.files)) w := rfl

theorem openOrCreate_of_mem {w : World} (hp : w.dir.present = true)
    (hm : manifestFileName ∈ w.dir.files) (cfg : StoreCfg) :
    Store.openOrCreate cfg w = Store.openStore cfg w := by
  have hexists : manifestExists w = .ok true w := by
    rw [manifestExists_eq, hp, decide_eq_true hm]
    rfl
  unfold Store.openOrCreate
  rw [bind_ok (onScan_ok hexists), if_pos rfl]

theorem openOrCreate_of_not_mem {w : World} (hm : manifestFileName ∉ w.dir.files) (cfg : StoreCfg) :
    Store.openOrCreate cfg w = (onScan createStore >>= fun _ => Store.openStore cfg) w := by
  have hexists : manifestExists w = .ok false w := by
    rw [manifestExists_eq, decide_eq_false hm, Bool.and_false]
  unfold Store.openOrCreate
  rw [bind_ok (onScan_ok hexists), if_neg (by decide)]

/-- Creation that stops is the end of the attempt. -/
theorem stopped_of_halts {d d' : Dir} (h : Fresh d) {c : Call}
    (hh : Halts createStore (stopping d c) d') (cfg : StoreCfg) : stopped cfg d c = d' := by
  obtain ⟨e, w', hrun, rfl⟩ := hh
  have hscan : onScan createStore (stopping d c) = .error (.err (.recoveryFailed (.ioError e))) w' := by
    rw [onScan]
    exact onPart_error hrun
  rw [stopped, openOrCreate_of_not_mem (w := stopping d c) h.manifest, bind_error hscan]
  rfl

/-- Opening a clean directory changes nothing, whatever other calls would fail. -/
theorem Clean.openStore_legible {w : World} {es : List Entry} {st : StoreState}
    {log : SegmentId → List Entry} {active : SegmentEntry} (h : Clean w.dir es st log active)
    (hq : w.Legible) (cfg : StoreCfg) : ∃ s, Store.openStore cfg w = .ok s w := by
  have hsurvey := h.layout.survey_eq
  have hissues : (survey w.dir).issues = [] := by
    rw [hsurvey]
    exact h.issues
  obtain ⟨activeReport, hfind⟩ := h.layout.find_report h.shaped.mem
  refine ⟨storeOf cfg (survey w.dir) active activeReport, ?_⟩
  unfold Store.openStore
  rw [bind_ok (onScan_ok (scan_legible hq)), if_pos hissues]
  refine fromScanReport_legible cfg hq hissues ?_ hfind h.recorded.manifest
  rw [hsurvey]
  exact h.shaped.activeSegment

/-- What the scan finds in a broken manifest cannot be fixed. -/
theorem Broken.collect {d : Dir} (h : Broken d) :
    (survey d).issues ≠ [] ∧ collectFixUps false (survey d).issues = .error .notPossible := by
  have hp : ¬ d.present = false := by
    rw [h.present]
    decide
  rcases h.manifest with hm | ⟨n, hn, hm⟩
  · have hreport : survey d = emptyReport [⟨.manifest, .manifestNotReadable⟩] := by
      unfold survey
      rw [if_neg hp, hm]
      rfl
    rw [hreport]
    exact ⟨by simp [emptyReport], rfl⟩
  · -- no whole frame: nothing is replayed
    have hpre : (frame (opFrame creation)).take n <+: frames.encodeAll [opFrame creation] := by
      rw [Grammar.encodeAll_cons, Grammar.encodeAll_nil, List.append_nil]
      exact List.take_prefix _ _
    obtain ⟨k, hk, hitems, _, hstop⟩ := frames.decode_prefix [opFrame creation] _
      (fun e he => by rw [List.mem_singleton.mp he]; exact fits_creation) hpre
    obtain ⟨hsplit, _, _⟩ := frames.decode_sound ((frame (opFrame creation)).take n)
    set D := frames.decode ((frame (opFrame creation)).take n) with hD
    have hnone : D.items = [] := by
      obtain rfl | rfl : k = 0 ∨ k = 1 := by simp at hk; omega
      · exact hitems
      · rw [List.take_of_length_le (by simp)] at hitems
        have hlen := congrArg List.length hsplit
        rw [hitems, List.length_append, List.length_take, Grammar.encodeAll_cons, frames_encode,
          List.length_append] at hlen
        omega
    have hreport : ∃ i, createFixUp i = none ∧
        survey d = emptyReport (tornManifest D ++ [i]) := by
      unfold survey
      rw [if_neg hp, hm]
      dsimp only
      rw [behindMagic_append _ _ rfl]
      dsimp only [surveyManifest]
      rw [if_neg (by rcases hstop with hs | hs <;> rw [hs.1] <;> decide), surveyReplay, ← hD, hnone]
      dsimp only [replayEntries]
      by_cases hs : D.rest.length < headerLen
      · rw [if_pos hs]
        exact ⟨⟨.manifest, .manifestEmpty⟩, rfl, rfl⟩
      · rw [if_neg hs]
        exact ⟨⟨.manifest, .manifestNotReadable⟩, rfl, rfl⟩
    obtain ⟨i, hi, hreport⟩ := hreport
    rw [hreport]
    refine ⟨by simp [emptyReport], ?_⟩
    have hlast : collectFixUps false [i] = .error .notPossible := by
      rw [collectFixUps, hi]
    rw [emptyReport, tornManifest]
    by_cases ht : D.stop = .torn
    · rw [if_pos ht, List.cons_append, List.nil_append, collectFixUps]
      dsimp only [createFixUp, auto]
      rw [hlast]
      rfl
    · rw [if_neg ht]
      exact hlast

/-- A broken directory stays as it is: it is not created again, and not recovered. -/
theorem Broken.openOrCreate {w : World} (h : Broken w.dir) (hq : w.Legible) (cfg : StoreCfg) :
    ∃ e, Store.openOrCreate cfg w = .error e w := by
  obtain ⟨hissues, hcollect⟩ := h.collect
  have hrecover : attemptRecovery (survey w.dir) false w = .error .notPossible w := by
    rw [attemptRecovery, hcollect]
    rfl
  refine ⟨.err (.recoveryNotPossible (survey w.dir).issues), ?_⟩
  rw [openOrCreate_of_mem h.present h.mem]
  unfold Store.openStore
  rw [bind_ok (onScan_ok (scan_legible hq)), if_neg hissues]
  refine bind_error ?_
  rw [onPart, hrecover]
  rfl

/-! ### Sequences of attempts -/

theorem interrupted_broken {d : Dir} (h : Broken d) (cfg : StoreCfg) (p : CrashPoint) :
    interrupted cfg d p = d := by
  have hstop (e : Effect) : stopped cfg d e.call = d := by
    have hbroken : Broken (stopping d e.call).dir := h
    obtain ⟨x, hrun⟩ := hbroken.openOrCreate (stopping_legible d e) cfg
    rw [stopped, hrun]
    rfl
  cases p with
  | before e => exact hstop e
  | inFrame n =>
    rw [interrupted, if_pos h.mem]
    exact hstop (.flush .manifest)

theorem mem_formatted (d : Dir) : manifestFileName ∈ d.formatted.files :=
  (Dir.mem_formatted d _).mpr (Or.inr (Or.inl rfl))

theorem interrupted_formatted {d : Dir} (h : Fresh d) (cfg : StoreCfg) (p : CrashPoint) :
    interrupted cfg d.formatted p = d.formatted := by
  have hclean := clean_formatted h
  have hstop (e : Effect) : stopped cfg d.formatted e.call = d.formatted := by
    have hdir : Clean (stopping d.formatted e.call).dir _ _ _ _ := hclean
    obtain ⟨s, hrun⟩ := hdir.openStore_legible (stopping_legible d.formatted e) cfg
    rw [stopped, openOrCreate_of_mem hdir.present (mem_formatted d), hrun]
    rfl
  cases p with
  | before e => exact hstop e
  | inFrame n =>
    rw [interrupted, if_pos (mem_formatted d)]
    exact hstop (.flush .manifest)

/-- The first attempt leaves the directory as it is, makes a store in it, or breaks it. -/
theorem Fresh.interrupted_cases {d : Dir} (h : Fresh d) (cfg : StoreCfg) (p : CrashPoint) :
    (p.untouched = true ∧ interrupted cfg d p = d) ∨
      (p.untouched = false ∧ p.complete = true ∧ interrupted cfg d p = d.formatted) ∨
      (p.untouched = false ∧ p.complete = false ∧ Broken (interrupted cfg d p)) := by
  cases p with
  | before e =>
    by_cases he : e ∈ creationEffects
    · obtain ⟨d', hhalts, hd'⟩ := createStore_halts h he
      have hleaves : interrupted cfg d (.before e) = d' := stopped_of_halts h hhalts cfg
      rw [hleaves]
      rcases hd' with ⟨rfl, rfl⟩ | ⟨hne, hbroken, _⟩
      · exact Or.inl ⟨rfl, rfl⟩
      · refine Or.inr (Or.inr ⟨?_, ?_, hbroken⟩)
        · simpa [CrashPoint.untouched] using hne
        · simpa [CrashPoint.complete] using he
    · have hdir : Clean (stopping d.formatted e.call).dir _ _ _ _ := clean_formatted h
      obtain ⟨s, hrun⟩ := hdir.openStore_legible (stopping_legible d.formatted e) cfg
      refine Or.inr (Or.inl ⟨?_, ?_, ?_⟩)
      · have hne : e ≠ .create .manifest := fun heq => he (heq ▸ by decide)
        simpa [CrashPoint.untouched] using hne
      · simpa [CrashPoint.complete] using he
      · rw [interrupted, stopped, openOrCreate_of_not_mem (w := stopping d e.call)
          h.manifest, bind_ok (onScan_ok (createStore_stopping h he)), hrun]
        rfl
  | inFrame n =>
    obtain ⟨d', hhalts, hd'⟩ := createStore_halts h (e := .flush .manifest) (by decide)
    rcases hd' with ⟨heq, _⟩ | ⟨_, hbroken, hlast⟩
    · cases heq
    have hleaves : interrupted cfg d (.inFrame n) =
        d'.writeAt manifestFileName magicLen ((frame (opFrame creation)).take n) := by
      have hstop : stopped cfg d (.flush .manifest) = d' := stopped_of_halts h hhalts cfg
      rw [interrupted, if_neg h.manifest, hstop]
    rw [hleaves]
    have hd' := hlast rfl
    right
    by_cases hn : (frame (opFrame creation)).length ≤ n
    · refine Or.inl ⟨rfl, decide_eq_true hn, ?_⟩
      rw [List.take_of_length_le hn, hd']
      rfl
    · refine Or.inr ⟨rfl, decide_eq_false hn, ?_, Or.inr ⟨n, not_le.mp hn, ?_⟩⟩
      · rw [Dir.writeAt, Dir.present_edit]
        exact hbroken.present
      · have hend : magicLen = manifestMagic.length := rfl
        rw [hd', Dir.bytes_writeAt, if_pos rfl, Dir.bytes_create,
          if_neg (segmentPath_ne_manifest ⟨1⟩).symm, Dir.bytes_create, if_pos rfl, Option.map_some,
          hend, overwrite_end]

/-- What comes of interrupted attempts is decided by the first one that leaves something behind. -/
theorem Fresh.allInterrupted_cases {d : Dir} (h : Fresh d) (attempts : List (StoreCfg × CrashPoint)) :
    match (attempts.dropWhile fun a => a.2.untouched).head? with
    | none => allInterrupted d attempts = d
    | some a => if a.2.complete = true then allInterrupted d attempts = d.formatted
        else Broken (allInterrupted d attempts) := by
  have hformatted (as : List (StoreCfg × CrashPoint)) :
      allInterrupted d.formatted as = d.formatted := by
    induction as with
    | nil => rfl
    | cons a as ih => rw [allInterrupted, List.foldl_cons, interrupted_formatted h]; exact ih
  have hbroken {d' : Dir} (hd' : Broken d') (as : List (StoreCfg × CrashPoint)) :
      allInterrupted d' as = d' := by
    induction as with
    | nil => rfl
    | cons a as ih => rw [allInterrupted, List.foldl_cons, interrupted_broken hd']; exact ih
  induction attempts with
  | nil => rfl
  | cons a as ih =>
    rw [allInterrupted, List.foldl_cons]
    rcases h.interrupted_cases a.1 a.2 with ⟨hu, hd⟩ | ⟨hu, hc, hd⟩ | ⟨hu, hc, hd⟩
    · rw [List.dropWhile_cons_of_pos (p := fun b : StoreCfg × CrashPoint => b.2.untouched) hu, hd]
      exact ih
    · rw [List.dropWhile_cons_of_neg (p := fun b : StoreCfg × CrashPoint => b.2.untouched)
        (by rw [hu]; decide), List.head?_cons, hd]
      dsimp only
      rw [if_pos hc]
      exact hformatted as
    · rw [List.dropWhile_cons_of_neg (p := fun b : StoreCfg × CrashPoint => b.2.untouched)
        (by rw [hu]; decide), List.head?_cons]
      dsimp only
      rw [if_neg (by rw [hc]; decide)]
      have hstay := hbroken hd as
      rw [allInterrupted] at hstay
      rw [hstay]
      exact hd

/-- A new store has no entries. -/
theorem Session.blankStore {s : Store} {d : Dir} {es : List Entry}
    (h : Session s d es (fun _ => []) firstSegment) (hst : s.state = firstState) :
    BlankStore ⟨s, calm d⟩ := by
  have hlive : liveLog s.state (fun _ => []) = [] := by simp [liveLog]
  have hlast : s.lastEntry = none := by
    rw [h.lastEntry, hlive]
    rfl
  refine ⟨by rw [Store.firstEntryId, hst]; rfl, hlast, ⟨firstSegment, by rw [hst]; rfl,
    h.clean.shaped.activeSegment⟩, fun fromId => Machine.yields_nil ?_⟩
  rw [hlast]
  rfl

/-- Interrupted attempts in an empty directory: the next one succeeds exactly if the first crash
behind which there is a manifest came when the first frame was complete. -/
theorem Fresh.resumes_iff {d : Dir} (h : Fresh d) (attempts : List (StoreCfg × CrashPoint))
    (cfg : StoreCfg) :
    (∃ s w, Store.openOrCreate cfg (calm (allInterrupted d attempts)) = .ok s w ∧
      BlankStore ⟨s, w⟩) ↔
      ∀ a ∈ (attempts.dropWhile fun a => a.2.untouched).head?, a.2.complete = true := by
  have hall := h.allInterrupted_cases attempts
  cases hfirst : (attempts.dropWhile fun a => a.2.untouched).head? with
  | none =>
    rw [hfirst] at hall
    have hd : allInterrupted d attempts = d := hall
    obtain ⟨s, hopen, hs, _, hst, _⟩ := h.session cfg
    rw [hd]
    exact iff_of_true ⟨s, _, hopen, hs.blankStore hst⟩ (fun a ha => by cases ha)
  | some a =>
    rw [hfirst] at hall
    dsimp only at hall
    by_cases hc : a.2.complete = true
    · rw [if_pos hc] at hall
      obtain ⟨s, hopen, hs, _, hst, _⟩ := h.session cfg
      rw [openOrCreate_fresh h cfg] at hopen
      refine iff_of_true ⟨s, calm d.formatted, ?_, hs.blankStore hst⟩ ?_
      · rw [hall, openOrCreate_of_mem (w := calm d.formatted) (clean_formatted h).present
          (mem_formatted d), hopen]
      · intro b hb
        cases hb
        exact hc
    · rw [if_neg hc] at hall
      have hbroken : Broken (calm (allInterrupted d attempts)).dir := hall
      obtain ⟨e, hopen⟩ := hbroken.openOrCreate (legible_calm _) cfg
      refine iff_of_false ?_ (fun hb => hc (hb a rfl))
      rintro ⟨s, w, hok, _⟩
      rw [hopen] at hok
      cases hok

end

section
attribute [local instance] sample

/-- An attempt that comes to nothing and one that is complete. -/
theorem Fresh.resumes_blank : ∃ s w, Store.openOrCreate ⟨0⟩ (calm (allInterrupted blank
    [(⟨0⟩, .before (.create .manifest)), (⟨0⟩, .inFrame 1000)])) = .ok s w ∧ BlankStore ⟨s, w⟩ :=
  (fresh_blank.resumes_iff _ ⟨0⟩).mpr (by decide +kernel)

/-- A crash right behind the creation of the manifest is not got over. -/
theorem Fresh.not_resumes : ¬ ∀ (d : Dir) (attempts : List (StoreCfg × CrashPoint)) (cfg : StoreCfg),
    Fresh d → ∃ s w, Store.openOrCreate cfg (calm (allInterrupted d attempts)) = .ok s w ∧
      BlankStore ⟨s, w⟩ := by
  intro hall
  obtain ⟨s, w, hopen, _⟩ := hall blank [(⟨0⟩, .before (.writeMagic .manifest))] ⟨0⟩ fresh_blank
  have hfails : succeeds (Store.openOrCreate ⟨0⟩ (calm (allInterrupted blank
      [(⟨0⟩, .before (.writeMagic .manifest))]))) = false := by decide +kernel
  rw [hopen] at hfails
  cases hfails

end
end Woodshed
