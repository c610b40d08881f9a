import Woodshed.Opening

/-! What the calls a running store makes do to its directory, in any world in which those calls do
not fail; and the store that `open_or_create` makes. -/
namespace Woodshed
open Sequencing Framing

/-! ### New files -/

/-- A new file with its magic number, synced. -/
def Dir.create (d : Dir) (name : FileName) (magic : Bytes) : Dir :=
  ((d.put name ⟨[], []⟩).writeAt name 0 magic).sync name

theorem Dir.lookup_create (d : Dir) (name other : FileName) (magic : Bytes) :
    (d.create name magic).files.lookup other =
      if other = name then some ⟨magic, magic⟩ else d.files.lookup other := by
  have hzero : overwrite [] 0 magic = magic := overwrite_end [] magic
  unfold Dir.create Dir.sync Dir.writeAt
  rw [Dir.lookup_edit, Dir.lookup_edit, Dir.lookup_edit, Dir.lookup_put, Dir.lookup_put]
  by_cases h : other = name
  · simp [h, hzero]
  · simp [h]

@[simp] theorem Dir.present_create (d : Dir) (name : FileName) (magic : Bytes) :
    (d.create name magic).present = d.present := by
  simp [Dir.create, Dir.sync, Dir.writeAt]

theorem Dir.bytes_create (d : Dir) (name other : FileName) (magic : Bytes) :
    (d.create name magic).bytes other = if other = name then some magic else d.bytes other := by
  rw [Dir.bytes, Dir.lookup_create]
  split <;> rfl

theorem Dir.mem_create (d : Dir) (name other : FileName) (magic : Bytes) :
    other ∈ (d.create name magic).files ↔ other = name ∨ other ∈ d.files := by
  rw [Dir.mem_files_iff, Dir.lookup_create, Dir.mem_files_iff]
  by_cases h : other = name <;> simp [h]

theorem File.createNew_quiet {w : World} {name : FileName} {kind : FileKind}
    (hq : w.faults.calls (.create kind) = []) (hp : w.dir.present = true) (h : name ∉ w.dir.files) :
    File.createNew name kind w =
      .ok ⟨name, ⟨[], []⟩⟩ { w with dir := w.dir.put name ⟨[], []⟩ } := by
  unfold File.createNew
  rw [bind_ok (call_quiet hq), get_bind]
  rw [if_neg (by rw [hp]; decide), if_neg h]
  rfl

theorem File.writeMagic_quiet {w : World} {f : File} {kind : FileKind} {magic : Bytes}
    (hq : w.faults.calls (.writeMagic kind) = []) :
    File.writeMagic f kind magic w = .ok ⟨⟩ { w with dir := w.dir.writeAt f.name 0 magic } := by
  unfold File.writeMagic
  rw [bind_ok (call_quiet hq)]
  rfl

theorem File.syncAll_quiet {w : World} {name : FileName} {kind : FileKind}
    (hq : w.faults.calls (.sync kind) = []) :
    File.syncAll name kind w = .ok ⟨⟩ { w with dir := w.dir.sync name } := by
  unfold File.syncAll
  rw [bind_ok (call_quiet hq)]
  rfl

theorem File.writeAllAt_quiet {w : World} {name : FileName} {kind : FileKind} {data : Bytes}
    {pos : ℕ} (hq : w.faults.calls (.flush kind) = []) :
    File.writeAllAt name kind data pos w = .ok ⟨⟩ { w with dir := w.dir.writeAt name pos data } := by
  unfold File.writeAllAt
  rw [bind_ok (call_quiet hq)]
  rfl

theorem createSegment_quiet {w : World} (id : SegmentId)
    (hc : w.faults.calls (.create .segment) = []) (hm : w.faults.calls (.writeMagic .segment) = [])
    (hs : w.faults.calls (.sync .segment) = []) (hp : w.dir.present = true)
    (h : segmentPath id ∉ w.dir.files) :
    createSegment id w = .ok (⟨segmentPath id, ⟨[], []⟩⟩, magicLen)
      { w with dir := w.dir.create (segmentPath id) segmentMagic } := by
  unfold createSegment
  rw [bind_ok (File.createNew_quiet hc hp h)]
  dsimp only
  set w₁ : World := { w with dir := w.dir.put (segmentPath id) ⟨[], []⟩ } with hw₁
  set w₂ : World := { w with dir := w₁.dir.writeAt (segmentPath id) 0 segmentMagic } with hw₂
  have hmagic : File.writeMagic ⟨segmentPath id, ⟨[], []⟩⟩ .segment segmentMagic w₁ = .ok ⟨⟩ w₂ :=
    File.writeMagic_quiet hm
  have hsync : File.syncAll (segmentPath id) .segment w₂ =
      .ok ⟨⟩ { w with dir := w₂.dir.sync (segmentPath id) } := File.syncAll_quiet hs
  rw [bind_ok hmagic, bind_ok hsync]
  rfl

theorem createManifest_calm (d : Dir) (hp : d.present = true) (h : manifestFileName ∉ d.files) :
    createManifest (calm d) = .ok (⟨manifestFileName, ⟨[], []⟩⟩, magicLen)
      (calm (d.create manifestFileName manifestMagic)) := by
  unfold createManifest
  rw [bind_ok (File.createNew_calm d manifestFileName .manifest hp h)]
  rfl

/-! ### Opening and flushing -/

theorem FrameCursor.flush_quiet {w : World} (c : FrameCursor) (name : FileName) {kind : FileKind}
    (hq : w.faults.calls (.flush kind) = []) :
    c.flush name kind w = .ok ⟨⟨[]⟩, c.position+c.buf.buf.length⟩
      { w with dir := w.dir.writeAt name c.position c.buf.buf } := by
  unfold FrameCursor.flush
  rw [bind_ok (File.writeAllAt_quiet hq)]
  rfl

theorem openSegment_quiet {w : World} {id : SegmentId} (hq : w.faults.opens = [])
    (h : HasSegment w.dir id) :
    openSegment id w = .ok (⟨segmentPath id, ⟨body w.dir id, []⟩⟩, magicLen) w := by
  have hread : Stream.readExact magicLen ⟨segmentMagic ++ body w.dir id, []⟩ =
      .ok segmentMagic ⟨body w.dir id, []⟩ := by
    have hlen : segmentMagic.length = magicLen := rfl
    rw [Stream.readExact_quiet magicLen _ (by rw [List.length_append, hlen]; omega),
      List.take_left' hlen, List.drop_left' hlen]
  have hopen : File.open (segmentPath id) w =
      .ok ⟨segmentPath id, ⟨segmentMagic ++ body w.dir id, []⟩⟩ w := by
    unfold File.open
    rw [get_bind, hq, h]
    rfl
  unfold openSegment
  rw [bind_ok hopen]
  unfold checkMagic
  dsimp only
  rw [hread]
  rfl

theorem fs_ok {α : Type} {m : Fs α} {s : Store} {w w' : World} {a : α} (h : m w = .ok a w') :
    fs m ⟨s, w⟩ = .ok a ⟨s, w'⟩ := by
  rw [fs]
  exact onPart_ok h

theorem fs_error {α : Type} {m : Fs α} {s : Store} {w w' : World} {e : IoError}
    (h : m w = .error e w') : fs m ⟨s, w⟩ = .error (.err e) ⟨s, w'⟩ := by
  rw [fs]
  exact onPart_error h

section
variable [Crates]

/-! ### Manifest appends -/

/-- The directory with the frame of an op written at `pos` of the manifest, and synced. -/
def Dir.appended (d : Dir) (pos : ℕ) (op : ManifestOp) : Dir :=
  (d.writeAt manifestFileName pos (frame (opFrame op))).sync manifestFileName

theorem Dir.differs_appended (d : Dir) (pos : ℕ) (op : ManifestOp) :
    d.Differs (d.appended pos op) manifestFileName := d.differs_writeAt_sync _ _ _

theorem manifestEnd_snoc (es : List Entry) (e : Entry) :
    manifestEnd (es ++ [e]) = manifestEnd es+(frame e).length := by
  simp [manifestEnd, Nat.add_assoc]

theorem Dir.bytes_appended {d : Dir} {es : List Entry}
    (h : d.bytes manifestFileName = some (manifestMagic ++ frames.encodeAll es)) (op : ManifestOp) :
    (d.appended (manifestEnd es) op).bytes manifestFileName =
      some (manifestMagic ++ frames.encodeAll (es ++ [opFrame op])) := by
  have hend : manifestEnd es = (manifestMagic ++ frames.encodeAll es).length := by
    rw [List.length_append]
    rfl
  rw [Dir.appended, Dir.bytes_sync, Dir.bytes_writeAt, if_pos rfl, h, Option.map_some, hend,
    overwrite_end, Grammar.encodeAll_append, List.append_assoc]
  simp

/-- One more op behind a recorded state. -/
theorem Recorded.append {d : Dir} {es : List Entry} {st st' : StoreState} {op : ManifestOp}
    (h : Recorded d es st) (hfit : Fits (opFrame op))
    (ha : StoreState.apply op st = .ok ⟨⟩ st') :
    Recorded (d.appended (manifestEnd es) op) (es ++ [opFrame op]) st' := by
  refine ⟨Dir.bytes_appended h.manifest op, ?_, replayEntries_snoc h.replays ha⟩
  intro e he
  rcases List.mem_append.mp he with he | he
  · exact h.fits e he
  · rw [List.mem_singleton.mp he]
    exact hfit

theorem Store.appendOp_ok {s : Store} {w : World} {op : ManifestOp} (message : String) {pos : ℕ}
    {st' : StoreState} (hc : s.manifestCursor = ⟨⟨[]⟩, pos⟩)
    (hf : w.faults.calls (.flush .manifest) = []) (hs : w.faults.calls (.sync .manifest) = [])
    (ha : StoreState.apply op s.state = .ok ⟨⟩ st') :
    Store.appendOp op message ⟨s, w⟩ =
      .ok ⟨⟩ ⟨{ s with state := st',
                       manifestCursor := ⟨⟨[]⟩, pos+(frame (opFrame op)).length⟩ },
        { w with dir := w.dir.appended pos op }⟩ := by
  have hbuf : s.manifestCursor.write ⟨0⟩ op.encode = ⟨⟨frame (opFrame op)⟩, pos⟩ := by
    rw [hc, FrameCursor.write]
    exact congrArg (FrameCursor.mk · pos) (FrameBuffer.write_eq ⟨[]⟩ (opFrame op))
  have hflush := FrameCursor.flush_quiet ⟨⟨frame (opFrame op)⟩, pos⟩ manifestFileName hf
  unfold Store.appendOp Store.setManifestCursor
  rw [get_bind, modify_bind, get_bind]
  dsimp only
  rw [hbuf, bind_ok (fs_ok hflush), modify_bind]
  dsimp only
  set w₁ : World := { w with dir := w.dir.writeAt manifestFileName pos (frame (opFrame op)) }
    with hw₁
  have hsync : File.syncAll manifestFileName .manifest w₁ =
      .ok ⟨⟩ { w with dir := w.dir.appended pos op } := File.syncAll_quiet hs
  rw [bind_ok (fs_ok hsync)]
  unfold Store.applyExpect
  dsimp only
  rw [ha]

/-! ### A new store -/

omit [Crates] in
/-- A directory without files of a store. -/
structure Fresh (d : Dir) : Prop where
  present : d.present = true
  manifest : manifestFileName ∉ d.files
  segments : ∀ name ∈ d.files, parseSegmentPath name = none

/-- The first op of every manifest. -/
def creation : ManifestOp := ManifestOp.bare (.createSegment ⟨1⟩ ⟨0⟩)

/-- The directory of a new store: the frame of the first op is written, but not synced. -/
def Dir.formatted (d : Dir) : Dir :=
  ((d.create manifestFileName manifestMagic).create (segmentPath ⟨1⟩) segmentMagic).writeAt
    manifestFileName magicLen (frame (opFrame creation))

omit [Crates] in
def firstSegment : SegmentEntry := ⟨⟨1⟩, ⟨0⟩⟩

omit [Crates] in
def firstState : StoreState :=
  { StoreState.empty with segments := [firstSegment], activeSegmentId := some ⟨1⟩ }

omit [Crates] in
theorem apply_creation : StoreState.apply creation StoreState.empty = .ok ⟨⟩ firstState := rfl

theorem fits_creation : Fits (opFrame creation) :=
  fits_short _ (by simp [Op.fields]) (by simp [Op.fields])

theorem createStore_calm {d : Dir} (h : Fresh d) :
    createStore (calm d) = .ok ⟨⟩ (calm d.formatted) := by
  have hnew : segmentPath ⟨1⟩ ∉ (d.create manifestFileName manifestMagic).files := by
    rw [Dir.mem_create]
    rintro (heq | hin)
    · exact segmentPath_ne_manifest ⟨1⟩ heq
    · have hp := h.segments _ hin
      rw [parseSegmentPath_segmentPath] at hp
      cases hp
  have hseg := createSegment_quiet (w := calm (d.create manifestFileName manifestMagic)) ⟨1⟩
    rfl rfl rfl ((Dir.present_create d _ _).trans h.present) hnew
  have hbuf : (FrameCursor.new magicLen).write ⟨0⟩ creation.encode =
      ⟨⟨frame (opFrame creation)⟩, magicLen⟩ :=
    congrArg (FrameCursor.mk · magicLen) (FrameBuffer.write_eq ⟨[]⟩ (opFrame creation))
  unfold createStore
  rw [bind_ok (createManifest_calm d h.present h.manifest)]
  dsimp only
  rw [bind_ok hseg]
  rw [show ManifestOp.bare (.createSegment ⟨1⟩ ⟨0⟩) = creation from rfl, hbuf]
  rfl

/-- What a new store leaves in its directory. -/
theorem Dir.bytes_formatted (d : Dir) (name : FileName) :
    d.formatted.bytes name =
      if name = manifestFileName then some (manifestMagic ++ frames.encodeAll [opFrame creation])
      else if name = segmentPath ⟨1⟩ then some segmentMagic else d.bytes name := by
  rw [Dir.formatted, Dir.bytes_writeAt, Dir.bytes_create, Dir.bytes_create, Dir.bytes_create,
    Dir.bytes_create]
  by_cases hm : name = manifestFileName
  · have hne := (segmentPath_ne_manifest ⟨1⟩).symm
    have hend : magicLen = manifestMagic.length := rfl
    rw [if_pos hm, if_pos hm, if_neg hne, if_pos rfl, Option.map_some, hend, overwrite_end]
    simp
  · simp only [if_neg hm]

theorem Dir.mem_formatted (d : Dir) (name : FileName) :
    name ∈ d.formatted.files ↔ name = segmentPath ⟨1⟩ ∨ name = manifestFileName ∨ name ∈ d.files := by
  rw [Dir.formatted, Dir.writeAt, Dir.mem_edit, Dir.mem_create, Dir.mem_create]

theorem clean_formatted {d : Dir} (h : Fresh d) :
    Clean d.formatted [opFrame creation] firstState (fun _ => []) firstSegment := by
  have hlists (id : SegmentId) : firstState.lists id = true ↔ id = ⟨1⟩ := by
    rw [lists_iff]
    simp [firstState, firstSegment, eq_comm]
  refine ⟨⟨?_, ⟨?_, ?_, ?_⟩, ⟨rfl, by simp [firstState], rfl, ?_, ?_⟩, ?_, ?_, ⟨?_, ?_⟩, ?_⟩, ?_⟩
  · simp [Dir.formatted, Dir.writeAt, h.present]
  · rw [Dir.bytes_formatted, if_pos rfl]
  · intro e he
    rw [List.mem_singleton.mp he]
    exact fits_creation
  · have hnone : replayEntries StoreState.empty magicLen [] = .ok StoreState.empty := rfl
    exact replayEntries_snoc hnone apply_creation
  · intro id
    rw [hlists]
    simp [firstState, StoreState.empty, firstSegment]
  · intro id hid
    simp [firstState, StoreState.empty] at hid
  · intro seg hseg
    have hpath : segmentPath firstSegment.id = segmentPath ⟨1⟩ := rfl
    rw [List.mem_singleton.mp hseg, Dir.bytes_formatted, if_neg (segmentPath_ne_manifest _),
      if_pos hpath, Grammar.encodeAll_nil, List.append_nil]
  · intro seg _ info hi
    cases hi
  · intro name hname id hid
    rcases (Dir.mem_formatted d name).mp hname with rfl | rfl | hold
    · rw [parseSegmentPath_segmentPath] at hid
      obtain rfl := Option.some.inj hid
      exact ⟨rfl, Or.inl ((hlists _).mpr rfl)⟩
    · rw [parseSegmentPath_manifest] at hid
      cases hid
    · rw [h.segments name hold] at hid
      cases hid
  · intro id hid
    simp [firstState, StoreState.empty] at hid
  · rintro id (hid | hid)
    · rw [(hlists id).mp hid]
      decide
    · simp [firstState, StoreState.empty] at hid
  · intro seg _ e he
    cases he

/-- `open_or_create` in a directory without a store. -/
theorem openOrCreate_fresh {d : Dir} (h : Fresh d) (cfg : StoreCfg) :
    Store.openOrCreate cfg (calm d) = Store.openStore cfg (calm d.formatted) := by
  have hexists : manifestExists (calm d) = .ok false (calm d) := by
    unfold manifestExists
    rw [get_bind]
    have hno : decide (manifestFileName ∈ (calm d).dir.files) = false := decide_eq_false h.manifest
    rw [hno, Bool.and_false]
    rfl
  unfold Store.openOrCreate
  rw [bind_ok (onScan_ok hexists), if_neg (by decide), bind_ok (onScan_ok (createStore_calm h))]

end
end Woodshed
