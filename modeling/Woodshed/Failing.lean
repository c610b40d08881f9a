import Woodshed.Recording
import Woodshed.Triples

/-! Calls on a file system that fails: what the manifest says and what the store remembers when the
append of an op stops at its flush or its sync. -/
namespace Woodshed
open Sequencing Framing

/-! ### What file-system calls leave alone -/

/-- The manifest file is `bytes`, and, if `synced`, no coming sync of it fails. -/
structure Held (synced : Prop) (bytes : Option Bytes) (w : World) : Prop where
  manifest : w.dir.bytes manifestFileName = bytes
  syncs : synced → ∀ b ∈ w.faults.calls (.sync .manifest), b = false

section
variable {synced : Prop} {bytes : Option Bytes}

theorem Held.of_dir {w : World} (h : Held synced bytes w) {d : Dir}
    (hd : d.bytes manifestFileName = w.dir.bytes manifestFileName) :
    Held synced bytes { w with dir := d } :=
  ⟨hd.trans h.manifest, h.syncs⟩

/-- A call takes one entry of a schedule. -/
theorem Held.popped {w : World} (h : Held synced bytes w) (c : Call) {b : Bool} {bs : List Bool}
    (hq : w.faults.calls c = b :: bs) :
    Held synced bytes { w with faults :=
      { w.faults with calls := Function.update w.faults.calls c bs } } := by
  refine ⟨h.manifest, fun hs b' hb' => ?_⟩
  change b' ∈ Function.update w.faults.calls c bs (.sync .manifest) at hb'
  by_cases hc : Call.sync .manifest = c
  · subst hc
    rw [Function.update_self] at hb'
    exact h.syncs hs b' (by rw [hq]; simp [hb'])
  · rw [Function.update_of_ne hc] at hb'
    exact h.syncs hs b' hb'

theorem keeps_call (c : Call) : Keeps (Held synced bytes) (call c) := by
  intro w h
  unfold call
  cases hq : w.faults.calls c with
  | nil => exact h
  | cons b bs =>
    cases b with
    | true => exact h.popped c hq
    | false => exact h.popped c hq

/-- A call that no entry of its schedule fails. -/
theorem call_passes (c : Call) {w : World} (h : ∀ b ∈ w.faults.calls c, b = false) :
    ∃ w', call c w = .ok () w' ∧ w'.dir = w.dir := by
  unfold call
  cases hq : w.faults.calls c with
  | nil => exact ⟨w, rfl, rfl⟩
  | cons b bs =>
    obtain rfl : b = false := h b (by rw [hq]; simp)
    exact ⟨_, rfl, rfl⟩

theorem keeps_createNew {name : FileName} (kind : FileKind) (hne : manifestFileName ≠ name) :
    Triple (Held synced bytes) (File.createNew name kind)
      (fun f w => f.name = name ∧ Held synced bytes w) (Held synced bytes) := by
  unfold File.createNew
  refine Triple.bind (keeps_call _) fun _ => ?_
  intro w h
  rw [get_bind]
  split
  · rename_i heq
    split at heq
    · cases heq
    · split at heq
      · cases heq
      · obtain ⟨rfl, rfl⟩ := EStateM.Result.ok.inj heq
        refine ⟨rfl, h.of_dir ?_⟩
        rw [Dir.bytes_put, if_neg hne]
  · rename_i heq
    split at heq
    · cases heq
      exact h
    · split at heq
      · cases heq
        exact h
      · cases heq

theorem keeps_edit (c : Call) {change : Dir → Dir}
    (h : ∀ d, (change d).bytes manifestFileName = d.bytes manifestFileName) :
    Keeps (Held synced bytes) (do
      call c
      modify fun w => { w with dir := change w.dir } : Fs Unit) :=
  Keeps.bind (keeps_call c) fun _ => Keeps.modify fun w hw => hw.of_dir (h w.dir)

theorem keeps_writeMagic (f : File) (kind : FileKind) (magic : Bytes)
    (hne : manifestFileName ≠ f.name) : Keeps (Held synced bytes) (File.writeMagic f kind magic) :=
  keeps_edit _ fun d => by rw [Dir.bytes_writeAt, if_neg hne]

theorem keeps_writeAllAt {name : FileName} (kind : FileKind) (data : Bytes) (pos : ℕ)
    (hne : manifestFileName ≠ name) :
    Keeps (Held synced bytes) (File.writeAllAt name kind data pos) :=
  keeps_edit _ fun d => by rw [Dir.bytes_writeAt, if_neg hne]

theorem keeps_syncAll (name : FileName) (kind : FileKind) :
    Keeps (Held synced bytes) (File.syncAll name kind) :=
  keeps_edit _ fun d => d.bytes_sync name _

theorem keeps_open (name : FileName) : Keeps (Held synced bytes) (File.open name) := by
  unfold File.open
  refine Keeps.get fun w => ?_
  have htake (rest : List (Option (List ReadStep))) : Keeps (Held synced bytes)
      (modify fun w => { w with faults := { w.faults with opens := rest } } : Fs PUnit) :=
    Keeps.modify fun w h => ⟨h.manifest, h.syncs⟩
  split
  · exact Keeps.bind (htake _) fun _ => Keeps.throw _
  · exact Keeps.throw _
  · exact Keeps.ret _
  · exact Keeps.bind (htake _) fun _ => Keeps.ret _

theorem keeps_remove {name : FileName} (hne : manifestFileName ≠ name) :
    Keeps (Held synced bytes) (File.remove name) := by
  unfold File.remove
  refine Keeps.bind (keeps_call _) fun _ => Keeps.get fun w => ?_
  split
  · refine Keeps.modify fun w h => h.of_dir ?_
    rw [Dir.bytes_remove, if_neg hne]
  · exact Keeps.throw _

theorem keeps_createSegment (id : SegmentId) : Keeps (Held synced bytes) (createSegment id) := by
  have hne : manifestFileName ≠ segmentPath id := (segmentPath_ne_manifest id).symm
  unfold createSegment
  refine Triple.bind (keeps_createNew .segment hne) fun f => ?_
  rintro w ⟨hname, h⟩
  have hrest : Keeps (Held synced bytes) (do
      File.writeMagic f .segment segmentMagic
      File.syncAll f.name .segment
      return (f, magicLen) : Fs (File × ℕ)) :=
    Keeps.bind (keeps_writeMagic f _ _ (hname ▸ hne)) fun _ =>
      Keeps.bind (keeps_syncAll _ _) fun _ => Keeps.ret _
  exact hrest w h

theorem keeps_deleteSegment (id : SegmentId) : Keeps (Held synced bytes) (deleteSegment id) := by
  unfold deleteSegment
  refine Keeps.bind (keeps_remove (segmentPath_ne_manifest id).symm).attempt fun r => ?_
  cases r with
  | ok _ => exact Keeps.ret _
  | error e =>
    dsimp only
    split
    · exact Keeps.ret _
    · exact Keeps.throw _

theorem keeps_checkMagic (f : File) (expected : Bytes) :
    Keeps (Held synced bytes) (checkMagic f expected) := by
  unfold checkMagic
  split
  · exact Keeps.throw _
  · split
    · exact Keeps.throw _
    · exact Keeps.ret _

theorem keeps_openSegment (id : SegmentId) : Keeps (Held synced bytes) (openSegment id) :=
  Keeps.bind (keeps_open _) fun f => Keeps.bind (keeps_checkMagic f _) fun _ => Keeps.ret _

end

section
variable [Crates]

/-! ### The manifest and the state -/

/-- The manifest file is the frames `es`, which replay to the state in memory. `synced`: no coming
sync of it fails. `clear`: no op is left in the buffer. -/
structure Matched (synced clear : Prop) (es : List Entry) (m : Machine) : Prop where
  recorded : Recorded m.world.dir es m.store.state
  position : m.store.manifestCursor.position = manifestEnd es
  active : m.store.state.activeSegmentId = some m.store.activeId
  syncs : synced → ∀ b ∈ m.world.faults.calls (.sync .manifest), b = false
  empty : clear → m.store.manifestCursor.buf = ⟨[]⟩

section
variable {synced clear : Prop} {es : List Entry} {m : Machine}

theorem Matched.mono (h : Matched synced clear es m) {synced' clear' : Prop} (hs : synced' → synced)
    (hc : clear' → clear) : Matched synced' clear' es m :=
  ⟨h.recorded, h.position, h.active, fun h' => h.syncs (hs h'), fun h' => h.empty (hc h')⟩

theorem Matched.of_held (h : Matched synced clear es m) {w : World}
    (hw : Held synced (m.world.dir.bytes manifestFileName) w) :
    Matched synced clear es ⟨m.store, w⟩ :=
  ⟨⟨hw.manifest.trans h.recorded.manifest, h.recorded.fits, h.recorded.replays⟩, h.position,
    h.active, hw.syncs, h.empty⟩

theorem keeps_fs {α : Type} {x : Fs α} (h : ∀ bytes, Keeps (Held synced bytes) x) :
    Keeps (Matched synced clear es) (fs x) := by
  refine Triple.onPart fun m hm => ?_
  refine (h (m.world.dir.bytes manifestFileName)).weaken ?_ (fun _ _ hw => hm.of_held hw)
    fun _ hw => hm.of_held hw
  rintro _ rfl
  exact ⟨rfl, hm.syncs⟩

theorem keeps_modify {f : Machine → Machine} (hw : ∀ m, (f m).world = m.world)
    (hs : ∀ m, (f m).store.state = m.store.state)
    (hc : ∀ m, (f m).store.manifestCursor = m.store.manifestCursor)
    (ha : ∀ m, (f m).store.activeId = m.store.activeId) :
    Keeps (Matched synced clear es) (modify f : StoreM Unit) := by
  refine Triple.modify fun m h => ⟨?_, ?_, ?_, ?_, ?_⟩
  · rw [hw, hs]
    exact h.recorded
  · rw [hc]
    exact h.position
  · rw [hs, ha]
    exact h.active
  · rw [hw]
    exact h.syncs
  · rw [hc]
    exact h.empty

end

/-! ### The append of an op -/

section
variable {s : Store} {w : World} {es : List Entry}

/-- From an empty buffer the append of an op either stops at its flush, which leaves the op in the
buffer and nothing else, or records it. -/
theorem Matched.appendOp (h : Matched True True es ⟨s, w⟩) {op : ManifestOp} {st' : StoreState}
    (hfit : Fits (opFrame op)) (ha : StoreState.apply op s.state = .ok ⟨⟩ st') (message : String) :
    (∃ e m', Store.appendOp op message ⟨s, w⟩ = .error e m' ∧ Matched True False es m') ∨
      ∃ w', Store.appendOp op message ⟨s, w⟩ = .ok ⟨⟩ ⟨s.recorded op st', w'⟩ ∧
        Recorded w'.dir (es ++ [opFrame op]) st' ∧
        (s.recorded op st').manifestCursor.position = manifestEnd (es ++ [opFrame op]) ∧
        ∀ b ∈ w'.faults.calls (.sync .manifest), b = false := by
  have hpos := h.position
  have hcursor : s.manifestCursor = ⟨⟨[]⟩, manifestEnd es⟩ := by
    rw [← hpos, ← h.empty trivial]
  have hbuf : s.manifestCursor.write ⟨0⟩ op.encode = ⟨⟨frame (opFrame op)⟩, manifestEnd es⟩ := by
    rw [hcursor, FrameCursor.write]
    exact congrArg (FrameCursor.mk · (manifestEnd es)) (FrameBuffer.write_eq ⟨[]⟩ (opFrame op))
  have hcall := @keeps_call True (w.dir.bytes manifestFileName) (.flush .manifest) w ⟨rfl, h.syncs⟩
  unfold Store.appendOp Store.setManifestCursor
  rw [get_bind, modify_bind, get_bind]
  dsimp only
  rw [hbuf]
  cases hflush : call (.flush .manifest) w with
  | error e w₁ =>
    -- the op stays in the buffer
    rw [hflush] at hcall
    have hfail : FrameCursor.flush ⟨⟨frame (opFrame op)⟩, manifestEnd es⟩ manifestFileName .manifest w
        = .error e w₁ := bind_error (bind_error hflush)
    left
    refine ⟨_, _, bind_error (fs_error hfail), ?_, rfl, h.active, hcall.syncs, False.elim⟩
    exact ⟨hcall.manifest.trans h.recorded.manifest, h.recorded.fits, h.recorded.replays⟩
  | ok _ w₁ =>
    rw [hflush] at hcall
    set d₁ := w₁.dir.writeAt manifestFileName (manifestEnd es) (frame (opFrame op)) with hd₁
    have hwrite : File.writeAllAt manifestFileName .manifest (frame (opFrame op)) (manifestEnd es) w =
        .ok ⟨⟩ { w₁ with dir := d₁ } := by
      unfold File.writeAllAt
      rw [bind_ok hflush]
      rfl
    have hdone : FrameCursor.flush ⟨⟨frame (opFrame op)⟩, manifestEnd es⟩ manifestFileName .manifest w
        = .ok ⟨⟨[]⟩, manifestEnd es+(frame (opFrame op)).length⟩ { w₁ with dir := d₁ } := by
      unfold FrameCursor.flush
      rw [show (FrameBuffer.mk (frame (opFrame op))).pending = frame (opFrame op) from rfl,
        bind_ok hwrite]
      rfl
    have hheld : Held True (d₁.bytes manifestFileName) { w₁ with dir := d₁ } := ⟨rfl, hcall.syncs⟩
    obtain ⟨w₂, hpass, hdir⟩ := call_passes (.sync .manifest) (hheld.syncs trivial)
    have hsynced := keeps_call (.sync .manifest) _ hheld
    rw [hpass] at hsynced
    have hsync : File.syncAll manifestFileName .manifest { w₁ with dir := d₁ } =
        .ok ⟨⟩ { w₂ with dir := w₂.dir.sync manifestFileName } := by
      unfold File.syncAll
      rw [bind_ok hpass]
      rfl
    have hrec : Recorded w₁.dir es s.state :=
      ⟨hcall.manifest.trans h.recorded.manifest, h.recorded.fits, h.recorded.replays⟩
    right
    refine ⟨{ w₂ with dir := w₂.dir.sync manifestFileName }, ?_, ?_, ?_, hsynced.syncs trivial⟩
    · rw [bind_ok (fs_ok hdone), modify_bind]
      dsimp only
      rw [bind_ok (fs_ok hsync)]
      unfold Store.applyExpect
      dsimp only
      rw [ha, Store.recorded, hpos]
    · have happended := hrec.append hfit ha
      rw [Dir.appended, ← hd₁] at happended
      rw [show w₂.dir = d₁ from hdir]
      exact happended
    · rw [manifestEnd_snoc, ← hpos]
      rfl

/-- An op that leaves the active segment where it is. -/
theorem Matched.append (h : Matched True True es ⟨s, w⟩) {op : ManifestOp} {st' : StoreState}
    (hfit : Fits (opFrame op)) (ha : StoreState.apply op s.state = .ok ⟨⟩ st')
    (hactive : st'.activeSegmentId = s.state.activeSegmentId) (message : String) :
    (∃ e m', Store.appendOp op message ⟨s, w⟩ = .error e m' ∧ Matched True False es m') ∨
      ∃ w', Store.appendOp op message ⟨s, w⟩ = .ok ⟨⟩ ⟨s.recorded op st', w'⟩ ∧
        Matched True True (es ++ [opFrame op]) ⟨s.recorded op st', w'⟩ := by
  rcases h.appendOp hfit ha message with hfail | ⟨w', hrun, hrec, hpos, hsyncs⟩
  · exact Or.inl hfail
  · exact Or.inr ⟨w', hrun, hrec, hpos, hactive.trans h.active, fun _ => hsyncs, fun _ => rfl⟩

/-! ### The calls -/

/-- The manifest of `m` is `es` with the frames of ops behind it that are as `own` has them. -/
def Grown (own : ManifestOp → Prop) (es : List Entry) (m : Machine) : Prop :=
  ∃ ops : List ManifestOp, (∀ op ∈ ops, own op) ∧ Matched False False (es ++ ops.map opFrame) m

omit [Crates] in
theorem grown_none {synced clear : Prop} [Crates] {m : Machine} (h : Matched synced clear es m)
    (own : ManifestOp → Prop) : Grown own es m :=
  ⟨[], by simp, by simpa using h.mono False.elim False.elim⟩

theorem grown_one {synced clear : Prop} {m : Machine} {op : ManifestOp}
    (h : Matched synced clear (es ++ [opFrame op]) m) {own : ManifestOp → Prop} (hop : own op) :
    Grown own es m :=
  ⟨[op], by simpa using hop, h.mono False.elim False.elim⟩

theorem Matched.writeMetadata (h : Matched True True es ⟨s, w⟩) {pairs : Meta}
    (hfit : Fits (opFrame (ManifestOp.withMeta .metadata pairs))) :
    Grown (· = ManifestOp.withMeta .metadata pairs) es
      (outcomeOf (Store.writeMetadata pairs) ⟨s, w⟩).2 := by
  have ha : StoreState.apply (ManifestOp.withMeta .metadata pairs) s.state =
      .ok ⟨⟩ { s.state with
        metaPairs := pairs.foldl StoreState.setMeta s.state.metaPairs } := rfl
  rcases h.append hfit ha rfl "NoOp must always be valid" with ⟨e, m', hrun, hm⟩ | ⟨w', hrun, hm⟩
  · rw [Store.writeMetadata, outcomeOf_error hrun]
    exact grown_none hm _
  · rw [Store.writeMetadata, outcomeOf_ok hrun]
    exact grown_one hm rfl

theorem Matched.truncateStart (h : Matched True True es ⟨s, w⟩) {first : EntryId}
    {metaPairs : Meta} (hfirst : s.state.firstEntry ≤ first)
    (hfit : Fits (opFrame (headOp s.state first metaPairs))) :
    Grown (· = headOp s.state first metaPairs) es
      (outcomeOf (Store.truncateStart first metaPairs) ⟨s, w⟩).2 := by
  have hbegin := Store.truncateStart_begins (m := ⟨s, w⟩) metaPairs hfirst
  rcases h.append hfit (apply_headOp metaPairs hfirst) rfl "truncate_start was pre-validated" with
    ⟨e, m', hrun, hm⟩ | ⟨w', hrun, hm⟩
  · rw [outcomeOf_error (hbegin.trans (bind_error hrun))]
    exact grown_none hm _
  · rw [outcomeOf_ok (hbegin.trans (bind_ok hrun))]
    exact ⟨[headOp s.state first metaPairs], by simp, hm.recorded, hm.position, hm.active, False.elim,
      False.elim⟩

/-- A clean-up that fails has recorded the segments it came to before, and no other. -/
theorem Matched.deleteDead {ids : List SegmentId} (hnd : ids.Nodup) {s : Store} {w : World}
    {es : List Entry} (h : Matched True True es ⟨s, w⟩) (hin : ∀ id ∈ ids, id ∈ s.state.dead) :
    ∃ done : List SegmentId, done ⊆ ids ∧
      Matched True False (es ++ done.map fun id => opFrame (ManifestOp.bare (.segmentDeleted id)))
        (outcomeOf (forM ids Store.deleteDead) ⟨s, w⟩).2 := by
  induction ids generalizing s w es with
  | nil =>
    refine ⟨[], by simp, ?_⟩
    rw [List.map_nil, List.append_nil]
    exact h.mono (fun h => h) False.elim
  | cons id ids ih =>
    obtain ⟨hnot, hnd⟩ := List.nodup_cons.mp hnd
    have hkeeps := @keeps_deleteSegment True (w.dir.bytes manifestFileName) id w ⟨rfl, h.syncs⟩
    rw [forM_cons]
    cases hdel : deleteSegment id w with
    | error e w₁ =>
      rw [hdel] at hkeeps
      have hdead : Store.deleteDead id ⟨s, w⟩ = .error (.err e) ⟨s, w₁⟩ := bind_error (fs_error hdel)
      rw [outcomeOf_error (bind_error hdead)]
      exact ⟨[], by simp, by simpa using (h.of_held hkeeps).mono (fun h => h) False.elim⟩
    | ok _ w₁ =>
      rw [hdel] at hkeeps
      have hm := h.of_held hkeeps
      have hfit : Fits (opFrame (ManifestOp.bare (.segmentDeleted id))) :=
        fits_short _ (by simp [Op.fields]) (by simp [Op.fields])
      rcases hm.append hfit (apply_segmentDeleted (hin id (by simp))) rfl
        "SegmentDeleted on a dead segment must be valid" with ⟨e, m', hrun, hm'⟩ | ⟨w', hrun, hm'⟩
      · have hdead : Store.deleteDead id ⟨s, w⟩ = .error e m' :=
          (bind_ok (fs_ok hdel)).trans hrun
        rw [outcomeOf_error (bind_error hdead)]
        exact ⟨[], by simp, by simpa using hm'⟩
      · have hdead : Store.deleteDead id ⟨s, w⟩ = .ok ⟨⟩ _ := (bind_ok (fs_ok hdel)).trans hrun
        obtain ⟨done, hsub, hm''⟩ := ih hnd hm' fun other ho => by
          refine Finset.mem_erase.mpr ⟨?_, hin other (by simp [ho])⟩
          rintro rfl
          exact hnot ho
        refine ⟨id :: done, List.cons_subset_cons id hsub, ?_⟩
        rw [outcomeOf, bind_ok hdead, List.map_cons, List.append_cons]
        exact hm''

theorem Matched.deleteDeadSegments (h : Matched True True es ⟨s, w⟩) :
    Grown (fun op => ∃ id ∈ s.state.dead, op = ManifestOp.bare (.segmentDeleted id)) es
      (outcomeOf Store.deleteDeadSegments ⟨s, w⟩).2 := by
  have hbegin : Store.deleteDeadSegments ⟨s, w⟩ =
      (forM (Crates.hashIter s.state.dead) Store.deleteDead >>= fun _ =>
        pure (Crates.hashIter s.state.dead).length) ⟨s, w⟩ := rfl
  have hsame : (outcomeOf Store.deleteDeadSegments ⟨s, w⟩).2 =
      (outcomeOf (forM (Crates.hashIter s.state.dead) Store.deleteDead) ⟨s, w⟩).2 := by
    rw [outcomeOf, outcomeOf, hbegin]
    cases hrun : forM (Crates.hashIter s.state.dead) Store.deleteDead ⟨s, w⟩ with
    | ok _ m' => rw [bind_ok hrun]; rfl
    | error e m' => rw [bind_error hrun]
  obtain ⟨done, hsub, hm⟩ := h.deleteDead (Crates.hashIter_nodup s.state.dead)
    fun id hid => (Crates.mem_hashIter _ _).mp hid
  rw [hsame]
  refine ⟨done.map fun id => ManifestOp.bare (.segmentDeleted id), ?_, ?_⟩
  · intro op hop
    obtain ⟨id, hid, rfl⟩ := List.mem_map.mp hop
    exact ⟨id, (Crates.mem_hashIter _ _).mp (hsub hid), rfl⟩
  · rw [List.map_map]
    exact hm.mono False.elim False.elim

/-- What comes of a rollover that fails: nothing is on the manifest. -/
theorem Matched.doRollover (h : Matched True True es ⟨s, w⟩) (first : EntryId) :
    (∃ e m', Store.doRollover first ⟨s, w⟩ = .error e m' ∧ Matched True False es m') ∨
      ∃ m', Store.doRollover first ⟨s, w⟩ = .ok ⟨⟩ m' ∧
        Matched True True (es ++ [opFrame (rollOp s first)]) m' := by
  have hkeeps := @keeps_createSegment True (w.dir.bytes manifestFileName) s.nextSegId w ⟨rfl, h.syncs⟩
  unfold Store.doRollover
  rw [get_bind]
  dsimp only
  cases hcreate : createSegment s.nextSegId w with
  | error e w₁ =>
    rw [hcreate] at hkeeps
    exact Or.inl ⟨_, _, bind_error (fs_error hcreate), (h.of_held hkeeps).mono (fun h => h) False.elim⟩
  | ok f w₁ =>
    rw [hcreate] at hkeeps
    have hfit : Fits (opFrame (rollOp s first)) :=
      fits_short _ (by simp [Op.fields]) (by simp [Op.fields])
    rw [bind_ok (fs_ok hcreate)]
    rcases (h.of_held hkeeps).appendOp hfit (apply_rollOp first h.active)
      "rollover op must be valid against current state" with
      ⟨e, m', hrun, hm⟩ | ⟨w', hrun, hrec, hpos, hsyncs⟩
    · unfold rollOp at hrun
      exact Or.inl ⟨e, m', bind_error hrun, hm⟩
    · right
      refine ⟨_, bind_ok hrun, hrec, hpos, rfl, fun _ => hsyncs, fun _ => rfl⟩

theorem keeps_openActive {synced clear : Prop} :
    Keeps (Matched synced clear es) Store.openActive := by
  unfold Store.openActive
  refine Keeps.get fun m => ?_
  split
  · exact Keeps.ret _
  · exact Keeps.bind (keeps_fs fun _ => keeps_openSegment _) fun _ =>
      keeps_modify (fun _ => rfl) (fun _ => rfl) (fun _ => rfl) fun _ => rfl

theorem keeps_flushActive {synced clear : Prop} :
    Keeps (Matched synced clear es) Store.flushActive := by
  unfold Store.flushActive
  refine Keeps.get fun m => Keeps.bind (keeps_fs fun _ => ?_) fun _ =>
      keeps_modify (fun _ => rfl) (fun _ => rfl) (fun _ => rfl) fun _ => rfl
  unfold FrameCursor.flush
  exact Keeps.bind (keeps_writeAllAt _ _ _ (segmentPath_ne_manifest _).symm) fun _ => Keeps.ret _

/-- What a write does behind its rollover. -/
def Store.writeBehind (last : EntryId) (count : ℕ) : StoreM Commit := do
  Store.openActive
  Store.flushActive
  modify fun m => { m with store := { m.store with
    lastEntryId := some last
    activeEntryCount := m.store.activeEntryCount+count
    rolloverPending := m.store.rolloverPending ||
      decide (m.store.activeCursor.position > m.store.cfg.segmentRolloverTriggerBytes) } }
  let m ← get
  return some m.store.activeId

theorem StoreWriter.write_begins (first last : EntryId) (count : ℕ) (m : Machine) :
    StoreWriter.write ⟨some first, some last, count⟩ m =
      if m.store.rolloverPending = true then
        (Store.doRollover first >>= fun _ =>
          modify (fun m => { m with store := { m.store with rolloverPending := false } }) >>= fun _ =>
            Store.writeBehind last count) m
      else Store.writeBehind last count m := by
  unfold StoreWriter.write
  by_cases hp : m.store.rolloverPending = true
  · simp [hp, Store.writeBehind]
  · simp [hp, Store.writeBehind]

theorem keeps_writeBehind {synced clear : Prop} (last : EntryId) (count : ℕ) :
    Keeps (Matched synced clear es) (Store.writeBehind last count) :=
  Keeps.bind keeps_openActive fun _ => Keeps.bind keeps_flushActive fun _ =>
    Keeps.bind (keeps_modify (fun _ => rfl) (fun _ => rfl) (fun _ => rfl) fun _ => rfl) fun _ =>
      Keeps.get fun _ => Keeps.ret _

/-- Whatever comes of a call that keeps the manifest and the state. -/
theorem grown_of_keeps {synced clear : Prop} {α : Type} {x : StoreM α} {m : Machine}
    (hx : Keeps (Matched synced clear es) x) (h : Matched synced clear es m)
    (own : ManifestOp → Prop) : Grown own es (outcomeOf x m).2 := by
  cases hrun : x m with
  | ok a m' =>
    rw [outcomeOf_ok hrun]
    exact grown_none (Triple.ok hx h hrun) own
  | error e m' =>
    rw [outcomeOf_error hrun]
    exact grown_none (Triple.error hx h hrun) own

theorem Matched.buffered {synced clear : Prop} (h : Matched synced clear es ⟨s, w⟩)
    (xs : List Entry) : Matched synced clear es ⟨s.buffered xs, w⟩ :=
  ⟨h.recorded, h.position, h.active, h.syncs, h.empty⟩

/-- Without a pending rollover a batch leaves the manifest alone. -/
theorem Matched.batch_steady {synced clear : Prop} (h : Matched synced clear es ⟨s, w⟩)
    {xs : List Entry} (hp : xs ≠ [] → s.rolloverPending = false) (own : ManifestOp → Prop) :
    Grown own es (outcomeOf (Store.batch xs) ⟨s, w⟩).2 := by
  have hbatch : Store.batch xs ⟨s, w⟩ = (writerOf xs).write ⟨s.buffered xs, w⟩ :=
    bind_ok (Store.pushAll_eq xs s w)
  rw [outcomeOf, hbatch]
  cases xs with
  | nil => exact grown_none (h.buffered []) own
  | cons x xs =>
    have hw : writerOf (x :: xs) = _ := writerOf_eq rfl (List.getLast?_eq_some_getLast (by simp))
    have hsteady : (s.buffered (x :: xs)).rolloverPending = false := hp (by simp)
    rw [hw, StoreWriter.write_begins, if_neg (by simp [hsteady])]
    exact grown_of_keeps (keeps_writeBehind _ _) (h.buffered _) own

theorem Matched.batch (h : Matched True True es ⟨s, w⟩) (x : Entry) (xs : List Entry)
    (hp : s.rolloverPending = true) :
    Grown (· = rollOp s x.1) es (outcomeOf (Store.batch (x :: xs)) ⟨s, w⟩).2 := by
  have hbatch : Store.batch (x :: xs) ⟨s, w⟩ =
      (writerOf (x :: xs)).write ⟨s.buffered (x :: xs), w⟩ :=
    bind_ok (Store.pushAll_eq _ s w)
  have hw : writerOf (x :: xs) = _ := writerOf_eq rfl (List.getLast?_eq_some_getLast (by simp))
  have hpending : (s.buffered (x :: xs)).rolloverPending = true := hp
  rw [outcomeOf, hbatch, hw, StoreWriter.write_begins, if_pos hpending]
  rcases (h.buffered (x :: xs)).doRollover x.1 with ⟨e, m', hrun, hm⟩ | ⟨m', hrun, hm⟩
  · rw [bind_error hrun]
    exact grown_none hm _
  · rw [bind_ok hrun]
    have hrest : Keeps (Matched True True (es ++ [opFrame (rollOp s x.1)]))
        (modify (fun m => { m with store := { m.store with rolloverPending := false } }) >>= fun _ =>
          Store.writeBehind ((x :: xs).getLast (by simp)).1 (x :: xs).length) :=
      Keeps.bind (keeps_modify (fun _ => rfl) (fun _ => rfl) (fun _ => rfl) fun _ => rfl) fun _ =>
        keeps_writeBehind _ _
    obtain ⟨ops, hops, hgrown⟩ := grown_of_keeps hrest hm (fun _ => False)
    obtain rfl : ops = [] := List.eq_nil_iff_forall_not_mem.mpr hops
    rw [List.map_nil, List.append_nil] at hgrown
    exact grown_one hgrown rfl

end

/-! ### Requests and runs of them -/

/-- The machine with the faults to come. -/
def Machine.facing (m : Machine) (f : Faults) : Machine := ⟨m.store, ⟨m.world.dir, f⟩⟩

/-- Whether the request appends to the manifest. -/
def Request.Appends (m : Machine) : Request → Prop
  | .batch xs => xs ≠ [] ∧ m.store.rolloverPending = true
  | .truncateStart first _ => m.store.state.firstEntry ≤ first
  | .deleteDeadSegments => m.store.state.dead ≠ ∅
  | .writeMetadata _ => True
  | .reopen _ => False

/-- The ops that the request appends on its own account. -/
def Request.Own (m : Machine) (op : ManifestOp) : Request → Prop
  | .batch xs => ∃ first ∈ xs.head?.map (·.1), op = rollOp m.store first
  | .truncateStart first metaPairs => op = headOp m.store.state first metaPairs
  | .deleteDeadSegments => ∃ id ∈ m.store.state.dead, op = ManifestOp.bare (.segmentDeleted id)
  | .writeMetadata pairs => op = ManifestOp.withMeta .metadata pairs
  | .reopen _ => False

/-- The request keeps the store open, its op fits a frame, and if it appends, then no op of a failed
request is in the buffer and no sync of the manifest fails. -/
structure Request.Undelayed (m : Machine) (r : Request) : Prop where
  open_ : ∀ cfg, r ≠ .reopen cfg
  recordable : r.Recordable m
  empty : r.Appends m → m.store.manifestCursor.buf = ⟨[]⟩
  syncs : r.Appends m → ∀ b ∈ m.world.faults.calls (.sync .manifest), b = false

/-- Requests of one session, each with faults of its own. -/
inductive Faltering (P : Machine → Request → Prop) (m₀ : Machine) : Machine → Prop
  | here : Faltering P m₀ m₀
  | next {m : Machine} (r : Request) (f : Faults) (h : Faltering P m₀ m) (hp : P (m.facing f) r) :
      Faltering P m₀ (r.perform (m.facing f)).2

/-- What replaying the manifest gives. -/
def Dir.replayed (d : Dir) : Option StoreState :=
  match openManifest (calm d) with
  | .ok (file, offset) _ =>
    match replay file offset with
    | .ok result => some result.state
    | .error _ => none
  | .error _ _ => none

theorem Recorded.replayed {d : Dir} {es : List Entry} {st : StoreState} (h : Recorded d es st) :
    d.replayed = some st := by
  have hreplay := replayLoop_entries es [] magicLen StoreState.empty h.fits (by decide)
  rw [List.append_nil, h.replays] at hreplay
  have hresult : replay ⟨manifestFileName, ⟨frames.encodeAll es, []⟩⟩ magicLen = .ok ⟨st, _⟩ := hreplay
  rw [Dir.replayed, openManifest_ok h.manifest]
  dsimp only
  rw [hresult]

theorem Request.grown {m : Machine} {es : List Entry} (h : Matched False False es m) (r : Request)
    (f : Faults) (hr : r.Undelayed (m.facing f)) :
    Grown (fun op => r.Own (m.facing f) op) es (r.perform (m.facing f)).2 := by
  have hfaced : Matched False False es (m.facing f) :=
    ⟨h.recorded, h.position, h.active, False.elim, False.elim⟩
  have hready (ha : r.Appends (m.facing f)) : Matched True True es (m.facing f) :=
    ⟨h.recorded, h.position, h.active, fun _ => hr.syncs ha, fun _ => hr.empty ha⟩
  cases r with
  | batch xs =>
    cases xs with
    | nil => exact hfaced.batch_steady (fun hne => absurd rfl hne) _
    | cons x xs =>
      by_cases hp : m.store.rolloverPending = true
      · obtain ⟨ops, hops, hm⟩ := (hready ⟨by simp, hp⟩).batch x xs hp
        exact ⟨ops, fun op hop => ⟨x.1, rfl, hops op hop⟩, hm⟩
      · exact hfaced.batch_steady (fun _ => by simpa using hp) _
  | truncateStart first metaPairs =>
    by_cases hfirst : m.store.state.firstEntry ≤ first
    · refine (hready hfirst).truncateStart hfirst ?_
      exact hr.recordable _ (if_neg (not_lt.mpr hfirst))
    · have hrun := Store.truncateStart_refused (m := ⟨m.store, ⟨m.world.dir, f⟩⟩) metaPairs (not_le.mp hfirst)
      rw [Request.perform, Machine.facing, outcomeOf_error hrun]
      exact grown_none hfaced _
  | deleteDeadSegments =>
    by_cases hdead : m.store.state.dead = ∅
    · have hrun : Store.deleteDeadSegments (m.facing f) = .ok 0 (m.facing f) := by
        have hnone : Crates.hashIter m.store.state.dead = [] :=
          List.eq_nil_iff_forall_not_mem.mpr fun id hid => by
            rw [Crates.mem_hashIter, hdead] at hid
            exact Finset.notMem_empty id hid
        unfold Store.deleteDeadSegments
        rw [get_bind, Machine.facing, hnone]
        rfl
      rw [Request.perform, outcomeOf_ok hrun]
      exact grown_none hfaced _
    · exact (hready hdead).deleteDeadSegments
  | writeMetadata pairs =>
    exact (hready trivial).writeMetadata (hr.recordable _ rfl)
  | reopen cfg => exact absurd rfl (hr.open_ cfg)

/-- Replaying the manifest gives the state in memory, and every request adds to it ops of its own
only. -/
structure Machine.Agreeing (m : Machine) : Prop where
  replayed : m.world.dir.replayed = some m.store.state
  grows : ∃ es, Recorded m.world.dir es m.store.state ∧
    ∀ (r : Request) (f : Faults), r.Undelayed (m.facing f) →
      ∃ ops : List ManifestOp, (∀ op ∈ ops, r.Own (m.facing f) op) ∧
        Recorded (r.perform (m.facing f)).2.world.dir (es ++ ops.map opFrame)
          (r.perform (m.facing f)).2.store.state

/-- Disk and memory agree behind every run of a store, whatever fails in its last session, if no op
is delayed. -/
theorem Faltering.agreeing {d : Dir} (hd : Fresh d) {cfg : StoreCfg} {s : Store} {w : World}
    (hopen : Store.openOrCreate cfg (calm d) = .ok s w) {m₀ m : Machine}
    (hstart : Follows (fun m c => c.Goes m ∧ c.Recordable m) ⟨s, w⟩ m₀)
    (hrun : Faltering (fun m r => r.Undelayed m) m₀ m) : m.Agreeing := by
  have hmatched : ∃ es, Matched False False es m := by
    induction hrun with
    | here =>
      obtain ⟨s, d, active, es, rfl, h⟩ := hd.follows hopen hstart
      refine ⟨es, h.recorded, ?_, h.upright.activeState, False.elim, False.elim⟩
      rw [show (Machine.mk s (calm d)).store = s from rfl, h.manifest.cursor, manifestEnd,
        List.length_append]
      rfl
    | next r f _ hp ih =>
      obtain ⟨es, h⟩ := ih
      obtain ⟨ops, _, hm⟩ := Request.grown h r f hp
      exact ⟨_, hm⟩
  obtain ⟨es, h⟩ := hmatched
  refine ⟨h.recorded.replayed, es, h.recorded, fun r f hr => ?_⟩
  obtain ⟨ops, hops, hm⟩ := Request.grown h r f hr
  exact ⟨ops, hops, hm.recorded⟩

end

section
attribute [local instance] sample

/-- The flush of the manifest fails. -/
def flushFails : Faults := ⟨fun c => if c = .flush .manifest then [true] else [], []⟩

theorem Faltering.agreeing_failed :
    ∃ s w, Store.openOrCreate ⟨0⟩ (calm blank) = .ok s w ∧
      Machine.Agreeing ((Request.writeMetadata [(1, [1])]).perform
        (Machine.facing ⟨s, w⟩ flushFails)).2 := by
  obtain ⟨s, hopen, hs, _⟩ := fresh_blank.session ⟨0⟩
  refine ⟨s, _, hopen, Faltering.agreeing fresh_blank hopen .here (.next _ _ .here ?_)⟩
  refine ⟨by simp, ?_, fun _ => ?_, ?_⟩
  · rintro op ⟨⟩
    decide +kernel
  · rw [Machine.facing, hs.manifestCursor]
  · intro _ b hb
    cases hb

/-- A metadata write whose flush fails is made up for by the next one, behind the caller's back. -/
theorem Faltering.not_agreeing : ¬ ∀ d cfg s w m₀ m r, Fresh d →
    Store.openOrCreate cfg (calm d) = .ok s w →
    Follows (fun m c => c.Goes m ∧ c.Recordable m) ⟨s, w⟩ m₀ →
    Faltering (fun m r => (∀ cfg, r ≠ .reopen cfg) ∧ r.Recordable m) m₀ m →
    (Request.perform (m.facing Faults.none) r).1.isDone = true →
      (Request.perform (m.facing Faults.none) r).2.world.dir.replayed =
        some (Request.perform (m.facing Faults.none) r).2.store.state := by
  intro hall
  obtain ⟨s, hopen, hs, _⟩ := fresh_blank.session ⟨0⟩
  have hsome : openedBlank ⟨0⟩ = some ⟨s, calm blank.formatted⟩ := by rw [openedBlank, hopen]
  set failed := ((Request.writeMetadata [(1, [1])]).perform
    (Machine.facing ⟨s, calm blank.formatted⟩ flushFails)).2 with hfailed
  have hfaltering : Faltering (fun m r => (∀ cfg, r ≠ .reopen cfg) ∧ r.Recordable m)
      ⟨s, calm blank.formatted⟩ failed := by
    refine .next _ _ .here ⟨by simp, ?_⟩
    rintro op ⟨⟩
    decide +kernel
  -- what the model computes for the write behind the failed one
  have hafter : (openedBlank ⟨0⟩).all (fun m =>
      let failed := ((Request.writeMetadata [(1, [1])]).perform (m.facing flushFails)).2
      let later := (Request.writeMetadata [(2, [2])]).perform (failed.facing Faults.none)
      later.1.isDone && decide (later.2.world.dir.replayed.map (·.metaPairs) =
        some [(1, [1]), (2, [2])]) && decide (later.2.store.state.metaPairs = [(2, [2])])) = true := by
    decide +kernel
  rw [hsome] at hafter
  simp only [Option.all_some, Bool.and_eq_true, decide_eq_true_eq] at hafter
  obtain ⟨⟨hdone, hdisk⟩, hmemory⟩ := hafter
  have hagree := hall _ _ _ _ _ failed (.writeMetadata [(2, [2])]) fresh_blank hopen .here hfaltering
    hdone
  rw [hagree, Option.map_some, hmemory] at hdisk
  simp at hdisk

end
end Woodshed
