import Woodshed.Effects

/-! Writing a batch: the rollover that was put off, the flush of the buffer, and what they keep. -/
namespace Woodshed
open Sequencing Framing

section
variable [Crates]

/-! ### Pushes -/

/-- A writer behind its pushes. -/
def writerOf (xs : List Entry) : StoreWriter :=
  ⟨xs.head?.map (·.1), FrameScanner.lastIdOf none xs, xs.length⟩

omit [Crates] in
theorem writerOf_eq {xs rest : List Entry} {first last : Entry} (hcons : xs = first :: rest)
    (hlast : xs.getLast? = some last) : writerOf xs = ⟨some first.1, some last.1, xs.length⟩ := by
  rw [writerOf, FrameScanner.lastIdOf, hlast, hcons]
  rfl

def Store.buffered (s : Store) (xs : List Entry) : Store :=
  { s with activeCursor :=
    { s.activeCursor with buf := ⟨s.activeCursor.buf.buf ++ frames.encodeAll xs⟩ } }

theorem StoreWriter.push_eq (w : StoreWriter) (e : Entry) (s : Store) (world : World) :
    w.push e ⟨s, world⟩ =
      .ok { firstId := w.firstId.or (some e.1), lastId := some e.1, count := w.count+1 }
        ⟨s.buffered [e], world⟩ := by
  have hbuf : s.activeCursor.write e.1 e.2 =
      { s.activeCursor with buf := ⟨s.activeCursor.buf.buf ++ frames.encodeAll [e]⟩ } := by
    rw [FrameCursor.write, FrameBuffer.write_eq]
    simp
  unfold StoreWriter.push Store.buffered
  rw [modify_bind]
  dsimp only
  rw [hbuf]
  rfl

theorem foldlM_push (xs : List Entry) (w : StoreWriter) (s : Store) (world : World) :
    xs.foldlM StoreWriter.push w ⟨s, world⟩ =
      .ok ⟨w.firstId.or (xs.head?.map (·.1)), FrameScanner.lastIdOf w.lastId xs, w.count+xs.length⟩
        ⟨s.buffered xs, world⟩ := by
  induction xs generalizing w s with
  | nil =>
    obtain ⟨first, last, count⟩ := w
    simp [Store.buffered, FrameScanner.lastIdOf]
  | cons e xs ih =>
    rw [List.foldlM_cons, bind_ok (w.push_eq e s world), ih]
    have hstore : (s.buffered [e]).buffered xs = s.buffered (e :: xs) := by
      simp [Store.buffered]
    have hfirst : (w.firstId.or (some e.1)).or (xs.head?.map (·.1)) =
        w.firstId.or ((e :: xs).head?.map (·.1)) := by
      cases w.firstId <;> rfl
    dsimp only
    rw [hstore, hfirst, FrameScanner.lastIdOf_cons w.lastId, List.length_cons,
      Nat.add_right_comm, Nat.add_assoc]

theorem Store.pushAll_eq (xs : List Entry) (s : Store) (world : World) :
    Store.pushAll xs ⟨s, world⟩ = .ok (writerOf xs) ⟨s.buffered xs, world⟩ := by
  rw [Store.pushAll, foldlM_push, writerOf, Store.writer, Option.none_or, Nat.zero_add]

/-! ### Rollover -/

/-- The op that seals the active segment. -/
def rollOp (s : Store) (first : EntryId) : ManifestOp :=
  ManifestOp.bare (.rollSegment s.activeId s.activeFirstEntry
    (s.lastEntryId.getD s.activeFirstEntry) (UInt32.ofNat s.activeEntryCount)
    (UInt64.ofNat s.activeCursor.position) s.nextSegId first)

/-- The state with the active segment sealed and a new one behind it. -/
def rolledState (s : Store) (first : EntryId) : StoreState :=
  { s.state with
    seals := Function.update s.state.seals s.activeId (some ⟨s.activeFirstEntry,
      s.lastEntryId.getD s.activeFirstEntry, UInt32.ofNat s.activeEntryCount,
      UInt64.ofNat s.activeCursor.position⟩)
    segments := s.state.segments ++ [⟨s.nextSegId, first⟩]
    activeSegmentId := some s.nextSegId }

/-- The store behind a rollover. -/
def Store.rolled (s : Store) (first : EntryId) : Store :=
  { s with
    state := rolledState s first
    manifestCursor :=
      ⟨⟨[]⟩, s.manifestCursor.position+(frame (opFrame (rollOp s first))).length⟩
    nextSegId := s.nextSegId.succ
    activeId := s.nextSegId
    activeCursor := s.activeCursor.setPosition magicLen
    activeFirstEntry := first
    activeEntryCount := 0
    rolloverPending := false }

def Dir.rolled (d : Dir) (s : Store) (first : EntryId) : Dir :=
  (d.create (segmentPath s.nextSegId) segmentMagic).appended s.manifestCursor.position
    (rollOp s first)

/-- Only the flushes of segment files may fail. -/
structure Steady (w : World) : Prop where
  calls : ∀ c, c ≠ .flush .segment → w.faults.calls c = []
  opens : w.faults.opens = []

omit [Crates] in
theorem steady_calm (d : Dir) : Steady (calm d) := ⟨fun _ _ => rfl, rfl⟩

omit [Crates] in
theorem apply_rollOp [Crates] {s : Store} (first : EntryId)
    (h : s.state.activeSegmentId = some s.activeId) :
    StoreState.apply (rollOp s first) s.state = .ok ⟨⟩ (rolledState s first) := by
  have hop : StoreState.applyOp (rollOp s first).op s.state = .ok ⟨⟩ (rolledState s first) := by
    rw [rollOp, ManifestOp.bare, StoreState.applyOp, StoreState.rollSegment, get_bind]
    exact congrFun (if_neg (not_not.mpr h)) _
  rw [StoreState.apply, bind_ok hop]
  rfl

theorem Store.doRollover_ok {s : Store} {w : World} (first : EntryId) (hw : Steady w)
    (hbuf : s.manifestCursor.buf = ⟨[]⟩) (hp : w.dir.present = true)
    (hnew : segmentPath s.nextSegId ∉ w.dir.files)
    (ha : s.state.activeSegmentId = some s.activeId) :
    Store.doRollover first ⟨s, w⟩ =
      .ok ⟨⟩ ⟨{ s.rolled first with rolloverPending := s.rolloverPending },
        { w with dir := w.dir.rolled s first }⟩ := by
  have hcreate := createSegment_quiet s.nextSegId (hw.calls _ (by simp))
    (hw.calls _ (by simp)) (hw.calls _ (by simp)) hp hnew
  have hcursor : s.manifestCursor = ⟨⟨[]⟩, s.manifestCursor.position⟩ := by rw [← hbuf]
  have happend := Store.appendOp_ok
    (w := { w with dir := w.dir.create (segmentPath s.nextSegId) segmentMagic })
    "rollover op must be valid against current state" hcursor
    (hw.calls _ (by simp)) (hw.calls _ (by simp)) (apply_rollOp first ha)
  unfold Store.doRollover
  rw [get_bind]
  dsimp only
  rw [bind_ok (fs_ok hcreate)]
  unfold rollOp at happend
  rw [bind_ok happend]
  rfl

omit [Crates] in
theorem liveLog_update (st : StoreState) (log : SegmentId → List Entry) (active : SegmentEntry)
    (h : Shaped st active) (xs : List Entry) :
    liveLog st (Function.update log active.id (log active.id ++ xs)) = liveLog st log ++ xs := by
  have hold : (st.segments.dropLast.flatMap fun seg =>
      Function.update log active.id (log active.id ++ xs) seg.id) =
      st.segments.dropLast.flatMap fun seg => log seg.id := by
    apply List.flatMap_congr
    intro seg hseg
    obtain ⟨hmem, hne⟩ := h.dropLast hseg
    exact Function.update_of_ne (fun heq => hne (h.inj hmem h.mem heq)) _ _
  rw [liveLog_split h, liveLog_split h, hold, Function.update_self, List.append_assoc]

omit [Crates] in
/-- The log with an empty new segment. -/
theorem liveLog_rolled {s : Store} {log : SegmentId → List Entry} (first : EntryId)
    (hnew : s.state.lists s.nextSegId = false) :
    liveLog (rolledState s first) (Function.update log s.nextSegId []) = liveLog s.state log := by
  rw [liveLog, rolledState, List.flatMap_append]
  have hold : (s.state.segments.flatMap fun seg => Function.update log s.nextSegId [] seg.id) =
      s.state.segments.flatMap fun seg => log seg.id := by
    apply List.flatMap_congr
    intro seg hseg
    refine Function.update_of_ne ?_ _ _
    rintro heq
    rw [← heq, lists_of_mem hseg] at hnew
    cases hnew
  simp [hold, liveLog]

omit [Crates] in
theorem lists_rolledState (s : Store) (first : EntryId) (id : SegmentId) :
    (rolledState s first).lists id = true ↔ s.state.lists id = true ∨ id = s.nextSegId := by
  rw [lists_iff, lists_iff, rolledState]
  simp only [List.mem_append, List.mem_singleton]
  constructor
  · rintro ⟨seg, hseg | rfl, rfl⟩
    · exact Or.inl ⟨seg, hseg, rfl⟩
    · exact Or.inr rfl
  · rintro (⟨seg, hseg, rfl⟩ | rfl)
    · exact ⟨seg, Or.inl hseg, rfl⟩
    · exact ⟨⟨s.nextSegId, first⟩, Or.inr rfl, rfl⟩

section
variable {s : Store} {d : Dir} {es : List Entry} {log : SegmentId → List Entry}
  {active : SegmentEntry}

/-- The next segment id is not in use. -/
theorem Running.next_unused (h : Running s d es log active) :
    s.state.lists s.nextSegId = false ∧ s.nextSegId ∉ s.state.dead ∧
      segmentPath s.nextSegId ∉ d.files := by
  have hnot : ¬ (s.state.lists s.nextSegId = true ∨ s.nextSegId ∈ s.state.dead) := by
    intro hid
    exact lt_irrefl _ (h.next _ hid)
  refine ⟨by simpa using fun hl => hnot (Or.inl hl), fun hd => hnot (Or.inr hd), ?_⟩
  intro hin
  exact hnot (h.kept.filed.known _ hin _ (parseSegmentPath_segmentPath _)).2

/-- A rollover keeps the store and its directory in agreement. -/
theorem Running.rolled (h : Running s d es log active) (first : EntryId)
    (hfull : log active.id ≠ []) (hroom : s.nextSegId.val.toNat+1 < 2^32) :
    Running (s.rolled first) (d.rolled s first) (es ++ [opFrame (rollOp s first)])
      (Function.update log s.nextSegId []) ⟨s.nextSegId, first⟩ := by
  obtain ⟨hnl, hnd, hnf⟩ := h.next_unused
  have hlists := lists_rolledState s first
  have hne {id : SegmentId} (hid : s.state.lists id = true) : id ≠ s.nextSegId := by
    rintro rfl
    rw [hnl] at hid
    cases hid
  have hpos : s.manifestCursor.position = manifestEnd es := by rw [h.manifestCursor]
  have hdiff := (d.create (segmentPath s.nextSegId) segmentMagic).differs_appended
    s.manifestCursor.position (rollOp s first)
  -- the sealed segment's last entry is the last of all
  have hlast : ∃ e, (log active.id).getLast? = some e ∧ s.lastEntryId = some e.1 := by
    have hsome := List.getLast?_eq_some_getLast hfull
    refine ⟨_, hsome, ?_⟩
    rcases h.last with hl | ⟨hnil, _⟩
    · rw [hl, liveLog_split h.kept.shaped, List.getLast?_append, hsome]
      rfl
    · rw [liveLog_split h.kept.shaped] at hnil
      exact absurd (List.append_eq_nil_iff.mp hnil).2 hfull
  refine ⟨⟨?_, ?_, ⟨?_, ?_, rfl, ?_, ?_⟩, ?_, ?_, ⟨?_, ?_⟩, ?_⟩, ?_, rfl, rfl, ?_, ?_, ?_, ?_⟩
  · exact hdiff.present.trans ((Dir.present_create d _ _).trans h.kept.present)
  · have hrec : Recorded (d.create (segmentPath s.nextSegId) segmentMagic) es s.state := by
      refine ⟨?_, h.kept.recorded.fits, h.kept.recorded.replays⟩
      rw [Dir.bytes_create, if_neg (segmentPath_ne_manifest _).symm]
      exact h.kept.recorded.manifest
    have hact : s.state.activeSegmentId = some s.activeId := by
      rw [h.activeId]
      exact h.kept.shaped.activeId
    rw [Dir.rolled, hpos]
    refine hrec.append ?_ (apply_rollOp first hact)
    exact fits_short _ (by simp [Op.fields]) (by simp [Op.fields])
  · exact List.getLast?_concat
  · change ((s.state.segments ++ [(⟨s.nextSegId, first⟩ : SegmentEntry)]).map
      (fun seg => seg.id)).Nodup
    rw [List.map_append, List.nodup_append]
    refine ⟨h.kept.shaped.nodup, by simp, ?_⟩
    intro id hid other hother heq
    obtain ⟨seg, hseg, rfl⟩ := List.mem_map.mp hid
    rw [List.map_cons, List.map_nil, List.mem_singleton] at hother
    exact hne (lists_of_mem hseg) (heq.trans hother)
  · intro id
    change (Function.update s.state.seals s.activeId _ id).isSome = true ↔
      (rolledState s first).lists id = true ∧ id ≠ s.nextSegId
    rw [hlists]
    by_cases hid : id = s.activeId
    · have hactive : s.state.lists id = true := by
        rw [hid, h.activeId]
        exact lists_of_mem h.kept.shaped.mem
      rw [hid, Function.update_self, ← hid]
      simp [hactive, hne hactive]
    · rw [Function.update_of_ne hid, h.kept.shaped.seals, ← h.activeId]
      constructor
      · rintro ⟨hl, _⟩
        exact ⟨Or.inl hl, hne hl⟩
      · rintro ⟨hl | heq, hnot⟩
        · exact ⟨hl, hid⟩
        · exact absurd heq hnot
  · intro id hid
    have hold := h.kept.shaped.dead id hid
    have hnot : ¬ (rolledState s first).lists id = true := by
      rw [hlists, hold]
      rintro (hc | rfl)
      · cases hc
      · exact hnd hid
    exact Bool.eq_false_iff.mpr hnot
  · intro seg hseg
    have hpath : segmentPath seg.id ≠ manifestFileName := segmentPath_ne_manifest _
    rw [Dir.rolled, hdiff.bytes _ hpath, Dir.bytes_create]
    rcases List.mem_append.mp hseg with hseg | hseg
    · have hid := hne (lists_of_mem hseg)
      rw [if_neg (fun heq => hid (segmentPath_injective heq)), Function.update_of_ne hid]
      exact h.kept.holds seg hseg
    · rw [List.mem_singleton.mp hseg]
      simp
  · intro seg hseg info hi
    change Function.update s.state.seals s.activeId _ seg.id = some info at hi
    by_cases hid : seg.id = s.activeId
    · rw [hid, Function.update_self] at hi
      obtain ⟨e, he, hl⟩ := hlast
      have hlive : s.state.lists active.id = true := lists_of_mem h.kept.shaped.mem
      rw [← Option.some.inj hi, hid, h.activeId, Function.update_of_ne (hne hlive)]
      refine ⟨by rw [← h.position], e, he, ?_⟩
      dsimp only
      rw [hl]
      rfl
    · rw [Function.update_of_ne hid] at hi
      have hlive : s.state.lists seg.id = true :=
        ((h.kept.shaped.seals seg.id).mp (by rw [hi]; rfl)).1
      have hold : seg ∈ s.state.segments := by
        rcases List.mem_append.mp hseg with hold | hnew
        · exact hold
        · rw [List.mem_singleton.mp hnew] at hlive
          exact absurd rfl (hne hlive)
      rw [Function.update_of_ne (hne hlive)]
      exact h.kept.sealsOk seg hold info hi
  · intro name hname id hid
    rw [Dir.rolled, hdiff.mem, Dir.mem_create] at hname
    change _ ∧ ((rolledState s first).lists id = true ∨ id ∈ s.state.dead)
    rw [hlists]
    rcases hname with rfl | hname
    · rw [parseSegmentPath_segmentPath] at hid
      obtain rfl := Option.some.inj hid
      exact ⟨rfl, Or.inl (Or.inr rfl)⟩
    · obtain ⟨hcanon, hl | hdead⟩ := h.kept.filed.known name hname id hid
      · exact ⟨hcanon, Or.inl (Or.inl hl)⟩
      · exact ⟨hcanon, Or.inr hdead⟩
  · intro id hid
    rw [Dir.rolled, hdiff.mem, Dir.mem_create]
    exact Or.inr (h.kept.filed.found id hid)
  · rintro id (hid | hid)
    · rcases (hlists id).mp hid with hl | rfl
      · exact h.kept.room id (Or.inl hl)
      · exact hroom
    · exact h.kept.room id (Or.inr hid)
  · change FrameCursor.mk ⟨[]⟩ (s.manifestCursor.position+_) = _
    rw [manifestEnd_snoc, hpos]
  · simp [Store.rolled, FrameCursor.setPosition, segmentEnd]
  · intro id hid
    have hsucc := SegmentId.succ_toNat hroom
    change id < s.nextSegId.succ
    rw [SegmentId.lt_iff, hsucc]
    have hle : id.val.toNat ≤ s.nextSegId.val.toNat := by
      rcases hid with hid | hid
      · rcases (hlists id).mp hid with hl | rfl
        · exact (h.next id (Or.inl hl)).le
        · exact le_rfl
      · exact (h.next id (Or.inr hid)).le
    omega
  · intro hp
    cases hp
  · change s.lastEntryId = (liveLog (rolledState s first) _).getLast?.map (·.1) ∨
      liveLog (rolledState s first) _ = [] ∧ _
    rw [liveLog_rolled first hnl]
    exact h.last

end

/-! ### The flush -/

/-- The store behind a flush of its buffer. -/
def Store.flushed (s : Store) (last : EntryId) (count : ℕ) : Store :=
  let position := s.activeCursor.position+s.activeCursor.buf.buf.length
  { s with
    segments := insert s.activeId s.segments
    activeCursor := ⟨⟨[]⟩, position⟩
    lastEntryId := some last
    activeEntryCount := s.activeEntryCount+count
    rolloverPending := s.rolloverPending ||
      decide (position > s.cfg.segmentRolloverTriggerBytes) }

def Dir.flushed (d : Dir) (s : Store) : Dir :=
  d.writeAt (segmentPath s.activeId) s.activeCursor.position s.activeCursor.buf.buf

/-- The world in which one flush of a segment file was made. -/
def World.popped (w : World) : World :=
  let rest := (w.faults.calls (.flush .segment)).tail
  { w with faults :=
    { w.faults with calls := Function.update w.faults.calls (.flush .segment) rest } }

/-- Whether the next flush of a segment file fails. -/
def World.flushFails (w : World) : Bool := (w.faults.calls (.flush .segment)).headD false

omit [Crates] in
theorem popped_calm (d : Dir) : (calm d).popped = calm d := by
  have h : Function.update (calm d).faults.calls (.flush .segment) [] = (calm d).faults.calls :=
    Function.update_eq_self _ _
  rw [World.popped]
  exact congrArg (fun calls => (⟨d, ⟨calls, []⟩⟩ : World)) h

omit [Crates] in
theorem call_flush (w : World) :
    call (.flush .segment) w = if w.flushFails then .error faulted w.popped else .ok ⟨⟩ w.popped := by
  unfold call World.flushFails World.popped
  cases hq : w.faults.calls (.flush .segment) with
  | nil =>
    have h : Function.update w.faults.calls (.flush .segment) [] = w.faults.calls := by
      rw [← hq]
      exact Function.update_eq_self _ _
    have hw : w = ⟨w.dir, ⟨Function.update w.faults.calls (.flush .segment) [], w.faults.opens⟩⟩ := by
      rw [h]
    exact congrArg (EStateM.Result.ok ()) hw
  | cons b bs => cases b <;> rfl

omit [Crates] in
theorem Store.openActive_ok {s : Store} {w : World} (hq : w.faults.opens = [])
    (h : HasSegment w.dir s.activeId) :
    Store.openActive ⟨s, w⟩ = .ok ⟨⟩ ⟨{ s with segments := insert s.activeId s.segments }, w⟩ := by
  unfold Store.openActive
  rw [get_bind]
  by_cases hin : s.activeId ∈ s.segments
  · have hsame : insert s.activeId s.segments = s.segments := Finset.insert_eq_of_mem hin
    rw [hsame]
    exact congrFun (if_pos hin) _
  · refine (congrFun (if_neg hin) _).trans ?_
    rw [bind_ok (fs_ok (openSegment_quiet hq h))]
    rfl

omit [Crates] in
theorem Store.flushActive_eq (s : Store) (w : World) :
    Store.flushActive ⟨s, w⟩ =
      if w.flushFails then .error (.err faulted) ⟨s, w.popped⟩
      else .ok ⟨⟩ ⟨{ s with activeCursor :=
        ⟨⟨[]⟩, s.activeCursor.position+s.activeCursor.buf.buf.length⟩ },
        { w.popped with dir := w.dir.flushed s }⟩ := by
  have hcall := call_flush w
  unfold Store.flushActive
  rw [get_bind]
  cases hf : w.flushFails with
  | true =>
    rw [hf, if_pos rfl] at hcall
    have hflush : s.activeCursor.flush (segmentPath s.activeId) .segment w =
        .error faulted w.popped := bind_error (bind_error hcall)
    rw [if_pos rfl, bind_error (fs_error hflush)]
  | false =>
    rw [hf, if_neg (by decide)] at hcall
    have hwrite : File.writeAllAt (segmentPath s.activeId) .segment s.activeCursor.buf.pending
        s.activeCursor.position w = .ok ⟨⟩ { w.popped with dir := w.dir.flushed s } := by
      unfold File.writeAllAt
      rw [bind_ok hcall]
      rfl
    have hflush : s.activeCursor.flush (segmentPath s.activeId) .segment w =
        .ok ⟨⟨[]⟩, s.activeCursor.position+s.activeCursor.buf.buf.length⟩
          { w.popped with dir := w.dir.flushed s } := by
      unfold FrameCursor.flush
      rw [bind_ok hwrite]
      rfl
    rw [if_neg (by decide), bind_ok (fs_ok hflush)]
    rfl

/-- The store that writes: a rollover that was put off is made. -/
def Store.readyFor (s : Store) (first : EntryId) : Store :=
  if s.rolloverPending then s.rolled first else s

def Dir.readyFor (d : Dir) (s : Store) (first : EntryId) : Dir :=
  if s.rolloverPending then d.rolled s first else d

/-- There is an id for the segment behind the one that a pending rollover creates. -/
def Store.Room (s : Store) : Prop := s.rolloverPending = true → s.nextSegId.val.toNat+1 < 2^32

instance (s : Store) : Decidable s.Room :=
  inferInstanceAs (Decidable (_ → _))

/-- A write with something pushed. -/
theorem StoreWriter.write_eq {s : Store} {w : World} {first last : EntryId} {count : ℕ}
    (hw : Steady w) (hbuf : s.manifestCursor.buf = ⟨[]⟩) (hp : w.dir.present = true)
    (hnew : s.rolloverPending = true → segmentPath s.nextSegId ∉ w.dir.files)
    (ha : s.state.activeSegmentId = some s.activeId)
    (hseg : HasSegment (w.dir.readyFor s first) (s.readyFor first).activeId) :
    StoreWriter.write ⟨some first, some last, count⟩ ⟨s, w⟩ =
      let s' := s.readyFor first
      let d' := w.dir.readyFor s first
      if w.flushFails then
        .error (.err faulted)
          ⟨{ s' with segments := insert s'.activeId s'.segments }, { w.popped with dir := d' }⟩
      else .ok (some s'.activeId)
        ⟨s'.flushed last count, { w.popped with dir := d'.flushed s' }⟩ := by
  have htail (s₁ : Store) (d₁ : Dir) (h : HasSegment d₁ s₁.activeId) :
      (do
        Store.openActive
        Store.flushActive
        modify fun m => { m with store := { m.store with
          lastEntryId := some last
          activeEntryCount := m.store.activeEntryCount+count
          rolloverPending := m.store.rolloverPending ||
            decide (m.store.activeCursor.position > m.store.cfg.segmentRolloverTriggerBytes) } }
        let m ← get
        return some m.store.activeId : StoreM Commit) ⟨s₁, { w with dir := d₁ }⟩ =
      if w.flushFails then
        .error (.err faulted)
          ⟨{ s₁ with segments := insert s₁.activeId s₁.segments }, { w.popped with dir := d₁ }⟩
      else .ok (some s₁.activeId)
        ⟨s₁.flushed last count, { w.popped with dir := d₁.flushed s₁ }⟩ := by
    have hflush := Store.flushActive_eq { s₁ with segments := insert s₁.activeId s₁.segments }
      { w with dir := d₁ }
    rw [bind_ok (Store.openActive_ok (w := { w with dir := d₁ }) hw.opens h)]
    cases hf : w.flushFails with
    | true =>
      rw [show World.flushFails { w with dir := d₁ } = true from hf, if_pos rfl] at hflush
      rw [if_pos rfl, bind_error hflush]
      rfl
    | false =>
      rw [show World.flushFails { w with dir := d₁ } = false from hf, if_neg (by decide)] at hflush
      rw [if_neg (by decide), bind_ok hflush]
      rfl
  unfold StoreWriter.write
  dsimp only
  rw [get_bind]
  by_cases hpend : s.rolloverPending = true
  · have hs : s.readyFor first = s.rolled first := if_pos hpend
    have hd : w.dir.readyFor s first = w.dir.rolled s first := if_pos hpend
    have hroll := Store.doRollover_ok first hw hbuf hp (hnew hpend) ha
    rw [hs, hd] at hseg ⊢
    rw [if_pos hpend, bind_ok hroll, modify_bind]
    exact htail (s.rolled first) (w.dir.rolled s first) hseg
  · have hs : s.readyFor first = s := if_neg hpend
    have hd : w.dir.readyFor s first = w.dir := if_neg hpend
    rw [hs, hd] at hseg ⊢
    rw [if_neg hpend]
    exact htail s w.dir hseg

/-- A write with nothing pushed. -/
theorem StoreWriter.write_nil (m : Machine) : StoreWriter.write (writerOf []) m = .ok none m := rfl

/-! ### What a write keeps -/

section
variable {s : Store} {d : Dir} {es : List Entry} {log : SegmentId → List Entry}
  {active : SegmentEntry}

/-- A flush keeps the store and its directory in agreement. -/
theorem Running.flushed (h : Running s d es log active) {fs : List Entry} {e : Entry}
    (hbuf : s.activeCursor.buf.buf = frames.encodeAll fs) (hlast : fs.getLast? = some e)
    (count : ℕ) :
    Running (s.flushed e.1 count) (d.flushed s) es
      (Function.update log active.id (log active.id ++ fs)) active := by
  have hdiff : d.Differs (d.flushed s) (segmentPath active.id) := by
    rw [Dir.flushed, h.activeId]
    exact d.differs_writeAt _ _ _
  have hne : fs ≠ [] := by
    rintro rfl
    cases hlast
  have hshape := h.kept.shaped
  have hkept : Kept (d.flushed s) es s.state
      (Function.update log active.id (log active.id ++ fs)) active := by
    refine ⟨hdiff.present.trans h.kept.present,
      h.kept.recorded.differs hdiff (segmentPath_ne_manifest _).symm, hshape, ?_, ?_,
      h.kept.filed.differs hdiff, h.kept.room⟩
    · intro seg hseg
      by_cases heq : seg.id = active.id
      · have hend : segmentEnd (log active.id) =
            (segmentMagic ++ frames.encodeAll (log active.id)).length := by
          rw [List.length_append]
          rfl
        rw [Dir.flushed, h.activeId, heq, Dir.bytes_writeAt, if_pos rfl,
          h.kept.holds active hshape.mem, Option.map_some, h.position, hbuf, hend, overwrite_end,
          Function.update_self, Grammar.encodeAll_append, List.append_assoc]
      · rw [hdiff.bytes _ (fun hp => heq (segmentPath_injective hp)), Function.update_of_ne heq]
        exact h.kept.holds seg hseg
    · intro seg hseg info hi
      have hid : seg.id ≠ active.id := ((hshape.seals seg.id).mp (by rw [hi]; rfl)).2
      rw [Function.update_of_ne hid]
      exact h.kept.sealsOk seg hseg info hi
  refine ⟨hkept, h.manifestCursor, h.activeId, h.activeFirst, ?_, h.next, ?_, Or.inl ?_⟩
  · rw [Function.update_self, segmentEnd_append, ← h.position, ← hbuf]
    rfl
  · intro _ hnil
    rw [Function.update_self] at hnil
    exact hne (List.append_eq_nil_iff.mp hnil).2
  · change some e.1 = (liveLog s.state _).getLast?.map (·.1)
    rw [liveLog_update s.state log active hshape, List.getLast?_append, hlast]
    rfl

/-- The files and the last segment behind a rollover, if one was put off. -/
theorem Running.readyFor (h : Running s d es log active) (first : EntryId)
    (hroom : s.Room) :
    ∃ es' log' active', Running (s.readyFor first) (d.readyFor s first) es' log' active' ∧
      liveLog (s.readyFor first).state log' = liveLog s.state log ∧
      (∀ id, s.state.lists id = true → log' id = log id) ∧
      (s.rolloverPending = true → active' = ⟨s.nextSegId, first⟩ ∧ log' active'.id = []) ∧
      (s.rolloverPending = false → es' = es ∧ log' = log ∧ active' = active) := by
  by_cases hp : s.rolloverPending = true
  · have hs : s.readyFor first = s.rolled first := if_pos hp
    have hd : d.readyFor s first = d.rolled s first := if_pos hp
    obtain ⟨hnl, _⟩ := h.next_unused
    rw [hs, hd]
    refine ⟨_, _, _, h.rolled first (h.pending hp) (hroom hp), liveLog_rolled first hnl, ?_, ?_, ?_⟩
    · intro id hid
      refine Function.update_of_ne ?_ _ _
      rintro rfl
      rw [hnl] at hid
      cases hid
    · intro _
      exact ⟨rfl, Function.update_self _ _ _⟩
    · intro hc
      rw [hp] at hc
      cases hc
  · have hs : s.readyFor first = s := if_neg hp
    have hd : d.readyFor s first = d := if_neg hp
    rw [hs, hd]
    exact ⟨es, log, active, h, rfl, fun _ _ => rfl, fun hc => absurd hc hp, fun _ => ⟨rfl, rfl, rfl⟩⟩

end

end
end Woodshed
