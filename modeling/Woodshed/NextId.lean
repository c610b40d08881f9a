import Woodshed.Openable

/-! The id of the next segment: above every id in use from the open of a store on, as long as there
is an id left. -/
namespace Woodshed
open Sequencing Framing

/-- No call fails, and all file names are as `names` has them. -/
def Calm (names : FileName → Prop) (w : World) : Prop :=
  ∃ d, w = calm d ∧ d.present = true ∧ ∀ name ∈ d.files, names name

/-- The id that a file name is read as is below `next`. -/
def NameBelow (next : SegmentId) (name : FileName) : Prop :=
  ∀ id, parseSegmentPath name = some id → id < next

theorem NameBelow.mono {next next' : SegmentId} (h : next ≤ next') {name : FileName}
    (hname : NameBelow next name) : NameBelow next' name :=
  fun id hid => (hname id hid).trans_le h

/-! ### Calls that make no file -/

section
variable {names : FileName → Prop}

theorem calm_openSegment (id : SegmentId) : Keeps (Calm names) (openSegment id) := by
  rintro _ ⟨d, rfl, hp, hnames⟩
  rw [openSegment_calm]
  cases d.bytes (segmentPath id) with
  | none => exact ⟨d, rfl, hp, hnames⟩
  | some bytes =>
    dsimp only
    cases behindMagic segmentMagic bytes with
    | none => exact ⟨d, rfl, hp, hnames⟩
    | some xs => exact ⟨d, rfl, hp, hnames⟩

/-- A change of the bytes of a file. -/
theorem Calm.edited {d : Dir} (hp : d.present = true) (hnames : ∀ name ∈ d.files, names name)
    (name : FileName) (change : FileData → FileData) : Calm names (calm (d.edit name change)) :=
  ⟨_, rfl, by rw [Dir.present_edit, hp], fun other ho => hnames other ((d.mem_edit _ _ _).mp ho)⟩

theorem calm_flush (c : FrameCursor) (name : FileName) (kind : FileKind) :
    Keeps (Calm names) (c.flush name kind) := by
  rintro _ ⟨d, rfl, hp, hnames⟩
  exact Calm.edited hp hnames _ _

theorem calm_syncAll (name : FileName) (kind : FileKind) :
    Keeps (Calm names) (File.syncAll name kind) := by
  rintro _ ⟨d, rfl, hp, hnames⟩
  exact Calm.edited hp hnames _ _

theorem calm_setLen (name : FileName) (kind : FileKind) (len : ℕ) :
    Keeps (Calm names) (File.setLen name kind len) := by
  rintro _ ⟨d, rfl, hp, hnames⟩
  exact Calm.edited hp hnames _ _

end

/-- An id that the store knows or that a file of the directory has. -/
def Machine.Has (m : Machine) (id : SegmentId) : Prop :=
  m.store.state.Uses id ∨ id ∈ diskIds m.world.dir

/-- The next segment id is above all ids in use, so that it has not wrapped round, and no file is in
the way of its segment. -/
structure Machine.Numbered (m : Machine) : Prop where
  above : ∀ id, m.Has id → id < m.store.nextSegId
  free : segmentPath m.store.nextSegId ∉ m.world.dir.files

/-- What keeps the numbers of a running store: the state and the manifest's cursor allow for the next
op, and no id reaches the next one. -/
structure Numbering (m : Machine) : Prop where
  world : Calm (NameBelow m.store.nextSegId) m.world
  empty : m.store.manifestCursor.buf = ⟨[]⟩
  active : m.store.state.activeSegmentId = some m.store.activeId
  uses : ∀ id, m.store.state.Uses id → id < m.store.nextSegId

theorem Numbering.numbered {m : Machine} (h : Numbering m) : m.Numbered := by
  obtain ⟨d, hd, _, hnames⟩ := h.world
  have hfiles : ∀ name ∈ m.world.dir.files, NameBelow m.store.nextSegId name := by
    rw [hd]
    exact hnames
  refine ⟨?_, fun hin => ?_⟩
  · rintro id (huses | hdisk)
    · exact h.uses id huses
    · obtain ⟨name, hname, hid⟩ := (mem_diskIds _ id).mp hdisk
      exact hfiles name hname id hid
  · exact lt_irrefl _ (hfiles _ hin _ (parseSegmentPath_segmentPath _))

section
variable [Crates]

/-- What an op that leaves the active segment where it is makes of the numbers. -/
theorem Numbering.appendOp {s : Store} {w : World} (h : Numbering ⟨s, w⟩) {op : ManifestOp}
    {st' : StoreState} (ha : StoreState.apply op s.state = .ok ⟨⟩ st') (message : String) :
    ∃ w', Store.appendOp op message ⟨s, w⟩ = .ok ⟨⟩ ⟨s.recorded op st', w'⟩ ∧
      Calm (NameBelow s.nextSegId) w' := by
  obtain ⟨d, hd, hp, hnames⟩ := h.world
  obtain rfl : w = calm d := hd
  have hcursor : s.manifestCursor = ⟨⟨[]⟩, s.manifestCursor.position⟩ := by
    rw [← show s.manifestCursor.buf = ⟨[]⟩ from h.empty]
  refine ⟨_, Store.appendOp_ok message hcursor rfl rfl ha, ?_⟩
  have hdiff := d.differs_appended s.manifestCursor.position op
  exact ⟨_, rfl, hdiff.present.trans hp, fun name hname => hnames name ((hdiff.mem name).mp hname)⟩

theorem Numbering.recorded {s : Store} {w w' : World} (h : Numbering ⟨s, w⟩) {op : ManifestOp}
    {st' : StoreState} (hw : Calm (NameBelow s.nextSegId) w')
    (hactive : st'.activeSegmentId = s.state.activeSegmentId)
    (huses : ∀ id, st'.Uses id → s.state.Uses id) : Numbering ⟨s.recorded op st', w'⟩ :=
  ⟨hw, rfl, hactive.trans h.active, fun id hid => h.uses id (huses id hid)⟩

/-! ### Commands -/

omit [Crates] in
/-- A change of what the numbers do not depend on. -/
theorem Numbering.of_eq {m m' : Machine} (h : Numbering m) (hw : m'.world = m.world)
    (hc : m'.store.manifestCursor = m.store.manifestCursor) (hs : m'.store.state = m.store.state)
    (ha : m'.store.activeId = m.store.activeId) (hn : m'.store.nextSegId = m.store.nextSegId) :
    Numbering m' :=
  ⟨by rw [hw, hn]; exact h.world, by rw [hc]; exact h.empty, by rw [hs, ha]; exact h.active,
    by rw [hs, hn]; exact h.uses⟩

omit [Crates] in
theorem Numbering.of_keeps {α : Type} {x : StoreM α} (hx : Keeps Numbering x) {m : Machine}
    (h : Numbering m) : Numbering (outcomeOf x m).2 := by
  cases hrun : x m with
  | ok a m' =>
    rw [outcomeOf_ok hrun]
    exact Triple.ok hx h hrun
  | error e m' =>
    rw [outcomeOf_error hrun]
    exact Triple.error hx h hrun

omit [Crates] in
theorem numbering_fs {α : Type} {x : Fs α} (h : ∀ names, Keeps (Calm names) x) :
    Keeps Numbering (fs x) := by
  refine Triple.onPart fun m hm => ?_
  refine (h (NameBelow m.store.nextSegId)).weaken ?_
    (fun _ w hw => ⟨hw, hm.empty, hm.active, hm.uses⟩) fun w hw => ⟨hw, hm.empty, hm.active, hm.uses⟩
  rintro _ rfl
  exact hm.world

omit [Crates] in
theorem fs_store {α : Type} (x : Fs α) (s : Store) : Keeps (fun m => m.store = s) (fs x) := by
  refine Triple.onPart fun m hm => ?_
  rintro w rfl
  cases x m.world with
  | ok a w' => exact hm
  | error e w' => exact hm

omit [Crates] in
theorem numbering_modify {f : Machine → Machine} (hw : ∀ m, (f m).world = m.world)
    (hc : ∀ m, (f m).store.manifestCursor = m.store.manifestCursor)
    (hs : ∀ m, (f m).store.state = m.store.state) (ha : ∀ m, (f m).store.activeId = m.store.activeId)
    (hn : ∀ m, (f m).store.nextSegId = m.store.nextSegId) :
    Keeps Numbering (modify f : StoreM PUnit) :=
  Keeps.modify fun m h => h.of_eq (hw m) (hc m) (hs m) (ha m) (hn m)

theorem numbering_writeMetadata (pairs : Meta) : Keeps Numbering (Store.writeMetadata pairs) := by
  rintro ⟨s, w⟩ h
  obtain ⟨w', hrun, hw⟩ := h.appendOp
    (show StoreState.apply (ManifestOp.withMeta .metadata pairs) s.state = .ok ⟨⟩ _ from rfl)
    "NoOp must always be valid"
  rw [Store.writeMetadata, hrun]
  exact h.recorded hw rfl fun _ hid => hid

theorem numbering_truncateStart (first : EntryId) (metaPairs : Meta) :
    Keeps Numbering (Store.truncateStart first metaPairs) := by
  rintro ⟨s, w⟩ h
  by_cases hfirst : first < s.state.firstEntry
  · rw [Store.truncateStart_refused metaPairs hfirst]
    exact h
  · have ha := apply_headOp metaPairs (not_lt.mp hfirst)
    obtain ⟨w', hrun, hw⟩ := h.appendOp ha "truncate_start was pre-validated"
    have hdone : Numbering ⟨s.recorded (headOp s.state first metaPairs)
        (advanced s.state first metaPairs), w'⟩ := h.recorded hw rfl fun id hid =>
      (known_killed (fun id hid => (mem_toEvict.mp hid).1) id).mp hid
    have hbegin := Store.truncateStart_begins (m := ⟨s, w⟩) metaPairs (not_lt.mp hfirst)
    rw [hbegin, bind_ok hrun]
    exact hdone.of_eq rfl rfl rfl rfl rfl

theorem Numbering.deleteDead {ids : List SegmentId} (hnd : ids.Nodup) {s : Store} {w : World}
    (h : Numbering ⟨s, w⟩) (hin : ∀ id ∈ ids, id ∈ s.state.dead) :
    ∃ m', (forM ids Store.deleteDead) ⟨s, w⟩ = .ok ⟨⟩ m' ∧ Numbering m' := by
  induction ids generalizing s w with
  | nil => exact ⟨⟨s, w⟩, rfl, h⟩
  | cons id ids ih =>
    obtain ⟨hnot, hnd⟩ := List.nodup_cons.mp hnd
    obtain ⟨d, hd, hp, hnames⟩ := h.world
    obtain rfl : w = calm d := hd
    obtain ⟨d₁, hdel, hpresent, hmem, _⟩ := deleteSegment_calm d id
    have hdeleted : Numbering ⟨s, calm d₁⟩ := by
      refine ⟨⟨d₁, rfl, hpresent.trans hp, ?_⟩, h.empty, h.active, h.uses⟩
      exact fun name hname => hnames name ((hmem name).mp hname).1
    have ha := apply_segmentDeleted (hin id (by simp))
    obtain ⟨w', hrun, hw⟩ := hdeleted.appendOp ha "SegmentDeleted on a dead segment must be valid"
    have hrecorded : Numbering ⟨s.recorded (ManifestOp.bare (.segmentDeleted id))
        { s.state with dead := s.state.dead.erase id }, w'⟩ :=
      hdeleted.recorded hw rfl fun other hother => hother.imp (fun hl => hl) fun hd => Finset.mem_of_mem_erase hd
    have hstep : Store.deleteDead id ⟨s, calm d⟩ = .ok ⟨⟩ _ := (bind_ok (fs_ok hdel)).trans hrun
    obtain ⟨m', hloop, hm'⟩ := ih hnd hrecorded fun other ho => by
      refine Finset.mem_erase.mpr ⟨?_, hin other (by simp [ho])⟩
      rintro rfl
      exact hnot ho
    refine ⟨m', ?_, hm'⟩
    rw [forM_cons, bind_ok hstep]
    exact hloop

theorem numbering_deleteDeadSegments : Keeps Numbering Store.deleteDeadSegments := by
  rintro ⟨s, w⟩ h
  obtain ⟨m', hloop, hm'⟩ := h.deleteDead (Crates.hashIter_nodup s.state.dead)
    fun id hid => (Crates.mem_hashIter _ _).mp hid
  unfold Store.deleteDeadSegments
  rw [get_bind, bind_ok hloop]
  exact hm'

/-! ### Writing and cutting -/

omit [Crates] in
theorem numbering_writeBehind (last : EntryId) (count : ℕ) :
    Keeps Numbering (Store.writeBehind last count) := by
  have hopen : Keeps Numbering Store.openActive := by
    unfold Store.openActive
    refine Keeps.get fun m => ?_
    split
    · exact Keeps.ret _
    · exact Keeps.bind (numbering_fs fun _ => calm_openSegment _) fun _ =>
        numbering_modify (fun _ => rfl) (fun _ => rfl) (fun _ => rfl) (fun _ => rfl) fun _ => rfl
  have hflush : Keeps Numbering Store.flushActive :=
    Keeps.get fun m => Keeps.bind (numbering_fs fun _ => calm_flush _ _ _) fun _ =>
      numbering_modify (fun _ => rfl) (fun _ => rfl) (fun _ => rfl) (fun _ => rfl) fun _ => rfl
  exact Keeps.bind hopen fun _ => Keeps.bind hflush fun _ =>
    Keeps.bind (numbering_modify (fun _ => rfl) (fun _ => rfl) (fun _ => rfl) (fun _ => rfl)
      fun _ => rfl) fun _ => Keeps.get fun _ => Keeps.ret _

/-- A rollover takes the next id, and there is one behind it. -/
theorem Numbering.doRollover {s : Store} {w : World} (h : Numbering ⟨s, w⟩) (first : EntryId)
    (hroom : s.nextSegId.val.toNat+1 < 2^32) :
    ∃ m', Store.doRollover first ⟨s, w⟩ = .ok ⟨⟩ m' ∧ Numbering m' := by
  have hfree := h.numbered.free
  obtain ⟨d, hd, hp, hnames⟩ := h.world
  obtain rfl : w = calm d := hd
  have hlt : s.nextSegId < s.nextSegId.succ := by
    rw [SegmentId.lt_iff, SegmentId.succ_toNat hroom]
    exact Nat.lt_succ_self _
  have hrun := Store.doRollover_ok first (steady_calm d) h.empty hp hfree h.active
  have hdiff := (d.create (segmentPath s.nextSegId) segmentMagic).differs_appended
    s.manifestCursor.position (rollOp s first)
  refine ⟨_, hrun, ⟨⟨d.rolled s first, rfl, ?_, ?_⟩, rfl, rfl, ?_⟩⟩
  · exact hdiff.present.trans ((Dir.present_create d _ _).trans hp)
  · intro name hname id hid
    rcases (Dir.mem_create d _ _ _).mp ((hdiff.mem name).mp hname) with rfl | hold
    · rw [parseSegmentPath_segmentPath] at hid
      obtain rfl := Option.some.inj hid
      exact hlt
    · exact (hnames name hold id hid).trans hlt
  · rintro id (hid | hid)
    · rcases (lists_rolledState s first id).mp hid with hl | rfl
      · exact (h.uses id (Or.inl hl)).trans hlt
      · exact hlt
    · exact (h.uses id (Or.inr hid)).trans hlt

theorem Numbering.batch {m : Machine} (h : Numbering m) (xs : List Entry)
    (hroom : xs ≠ [] → m.store.Room) : Numbering (outcomeOf (Store.batch xs) m).2 := by
  obtain ⟨s, w⟩ := m
  have hbuffered : Numbering ⟨s.buffered xs, w⟩ := h.of_eq rfl rfl rfl rfl rfl
  have hbatch : Store.batch xs ⟨s, w⟩ = (writerOf xs).write ⟨s.buffered xs, w⟩ :=
    bind_ok (Store.pushAll_eq xs s w)
  rw [outcomeOf, hbatch]
  cases xs with
  | nil => exact hbuffered
  | cons x xs =>
    have hw : writerOf (x :: xs) = _ := writerOf_eq rfl (List.getLast?_eq_some_getLast (by simp))
    rw [hw, StoreWriter.write_begins]
    by_cases hp : (s.buffered (x :: xs)).rolloverPending = true
    · obtain ⟨m', hrun, hm'⟩ := hbuffered.doRollover x.1 (hroom (by simp) hp)
      rw [if_pos hp, bind_ok hrun]
      have hrest : Keeps Numbering
          (modify (fun m => { m with store := { m.store with rolloverPending := false } }) >>= fun _ =>
            Store.writeBehind ((x :: xs).getLast (by simp)).1 (x :: xs).length) :=
        Keeps.bind (numbering_modify (fun _ => rfl) (fun _ => rfl) (fun _ => rfl) (fun _ => rfl)
          fun _ => rfl) fun _ => numbering_writeBehind _ _
      exact Numbering.of_keeps hrest hm'
    · rw [if_neg hp]
      exact Numbering.of_keeps (numbering_writeBehind _ _) hbuffered

omit [Crates] in
/-- A call on the files, from a store that is known. -/
theorem numbering_at {α : Type} {x : Fs α} (h : ∀ names, Keeps (Calm names) x) (s : Store) :
    Triple (fun m => Numbering m ∧ m.store = s) (fs x) (fun _ m => Numbering m ∧ m.store = s)
      Numbering :=
  (Keeps.and (numbering_fs h) (fs_store x s)).weaken (fun _ hm => hm) (fun _ _ hm => hm)
    fun _ hm => hm.1

omit [Crates] in
theorem numbering_scanTo (file : File) (offset : ℕ) (lastValid : EntryId) (s : Store) :
    Triple (fun m => Numbering m ∧ m.store = s) (scanTo file offset lastValid)
      (fun _ m => Numbering m ∧ m.store = s) Numbering := by
  unfold scanTo
  split
  · exact fun _ hm => hm
  · exact (Triple.throw _).weaken (fun _ hm => hm.1) (fun _ _ hm => hm) fun _ hm => hm

/-- The op of a cut, and the segment that it makes the active one. -/
theorem numbering_cutOp {s : Store} {target : SegmentEntry} {drop : List SegmentId} {off : ℕ}
    (hdrop : ∀ id ∈ drop, s.state.lists id = true) (htarget : target ∈ s.state.segments) :
    Triple (fun m => Numbering m ∧ m.store = s)
      (Store.appendOp (cutOp target off drop) "truncate_end op was pre-validated")
      (fun _ m => Numbering ⟨{ m.store with activeId := target.id }, m.world⟩) Numbering := by
  rintro ⟨_, w⟩ ⟨h, rfl⟩
  obtain ⟨w', hrun, hw⟩ := h.appendOp
    (show StoreState.apply (cutOp target off drop) _ = _ from apply_cutOp hdrop htarget)
    "truncate_end op was pre-validated"
  rw [hrun]
  exact ⟨hw, rfl, rfl, fun id hid => h.uses id ((known_killed hdrop id).mp hid)⟩

theorem numbering_truncateEnd (lastValid : EntryId) :
    Keeps Numbering (Store.truncateEnd lastValid) := by
  intro m h
  unfold Store.truncateEnd
  rw [get_bind]
  by_cases hall : m.store.lastEntryId.all (fun last => decide (last ≤ lastValid)) = true
  · rw [if_pos hall]
    exact h
  · rw [if_neg hall]
    cases hchosen : truncateTarget m.store.state.segments lastValid with
    | none => exact h
    | some chosen =>
      have hne : m.store.state.segments ≠ [] := by
        intro hnil
        rw [hnil] at hchosen
        cases hchosen
      obtain ⟨pre, target, post, hsplit, hcut, _⟩ := truncateTarget_split _ lastValid hne
      rw [hcut] at hchosen
      obtain rfl := Option.some.inj hchosen
      have htarget : target ∈ m.store.state.segments := by simp [hsplit]
      have hdrop : ∀ id ∈ post.map (·.id), m.store.state.lists id = true := by
        intro id hid
        obtain ⟨seg, hseg, rfl⟩ := List.mem_map.mp hid
        exact lists_of_mem (by simp [hsplit, hseg])
      -- the store is known up to the op, and numbered again behind it
      refine (?_ : Triple (fun m' => Numbering m' ∧ m'.store = m.store) _ (fun _ => Numbering)
        Numbering) m ⟨h, rfl⟩
      refine Triple.bind (numbering_at (fun _ => calm_openSegment _) m.store) fun seg => ?_
      refine Triple.bind (numbering_scanTo _ _ _ m.store) fun off => ?_
      refine Triple.bind (numbering_at (fun _ => calm_openSegment _) m.store) fun rw => ?_
      refine Triple.bind (numbering_at (fun _ => calm_setLen _ _ _) m.store) fun _ => ?_
      refine Triple.bind (numbering_at (fun _ => calm_syncAll _ _) m.store) fun _ => ?_
      refine Triple.bind (numbering_cutOp hdrop htarget) fun _ => ?_
      exact Triple.modify fun m' hm' => hm'.of_eq rfl rfl rfl rfl rfl

/-! ### Opening -/

omit [Crates] in
/-- The last of all segment ids. -/
def lastSegmentId : SegmentId := ⟨4294967295⟩

omit [Crates] in
theorem lt_lastSegmentId {id : SegmentId} (h : id ≠ lastSegmentId) : id.val.toNat+1 < 2^32 := by
  have hlt := id.val.toNat_lt
  by_contra hge
  refine h (SegmentId.ext_toNat ?_)
  change id.val.toNat = 4294967295
  omega

omit [Crates] in
theorem not_lastSegmentId_lt (id : SegmentId) : ¬ lastSegmentId < id := by
  have hlt := id.val.toNat_lt
  rw [SegmentId.lt_iff, not_lt]
  change id.val.toNat ≤ 4294967295
  omega

theorem Entered.mem_diskIds {cfg : StoreCfg} {d d' : Dir} {s : Store} {es : List Entry}
    (h : Entered cfg d s d' es) (id : SegmentId) : id ∈ diskIds d' ↔ id ∈ diskIds d := by
  simp only [Woodshed.mem_diskIds, h.names]

/-- The ids in use are those of the files. -/
theorem Entered.uses_iff {cfg : StoreCfg} {d d' : Dir} {s : Store} {es : List Entry}
    (h : Entered cfg d s d' es) (id : SegmentId) : s.state.Uses id ↔ id ∈ diskIds d' := by
  refine ⟨?_, h.known id⟩
  rintro (hl | hd)
  · obtain ⟨seg, hseg, rfl⟩ := (lists_iff _ _).mp hl
    exact (Woodshed.mem_diskIds _ _).mpr ⟨_, Dir.mem_of_bytes (h.layout.files seg hseg),
      parseSegmentPath_segmentPath _⟩
  · exact h.dead id hd

/-- An opened store numbers its segments properly unless a file has the last of all ids. -/
theorem Entered.numbering {cfg : StoreCfg} {d d' : Dir} {s : Store} {es : List Entry}
    (h : Entered cfg d s d' es) (hroom : lastSegmentId ∉ diskIds d) : Numbering ⟨s, calm d'⟩ := by
  have hnext (id : SegmentId) (hid : s.state.Uses id) : id < s.nextSegId := by
    rw [h.next]
    refine lt_nextSegIdOf (fun other hother => lt_lastSegmentId ?_) id hid
    rintro rfl
    exact hroom ((h.mem_diskIds _).mp ((h.uses_iff _).mp hother))
  refine ⟨⟨d', rfl, h.layout.present, fun name hname id hid => ?_⟩, ?_, h.active, hnext⟩
  · exact hnext id ((h.uses_iff id).mpr ((Woodshed.mem_diskIds _ _).mpr ⟨name, hname, hid⟩))
  · rw [h.manifestCursor]

/-- A store that is closed is opened again, and a batch finds an id behind that of its new segment. -/
def Command.Spares (m : Machine) : Command → Prop
  | .request (.batch xs) => xs ≠ [] → m.store.Room
  | .request (.reopen cfg) => (Command.perform m (.request (.reopen cfg))).1.isDone = true
  | _ => True

theorem Numbering.perform {m : Machine} (h : Numbering m) (c : Command) (hc : c.Spares m) :
    Numbering (c.perform m).2 := by
  obtain ⟨s, w⟩ := m
  cases c with
  | truncateEnd lastValid => exact h.of_keeps (numbering_truncateEnd lastValid)
  | request r =>
    cases r with
    | batch xs => exact h.batch xs hc
    | truncateStart first metaPairs => exact h.of_keeps (numbering_truncateStart first metaPairs)
    | deleteDeadSegments => exact h.of_keeps numbering_deleteDeadSegments
    | writeMetadata pairs => exact h.of_keeps (numbering_writeMetadata pairs)
    | reopen cfg =>
      obtain ⟨s', w', hopen, hrun⟩ := @reopen_isDone _ s w cfg hc
      obtain ⟨d, hd, _, hnames⟩ := h.world
      obtain rfl : w = calm d := hd
      obtain ⟨d', es, rfl, hentered⟩ := openStore_entered hopen
      rw [hrun]
      refine hentered.numbering fun hlast => ?_
      obtain ⟨name, hname, hid⟩ := (Woodshed.mem_diskIds _ _).mp hlast
      exact not_lastSegmentId_lt _ (hnames name hname _ hid)

/-- From the open of a directory on, whatever orphans lie in it, the next segment id is above all ids
in use and all on disk, and its file does not exist, just if no file has the last of all ids. -/
theorem Follows.nextSegId_fresh {d : Dir} {cfg : StoreCfg} {s : Store} {w : World}
    (hopen : Store.openStore cfg (calm d) = .ok s w) :
    (Machine.Numbered ⟨s, w⟩ ↔ lastSegmentId ∉ diskIds d) ∧
      (lastSegmentId ∉ diskIds d → ∀ m, Follows (fun m c => c.Spares m) ⟨s, w⟩ m → m.Numbered) := by
  obtain ⟨d', es, rfl, h⟩ := openStore_entered hopen
  refine ⟨⟨fun hnum hlast => ?_, fun hroom => (h.numbering hroom).numbered⟩, fun hroom m hm => ?_⟩
  · have hdisk := (h.mem_diskIds _).mpr hlast
    exact not_lastSegmentId_lt _ (hnum.above _ (Or.inr hdisk))
  · exact (hm.invariant (h.numbering hroom) fun m c hm hc => hm.perform c hc).numbered

end

section
attribute [local instance] sample

/-- A new store with an empty orphan. -/
def strewn (id : SegmentId) : Dir := blank.formatted.put (segmentPath id) ⟨[], []⟩

theorem mem_diskIds_strewn (id other : SegmentId) :
    other ∈ diskIds (strewn id) ↔ other = id ∨ other = ⟨1⟩ := by
  have hold := (clean_formatted fresh_blank).sound.mem_diskIds other
  rw [mem_diskIds] at hold ⊢
  simp only [strewn, Dir.mem_put]
  constructor
  · rintro ⟨name, rfl | hname, hid⟩
    · rw [parseSegmentPath_segmentPath] at hid
      exact Or.inl (Option.some.inj hid).symm
    · rcases hold.mp ⟨name, hname, hid⟩ with hl | hd
      · obtain ⟨seg, hseg, rfl⟩ := (lists_iff _ _).mp hl
        exact Or.inr (congrArg SegmentEntry.id (List.mem_singleton.mp hseg))
      · simp [firstState, StoreState.empty] at hd
  · rintro (rfl | rfl)
    · exact ⟨_, Or.inl rfl, parseSegmentPath_segmentPath _⟩
    · obtain ⟨name, hname, hid⟩ := hold.mpr (Or.inl (by decide))
      exact ⟨name, Or.inr hname, hid⟩

theorem layout_strewn {id : SegmentId} (hid : id ≠ ⟨1⟩) :
    Layout (strewn id) [opFrame creation] [] firstState := by
  have h := (clean_formatted fresh_blank).layout
  have hbytes (name : FileName) (hne : name ≠ segmentPath id) :
      (strewn id).bytes name = blank.formatted.bytes name := by
    rw [strewn, Dir.bytes_put, if_neg hne]
  have hseg : (strewn id).bytes (segmentPath ⟨1⟩) = blank.formatted.bytes (segmentPath ⟨1⟩) := by
    refine hbytes _ fun heq => hid ?_
    have hparse := congrArg parseSegmentPath heq
    rw [parseSegmentPath_segmentPath, parseSegmentPath_segmentPath] at hparse
    exact (Option.some.inj hparse).symm
  have hbody : body (strewn id) ⟨1⟩ = body blank.formatted ⟨1⟩ := by rw [body, hseg, body]
  refine ⟨h.present, ?_, h.fits, h.short, h.replays, h.nonempty, ?_, ?_⟩
  · rw [hbytes _ (segmentPath_ne_manifest id).symm]
    exact h.manifest
  · intro seg hmem
    obtain rfl := List.mem_singleton.mp hmem
    have hold := h.files _ hmem
    rw [HasSegment] at hold ⊢
    change (strewn id).bytes (segmentPath ⟨1⟩) = some (segmentMagic ++ body (strewn id) ⟨1⟩)
    rw [hseg, hbody]
    exact hold
  · intro seg _ info hinfo
    cases hinfo

/-- A store with an orphan can be opened. -/
theorem openStore_strewn {id : SegmentId} (hid : id ≠ ⟨1⟩) :
    ∃ s w, Store.openStore ⟨0⟩ (calm (strewn id)) = .ok s w := by
  obtain ⟨d', _, _, activeReport, _, _, _, _, _, hopen⟩ :=
    (layout_strewn hid).openStore_ok ⟨0⟩ (show firstState.activeSegment = some firstSegment from rfl)
  exact ⟨_, _, hopen⟩

theorem Follows.nextSegId_fresh_strewn :
    ∃ s w, Store.openStore ⟨0⟩ (calm (strewn ⟨7⟩)) = .ok s w ∧
      ∀ m, Follows (fun m c => c.Spares m) ⟨s, w⟩ m → m.Numbered := by
  obtain ⟨s, w, hopen⟩ := openStore_strewn (show (⟨7⟩ : SegmentId) ≠ ⟨1⟩ by decide)
  refine ⟨s, w, hopen, (Follows.nextSegId_fresh hopen).2 ?_⟩
  rw [mem_diskIds_strewn]
  decide

/-- With an orphan `ffffffff.seg` the next segment id is not above the one of the orphan. -/
theorem not_numbered_strewn : ¬ ∀ d cfg s w, Store.openStore cfg (calm d) = .ok s w →
    Machine.Numbered ⟨s, w⟩ := by
  intro hall
  obtain ⟨s, w, hopen⟩ := openStore_strewn (show lastSegmentId ≠ ⟨1⟩ by decide)
  obtain ⟨d', es, rfl, h⟩ := openStore_entered hopen
  have hdisk := (h.mem_diskIds lastSegmentId).mpr ((mem_diskIds_strewn _ _).mpr (Or.inl rfl))
  exact not_lastSegmentId_lt _ ((hall _ _ _ _ hopen).above _ (Or.inr hdisk))

end
end Woodshed
