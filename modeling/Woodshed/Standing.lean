import Woodshed.Recording

/-! The structural invariant of a running store: what its state, its directory and its own fields
have to do with each other, in every run. -/
namespace Woodshed
open Sequencing Framing

section
variable [Crates]

/-- An op too long for a frame's length field does not get by the checksum of what the frame then
claims to hold. -/
def Command.Guarded (m : Machine) (c : Command) : Prop :=
  ∀ op ∈ c.recorded m, Fits (opFrame op) ∨
    checksum (⟨0⟩, op.encode.take (op.encode.length%2^32)) ≠ checksum (opFrame op)

instance (m : Machine) (c : Command) : Decidable (c.Guarded m) :=
  match h : c.recorded m with
  | none => .isTrue (by simp [Command.Guarded, h])
  | some op =>
    if hop : (opFrame op).2.length < 2^32 ∨
      checksum (⟨0⟩, op.encode.take (op.encode.length%2^32)) ≠ checksum (opFrame op) then
      .isTrue (by
        intro op' hop'
        rw [h] at hop'
        cases hop'
        exact hop)
    else .isFalse fun hall => hop (hall op h)

/-- The segment ids do not run out, and a store that is closed is opened again. -/
def Command.Roomy (m : Machine) : Command → Prop
  | .request (.batch _) => m.store.Room
  | .request (.reopen cfg) => (Command.perform m (.request (.reopen cfg))).1.isDone = true
  | _ => True

instance (m : Machine) (c : Command) : Decidable (c.Roomy m) :=
  match c with
  | .request (.batch _) => inferInstanceAs (Decidable m.store.Room)
  | .request (.reopen cfg) =>
    inferInstanceAs (Decidable ((Command.perform m (.request (.reopen cfg))).1.isDone = true))
  | .request (.truncateStart _ _) | .request .deleteDeadSegments | .request (.writeMetadata _)
  | .truncateEnd _ => inferInstanceAs (Decidable True)

/-- The structure of a running store. -/
structure Machine.Structured (m : Machine) : Prop where
  distinct : (m.store.state.segments.map (·.id)).Nodup
  disjoint : ∀ id ∈ m.store.state.dead, m.store.state.lists id = false
  /-- The active segment is the last live one, and not sealed. -/
  active : ∃ active, m.store.state.segments.getLast? = some active ∧
    m.store.state.activeSegmentId = some active.id ∧ m.store.activeId = active.id ∧
    m.store.state.seals active.id = none
  /-- Sealed are exactly the other live segments. -/
  seals : ∀ id, (m.store.state.seals id).isSome = true ↔
    m.store.state.lists id = true ∧ id ≠ m.store.activeId
  /-- The segment files are those of the live and the dead segments, each once. -/
  files : ∀ id, segmentPath id ∈ m.world.dir.files ↔ m.store.state.Uses id
  known : ∀ name ∈ m.world.dir.files, ∀ id, parseSegmentPath name = some id → name = segmentPath id
  next : ∀ id, m.store.state.Uses id → id < m.store.nextSegId
  fresh : segmentPath m.store.nextSegId ∉ m.world.dir.files

/-- What is known of the manifest of a running store: it records the state, or there is a frame in it
that no open gets by. -/
def Kempt (s : Store) (d : Dir) : Prop :=
  (∃ es, Recorded d es s.state ∧ ManifestAt s d (manifestMagic ++ frames.encodeAll es)) ∨
    ∃ es e rest, (∀ x ∈ es, Fits x) ∧ (∀ rest, frameHead (frame e ++ rest) = .corrupt) ∧
      ManifestAt s d (manifestMagic ++ (frames.encodeAll es ++ (frame e ++ rest)))

structure Standing (s : Store) (d : Dir) (active : SegmentEntry) : Prop where
  upright : Upright s d active
  next : ∀ id, s.state.Uses id → id < s.nextSegId
  kempt : Kempt s d

section
variable {s s' : Store} {d d' : Dir} {active : SegmentEntry}

theorem Standing.fresh (h : Standing s d active) : segmentPath s.nextSegId ∉ d.files := by
  intro hin
  obtain ⟨_, huses⟩ := h.upright.filed.known _ hin _ (parseSegmentPath_segmentPath _)
  exact lt_irrefl _ (h.next _ huses)

theorem Standing.structuredMachine (h : Standing s d active) : Machine.Structured ⟨s, calm d⟩ := by
  have hup := h.upright
  refine ⟨hup.shaped.nodup, hup.shaped.dead, ⟨active, hup.shaped.last, hup.shaped.activeId,
    hup.activeId, hup.shaped.unsealed⟩, ?_, ?_, fun name hname id hid =>
    (hup.filed.known name hname id hid).1, h.next, h.fresh⟩
  · intro id
    rw [show (⟨s, calm d⟩ : Machine).store.activeId = active.id from hup.activeId]
    exact hup.shaped.seals id
  · intro id
    constructor
    · intro hin
      exact (hup.filed.known _ hin _ (parseSegmentPath_segmentPath id)).2
    · rintro (hl | hd)
      · obtain ⟨seg, hseg, rfl⟩ := (lists_iff _ _).mp hl
        exact Dir.mem_of_bytes (hup.files seg hseg)
      · exact hup.filed.found id hd

/-- Ops that fit extend a record, and one that does not breaks it for good. -/
theorem Kempt.logged (h : Kempt s d) {ops : List ManifestOp} (hl : Logged s d s' d' ops)
    (hf : (∀ op ∈ ops, Fits (opFrame op)) ∨
      ∃ op, ops = [op] ∧ ∀ rest, frameHead (frame (opFrame op) ++ rest) = .corrupt) :
    Kempt s' d' := by
  rcases h with ⟨es, hr, hm⟩ | ⟨es, e, rest, hfits, hc, hm⟩
  · have hmanifest := hl.manifest _ hm
    rcases hf with hf | ⟨op, rfl, hc⟩
    · left
      rw [List.append_assoc, ← Grammar.encodeAll_append] at hmanifest
      refine ⟨es ++ ops.map opFrame, ⟨hmanifest.file, ?_, ?_⟩, hmanifest⟩
      · intro e he
        rcases List.mem_append.mp he with he | he
        · exact hr.fits e he
        · obtain ⟨op, hop, rfl⟩ := List.mem_map.mp he
          exact hf op hop
      · rw [replayEntries_append _ _ _ _ _ hr.replays]
        exact hl.replays _
    · right
      have hone : frames.encodeAll ([op].map opFrame) = frame (opFrame op) ++ [] := by simp
      rw [List.append_assoc, hone] at hmanifest
      exact ⟨es, opFrame op, [], hr.fits, hc, hmanifest⟩
  · right
    have hmanifest := hl.manifest _ hm
    refine ⟨es, e, rest ++ frames.encodeAll (ops.map opFrame), hfits, hc, ?_⟩
    simpa only [List.append_assoc] using hmanifest

/-- An open only gets by a manifest that records the state. -/
theorem Kempt.recorded (h : Kempt s d) {cfg : StoreCfg} {w : World}
    (hopen : Store.openStore cfg (calm d) = .ok s' w) : ∃ es, Recorded d es s.state := by
  rcases h with ⟨es, hr, _⟩ | ⟨es, e, rest, hfits, hc, hm⟩
  · exact ⟨es, hr⟩
  · obtain ⟨es', tail, _, hlayout⟩ := layout_of_isAuto (isAuto_of_openStore hopen)
    have hbytes := hlayout.manifest
    rw [hm.file] at hbytes
    have heq := List.append_cancel_left (Option.some.inj hbytes)
    have hstop := decode_stop_corrupt hfits (hc rest)
    rw [heq, decode_entries_short es' tail hlayout.fits hlayout.short] at hstop
    dsimp only at hstop
    split at hstop <;> cases hstop

/-- Every command keeps the structure, and none panics. -/
theorem Standing.perform (h : Standing s d active) (c : Command) (hroom : c.Roomy ⟨s, calm d⟩)
    (hguard : c.Guarded ⟨s, calm d⟩) :
    ∃ o s' d' active', c.perform ⟨s, calm d⟩ = (o, ⟨s', calm d'⟩) ∧ o.panics = false ∧
      Standing s' d' active' := by
  by_cases hc : ∃ cfg, c = .request (.reopen cfg)
  · obtain ⟨cfg, rfl⟩ := hc
    obtain ⟨s', w', hopen, hperform⟩ := reopen_isDone hroom
    obtain ⟨es, hr⟩ := h.kempt.recorded hopen
    obtain ⟨d', es', rfl, hre⟩ := h.upright.reopen hr hopen
    refine ⟨_, s', d', active, hperform, rfl, hre.upright, ?_, Or.inl ⟨es', hre.recorded, hre.manifest⟩⟩
    intro id hid
    rw [hre.next]
    rw [hre.state] at hid
    -- the ids in use are below another one, so the highest has a successor
    refine lt_nextSegIdOf (fun other ho => ?_) id hid
    have hlt := (SegmentId.lt_iff _ _).mp (h.next other ho)
    have hbound := s.nextSegId.val.toNat_lt
    omega
  · obtain ⟨o, s', d', active', ops, hrun, hpanic, hp⟩ := h.upright.perform c
      (fun cfg heq => hc ⟨cfg, heq⟩) (fun _ _ _ _ => h.fresh)
    refine ⟨o, s', d', active', hrun, hpanic, hp.upright, ?_, h.kempt.logged hp.logged ?_⟩
    · rcases hp.ids with ⟨hnext, huses⟩ | ⟨⟨xs, rfl⟩, hpend, hnext, huses⟩
      · intro id hid
        rw [hnext]
        exact h.next id (huses id hid)
      · have hsucc : s.nextSegId.succ.val.toNat = s.nextSegId.val.toNat+1 :=
          SegmentId.succ_toNat (hroom hpend)
        intro id hid
        rw [hnext, SegmentId.lt_iff, hsucc]
        rcases huses id hid with hold | rfl
        · have hlt := (SegmentId.lt_iff _ _).mp (h.next id hold)
          omega
        · omega
    · by_cases hfits : ∀ op ∈ ops, Fits (opFrame op)
      · exact Or.inl hfits
      · simp only [not_forall] at hfits
        obtain ⟨op, hop, hnot⟩ := hfits
        rcases hp.ops op hop with hf | ⟨hrec, hops⟩
        · exact absurd hf hnot
        · refine Or.inr ⟨op, hops, fun rest => frameHead_wrapped (opFrame op) rest ?_⟩
          exact (hguard op hrec).resolve_left hnot

end

/-- A store that has just been created stands. -/
theorem Fresh.standing {d : Dir} (hd : Fresh d) {cfg : StoreCfg} {s : Store} {w : World}
    (hopen : Store.openOrCreate cfg (calm d) = .ok s w) :
    ∃ d', w = calm d' ∧ Standing s d' firstSegment := by
  obtain ⟨d', rfl, h, hnext, hst⟩ := hd.recording hopen
  refine ⟨d', rfl, h.upright, ?_, Or.inl ⟨_, h.recorded, h.manifest⟩⟩
  intro id hid
  rw [hnext]
  refine lt_nextSegIdOf (fun other ho => ?_) id hid
  -- only the first segment is in use
  rw [hst] at ho
  rcases ho with hl | hdead
  · obtain ⟨seg, hseg, rfl⟩ := (lists_iff _ _).mp hl
    rw [List.mem_singleton.mp hseg]
    decide
  · exact absurd hdead (Finset.notMem_empty other)

/-- In every run the structure holds, no batch fails, and no call panics. -/
theorem Follows.structured {d : Dir} (hd : Fresh d) {cfg : StoreCfg} {s : Store} {w : World}
    (hopen : Store.openOrCreate cfg (calm d) = .ok s w) {m : Machine}
    (hrun : Follows (fun m c => c.Roomy m ∧ c.Guarded m) ⟨s, w⟩ m) :
    m.Structured ∧ (∀ xs, (Command.perform m (.request (.batch xs))).1.isDone = true) ∧
      ∀ c : Command, c.Roomy m → c.Guarded m → (c.perform m).1.panics = false := by
  obtain ⟨d', rfl, h₀⟩ := hd.standing hopen
  have hstanding := hrun.invariant (I := fun m => ∃ s d active, m = ⟨s, calm d⟩ ∧ Standing s d active)
    ⟨s, d', firstSegment, rfl, h₀⟩ (by
      rintro _ c ⟨s, d, active, rfl, h⟩ ⟨hroom, hguard⟩
      obtain ⟨_, s', d', active', hperform, _, h'⟩ := h.perform c hroom hguard
      exact ⟨s', d', active', congrArg Prod.snd hperform, h'⟩)
  obtain ⟨s, d, active, rfl, h⟩ := hstanding
  refine ⟨h.structuredMachine, ?_, ?_⟩
  · intro xs
    obtain ⟨s', d', active', ops, hperform, _⟩ := performed_batch h.upright xs fun _ _ => h.fresh
    rw [hperform]
    rfl
  · intro c hroom hguard
    obtain ⟨o, s', d', active', hperform, hpanic, _⟩ := h.perform c hroom hguard
    rw [hperform]
    exact hpanic

end

section
attribute [local instance] sample

/-- A run with a cut into a sealed segment, and a reopen. -/
theorem Follows.structured_worked :
    ∃ s w, Store.openOrCreate ⟨0⟩ (calm blank) = .ok s w ∧
      (commandAll ⟨s, w⟩ worked).Structured := by
  obtain ⟨s, hopen, _⟩ := fresh_blank.session ⟨0⟩
  have hsome : openedBlank ⟨0⟩ = some ⟨s, calm blank.formatted⟩ := by rw [openedBlank, hopen]
  have hruns : (openedBlank ⟨0⟩).all (fun m =>
      followsRun (fun m c => decide (c.Roomy m ∧ c.Guarded m)) m worked) = true := by
    decide +kernel
  rw [hsome] at hruns
  exact ⟨s, _, hopen, (Follows.structured fresh_blank hopen
    (Follows.here.run (fun m c hc => of_decide_eq_true hc) worked hruns)).1⟩

end

/-! ### A checksum that tells nothing apart -/

/-- If the checksum of what its header claims is its own, a frame that is too long is a shorter one with
bytes behind it. -/
theorem frame_collides [Crates] (e : Entry)
    (h : checksum (e.1, e.2.take (e.2.length%2^32)) = checksum e) :
    frame e = frame (e.1, e.2.take (e.2.length%2^32)) ++ e.2.drop (e.2.length%2^32) := by
  have hlen : (e.2.take (e.2.length%2^32)).length = e.2.length%2^32 :=
    List.length_take_of_le (Nat.mod_le _ _)
  have hfield : UInt32.ofNat (e.2.length%2^32) = UInt32.ofNat e.2.length := by
    rw [← UInt32.toNat_inj, UInt32.toNat_ofNat', UInt32.toNat_ofNat', Nat.mod_mod]
  have hheader : frameHeader (e.1, e.2.take (e.2.length%2^32)) = frameHeader e := by
    rw [frameHeader, frameHeader, h]
    dsimp only
    rw [hlen, hfield]
  rw [frame, frame, hheader, List.append_assoc, List.take_append_drop]

namespace Sample

/-- A frame whose last field is not flagged and runs to the end. -/
def buildOpen (fs : List Field) : Bytes :=
  1 :: ((fs.dropLast.flatMap fun f => flagged (fieldBytes f)) ++
    fs.getLast?.elim [] fun f => 2 :: fieldBytes f)

/-- The byte strings in a run of flagged ones, and the one behind them. -/
def chunksOpen : Bytes → Bytes → Option (List Bytes)
  | [], [] => some []
  | [], _ :: _ => none
  | 0 :: rest, acc => (chunksOpen rest []).map (acc.reverse :: ·)
  | 1 :: b :: rest, acc => chunksOpen rest (b :: acc)
  | 2 :: rest, [] => some [rest]
  | _ :: _, _ => none

def parseOpen : Bytes → Option (List Field)
  | 1 :: rest => do
    let cs ← chunksOpen rest []
    cs.mapM fieldOf
  | _ => none

theorem chunksOpen_flagged (bs rest acc : Bytes) :
    chunksOpen (flagged bs ++ rest) acc = (chunksOpen rest []).map ((acc.reverse ++ bs) :: ·) := by
  induction bs generalizing acc with
  | nil => simp [flagged, chunksOpen]
  | cons b bs ih =>
    have hcons : flagged (b :: bs) ++ rest = 1 :: b :: (flagged bs ++ rest) := by
      simp [flagged]
    rw [hcons, chunksOpen, ih]
    simp

theorem chunksOpen_fields (fs : List Field) (f : Field) :
    chunksOpen ((fs.flatMap fun f => flagged (fieldBytes f)) ++ 2 :: fieldBytes f) [] =
      some ((fs ++ [f]).map fieldBytes) := by
  induction fs with
  | nil => rfl
  | cons g fs ih =>
    rw [List.flatMap_cons, List.append_assoc, chunksOpen_flagged, ih]
    rfl

theorem parseOpen_buildOpen (fs : List Field) : parseOpen (buildOpen fs) = some fs := by
  rcases List.eq_nil_or_concat fs with rfl | ⟨front, f, rfl⟩
  · rfl
  · rw [List.concat_eq_append, buildOpen, List.dropLast_concat, List.getLast?_concat]
    change (chunksOpen (_ ++ 2 :: fieldBytes f) []).bind (·.mapM fieldOf) = _
    rw [chunksOpen_fields]
    exact mapM_fieldOf _

theorem length_buildOpen_le (fs : List Field) : (buildOpen fs).length ≤ (build fs).length := by
  rcases List.eq_nil_or_concat fs with rfl | ⟨front, f, rfl⟩
  · rfl
  · rw [List.concat_eq_append, buildOpen, List.dropLast_concat, List.getLast?_concat, build,
      List.flatMap_append]
    simp only [Option.elim_some, List.flatMap_cons, List.flatMap_nil, List.append_nil,
      List.length_cons, List.length_append, length_flagged]
    omega

end Sample

/-- A checksum that is the same for all byte strings. -/
@[reducible]
def colliding : Crates where
  xxh64 := fun _ => 0
  build := Sample.buildOpen
  parse := Sample.parseOpen
  hashIter := sample.hashIter
  parse_build := Sample.parseOpen_buildOpen
  parse_nil := rfl
  build_short := fun fs hlen hshort =>
    (Sample.length_buildOpen_le fs).trans_lt (Sample.build_short fs hlen hshort)
  hashIter_nodup := sample.hashIter_nodup
  mem_hashIter := sample.mem_hashIter

section
attribute [local instance] colliding

/-- The op that records a value under the key 0. -/
def valueOp (value : Bytes) : ManifestOp := ManifestOp.withMeta .metadata [(0, value)]

theorem encode_valueOp (value : Bytes) : (valueOp value).encode = (valueOp []).encode ++ value := rfl

/-- The op that declares the first segment an orphan. -/
def orphaned : ManifestOp := ManifestOp.bare (.recordOrphan ⟨1⟩)

/-- A value that holds the frames of two more ops. -/
def crafted (n : ℕ) : Bytes :=
  frame (opFrame orphaned) ++ frame (opFrame (valueOp (List.replicate n 0)))

theorem length_valueOp (value : Bytes) : (valueOp value).encode.length = 22+value.length := by
  have hhead : (valueOp []).encode.length = 22 := by decide
  rw [encode_valueOp, List.length_append, hhead]

theorem length_crafted (n : ℕ) : (crafted n).length = n+77 := by
  have horphan : (frame (opFrame orphaned)).length = 35 := by decide
  rw [crafted, List.length_append, horphan, length_frame]
  change 35+(headerLen+(valueOp (List.replicate n 0)).encode.length) = n+77
  rw [length_valueOp, List.length_replicate, headerLen]
  omega

theorem checksum_colliding (e : Entry) : checksum e = 0 := rfl

/-- At the right length, the frame of the op with that value is the frames of three ops. -/
theorem frame_crafted {n : ℕ} (hn : n+77 = 2^32) : frame (opFrame (valueOp (crafted n))) =
    frames.encodeAll [opFrame (valueOp []), opFrame orphaned,
      opFrame (valueOp (List.replicate n 0))] := by
  have hlen : (valueOp (crafted n)).encode.length%2^32 = (valueOp []).encode.length := by
    rw [length_valueOp, length_valueOp, length_crafted, hn, Nat.add_mod_right, List.length_nil]
    rfl
  have hcut := frame_collides (opFrame (valueOp (crafted n)))
    ((checksum_colliding _).trans (checksum_colliding _).symm)
  change frame _ = frame (⟨0⟩, (valueOp (crafted n)).encode.take
    ((valueOp (crafted n)).encode.length%2^32)) ++ (valueOp (crafted n)).encode.drop
    ((valueOp (crafted n)).encode.length%2^32) at hcut
  rw [hlen, encode_valueOp (crafted n), List.take_left, List.drop_left] at hcut
  rw [hcut]
  simp [opFrame, crafted]

/-- The manifest with that op replays to a state in which the first segment is live and dead. -/
theorem layout_crafted {n : ℕ} (hn : n+77 = 2^32) : ∃ d st,
    (∀ s w, Store.openOrCreate ⟨0⟩ (calm blank) = .ok s w →
      (Command.perform ⟨s, w⟩ (.request (.writeMetadata [(0, crafted n)]))).2.world = calm d) ∧
    Layout d ([opFrame creation] ++ [opFrame (valueOp [])] ++ [opFrame orphaned] ++
      [opFrame (valueOp (List.replicate n 0))]) [] st ∧
    st.activeSegment = some firstSegment ∧ st.lists ⟨1⟩ = true ∧ ⟨1⟩ ∈ st.dead := by
  obtain ⟨s, hopen, hs, _, hst, _⟩ := fresh_blank.session ⟨0⟩
  set op := valueOp (crafted n) with hop
  have hrun : Store.appendOp op "NoOp must always be valid" ⟨s, calm blank.formatted⟩ = _ :=
    hs.appendOp rfl _
  have hdiff := blank.formatted.differs_appended (manifestEnd [opFrame creation]) op
  have hbytes := Dir.bytes_appended hs.kept.recorded.manifest op
  have hone : frames.encodeAll [opFrame op] = frame (opFrame op) := by simp
  rw [Grammar.encodeAll_append, hone, frame_crafted hn, ← Grammar.encodeAll_append] at hbytes
  have hcreated := hs.kept.recorded.replays
  rw [hst] at hcreated
  have applyKept : StoreState.apply (valueOp []) firstState =
      .ok ⟨⟩ { firstState with metaPairs := [(0, [])] } := rfl
  have applyOrphaned : StoreState.apply orphaned { firstState with metaPairs := [(0, [])] } =
      .ok ⟨⟩ { firstState with metaPairs := [(0, [])], dead := {⟨1⟩} } := rfl
  have applyFilled : StoreState.apply (valueOp (List.replicate n 0))
      { firstState with metaPairs := [(0, [])], dead := {⟨1⟩} } =
      .ok ⟨⟩ { firstState with metaPairs := [(0, List.replicate n 0)], dead := {⟨1⟩} } := rfl
  have hfilled := replayEntries_snoc
    (replayEntries_snoc (replayEntries_snoc hcreated applyKept) applyOrphaned) applyFilled
  refine ⟨_, _, ?_, ⟨hdiff.present.trans hs.kept.present, ?_, ?_, ?_, hfilled, ?_, ?_, ?_⟩, rfl, rfl, ?_⟩
  · intro s' w' hopen'
    rw [hopen] at hopen'
    obtain ⟨rfl, rfl⟩ := EStateM.Result.ok.inj hopen'
    exact congrArg (fun r => r.2.world) (outcomeOf_ok hrun)
  · rw [List.append_nil]
    exact hbytes
  · intro e he
    simp only [List.mem_append, List.mem_singleton] at he
    rcases he with ((rfl | rfl) | rfl) | rfl
    · exact hs.kept.recorded.fits _ (by simp)
    · change (valueOp []).encode.length < 2^32
      rw [length_valueOp]
      decide
    · exact fits_short _ (by simp [Op.fields]) (by simp [Op.fields])
    · change (valueOp (List.replicate n 0)).encode.length < 2^32
      rw [length_valueOp, List.length_replicate]
      omega
  · decide
  · simp [firstState]
  · intro seg hseg
    have hmem : seg ∈ s.state.segments := by
      rw [hst]
      exact hseg
    exact hasSegment_appended _ op (hasSegment_of (hs.kept.holds seg hmem))
  · intro seg _ info hi
    cases hi
  · simp

/-- Metadata that collides makes the next open find ops in it: here the first segment is live and dead
then. -/
theorem Follows.not_structured : ¬ ∀ d cfg s w m, Fresh d →
    Store.openOrCreate cfg (calm d) = .ok s w → Follows (fun m c => c.Roomy m) ⟨s, w⟩ m →
      m.Structured := by
  intro hall
  obtain ⟨n, hn⟩ : ∃ n, n+77 = 2^32 := ⟨2^32-77, by decide⟩
  obtain ⟨s, hopen, _⟩ := fresh_blank.session ⟨0⟩
  obtain ⟨d, st, hworld, hlayout, hactive, hlists, hdead⟩ := layout_crafted hn
  have hd := hworld s _ hopen
  set m := (Command.perform ⟨s, calm blank.formatted⟩
    (.request (.writeMetadata [(0, crafted n)]))).2 with hm
  obtain ⟨d', es', st', activeReport, htodo, ht, _, _, _, hreopen⟩ := hlayout.openStore_ok ⟨0⟩ hactive
  have hperform : Command.perform m (.request (.reopen ⟨0⟩)) =
      (.done, ⟨storeOf ⟨0⟩ (survey d') firstSegment activeReport, calm d'⟩) := by
    rw [Command.perform, Request.perform, hd, hreopen]
  have hrecorded : Follows (fun m c => Command.Roomy m c) ⟨s, calm blank.formatted⟩ m :=
    Follows.here.next (.request (.writeMetadata [(0, crafted n)])) trivial
  have hroom : Command.Roomy m (.request (.reopen ⟨0⟩)) := by
    change (Command.perform m (.request (.reopen ⟨0⟩))).1.isDone = true
    rw [hperform]
    rfl
  have hrun := hrecorded.next (.request (.reopen ⟨0⟩)) hroom
  have hstructured := hall blank ⟨0⟩ s _ _ fresh_blank hopen hrun
  rw [hperform] at hstructured
  have hstate : (storeOf ⟨0⟩ (survey d') firstSegment activeReport).state = st' := by
    rw [storeOf, htodo.layout.survey_eq]
  have hdisk : ⟨1⟩ ∈ diskIds d := by
    obtain ⟨seg, hseg, hid⟩ := (lists_iff _ _).mp hlists
    rw [mem_diskIds]
    refine ⟨segmentPath ⟨1⟩, ?_, parseSegmentPath_segmentPath _⟩
    rw [← hid]
    exact Dir.mem_of_bytes (hlayout.files seg hseg)
  have hlisted : st'.lists ⟨1⟩ = true := by
    rw [ht.state]
    exact hlists
  have hnot := hstructured.disjoint ⟨1⟩
  rw [hstate, hlisted] at hnot
  exact Bool.noConfusion (hnot ((ht.dead ⟨1⟩ hdisk hlists).mpr hdead))

end
end Woodshed
