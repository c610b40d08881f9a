import Woodshed.Reopening
import Woodshed.Runs

/-! The manifest as the record of a running store: what a store is asked for is appended to it op by
op, and replaying it gives the state in memory. -/
namespace Woodshed
open Sequencing Framing

section
variable [Crates]

/-- The op that a command records, if there is one of a length that the caller decides. -/
def Command.recorded (m : Machine) : Command → Option ManifestOp
  | .request r => r.recorded m
  | .truncateEnd lastValid =>
    if m.store.lastEntryId.all (fun last => decide (last ≤ lastValid)) then none
    else do
      let (target, drop) ← truncateTarget m.store.state.segments lastValid
      let xs ← (m.world.dir.bytes (segmentPath target)).bind (behindMagic segmentMagic)
      match FrameScanner.scanToAfter lastValid
        ⟨⟨xs, []⟩, startOffset m.store.index lastValid target, none⟩ with
      | .ok off _ => some (ManifestOp.bare (.truncateEnd target (UInt64.ofNat off) drop))
      | .error _ _ => none

/-- The recorded op fits the length field of a frame. -/
def Command.Recordable (m : Machine) (c : Command) : Prop :=
  ∀ op ∈ c.recorded m, op.encode.length < 2^32

instance (m : Machine) (c : Command) : Decidable (c.Recordable m) :=
  match h : c.recorded m with
  | none => .isTrue (by simp [Command.Recordable, h])
  | some op =>
    if hop : op.encode.length < 2^32 then .isTrue (by simpa [Command.Recordable, h] using hop)
    else .isFalse (by simpa [Command.Recordable, h] using hop)

/-! ### One command -/

def Outcome.panics : Outcome → Bool
  | .failed (.panic _) => true
  | .notOpened (.panic _) => true
  | _ => false

/-- A segment id that is in use. -/
def StoreState.Uses (st : StoreState) (id : SegmentId) : Prop := st.lists id = true ∨ id ∈ st.dead

/-- What a command other than an open does to an upright store. -/
structure Performed (s : Store) (d : Dir) (c : Command) (s' : Store) (d' : Dir)
    (active' : SegmentEntry) (ops : List ManifestOp) : Prop where
  upright : Upright s' d' active'
  logged : Logged s d s' d' ops
  ops : ∀ op ∈ ops, Fits (opFrame op) ∨ op ∈ c.recorded ⟨s, calm d⟩ ∧ ops = [op]
  ids : (s'.nextSegId = s.nextSegId ∧ ∀ id, s'.state.Uses id → s.state.Uses id) ∨
    (∃ xs, c = .request (.batch xs)) ∧ s.rolloverPending = true ∧
      s'.nextSegId = s.nextSegId.succ ∧ ∀ id, s'.state.Uses id → s.state.Uses id ∨ id = s.nextSegId

section
variable {s : Store} {d : Dir} {active : SegmentEntry}

theorem Performed.refl (h : Upright s d active) (c : Command) : Performed s d c s d active [] :=
  ⟨h, Logged.refl s d, by simp, Or.inl ⟨rfl, fun _ hid => hid⟩⟩

theorem performed_batch (h : Upright s d active) (xs : List Entry)
    (hnew : xs ≠ [] → s.rolloverPending = true → segmentPath s.nextSegId ∉ d.files) :
    ∃ s' d' active' ops, Command.perform ⟨s, calm d⟩ (.request (.batch xs)) = (.done, ⟨s', calm d'⟩) ∧
      Performed s d (.request (.batch xs)) s' d' active' ops := by
  obtain ⟨_, s', d', active', ops, hrun, hup, hlog, hfits, _, _, _, hstate, _, _⟩ := h.batch xs hnew
  refine ⟨s', d', active', ops, outcomeOf_ok hrun, hup, hlog, fun op hop => Or.inl (hfits op hop), ?_⟩
  rcases hstate with ⟨hnext, hst, _⟩ | ⟨hp, hnext, first, hst, _⟩
  · rw [hst]
    exact Or.inl ⟨hnext, fun _ hid => hid⟩
  · refine Or.inr ⟨⟨xs, rfl⟩, hp, hnext, ?_⟩
    intro id hid
    rw [hst, StoreState.Uses, lists_rolledState] at hid
    rcases hid with (hl | rfl) | hd
    · exact Or.inl (Or.inl hl)
    · exact Or.inr rfl
    · exact Or.inl (Or.inr hd)

theorem performed_truncateStart (h : Upright s d active) (first : EntryId) (metaPairs : Meta) :
    ∃ o s' d' active' ops, Command.perform ⟨s, calm d⟩ (.request (.truncateStart first metaPairs)) =
        (o, ⟨s', calm d'⟩) ∧ o.panics = false ∧
      Performed s d (.request (.truncateStart first metaPairs)) s' d' active' ops := by
  by_cases hlt : first < s.state.firstEntry
  · have hrun := Store.truncateStart_refused (m := ⟨s, calm d⟩) metaPairs hlt
    exact ⟨_, s, d, active, [], outcomeOf_error hrun, rfl, Performed.refl h _⟩
  · obtain ⟨hrun, hup, hlog⟩ := h.truncateStart metaPairs (not_lt.mp hlt)
    refine ⟨_, _, _, active, _, outcomeOf_ok hrun, rfl, hup, hlog, ?_, Or.inl ⟨rfl, ?_⟩⟩
    · intro op hop
      obtain rfl := List.mem_singleton.mp hop
      refine Or.inr ⟨?_, rfl⟩
      rw [Command.recorded, Request.recorded, if_neg hlt]
      rfl
    · intro id hid
      have hdrop : ∀ id ∈ toEvict s.state first, s.state.lists id = true := fun id hid =>
        (mem_toEvict.mp hid).1
      exact (known_killed hdrop id).mp hid

theorem performed_deleteDeadSegments (h : Upright s d active) :
    ∃ s' d' active' ops, Command.perform ⟨s, calm d⟩ (.request .deleteDeadSegments) =
        (.done, ⟨s', calm d'⟩) ∧
      Performed s d (.request .deleteDeadSegments) s' d' active' ops := by
  obtain ⟨s', d', hrun, hup, hlog, hsame, hst, _, _⟩ := h.deleteDeadSegments
  refine ⟨s', d', active, _, outcomeOf_ok hrun, hup, hlog, ?_, Or.inl ⟨by rw [hsame], ?_⟩⟩
  · intro op hop
    obtain ⟨id, _, rfl⟩ := List.mem_map.mp hop
    exact Or.inl (fits_short _ (by simp [Op.fields]) (by simp [Op.fields]))
  · intro id hid
    rw [hst] at hid
    rcases hid with hl | hd
    · exact Or.inl hl
    · exact absurd hd (Finset.notMem_empty id)

theorem performed_writeMetadata (h : Upright s d active) (pairs : Meta) :
    ∃ s' d' active' ops, Command.perform ⟨s, calm d⟩ (.request (.writeMetadata pairs)) =
        (.done, ⟨s', calm d'⟩) ∧
      Performed s d (.request (.writeMetadata pairs)) s' d' active' ops := by
  have ha : StoreState.apply (ManifestOp.withMeta .metadata pairs) s.state =
      .ok ⟨⟩ { s.state with
        metaPairs := pairs.foldl StoreState.setMeta s.state.metaPairs } := rfl
  have hrun : Store.writeMetadata pairs ⟨s, calm d⟩ = _ := h.appendOp ha d _
  refine ⟨_, _, active, _, outcomeOf_ok hrun,
    h.recorded_same d rfl (Finset.Subset.refl _) h.present (fun _ _ => rfl)
      ⟨h.filed.known, h.filed.found⟩, logged_recorded ha rfl, ?_, Or.inl ⟨rfl, fun _ hid => hid⟩⟩
  intro op hop
  obtain rfl := List.mem_singleton.mp hop
  exact Or.inr ⟨rfl, rfl⟩

omit [Crates] in
/-- The op of a cut is the one that is recorded. -/
theorem Upright.recorded_cut {lastValid : EntryId} {pre post : List SegmentEntry} {target : SegmentEntry}
    {off : ℕ} (h : Upright s d active) (hcut : CutsAt s d lastValid pre target post off) :
    cutOp target off (post.map (·.id)) ∈ Command.recorded ⟨s, calm d⟩ (.truncateEnd lastValid) := by
  have hall := hcut.not_all
  obtain ⟨_, hsplit, hchosen, _, t, hscan⟩ := hcut
  have hmem : target ∈ s.state.segments := by simp [hsplit]
  have hbytes : (calm d).dir.bytes (segmentPath target.id) = _ := h.files target hmem
  rw [Command.recorded, if_neg hall, hchosen]
  dsimp only [Option.bind_eq_bind, Option.bind_some]
  rw [hbytes, Option.bind_some, behindMagic_append segmentMagic _ rfl, Option.bind_some, hscan]
  rfl

theorem performed_truncateEnd (h : Upright s d active) (lastValid : EntryId) :
    ∃ o s' d' active' ops, Command.perform ⟨s, calm d⟩ (.truncateEnd lastValid) =
        (o, ⟨s', calm d'⟩) ∧ o.panics = false ∧
      Performed s d (.truncateEnd lastValid) s' d' active' ops := by
  rcases h.cases_truncateEnd lastValid with hrun | ⟨e, hrun⟩ | ⟨pre, target, post, off, hcut⟩
  · exact ⟨_, s, d, active, [], outcomeOf_ok hrun, rfl, Performed.refl h _⟩
  · exact ⟨_, s, d, active, [], outcomeOf_error hrun, rfl, Performed.refl h _⟩
  · obtain ⟨hrun, hup, hlog⟩ := h.cut hcut
    refine ⟨_, _, _, target, _, outcomeOf_ok hrun, rfl, hup, hlog, ?_, Or.inl ⟨rfl, ?_⟩⟩
    · intro op hop
      obtain rfl := List.mem_singleton.mp hop
      exact Or.inr ⟨h.recorded_cut hcut, rfl⟩
    · intro id hid
      have hdrop : ∀ id ∈ post.map (·.id), s.state.lists id = true := by
        intro id hid
        obtain ⟨seg, hseg, rfl⟩ := List.mem_map.mp hid
        exact lists_of_mem (by simp [hcut.split, hseg])
      exact (known_killed hdrop id).mp hid

/-- Every command but an open, when no batch finds a file in its way. -/
theorem Upright.perform (h : Upright s d active) (c : Command)
    (hopen : ∀ cfg, c ≠ .request (.reopen cfg))
    (hnew : ∀ xs, c = .request (.batch xs) → xs ≠ [] → s.rolloverPending = true →
      segmentPath s.nextSegId ∉ d.files) :
    ∃ o s' d' active' ops, c.perform ⟨s, calm d⟩ = (o, ⟨s', calm d'⟩) ∧ o.panics = false ∧
      Performed s d c s' d' active' ops := by
  cases c with
  | truncateEnd lastValid => exact performed_truncateEnd h lastValid
  | request r =>
    cases r with
    | batch xs =>
      obtain ⟨s', d', active', ops, hrun, hp⟩ := performed_batch h xs (hnew xs rfl)
      exact ⟨_, s', d', active', ops, hrun, rfl, hp⟩
    | truncateStart first metaPairs => exact performed_truncateStart h first metaPairs
    | deleteDeadSegments =>
      obtain ⟨s', d', active', ops, hrun, hp⟩ := performed_deleteDeadSegments h
      exact ⟨_, s', d', active', ops, hrun, rfl, hp⟩
    | writeMetadata pairs =>
      obtain ⟨s', d', active', ops, hrun, hp⟩ := performed_writeMetadata h pairs
      exact ⟨_, s', d', active', ops, hrun, rfl, hp⟩
    | reopen cfg => exact absurd rfl (hopen cfg)

end

/-! ### The record -/

/-- The manifest is whole frames, the cursor is at its end, and both passes over it, the scan and the
replay, come to the state in memory and to the end of the file. -/
structure Machine.Faithful (m : Machine) : Prop where
  whole : ∃ es, m.world.dir.bytes manifestFileName = some (manifestMagic ++ frames.encodeAll es) ∧
    (∀ e ∈ es, Fits e) ∧
    m.store.manifestCursor = ⟨⟨[]⟩, (manifestMagic ++ frames.encodeAll es).length⟩
  replays : ∃ file offset, openManifest m.world = .ok (file, offset) m.world ∧
    ∀ stride, ∃ summary t,
      FrameScanner.scanAll stride (FrameScanner.new file offset) = .ok summary t ∧
      summary.status = .clean ∧ summary.nextOffset = m.store.manifestCursor.position ∧
      replay file offset = .ok ⟨m.store.state, summary.nextOffset⟩

/-- The manifest of an upright store records its state. -/
structure Recording (s : Store) (d : Dir) (active : SegmentEntry) (es : List Entry) : Prop where
  upright : Upright s d active
  recorded : Recorded d es s.state
  manifest : ManifestAt s d (manifestMagic ++ frames.encodeAll es)

section
variable {s s' : Store} {d d' : Dir} {active active' : SegmentEntry} {es : List Entry}

theorem Recording.faithfulMachine (h : Recording s d active es) : Machine.Faithful ⟨s, calm d⟩ := by
  have hdec := frames.decode_encodeAll es h.recorded.fits
  have hend : (manifestMagic ++ frames.encodeAll es).length =
      magicLen+(frames.encodeAll es).length := by
    rw [List.length_append]
    rfl
  refine ⟨⟨es, h.manifest.file, h.recorded.fits, h.manifest.cursor⟩,
    ⟨manifestFileName, ⟨frames.encodeAll es, []⟩⟩, magicLen, openManifest_ok h.recorded.manifest, ?_⟩
  intro stride
  obtain ⟨t, ht⟩ := FrameScanner.scanAll_facing stride (frames.encodeAll es) magicLen
  rw [hdec] at ht
  refine ⟨_, t, ht, rfl, ?_, ?_⟩
  · dsimp only
    rw [h.manifest.cursor, hend]
  · have hreplay := replayLoop_entries es [] magicLen StoreState.empty h.recorded.fits (by decide)
    rw [List.append_nil, h.recorded.replays] at hreplay
    exact hreplay

/-- Ops that are appended and fit are part of the record. -/
theorem Recording.logged (h : Recording s d active es) (hup : Upright s' d' active')
    {ops : List ManifestOp} (hl : Logged s d s' d' ops) (hf : ∀ op ∈ ops, Fits (opFrame op)) :
    ∃ es', Recording s' d' active' es' := by
  have hmanifest := hl.manifest _ h.manifest
  rw [List.append_assoc, ← Grammar.encodeAll_append] at hmanifest
  refine ⟨es ++ ops.map opFrame, hup, ⟨hmanifest.file, ?_, ?_⟩, hmanifest⟩
  · intro e he
    rcases List.mem_append.mp he with he | he
    · exact h.recorded.fits e he
    · obtain ⟨op, hop, rfl⟩ := List.mem_map.mp he
      exact hf op hop
  · rw [replayEntries_append _ _ _ _ _ h.recorded.replays]
    exact hl.replays _

end

/-- Whole frames with a corrupt one behind them are not whole frames. -/
theorem encodeAll_corrupt_ne {es es' : List Entry} {xs : Bytes} (hf : ∀ e ∈ es, Fits e)
    (hf' : ∀ e ∈ es', Fits e) (hc : frameHead xs = .corrupt) :
    frames.encodeAll es ++ xs ≠ frames.encodeAll es' := by
  intro heq
  have hstop := decode_stop_corrupt hf hc
  rw [heq, frames.decode_encodeAll es' hf'] at hstop
  cases hstop

/-- A reopen that is done. -/
theorem reopen_isDone {s : Store} {w : World} {cfg : StoreCfg}
    (h : Command.Goes ⟨s, w⟩ (.request (.reopen cfg))) :
    ∃ s' w', Store.openStore cfg w = .ok s' w' ∧
      Command.perform ⟨s, w⟩ (.request (.reopen cfg)) = (.done, ⟨s', w'⟩) := by
  change (Command.perform ⟨s, w⟩ (.request (.reopen cfg))).1.isDone = true at h
  rw [Command.perform, Request.perform] at h ⊢
  cases hopen : Store.openStore cfg w with
  | ok s' w' => exact ⟨s', w', rfl, rfl⟩
  | error e w' =>
    rw [hopen] at h
    cases h

theorem Recording.perform {s : Store} {d : Dir} {active : SegmentEntry} {es : List Entry}
    (h : Recording s d active es) (c : Command) (hgo : c.Goes ⟨s, calm d⟩)
    (hfit : c.Recordable ⟨s, calm d⟩) :
    ∃ s' d' active' es', (c.perform ⟨s, calm d⟩).2 = ⟨s', calm d'⟩ ∧ Recording s' d' active' es' := by
  by_cases hc : ∃ cfg, c = .request (.reopen cfg)
  · obtain ⟨cfg, rfl⟩ := hc
    obtain ⟨s', w', hopen, hperform⟩ := reopen_isDone hgo
    obtain ⟨d', es', rfl, hr⟩ := h.upright.reopen h.recorded hopen
    exact ⟨s', d', active, es', congrArg Prod.snd hperform, hr.upright, hr.recorded, hr.manifest⟩
  · obtain ⟨o, s', d', active', ops, hrun, _, hp⟩ := h.upright.perform c (fun cfg heq => hc ⟨cfg, heq⟩)
      (fun xs heq => h.upright.unblocked (heq ▸ hgo))
    have hfits : ∀ op ∈ ops, Fits (opFrame op) := by
      intro op hop
      rcases hp.ops op hop with hf | ⟨hrec, _⟩
      · exact hf
      · exact hfit op hrec
    obtain ⟨es', h'⟩ := h.logged hp.upright hp.logged hfits
    exact ⟨s', d', active', es', congrArg Prod.snd hrun, h'⟩

/-- A store that has just been created. -/
theorem Fresh.recording {d : Dir} (hd : Fresh d) {cfg : StoreCfg} {s : Store} {w : World}
    (hopen : Store.openOrCreate cfg (calm d) = .ok s w) :
    ∃ d', w = calm d' ∧ Recording s d' firstSegment [opFrame creation] ∧
      s.nextSegId = Store.nextSegIdOf s.state ∧ s.state = firstState := by
  have hclean := clean_formatted hd
  obtain ⟨s', hopen', ho⟩ := hclean.sound.openStore cfg
  have heq := (openOrCreate_fresh hd cfg).trans hopen'
  rw [hopen] at heq
  obtain ⟨rfl, rfl⟩ : s = s' ∧ w = calm d.formatted := by
    cases heq
    exact ⟨rfl, rfl⟩
  have hst := ho.state
  refine ⟨d.formatted, rfl, ⟨ho.upright hclean.sound, ?_, ?_, ?_⟩, ?_, hst⟩
  · rw [hst]
    exact hclean.recorded
  · exact hclean.recorded.manifest
  · rw [ho.manifestCursor, manifestEnd, List.length_append]
    rfl
  · rw [ho.next, hst]

/-- Behind every run whose ops fit frames the manifest records the state. -/
theorem Fresh.follows {d : Dir} (hd : Fresh d) {cfg : StoreCfg} {s : Store} {w : World}
    (hopen : Store.openOrCreate cfg (calm d) = .ok s w) {m : Machine}
    (hrun : Follows (fun m c => c.Goes m ∧ c.Recordable m) ⟨s, w⟩ m) :
    ∃ s d active es, m = ⟨s, calm d⟩ ∧ Recording s d active es := by
  obtain ⟨d', rfl, h₀, _⟩ := hd.recording hopen
  refine hrun.invariant (I := fun m => ∃ s d active es, m = ⟨s, calm d⟩ ∧ Recording s d active es)
    ⟨s, d', firstSegment, _, rfl, h₀⟩ ?_
  rintro _ c ⟨s, d, active, es, rfl, h⟩ ⟨hgo, hfit⟩
  exact h.perform c hgo hfit

/-- The manifest is a faithful record of memory as long as every op fits a frame. -/
theorem Follows.faithful {d : Dir} (hd : Fresh d) {cfg : StoreCfg} {s : Store} {w : World}
    (hopen : Store.openOrCreate cfg (calm d) = .ok s w) {m : Machine}
    (hrun : Follows (fun m c => c.Goes m ∧ c.Recordable m) ⟨s, w⟩ m) : m.Faithful := by
  obtain ⟨s, d, active, es, rfl, h⟩ := hd.follows hopen hrun
  exact h.faithfulMachine

end

section
attribute [local instance] sample

/-- All calls, with a reopen in between and an entry cut off. -/
def worked : List Command :=
  [.request (.batch [(⟨1⟩, [1]), (⟨2⟩, [])]), .request (.batch [(⟨3⟩, [2])]),
    .request (.writeMetadata [(7, [9])]), .request (.truncateStart ⟨3⟩ [(7, [8])]),
    .request .deleteDeadSegments, .request (.reopen ⟨0⟩),
    .request (.batch [(⟨5⟩, []), (⟨6⟩, [])]), .truncateEnd ⟨5⟩, .request (.batch [(⟨8⟩, [])])]

theorem Follows.faithful_worked :
    ∃ s w, Store.openOrCreate ⟨0⟩ (calm blank) = .ok s w ∧ (commandAll ⟨s, w⟩ worked).Faithful := by
  obtain ⟨s, hopen, _⟩ := fresh_blank.session ⟨0⟩
  have hsome : openedBlank ⟨0⟩ = some ⟨s, calm blank.formatted⟩ := by rw [openedBlank, hopen]
  have hruns : (openedBlank ⟨0⟩).all (fun m =>
      followsRun (fun m c => decide (c.Goes m ∧ c.Recordable m)) m worked) = true := by
    decide +kernel
  rw [hsome] at hruns
  exact ⟨s, _, hopen, Follows.faithful fresh_blank hopen
    (Follows.here.run (fun m c hc => of_decide_eq_true hc) worked hruns)⟩

/-- After metadata of 4 GiB the manifest is not whole frames. -/
theorem Follows.not_faithful_huge : ¬ ∀ d cfg s w m, Fresh d →
    Store.openOrCreate cfg (calm d) = .ok s w → Follows (fun m c => c.Goes m) ⟨s, w⟩ m →
      m.Faithful := by
  intro hall
  obtain ⟨n, hn⟩ : ∃ n, n = 2^32 := ⟨_, rfl⟩
  obtain ⟨s, hopen, hs, _⟩ := fresh_blank.session ⟨0⟩
  have hfaithful := hall blank ⟨0⟩ s _ _ fresh_blank hopen
    (Follows.here.next (.request (.writeMetadata [(0, List.replicate n 0)])) trivial)
  have hcorrupt := frameHead_huge hn []
  set op := ManifestOp.withMeta .metadata [(0, List.replicate n 0)] with hop
  have hrun : Store.appendOp op "NoOp must always be valid" ⟨s, calm blank.formatted⟩ = _ :=
    hs.appendOp rfl _
  have hworld : (Command.perform ⟨s, calm blank.formatted⟩
      (.request (.writeMetadata [(0, List.replicate n 0)]))).2.world =
      calm (blank.formatted.appended (manifestEnd [opFrame creation]) op) := by
    rw [Command.perform, Request.perform, outcomeOf, Store.writeMetadata, hrun]
  obtain ⟨es, hbytes, hf, _⟩ := hfaithful.whole
  have hactual := Dir.bytes_appended hs.kept.recorded.manifest op
  rw [hworld] at hbytes
  rw [show (calm (blank.formatted.appended (manifestEnd [opFrame creation]) op)).dir =
    blank.formatted.appended (manifestEnd [opFrame creation]) op from rfl, hactual] at hbytes
  have heq := List.append_cancel_left (Option.some.inj hbytes)
  have hone : frames.encodeAll [opFrame op] = frame (opFrame op) := by simp
  rw [Grammar.encodeAll_append, hone] at heq
  rw [List.append_nil] at hcorrupt
  exact encodeAll_corrupt_ne hs.kept.recorded.fits hf hcorrupt heq

end
end Woodshed
