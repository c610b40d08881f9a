import Woodshed.Consuming
import Woodshed.Recording

/-! What a batch writes, read back: the length field of a frame keeps the low 32 bits of the length of
its payload. -/
namespace Woodshed
open Sequencing Framing FrameScanner

/-- Read frame by frame, each payload to its end. -/
def FrameScanner.readAll : ℕ → FrameScanner → Option (List Entry)
  | 0, _ => none
  | steps+1, s =>
    match FrameScanner.read s with
    | .error _ _ => none
    | .ok none _ => some []
    | .ok (some r) s' =>
      match r.readToEnd s' [] with
      | .error _ _ => none
      | .ok (payload, r') s'' =>
        (FrameScanner.readAll steps (r'.drop s'')).map fun es => (r.id, payload) :: es

section
variable [Crates]

/-- `bytes` decode, by `scan_all` and by `read`, to exactly the entries `xs`. -/
structure ReadsBack (bytes : Bytes) (xs : List Entry) : Prop where
  scanned : ∃ summary s, scanAll 1 (facing bytes 0) = .ok summary s ∧ summary.count = xs.length ∧
    summary.checkpoints.map (·.1) = xs.map (·.1) ∧ summary.nextOffset = bytes.length ∧
    summary.status = .clean
  read : ∀ steps, xs.length < steps → readAll steps (facing bytes 0) = some xs

omit [Crates] in
/-- With a stride of one every frame is a checkpoint. -/
theorem map_fst_checkpointsFrom [Crates] (count p : ℕ) (es : List Entry) :
    (checkpointsFrom 1 count p es).map (·.1) = es.map (·.1) := by
  induction es generalizing count p with
  | nil => rfl
  | cons e es ih =>
    rw [checkpointsFrom, if_pos (Nat.mod_one count), List.map_append, ih]
    rfl

theorem readAll_entries (xs : List Entry) (hf : ∀ e ∈ xs, Fits e) (p steps : ℕ)
    (hsteps : xs.length < steps) : readAll steps (facing (frames.encodeAll xs) p) = some xs := by
  induction xs generalizing p steps with
  | nil =>
    obtain ⟨steps, rfl⟩ : ∃ n, steps = n+1 := ⟨steps-1, by simp at hsteps; omega⟩
    rw [readAll, Grammar.encodeAll_nil, read_nil]
  | cons e xs ih =>
    obtain ⟨steps, rfl⟩ : ∃ n, steps = n+1 := ⟨steps-1, by simp at hsteps; omega⟩
    obtain ⟨r', q, hread, hdrop⟩ := readPayload e xs p p
    rw [readAll, Grammar.encodeAll_cons, frames_encode, read_frame e _ p (hf e (by simp))]
    rw [facing]
    dsimp only
    rw [hread]
    dsimp only
    rw [hdrop, ih (fun x hx => hf x (by simp [hx])) q steps (by simp at hsteps; omega)]
    rfl

omit [Crates] in
/-- No payload that is read back is longer than a length field says. -/
theorem fits_of_readAll {steps : ℕ} {bytes : Bytes} {p : ℕ} {xs : List Entry}
    (h : readAll steps (facing bytes p) = some xs) : ∀ e ∈ xs, Fits e := by
  induction steps generalizing bytes p xs with
  | zero => cases h
  | succ steps ih =>
    rw [readAll] at h
    by_cases hnil : bytes = []
    · rw [hnil, read_nil] at h
      cases h
      exact fun e he => (List.not_mem_nil he).elim
    · by_cases hlen : bytes.length < headerLen
      · obtain ⟨s, hs⟩ := read_short bytes p hnil hlen
        rw [hs] at h
        cases h
      · have hread := read_header bytes p (not_lt.mp hlen)
        dsimp only at hread
        set n := headerPayloadLen (bytes.take headerLen) with hn
        have hlt : n < 2^32 := UInt32.toNat_lt _
        rw [hread, facing] at h
        dsimp only at h
        by_cases henough : n ≤ (bytes.drop headerLen).length
        · -- the payload has the length of the field
          have hend := FrameReader.readToEnd_quiet ⟨headerId (bytes.take headerLen), n, n, p⟩
            (bytes.drop headerLen) [] p none henough
          dsimp only at hend
          rw [hend] at h
          dsimp only at h
          rw [FrameReader.drop, if_neg (lt_irrefl 0)] at h
          obtain ⟨es, hes, rfl⟩ := Option.map_eq_some_iff.mp h
          intro e he
          rcases List.mem_cons.mp he with rfl | he
          · rw [Fits, List.nil_append, List.length_take]
            omega
          · exact ih hes e he
        · obtain ⟨e, s, hs⟩ := FrameReader.readToEnd_short
            ⟨headerId (bytes.take headerLen), n, n, p⟩ (bytes.drop headerLen) [] p none
            (not_le.mp henough)
          rw [hs] at h
          cases h

/-- Encoded entries are read back just if all payloads fit the length field. -/
theorem readsBack_iff (xs : List Entry) : ReadsBack (frames.encodeAll xs) xs ↔ ∀ e ∈ xs, Fits e := by
  refine ⟨fun h => fits_of_readAll (h.read (xs.length+1) (Nat.lt_succ_self _)), fun hf => ⟨?_, ?_⟩⟩
  · obtain ⟨s, hs⟩ := scanAll_facing 1 (frames.encodeAll xs) 0
    rw [frames.decode_encodeAll xs hf] at hs
    refine ⟨_, s, hs, rfl, map_fst_checkpointsFrom 0 0 xs, ?_, rfl⟩
    exact Nat.zero_add _
  · exact fun steps hsteps => readAll_entries xs hf 0 steps hsteps

/-- Where in its segment a batch is written. -/
def Store.writesAt (s : Store) (xs : List Entry) : ℕ :=
  if xs ≠ [] ∧ s.rolloverPending = true then magicLen else s.activeCursor.position

/-- What a batch writes are its encoded entries. -/
theorem Upright.batch_bytes {s : Store} {d : Dir} {active : SegmentEntry} (h : Upright s d active)
    {xs : List Entry} {c : Commit} {m : Machine} (hrun : Store.batch xs ⟨s, calm d⟩ = .ok c m) :
    ∃ file, m.world.dir.bytes (segmentPath m.store.activeId) = some file ∧
      file.drop (s.writesAt xs) = frames.encodeAll xs := by
  have hgo : Command.Goes ⟨s, calm d⟩ (.request (.batch xs)) := by
    change (outcomeOf (Store.batch xs) ⟨s, calm d⟩).1.isDone = true
    rw [outcomeOf_ok hrun]
    rfl
  obtain ⟨_, s', d', active', _, hrun', hup, _, _, _, _, _, _, hbody, _⟩ := h.batch xs (h.unblocked hgo)
  rw [hrun] at hrun'
  obtain ⟨rfl, rfl⟩ := EStateM.Result.ok.inj hrun'
  have hfile := hup.files active' hup.shaped.mem
  rw [HasSegment, hbody] at hfile
  refine ⟨_, by rw [← hup.activeId] at hfile; exact hfile, ?_⟩
  rw [← List.append_assoc]
  refine List.drop_left' ?_
  unfold Store.writesAt
  by_cases hc : xs ≠ [] ∧ s.rolloverPending = true
  · rw [if_pos hc, if_pos hc]
    rfl
  · rw [if_neg hc, if_neg hc, h.position]

/-- Of every batch that is written, the bytes read back as its entries just if each payload fits the
length field of a frame. -/
theorem Follows.batch_readsBack_iff {d : Dir} (hd : Fresh d) {cfg : StoreCfg} {s : Store} {w : World}
    (hopen : Store.openOrCreate cfg (calm d) = .ok s w) {m : Machine}
    (hrun : Follows (fun m c => c.Goes m ∧ c.Recordable m) ⟨s, w⟩ m) {xs : List Entry} {c : Commit}
    {m' : Machine} (hbatch : Store.batch xs m = .ok c m') :
    ∃ file, m'.world.dir.bytes (segmentPath m'.store.activeId) = some file ∧
      (ReadsBack (file.drop (m.store.writesAt xs)) xs ↔ ∀ e ∈ xs, e.2.length < 2^32) := by
  obtain ⟨s, d, active, es, rfl, h⟩ := hd.follows hopen hrun
  obtain ⟨file, hfile, hbytes⟩ := h.upright.batch_bytes hbatch
  refine ⟨file, hfile, ?_⟩
  rw [hbytes]
  exact readsBack_iff xs

end

section
attribute [local instance] sample

theorem Follows.batch_readsBack_iff_blank : ∃ s c m file,
    Store.openOrCreate ⟨0⟩ (calm blank) = .ok s (calm blank.formatted) ∧
      Store.batch [(⟨5⟩, [1, 2]), (⟨6⟩, [])] ⟨s, calm blank.formatted⟩ = .ok c m ∧
      m.world.dir.bytes (segmentPath m.store.activeId) = some file ∧
      ReadsBack (file.drop (s.writesAt [(⟨5⟩, [1, 2]), (⟨6⟩, [])])) [(⟨5⟩, [1, 2]), (⟨6⟩, [])] := by
  obtain ⟨s, hopen, hs, _, hst, hpend⟩ := fresh_blank.session ⟨0⟩
  obtain ⟨s', d', _, _, active', hbatch, _⟩ := hs.batch
    (show ([(⟨5⟩, [1, 2]), (⟨6⟩, [])] : List Entry) ≠ [] by simp) (by simp [Fits]) (by simp; decide)
    (by rw [hst]; simp [liveLog]) (by intro hp; rw [hpend] at hp; cases hp)
  obtain ⟨file, hfile, hiff⟩ := Follows.batch_readsBack_iff fresh_blank hopen .here hbatch
  exact ⟨s, _, _, file, hopen, hbatch, hfile, hiff.mpr (by simp)⟩

/-- A payload of 4 GiB is not read back. -/
theorem not_readsBack_huge : ¬ ∀ d cfg s w m xs c m' file, Fresh d →
    Store.openOrCreate cfg (calm d) = .ok s w →
    Follows (fun m c => c.Goes m ∧ c.Recordable m) ⟨s, w⟩ m → Store.batch xs m = .ok c m' →
    m'.world.dir.bytes (segmentPath m'.store.activeId) = some file →
    ReadsBack (file.drop (m.store.writesAt xs)) xs := by
  intro hclaim
  obtain ⟨s, hopen, _, _, _, hpend⟩ := fresh_blank.session ⟨0⟩
  obtain ⟨d, hw, hrec, _⟩ := fresh_blank.recording hopen
  obtain ⟨n, hn⟩ : ∃ n, n = 2^32 := ⟨_, rfl⟩
  set xs : List Entry := [(⟨5⟩, List.replicate n 0)]
  rw [hw] at hopen
  obtain ⟨c, s', d', active', _, hbatch, _⟩ := hrec.upright.batch xs
    (by intro _ hp; rw [hpend] at hp; cases hp)
  obtain ⟨file, hfile, hbytes⟩ := hrec.upright.batch_bytes hbatch
  have hread := hclaim blank ⟨0⟩ s (calm d) ⟨s, calm d⟩ xs c _ file fresh_blank hopen .here hbatch hfile
  rw [hbytes] at hread
  have hfits := (readsBack_iff xs).mp hread (⟨5⟩, List.replicate n 0) (List.mem_singleton_self _)
  rw [Fits, List.length_replicate, hn] at hfits
  exact lt_irrefl _ hfits

end
end Woodshed
