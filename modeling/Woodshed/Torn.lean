import Woodshed.Reopening
import Woodshed.Runs

/-! A manifest with a part of a frame behind whole ones: what opens, and with what. -/
namespace Woodshed
open Sequencing Framing

section
variable [Crates]

/-- Ops that are accepted one after the other are replayed from their frames. -/
theorem replayEntries_ops (ops : List ManifestOp) {st st' : StoreState} (p : ℕ)
    (h : (forM ops StoreState.apply : Applying) st = .ok ⟨⟩ st') :
    replayEntries st p (ops.map opFrame) = .ok st' := by
  induction ops generalizing st p with
  | nil =>
    cases h
    rfl
  | cons op ops ih =>
    rw [forM_cons] at h
    obtain ⟨_, st₁, hop, hops⟩ := bind_eq_ok h
    rw [List.map_cons, replayEntries, opFrame, decode_encode]
    dsimp only
    rw [hop]
    exact ih _ hops

/-- A directory whose manifest holds the frames of `ops`, which make the state `st`, and the first
`n` bytes of the frame of `op` behind them. -/
structure TornTail (d : Dir) (ops : List ManifestOp) (st : StoreState) (op : ManifestOp) (n : ℕ) :
    Prop where
  present : d.present = true
  accepted : (forM ops StoreState.apply : Applying) StoreState.empty = .ok ⟨⟩ st
  created : ∃ first rest, ops = first :: rest ∧ ∃ id entry, first.op = .createSegment id entry
  started : 0 < n
  cut : n < (frame (opFrame op)).length
  manifest : d.bytes manifestFileName =
    some (manifestMagic ++ (frames.encodeAll (ops.map opFrame) ++ (frame (opFrame op)).take n))
  files : ∀ seg ∈ st.segments, HasSegment d seg.id
  sealedIntact : ∀ seg ∈ st.segments, ∀ info, st.seals seg.id = some info →
    UInt64.ofNat (segmentMagic ++ body d seg.id).length = info.finalSize ∧
      (frames.decode (body d seg.id)).stop = .clean

/-- The directory opens without approval, with the state that the ops make but for the dead ids:
these are the files that were dead already and those that are listed nowhere. -/
structure Tolerates (d : Dir) (ops : List ManifestOp) (st : StoreState) (cfg : StoreCfg)
    (s : Store) (d' : Dir) (es' : List Entry) : Prop where
  opens : Store.openStore cfg (calm d) = .ok s (calm d')
  state : s.state = { st with dead := s.state.dead }
  dead : ∀ id, id ∈ s.state.dead ↔ id ∈ diskIds d ∧ (id ∈ st.dead ∨ st.lists id = false)
  recovery : RecoveryFrames (ops.map opFrame) es'
  manifest : d'.bytes manifestFileName = some (manifestMagic ++ frames.encodeAll es')
  manifestCursor : s.manifestCursor = FrameCursor.new (manifestEnd es')

section
variable {d : Dir} {ops : List ManifestOp} {st : StoreState} {op : ManifestOp} {n : ℕ}

theorem TornTail.torn (h : TornTail d ops st op n) (hop : Fits (opFrame op)) :
    frameHead ((frame (opFrame op)).take n) = .torn := by
  have hn := h.started
  have hcut := h.cut
  refine frameHead_torn (opFrame op) _ hop (List.take_prefix _ _) ?_ ?_
  · intro hnil
    have := congrArg List.length hnil
    rw [List.length_take, List.length_nil] at this
    omega
  · intro heq
    have := congrArg List.length heq
    rw [List.length_take] at this
    omega

theorem TornTail.fits (hops : ∀ o ∈ ops, Fits (opFrame o)) : ∀ e ∈ ops.map opFrame, Fits e := by
  intro e he
  obtain ⟨o, ho, rfl⟩ := List.mem_map.mp he
  exact hops o ho

/-- A part of a header is no obstacle. -/
theorem TornTail.layout (h : TornTail d ops st op n) (hops : ∀ o ∈ ops, Fits (opFrame o))
    (hn : n < headerLen) (hne : st.segments ≠ []) :
    Layout d (ops.map opFrame) ((frame (opFrame op)).take n) st := by
  refine ⟨h.present, h.manifest, TornTail.fits hops, ?_, replayEntries_ops ops magicLen h.accepted,
    hne, h.files, h.sealedIntact⟩
  rw [List.length_take]
  omega

/-- Opening cuts the part of a header off and finishes what the files need. -/
theorem TornTail.tolerates (h : TornTail d ops st op n) (hops : ∀ o ∈ ops, Fits (opFrame o))
    (hn : n < headerLen) {active : SegmentEntry} (ha : st.activeSegment = some active)
    (cfg : StoreCfg) : ∃ s d' es', Tolerates d ops st cfg s d' es' := by
  have hl := h.layout hops hn (List.ne_nil_of_mem (activeSegment_mem ha))
  obtain ⟨d', es', st', report, htodo, ht, hr, _, _, hopen⟩ := hl.openStore_ok cfg ha
  have hstate : (storeOf cfg (survey d') active report).state = st' := by
    rw [storeOf, htodo.layout.survey_eq]
  refine ⟨_, d', es', hopen, ?_, ?_, hr, ?_, ?_⟩
  · rw [hstate]
    exact ht.state
  · intro id
    rw [hstate, ← ht.mem_diskIds]
    constructor
    · intro hd
      have hdisk : id ∈ diskIds d' := by
        by_contra hnot
        obtain ⟨f, hf, _⟩ := htodo.deadDone id hd hnot
        cases hf
      refine ⟨hdisk, ?_⟩
      by_cases hlist : st.lists id = true
      · exact Or.inl ((ht.dead id ((ht.mem_diskIds id).mp hdisk) hlist).mp hd)
      · exact Or.inr (by simpa using hlist)
    · rintro ⟨hdisk, hd⟩
      by_cases hlist : st.lists id = true
      · rcases hd with hd | hd
        · exact (ht.dead id ((ht.mem_diskIds id).mp hdisk) hlist).mpr hd
        · rw [hlist] at hd
          cases hd
      · by_contra hnot
        obtain ⟨f, hf, _⟩ := htodo.orphanDone id hdisk
          ((ht.lists id).trans (by simpa using hlist)) hnot
        cases hf
  · have hm := htodo.layout.manifest
    rwa [List.append_nil] at hm
  · rw [storeOf, htodo.layout.survey_eq]

/-- What opens has less than a header behind the whole frames, and an active segment. -/
theorem TornTail.of_opens (h : TornTail d ops st op n) (hops : ∀ o ∈ ops, Fits (opFrame o))
    (hop : Fits (opFrame op)) {cfg : StoreCfg} {s : Store} {w : World}
    (hopen : Store.openStore cfg (calm d) = .ok s w) :
    n < headerLen ∧ st.activeSegment.isSome = true := by
  obtain ⟨es', tail', st', hl⟩ := layout_of_isAuto (isAuto_of_openStore hopen)
  -- both ways to take the manifest apart are what greedy decoding finds
  have hbytes := hl.manifest
  rw [h.manifest] at hbytes
  have heq := List.append_cancel_left (Option.some.inj hbytes)
  have hdec := decode_entries_short es' tail' hl.fits hl.short
  rw [← heq, frames.decode_encodeAll_append _ _ (TornTail.fits hops),
    Grammar.decode_torn (G := frames) (h.torn hop)] at hdec
  injection hdec with hitems hrest
  rw [List.append_nil] at hitems
  subst hitems hrest
  have hstate := hl.replays
  rw [replayEntries_ops ops magicLen h.accepted] at hstate
  obtain rfl := Except.ok.inj hstate
  refine ⟨?_, ?_⟩
  · have hshort := hl.short
    have hcut := h.cut
    rw [List.length_take] at hshort
    omega
  · cases ha : st.activeSegment with
    | some active => rfl
    | none =>
      obtain ⟨w', hpanic⟩ := hl.openStore_panic cfg ha
      rw [hopen] at hpanic
      cases hpanic

/-- A torn op is tolerated if and only if the tear is in its header and there is an active
segment. -/
theorem TornTail.tolerates_iff (h : TornTail d ops st op n) (hops : ∀ o ∈ ops, Fits (opFrame o))
    (hop : Fits (opFrame op)) (cfg : StoreCfg) : (∃ s d' es', Tolerates d ops st cfg s d' es') ↔
      n < headerLen ∧ st.activeSegment.isSome = true := by
  constructor
  · rintro ⟨s, d', es', ht⟩
    exact h.of_opens hops hop ht.opens
  · rintro ⟨hn, hactive⟩
    obtain ⟨active, ha⟩ := Option.isSome_iff_exists.mp hactive
    exact h.tolerates hops hn ha cfg

end
end

section
attribute [local instance] sample

/-- What a crash leaves of the record of a second segment. -/
def cutRecord (n : ℕ) : Dir :=
  (blank.formatted.create (segmentPath ⟨2⟩) segmentMagic).writeAt manifestFileName
    (manifestEnd [opFrame creation])
    ((frame (opFrame (ManifestOp.bare (.createSegment ⟨2⟩ ⟨1⟩)))).take n)

theorem fits_createSegment (id : SegmentId) (first : EntryId) :
    Fits (opFrame (ManifestOp.bare (.createSegment id first))) :=
  fits_short _ (by simp [Op.fields]) (by simp [Op.fields])

theorem tornTail_cutRecord {n : ℕ} (hn : n ∈ [3, 20]) :
    TornTail (cutRecord n) [creation] firstState (ManifestOp.bare (.createSegment ⟨2⟩ ⟨1⟩)) n := by
  have hlen : 20 < (frame (opFrame (ManifestOp.bare (.createSegment ⟨2⟩ ⟨1⟩)))).length := by
    decide +kernel
  have hmanifest : ∀ n ∈ [3, 20], (cutRecord n).bytes manifestFileName =
      some (manifestMagic ++ (frames.encodeAll [opFrame creation] ++
        (frame (opFrame (ManifestOp.bare (.createSegment ⟨2⟩ ⟨1⟩)))).take n)) := by decide +kernel
  have hfile : ∀ n ∈ [3, 20], (cutRecord n).bytes (segmentPath ⟨1⟩) = some (segmentMagic ++ []) := by
    decide +kernel
  have hbounds : ∀ n ∈ [3, 20], 0 < n ∧ n ≤ 20 := by decide
  refine ⟨?_, rfl, ⟨creation, [], rfl, ⟨1⟩, ⟨0⟩, rfl⟩, (hbounds n hn).1, ?_, hmanifest n hn, ?_, ?_⟩
  · rfl
  · exact (hbounds n hn).2.trans_lt hlen
  · intro seg hseg
    obtain rfl := List.mem_singleton.mp hseg
    exact hasSegment_of (hfile n hn)
  · intro seg hseg info hi
    cases hi

/-- Three bytes of a frame are cut off, and the file it was to record is dead. -/
theorem TornTail.tolerates_cutRecord :
    ∃ s d' es', Tolerates (cutRecord 3) [creation] firstState ⟨0⟩ s d' es' :=
  (TornTail.tolerates_iff (tornTail_cutRecord (by decide)) (by simpa using fits_creation)
    (fits_createSegment ⟨2⟩ ⟨1⟩) ⟨0⟩).mpr ⟨by decide, rfl⟩

/-- A whole header without its payload fails the open. -/
theorem TornTail.not_tolerates : ¬ ∀ d ops st op n cfg, TornTail d ops st op n →
    ∃ s d' es', Tolerates d ops st cfg s d' es' := by
  intro hall
  have htail := tornTail_cutRecord (n := 20) (by decide)
  obtain ⟨s, d', es', ht⟩ := hall _ _ _ _ _ ⟨0⟩ htail
  have hshort := (htail.of_opens (by simpa using fits_creation)
    (fits_createSegment ⟨2⟩ ⟨1⟩) ht.opens).1
  exact absurd hshort (by decide)

end
end Woodshed
