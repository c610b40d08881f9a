import Woodshed.Runs
import Woodshed.ScanAll

/-! A frame of the active segment with an altered payload. Scanning reports it the way it reports a
torn tail, so that opening cuts it off without asking, with all frames behind it. -/
namespace Woodshed
open Framing

section
variable [Crates]

/-- The frame of `e` with another payload in it. -/
def alteredFrame (e : Entry) (payload : Bytes) : Bytes := frameHeader e ++ payload

theorem frameHead_altered {e : Entry} {payload : Bytes} (rest : Bytes) (he : Fits e)
    (hlen : payload.length = e.2.length) (hsum : checksum (e.1, payload) ≠ checksum e) :
    frameHead (alteredFrame e payload ++ rest) = .corrupt := by
  have hheader : (alteredFrame e payload ++ rest).take headerLen = frameHeader e := by
    rw [alteredFrame, List.append_assoc, List.take_left' (length_frameHeader e)]
  have hpayload : ((alteredFrame e payload ++ rest).drop headerLen).take e.2.length = payload := by
    rw [alteredFrame, List.append_assoc, List.drop_left' (length_frameHeader e), ← hlen,
      List.take_left]
  rw [frameHead_corrupt_iff, Mismatched, hheader, headerPayloadLen_frameHeader e he,
    headerId_frameHeader, headerChecksum_frameHeader, hpayload]
  refine ⟨?_, ?_, hsum⟩
  · rw [alteredFrame, List.length_append, List.length_append, length_frameHeader, hlen]
    omega
  · rw [alteredFrame, List.length_append, List.length_append, length_frameHeader]
    omega

/-- `d'` is the directory `d` with one frame altered in the file of a segment with the entries
`before ++ e :: after`, so that its checksum no longer matches. -/
structure Alters (d d' : Dir) (id : SegmentId) (before : List Entry) (e : Entry) (payload : Bytes)
    (after : List Entry) : Prop where
  differs : d.Differs d' (segmentPath id)
  bytes : d'.bytes (segmentPath id) = some (segmentMagic ++
    (frames.encodeAll before ++ (alteredFrame e payload ++ frames.encodeAll after)))
  length : payload.length = e.2.length
  checksum : checksum (e.1, payload) ≠ Woodshed.checksum e

/-- An open without approval does not leave the segment cut to the frames `before`. -/
def KeepsBehind (cfg : StoreCfg) (d : Dir) (id : SegmentId) (before : List Entry) : Prop :=
  ∀ s w, Store.openStore cfg (calm d) = .ok s w →
    w.dir.bytes (segmentPath id) ≠ some (segmentMagic ++ frames.encodeAll before)

section
variable {d d' : Dir} {es : List Entry} {st : StoreState} {log : SegmentId → List Entry}
  {active : SegmentEntry}

/-- A clean directory with the file of its active segment changed. -/
theorem Clean.layout_differs (h : Clean d es st log active)
    (hd : d.Differs d' (segmentPath active.id)) {xs : Bytes}
    (hb : d'.bytes (segmentPath active.id) = some (segmentMagic ++ xs)) : Layout d' es [] st := by
  have hl := h.layout
  have hother {seg : SegmentEntry} (hseg : seg ∈ st.segments) (hne : seg ≠ active) :
      d'.bytes (segmentPath seg.id) = d.bytes (segmentPath seg.id) := by
    refine hd.bytes _ fun heq => hne ?_
    exact h.shaped.inj hseg h.shaped.mem (segmentPath_injective heq)
  refine ⟨hd.present.trans hl.present, ?_, hl.fits, hl.short, hl.replays, hl.nonempty, ?_, ?_⟩
  · exact (hd.bytes _ (segmentPath_ne_manifest _).symm).trans hl.manifest
  · intro seg hseg
    by_cases heq : seg = active
    · rw [heq]
      exact hasSegment_of hb
    · exact hasSegment_of ((hother hseg heq).trans (h.holds seg hseg))
  · intro seg hseg info hi
    have hne : seg ≠ active := by
      rintro rfl
      rw [h.shaped.unsealed] at hi
      cases hi
    rw [body_eq ((hother hseg hne).trans (h.holds seg hseg)), ← body_eq (h.holds seg hseg)]
    exact hl.sealedIntact seg hseg info hi

/-- Opening cuts the active segment in front of an altered frame, and returns a store. -/
theorem Clean.open_altered (h : Clean d es st log active) {before after : List Entry} {e : Entry}
    {payload : Bytes} (hlog : log active.id = before ++ e :: after)
    (ha : Alters d d' active.id before e payload after) (cfg : StoreCfg) :
    ∃ s d'', Store.openStore cfg (calm d') = .ok s (calm d'') ∧
      d''.bytes (segmentPath active.id) = some (segmentMagic ++ frames.encodeAll before) := by
  have hl := h.layout_differs ha.differs ha.bytes
  obtain ⟨d'', _, _, _, htodo, ht, _, _, _, hopen⟩ := hl.openStore_ok cfg h.shaped.activeSegment
  refine ⟨_, d'', hopen, ?_⟩
  have hwhole := h.whole active h.shaped.mem
  rw [hlog] at hwhole
  have hf : ∀ x ∈ before, Fits x := fun x hx => hwhole x (by simp [hx])
  have hc : frames.head (alteredFrame e payload ++ frames.encodeAll after) = .corrupt := by
    rw [frames_head, frameHead_altered _ (hwhole e (by simp)) ha.length ha.checksum]
  have hvalid : validPrefix (body d' active.id) = frames.encodeAll before := by
    rw [body_eq ha.bytes, validPrefix, frames.decode_encodeAll_append before _ hf,
      Grammar.decode_corrupt hc, List.append_nil]
  have hcut := ht.bytes_unsealed htodo h.shaped.mem h.shaped.unsealed
  rw [hvalid] at hcut
  exact hcut

/-- Whatever frames are behind the altered one, they are lost. -/
theorem Clean.not_keepsBehind (h : Clean d es st log active) {before after : List Entry} {e : Entry}
    {payload : Bytes} (hlog : log active.id = before ++ e :: after) (_hafter : after ≠ [])
    (ha : Alters d d' active.id before e payload after) (cfg : StoreCfg) :
    ¬ KeepsBehind cfg d' active.id before := by
  obtain ⟨s, d'', hopen, hbytes⟩ := h.open_altered hlog ha cfg
  exact fun hkeeps => hkeeps s _ hopen hbytes

end

end

section
attribute [local instance] sample

/-- Three entries. -/
def threeEntries : List Entry := [(⟨1⟩, [7]), (⟨2⟩, [8]), (⟨3⟩, [9])]

/-- A store with three entries in its only segment. -/
def filled : Dir := blank.formatted.writeAt (segmentPath ⟨1⟩) magicLen (frames.encodeAll threeEntries)

/-- The same with another payload in the first frame. -/
def flipped : Dir := filled.writeAt (segmentPath ⟨1⟩) (magicLen+headerLen) [6]

theorem clean_filled :
    ∃ log, Clean filled [opFrame creation] firstState log firstSegment ∧
      log firstSegment.id = [] ++ (⟨1⟩, [7]) :: [(⟨2⟩, [8]), (⟨3⟩, [9])] := by
  obtain ⟨s, _, hs, _, hst, _⟩ := fresh_blank.session ⟨0⟩
  -- the directory that a batch leaves
  have hrun : Running (s.buffered threeEntries) blank.formatted [opFrame creation] (fun _ => [])
      firstSegment :=
    ⟨hs.kept, hs.manifestCursor, hs.activeId, hs.activeFirst, hs.position, hs.next, hs.pending, hs.last⟩
  have hbuf : (s.buffered threeEntries).activeCursor.buf.buf = frames.encodeAll threeEntries := by
    rw [Store.buffered, hs.idle]
    rfl
  have hfit : ∀ e ∈ threeEntries, Fits e := by simp [threeEntries, Fits]
  have hflushed := hrun.flushed (e := (⟨3⟩, [9])) hbuf rfl 3
  have hdir : blank.formatted.flushed (s.buffered threeEntries) = filled := by
    have hid : (s.buffered threeEntries).activeId = ⟨1⟩ := hs.activeId
    have hpos : (s.buffered threeEntries).activeCursor.position = magicLen := hs.position
    rw [Dir.flushed, hbuf, hid, hpos]
    rfl
  have hkept : Kept filled _ s.state _ _ := hdir ▸ hflushed.kept
  have hwhole := hs.whole.append firstSegment.id hfit
  rw [hst] at hkept hwhole
  exact ⟨_, ⟨hkept, hwhole⟩, by simp [firstSegment, threeEntries]⟩

theorem alters_flipped : Alters filled flipped ⟨1⟩ [] (⟨1⟩, [7]) [6] [(⟨2⟩, [8]), (⟨3⟩, [9])] :=
  ⟨filled.differs_writeAt _ _ _, by decide +kernel, rfl, by decide +kernel⟩

/-- Opening does not keep what is behind an altered frame. -/
theorem Clean.not_keepsBehind_all : ¬ ∀ d d' es st log active before e payload after cfg,
    Clean d es st log active → log active.id = before ++ e :: after → after ≠ [] →
      Alters d d' active.id before e payload after → KeepsBehind cfg d' active.id before := by
  intro hall
  obtain ⟨log, hclean, hlog⟩ := clean_filled
  obtain ⟨s, d'', hopen, hbytes⟩ := hclean.open_altered hlog alters_flipped ⟨0⟩
  have hkeeps := hall filled flipped _ _ log _ [] _ _ _ ⟨0⟩ hclean hlog (by simp) alters_flipped
  exact hkeeps s _ hopen hbytes

theorem Clean.not_keepsBehind_flipped : ¬ KeepsBehind ⟨0⟩ flipped ⟨1⟩ [] := by
  obtain ⟨log, hclean, hlog⟩ := clean_filled
  exact hclean.not_keepsBehind hlog (by simp) alters_flipped ⟨0⟩

end
end Woodshed
