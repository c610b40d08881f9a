import Woodshed.FrameScan
import Woodshed.Sample

/-! What `scan_all` accepts: the longest run of whole frames at the front of a stream, with a
summary of them and the reason why no more of the stream is a frame. -/
namespace Woodshed
open Sequencing Framing

section
variable [Crates]

/-- The bytes that writing the entries to an empty buffer gives. -/
def written (es : List Entry) : Bytes := (es.foldl (fun b e => b.write e.1 e.2) FrameBuffer.new).buf

theorem written_eq (es : List Entry) : written es = frames.encodeAll es := by
  have hfold (b : FrameBuffer) :
      (es.foldl (fun b e => b.write e.1 e.2) b).buf = b.buf ++ frames.encodeAll es := by
    induction es generalizing b with
    | nil => simp
    | cons e es ih =>
      rw [List.foldl_cons, ih, FrameBuffer.write_eq]
      simp
  rw [written, hfold]
  rfl

/-- Whole frames, each with a length field that holds the length of its payload. -/
def Framed (xs : Bytes) (es : List Entry) : Prop := xs = written es ∧ ∀ e ∈ es, Fits e

/-- Id and start of every frame whose number is a multiple of the stride. -/
def strideMarks (stride p : ℕ) (es : List Entry) : List (EntryId × ℕ) :=
  (List.range es.length).filterMap fun i =>
    if i % stride = 0 then es[i]?.map fun e => (e.1, p+(written (es.take i)).length) else none

/-- The frames at the numbers from `count` on, `count` of them being before. -/
theorem checkpointsFrom_eq (stride : ℕ) (es : List Entry) : ∀ count p,
    FrameScanner.checkpointsFrom stride count p es = (List.range es.length).filterMap fun i =>
      if (count+i) % stride = 0 then
        es[i]?.map fun e => (e.1, p+(frames.encodeAll (es.take i)).length)
      else none := by
  induction es with
  | nil =>
    intro count p
    rfl
  | cons e es ih =>
    intro count p
    rw [FrameScanner.checkpointsFrom, ih, List.length_cons, List.range_succ_eq_map,
      List.filterMap_cons, List.filterMap_map]
    have htail : (List.range es.length).filterMap (fun i => if (count+1+i) % stride = 0 then
          es[i]?.map fun x => (x.1, p+(frame e).length+(frames.encodeAll (es.take i)).length)
        else none) =
        (List.range es.length).filterMap ((fun i => if (count+i) % stride = 0 then
          (e :: es)[i]?.map fun x => (x.1, p+(frames.encodeAll ((e :: es).take i)).length)
        else none) ∘ Nat.succ) := by
      apply List.filterMap_congr
      intro i _
      have hcount : count+1+i = count+(i+1) := by omega
      have hend : p+(frame e).length+(frames.encodeAll (es.take i)).length =
          p+(frames.encodeAll ((e :: es).take (i+1))).length := by
        rw [List.take_succ_cons, Grammar.encodeAll_cons, frames_encode, List.length_append]
        omega
      simp only [Function.comp_apply, Nat.succ_eq_add_one, List.getElem?_cons_succ, hcount, hend]
    rw [htail]
    by_cases h0 : count % stride = 0
    · simp [h0]
    · simp [h0]

/-- The rest of a stream starts with a whole frame of another checksum. -/
def Mismatched (xs : Bytes) : Prop :=
  headerLen+headerPayloadLen (xs.take headerLen) ≤ xs.length ∧ headerLen ≤ xs.length ∧
    checksum (headerId (xs.take headerLen),
      (xs.drop headerLen).take (headerPayloadLen (xs.take headerLen))) ≠
        headerChecksum (xs.take headerLen)

theorem frameHead_corrupt_iff (xs : Bytes) : frameHead xs = .corrupt ↔ Mismatched xs := by
  unfold frameHead Mismatched
  dsimp only
  by_cases h0 : xs = []
  · simp [h0, headerLen]
  · by_cases h1 : xs.length < headerLen
    · rw [if_neg h0, if_pos h1]
      simp only [reduceCtorEq, false_iff]
      omega
    · by_cases h2 : xs.length < headerLen+headerPayloadLen (xs.take headerLen)
      · rw [if_neg h0, if_neg h1, if_pos h2]
        simp only [reduceCtorEq, false_iff]
        omega
      · rw [if_neg h0, if_neg h1, if_neg h2]
        rw [not_lt] at h1 h2
        split <;> simp_all

/-- `scan_all` ends, and says of every stream which frames are at its front and why no more are:
its summary is about the longest list of whole frames. -/
theorem scanAll_exact (stride p : ℕ) (xs : Bytes) :
    ∃ summary s es rest, FrameScanner.scanAll stride (FrameScanner.facing xs p) = .ok summary s ∧
      xs = written es ++ rest ∧ (∀ e ∈ es, Fits e) ∧
      (∀ ys fs, Framed ys fs → ys <+: xs → fs <+: es) ∧
      summary.count = es.length ∧ summary.nextOffset = p+(written es).length ∧
      summary.lastId = es.getLast?.map (·.1) ∧ summary.checkpoints = strideMarks stride p es ∧
      (summary.status = .clean ↔ rest = []) ∧
      (summary.status = .tornTail ↔ rest ≠ [] ∧ (rest.length < headerLen ∨
        rest.length < headerLen+headerPayloadLen (rest.take headerLen))) ∧
      (summary.status = .checksumCorrupt ↔ Mismatched rest) ∧
      (∀ fs, Framed xs fs → es = fs ∧ summary.status = .clean) := by
  obtain ⟨s, hscan⟩ := FrameScanner.scanAll_facing stride xs p
  obtain ⟨hsplit, hfits, hstop⟩ := frames.decode_sound xs
  set D := frames.decode xs with hD
  refine ⟨_, s, D.items, D.rest, hscan, by rw [written_eq]; exact hsplit, hfits, ?_, rfl, ?_, ?_, ?_,
    ?_⟩
  · rintro ys fs ⟨rfl, hf⟩ hp
    rw [written_eq] at hp
    exact frames.prefix_decode fs xs hf hp
  · rw [written_eq]
  · simp [FrameScanner.lastIdOf]
  · rw [strideMarks, checkpointsFrom_eq]
    simp only [Nat.zero_add, written_eq]
  · have hwhole : ∀ fs, Framed xs fs → D.items = fs ∧ FrameScanner.statusOf D.stop = .clean := by
      rintro fs ⟨hxs, hf⟩
      rw [hD, hxs, written_eq, frames.decode_encodeAll fs hf]
      exact ⟨rfl, rfl⟩
    have hdone : D.rest = [] ↔ frames.head D.rest = .done :=
      ⟨fun h => by rw [h]; exact frames.head_nil, frames.done_sound D.rest⟩
    -- each reason to stop excludes the others
    have hstatus : (FrameScanner.statusOf D.stop = .clean ↔ frames.head D.rest = .done) ∧
        (FrameScanner.statusOf D.stop = .tornTail ↔ frames.head D.rest = .torn) ∧
        (FrameScanner.statusOf D.stop = .checksumCorrupt ↔ frames.head D.rest = .corrupt) := by
      cases hs : D.stop with
      | clean =>
        rw [hs] at hstop
        have hh : frames.head D.rest = .done := hdone.mp hstop
        simp [hh, FrameScanner.statusOf]
      | torn =>
        rw [hs] at hstop
        have hh : frames.head D.rest = .torn := hstop
        simp [hh, FrameScanner.statusOf]
      | corrupt =>
        rw [hs] at hstop
        have hh : frames.head D.rest = .corrupt := hstop
        simp [hh, FrameScanner.statusOf]
    rw [← frameHead_corrupt_iff, ← frameHead_torn_iff, hdone]
    exact ⟨hstatus.1, hstatus.2.1, hstatus.2.2, hwhole⟩

end

section
attribute [local instance] sample

/-- Two frames and three bytes of a third. -/
theorem scanAll_exact_torn : ∃ summary s,
    FrameScanner.scanAll 2 (FrameScanner.facing (written [(⟨4⟩, [7]), (⟨6⟩, [])] ++ [0, 0, 0]) 8) =
      .ok summary s ∧ summary.count = 2 := by
  obtain ⟨summary, s, es, _, hscan, _, _, _, hcount, _⟩ :=
    scanAll_exact 2 8 (written [(⟨4⟩, [7]), (⟨6⟩, [])] ++ [0, 0, 0])
  refine ⟨summary, s, hscan, ?_⟩
  have hrun : (returned (FrameScanner.scanAll 2
      (FrameScanner.facing (written [(⟨4⟩, [7]), (⟨6⟩, [])] ++ [0, 0, 0]) 8))).map (·.count) =
        some 2 := by decide +kernel
  rw [hscan] at hrun
  exact Option.some.inj hrun

end
end Woodshed
