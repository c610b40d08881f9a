import Woodshed.FrameScan
import Woodshed.Manifest

/-! Reading frames one after the other on a stream whose reads do not fail: `read` with the
payload read to its end, `seek_to_id`, `scan_to_after`, and the replay of a manifest. -/
namespace Woodshed
open Sequencing Framing

/-! ### Payloads -/

theorem onStream_facing {α : Type} {m : EStateM IoError Stream α} {r r' : Stream} {p : ℕ}
    {k : Option (Bytes × ℕ)} {a : α} (h : m r = .ok a r') :
    onStream m ⟨r, p, k⟩ = .ok a ⟨r', p, k⟩ := by
  rw [onStream, onPart_ok h]

theorem FrameReader.read_quiet {r : FrameReader} {n : ℕ} {xs : Bytes} {q : ℕ}
    {k : Option (Bytes × ℕ)} (hr : 0 < r.remaining) (hn : 0 < n) (hxs : xs ≠ []) :
    r.read n ⟨⟨xs, []⟩, q, k⟩ =
      let bs := xs.take (min r.remaining n)
      let r' := { r with remaining := r.remaining-bs.length }
      .ok (bs, r') ⟨⟨xs.drop (min r.remaining n), []⟩,
        if r'.remaining = 0 then r.frameStart+headerLen+r.payloadLen else q, k⟩ := by
  have hne : xs.take (min r.remaining n) ≠ [] := by
    intro h0
    rcases List.take_eq_nil_iff.mp h0 with h | h
    · omega
    · exact hxs h
  unfold FrameReader.read
  rw [if_neg (by omega), bind_ok (onStream_facing (Stream.read_quiet (min r.remaining n) xs)),
    if_neg hne]
  dsimp only
  by_cases hz : r.remaining-(xs.take (min r.remaining n)).length = 0
  · rw [if_pos hz, if_pos hz]
    rfl
  · rw [if_neg hz, if_neg hz]
    rfl

theorem FrameReader.read_done {r : FrameReader} {n : ℕ} (s : FrameScanner) (hr : r.remaining = 0) :
    r.read n s = .ok ([], r) s := by
  rw [FrameReader.read, if_pos hr]
  rfl

/-- Reading to the end returns the rest of the payload and leaves the stream behind it. -/
theorem FrameReader.readToEnd_quiet (r : FrameReader) (xs acc : Bytes) (q : ℕ)
    (k : Option (Bytes × ℕ)) (h : r.remaining ≤ xs.length) :
    r.readToEnd ⟨⟨xs, []⟩, q, k⟩ acc =
      .ok (acc ++ xs.take r.remaining, { r with remaining := 0 })
        ⟨⟨xs.drop r.remaining, []⟩,
          if r.remaining = 0 then q else r.frameStart+headerLen+r.payloadLen, k⟩ := by
  induction hn : r.remaining using Nat.strongRecOn generalizing r xs acc q with
  | ind n ih =>
    rw [FrameReader.readToEnd]
    by_cases h0 : r.remaining = 0
    · have hread := FrameReader.read_done (n := 8*1024) ⟨⟨xs, []⟩, q, k⟩ h0
      obtain rfl : n = 0 := hn.symm.trans h0
      obtain ⟨id, remaining, payloadLen, frameStart⟩ := r
      obtain rfl : remaining = 0 := h0
      split <;> rename_i hc <;> rw [hread] at hc <;> cases hc
      simp
    · have hxs : xs ≠ [] := by
        intro hnil
        rw [hnil] at h
        exact h0 (Nat.le_zero.mp h)
      have hread := FrameReader.read_quiet (n := 8*1024) (q := q) (k := k)
        (Nat.pos_of_ne_zero h0) (by omega) hxs
      have hlen : (xs.take (min r.remaining (8*1024))).length = min r.remaining (8*1024) := by
        rw [List.length_take]; omega
      dsimp only at hread
      rw [hlen] at hread
      split <;> rename_i hc <;> rw [hread] at hc <;> cases hc
      have hne : xs.take (min r.remaining (8*1024)) ≠ [] := by
        intro hnil
        rw [hnil] at hlen
        simp at hlen
        omega
      rw [dif_neg hne, ih (r.remaining-min r.remaining (8*1024)) (by omega) _ _ _ _
        (by rw [List.length_drop]; dsimp only; omega) rfl, ← hn]
      dsimp only
      rw [List.append_assoc, List.drop_drop, ← List.take_add,
        show min r.remaining (8*1024)+(r.remaining-min r.remaining (8*1024)) = r.remaining by omega,
        if_neg h0]
      by_cases hz : r.remaining-min r.remaining (8*1024) = 0
      · simp only [if_pos hz]
      · simp only [if_neg hz]

/-- A payload that is cut short ends in an error. -/
theorem FrameReader.readToEnd_short (r : FrameReader) (xs acc : Bytes) (q : ℕ)
    (k : Option (Bytes × ℕ)) (h : xs.length < r.remaining) :
    ∃ e s, r.readToEnd ⟨⟨xs, []⟩, q, k⟩ acc = .error e s := by
  induction hn : r.remaining using Nat.strongRecOn generalizing r xs acc q with
  | ind n ih =>
    rw [FrameReader.readToEnd]
    by_cases hxs : xs = []
    · have hread : r.read (8*1024) ⟨⟨xs, []⟩, q, k⟩ =
          .error ⟨.unexpectedEof, "unexpected end of file"⟩ ⟨⟨[], []⟩, q, k⟩ := by
        unfold FrameReader.read
        rw [if_neg (by omega), bind_ok (onStream_facing (Stream.read_quiet _ xs))]
        simp [hxs]
      refine ⟨⟨.unexpectedEof, "unexpected end of file"⟩, ⟨⟨[], []⟩, q, k⟩, ?_⟩
      split <;> rename_i hc <;> rw [hread] at hc <;> cases hc
      rfl
    · have hread := FrameReader.read_quiet (n := 8*1024) (q := q) (k := k)
        (show 0 < r.remaining by omega) (by omega) hxs
      have hpos := List.length_pos_of_ne_nil hxs
      have hne : xs.take (min r.remaining (8*1024)) ≠ [] := by
        intro h0
        rcases List.take_eq_nil_iff.mp h0 with hk | hk
        · omega
        · exact hxs hk
      have hlen := List.length_pos_of_ne_nil hne
      have hle : (xs.take (min r.remaining (8*1024))).length ≤ xs.length := by
        rw [List.length_take]; omega
      dsimp only at hread
      obtain ⟨e, s, hs⟩ := ih (r.remaining-(xs.take (min r.remaining (8*1024))).length) (by omega)
        { r with remaining := r.remaining-(xs.take (min r.remaining (8*1024))).length }
        (xs.drop (min r.remaining (8*1024))) (acc ++ xs.take (min r.remaining (8*1024)))
        (if r.remaining-(xs.take (min r.remaining (8*1024))).length = 0 then
          r.frameStart+headerLen+r.payloadLen else q)
        (by rw [List.length_drop, List.length_take]; dsimp only; omega) rfl
      refine ⟨e, s, ?_⟩
      split <;> rename_i hc <;> rw [hread] at hc <;> cases hc
      rw [dif_neg hne, hs]

namespace FrameScanner

theorem read_nil (p : ℕ) : read (facing [] p) = .ok none (facing [] p) := rfl

theorem read_short (xs : Bytes) (p : ℕ) (hne : xs ≠ []) (h : xs.length < headerLen) :
    ∃ s, read (facing xs p) = .error (.truncated p) s := by
  obtain ⟨s, hs⟩ := peekHeader_short xs p hne h
  exact ⟨s, bind_error hs⟩

theorem read_header (xs : Bytes) (p : ℕ) (h : headerLen ≤ xs.length) :
    let header := xs.take headerLen
    read (facing xs p) =
      .ok (some ⟨headerId header, headerPayloadLen header, headerPayloadLen header, p⟩)
        (facing (xs.drop headerLen) p) := by
  intro header
  unfold read
  rw [bind_ok (peekHeader_facing xs p h)]
  rfl

section
variable [Crates]

theorem read_frame (e : Entry) (rest : Bytes) (p : ℕ) (h : Fits e) :
    read (facing (frame e ++ rest) p) =
      .ok (some ⟨e.1, e.2.length, e.2.length, p⟩) (facing (e.2 ++ rest) p) := by
  have hheader : (frame e ++ rest).take headerLen = frameHeader e := by
    rw [frame, List.append_assoc, List.take_left' (length_frameHeader e)]
  have hrest : (frame e ++ rest).drop headerLen = e.2 ++ rest := by
    rw [frame, List.append_assoc, List.drop_left' (length_frameHeader e)]
  have hread := read_header (frame e ++ rest) p (by simp; omega)
  dsimp only at hread
  rwa [hheader, hrest, headerId_frameHeader, headerPayloadLen_frameHeader e h] at hread

end
end FrameScanner

/-! ### Replay -/

section
variable [Crates]

/-- Decode and apply the payloads of manifest frames, the first of which starts at `p`. -/
def replayEntries : StoreState → ℕ → List Entry → Except ReplayError StoreState
  | state, _, [] => .ok state
  | state, p, e :: es =>
    match ManifestOp.decode e.2 with
    | .error source => .error (.invalidOp p source)
    | .ok entry =>
      match StoreState.apply entry state with
      | .error source _ => .error (.applyFailed p source)
      | .ok _ state' => replayEntries state' (p+(frame e).length) es

/-- An empty payload is no op. -/
theorem decode_nil : ManifestOp.decode [] = .error .format := by
  rw [ManifestOp.decode, Crates.parse_nil]

theorem replayLoop_frame (e : Entry) (rest : Bytes) (p : ℕ) (state : StoreState) (q : ℕ)
    (h : Fits e) :
    replayLoop (FrameScanner.facing (frame e ++ rest) p) state q =
      match ManifestOp.decode e.2 with
      | .error source => .error (.invalidOp p source)
      | .ok entry =>
        match StoreState.apply entry state with
        | .error source _ => .error (.applyFailed p source)
        | .ok _ state' =>
          replayLoop (FrameScanner.facing rest (p+(frame e).length)) state' (p+(frame e).length) := by
  have hread := FrameScanner.read_frame e rest p h
  have hpay := FrameReader.readToEnd_quiet ⟨e.1, e.2.length, e.2.length, p⟩ (e.2 ++ rest) [] p none
    (by rw [List.length_append]; dsimp only; omega)
  dsimp only at hpay
  rw [List.take_left, List.drop_left, List.nil_append] at hpay
  rw [replayLoop]
  split <;> rename_i hc <;> rw [hread] at hc <;> cases hc
  split <;> rename_i hc <;> rw [FrameScanner.facing, hpay] at hc <;> cases hc
  by_cases hnil : e.2 = []
  · rw [hnil, decode_nil]
  · -- the payload is not empty, so reading it moved the scanner behind the frame
    have hpos : e.2.length ≠ 0 := by
      intro h0
      exact hnil (List.length_eq_zero_iff.mp h0)
    have hdrop : FrameReader.drop ⟨e.1, 0, e.2.length, p⟩
        ⟨⟨rest, []⟩, if e.2.length = 0 then p else p+headerLen+e.2.length, none⟩ =
        FrameScanner.facing rest (p+(frame e).length) := by
      rw [FrameReader.drop, if_neg (by dsimp only; omega), if_neg hpos, length_frame, Nat.add_assoc]
      rfl
    rw [hdrop]
    rfl

/-- Whole frames with less than a header behind them are replayed to their end. -/
theorem replayLoop_entries (es : List Entry) (tail : Bytes) (p : ℕ) (state : StoreState)
    (hf : ∀ e ∈ es, Fits e) (ht : tail.length < headerLen) :
    replayLoop (FrameScanner.facing (frames.encodeAll es ++ tail) p) state p =
      (replayEntries state p es).map fun s => ⟨s, p+(frames.encodeAll es).length⟩ := by
  induction es generalizing p state with
  | nil =>
    rw [Grammar.encodeAll_nil, List.nil_append, replayLoop]
    by_cases hnil : tail = []
    · rw [hnil]
      split <;> rename_i hc <;> rw [FrameScanner.read_nil] at hc <;> cases hc
      rfl
    · obtain ⟨s, hs⟩ := FrameScanner.read_short tail p hnil ht
      split <;> rename_i hc <;> rw [hs] at hc <;> cases hc
      rfl
  | cons e es ih =>
    rw [Grammar.encodeAll_cons, List.append_assoc, frames_encode,
      replayLoop_frame e _ p state p (hf e (by simp)), replayEntries]
    cases ManifestOp.decode e.2 with
    | error source => rfl
    | ok entry =>
      dsimp only
      cases StoreState.apply entry state with
      | error source s => rfl
      | ok u state' =>
        dsimp only
        rw [ih _ _ (fun x hx => hf x (by simp [hx]))]
        simp [Nat.add_assoc]

/-- A whole header behind the frames makes the replay read a payload that is cut short. -/
theorem replayLoop_tornPayload (es : List Entry) (tail : Bytes) (p : ℕ) (state : StoreState)
    (hf : ∀ e ∈ es, Fits e) (ht : headerLen ≤ tail.length) (htorn : frameHead tail = .torn) :
    (∃ state', replayEntries state p es = .ok state') →
      ∃ e, replayLoop (FrameScanner.facing (frames.encodeAll es ++ tail) p) state p =
        .error (.io e) := by
  induction es generalizing p state with
  | nil =>
    intro _
    obtain ⟨hne, hshort⟩ := (frameHead_torn_iff tail).mp htorn
    obtain ⟨e, s, hs⟩ := FrameReader.readToEnd_short
      ⟨headerId (tail.take headerLen), headerPayloadLen (tail.take headerLen),
        headerPayloadLen (tail.take headerLen), p⟩ (tail.drop headerLen) [] p none
      (by rw [List.length_drop]; dsimp only; omega)
    refine ⟨e, ?_⟩
    rw [Grammar.encodeAll_nil, List.nil_append, replayLoop]
    split <;> rename_i hc <;> rw [FrameScanner.read_header tail p ht] at hc <;> cases hc
    split <;> rename_i hc <;> rw [FrameScanner.facing, hs] at hc <;> cases hc
    rfl
  | cons e es ih =>
    rintro ⟨state', h⟩
    rw [Grammar.encodeAll_cons, List.append_assoc, frames_encode,
      replayLoop_frame e _ p state p (hf e (by simp))]
    rw [replayEntries] at h
    cases hd : ManifestOp.decode e.2 with
    | error source => rw [hd] at h; cases h
    | ok entry =>
      rw [hd] at h
      dsimp only at h ⊢
      cases ha : StoreState.apply entry state with
      | error source s => rw [ha] at h; cases h
      | ok u s =>
        rw [ha] at h
        exact ih _ _ (fun x hx => hf x (by simp [hx])) ⟨state', h⟩

/-- An op that cannot be decoded or applied ends the replay before the tail is looked at. -/
theorem replayLoop_failed (es : List Entry) (tail : Bytes) (p : ℕ) (state : StoreState)
    (hf : ∀ e ∈ es, Fits e) {x : ReplayError} (h : replayEntries state p es = .error x) :
    replayLoop (FrameScanner.facing (frames.encodeAll es ++ tail) p) state p = .error x := by
  induction es generalizing p state with
  | nil => cases h
  | cons e es ih =>
    rw [Grammar.encodeAll_cons, List.append_assoc, frames_encode,
      replayLoop_frame e _ p state p (hf e (by simp))]
    rw [replayEntries] at h
    cases hd : ManifestOp.decode e.2 with
    | error source => rw [hd] at h; cases h; rfl
    | ok entry =>
      rw [hd] at h
      dsimp only at h ⊢
      cases ha : StoreState.apply entry state with
      | error source s => rw [ha] at h; cases h; rfl
      | ok u s =>
        rw [ha] at h
        exact ih _ _ (fun y hy => hf y (by simp [hy])) h

end
end Woodshed
