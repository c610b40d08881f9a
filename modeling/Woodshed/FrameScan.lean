import Woodshed.FrameGrammar
import Woodshed.Sequencing

/-! What the scanner's methods return on a stream whose reads do not fail, in terms of the frames
on it. -/
namespace Woodshed
open Sequencing Framing

theorem Stream.read_quiet (n : ℕ) (xs : Bytes) :
    Stream.read n ⟨xs, []⟩ = .ok (xs.take n) ⟨xs.drop n, []⟩ := rfl

theorem Stream.readFull_nil (n : ℕ) : Stream.readFull n ⟨[], []⟩ = .ok [] ⟨[], []⟩ := by
  rw [Stream.readFull]
  split
  · rfl
  · rw [bind_ok (Stream.read_quiet n []), List.take_nil, List.drop_nil]
    rfl

theorem Stream.readFull_quiet (n : ℕ) (xs : Bytes) :
    Stream.readFull n ⟨xs, []⟩ = .ok (xs.take n) ⟨xs.drop n, []⟩ := by
  rw [Stream.readFull]
  split
  · rename_i hn
    rw [hn]
    rfl
  · rw [bind_ok (Stream.read_quiet n xs)]
    by_cases hnil : xs.take n = []
    · rw [dif_pos hnil, hnil]
      rfl
    · rw [dif_neg hnil]
      rcases Nat.le_total n xs.length with hn | hn
      · -- the first read is enough
        have hlen : (xs.take n).length = n := by rw [List.length_take, Nat.min_eq_left hn]
        rw [hlen, Nat.sub_self, Stream.readFull, dif_pos rfl]
        change EStateM.Result.ok (xs.take n ++ []) _ = _
        rw [List.append_nil]
      · rw [List.drop_eq_nil_of_le hn, bind_ok (Stream.readFull_nil _)]
        change EStateM.Result.ok (xs.take n ++ []) _ = _
        rw [List.append_nil]

theorem Stream.readExact_quiet (n : ℕ) (xs : Bytes) (h : n ≤ xs.length) :
    Stream.readExact n ⟨xs, []⟩ = .ok (xs.take n) ⟨xs.drop n, []⟩ := by
  rw [Stream.readExact, bind_ok (Stream.readFull_quiet n xs),
    if_neg (by rw [List.length_take]; omega)]
  rfl

theorem Stream.readExact_short (n : ℕ) (xs : Bytes) (h : xs.length < n) :
    Stream.readExact n ⟨xs, []⟩ = .error unexpectedEof ⟨xs.drop n, []⟩ := by
  rw [Stream.readExact, bind_ok (Stream.readFull_quiet n xs),
    if_pos (by rw [List.length_take]; omega)]
  rfl

theorem Stream.skip_quiet (n : ℕ) (xs : Bytes) :
    Stream.skip n ⟨xs, []⟩ = .ok (min n xs.length) ⟨xs.drop n, []⟩ := by
  rw [Stream.skip, bind_ok (Stream.readFull_quiet n xs), List.length_take]
  rfl

namespace FrameScanner

/-- A scanner at offset `p` with the bytes `xs` ahead of it. -/
def facing (xs : Bytes) (p : ℕ) : FrameScanner := ⟨⟨xs, []⟩, p, none⟩

theorem onReader_facing {α : Type} {err : IoError → ScanError} {m : EStateM IoError Stream α}
    {r r' : Stream} {p : ℕ} {q : Option (Bytes × ℕ)} {a : α} (h : m r = .ok a r') :
    onReader err m ⟨r, p, q⟩ = .ok a ⟨r', p, q⟩ := by
  rw [onReader, onPart_ok h]

theorem onReader_failing {α : Type} {err : IoError → ScanError} {m : EStateM IoError Stream α}
    {r r' : Stream} {p : ℕ} {q : Option (Bytes × ℕ)} {e : IoError} (h : m r = .error e r') :
    onReader err m ⟨r, p, q⟩ = .error (err e) ⟨r', p, q⟩ := by
  rw [onReader, onPart_error h]

theorem peekHeader_nil (p : ℕ) : peekHeader (facing [] p) = .ok none (facing [] p) := rfl

theorem peekHeader_short (xs : Bytes) (p : ℕ) (hne : xs ≠ []) (h : xs.length < headerLen) :
    ∃ s, peekHeader (facing xs p) = .error (.truncated p) s := by
  have hr := Stream.readExact_short (headerLen-1) (xs.drop 1) (by
    have := List.length_pos_of_ne_nil hne
    rw [List.length_drop]
    rw [headerLen] at *
    omega)
  have hfirst : xs.take 1 ≠ [] := by
    cases xs with
    | nil => exact absurd rfl hne
    | cons x xs => simp
  refine ⟨⟨⟨(xs.drop 1).drop (headerLen-1), []⟩, p, none⟩, ?_⟩
  unfold peekHeader
  rw [get_bind]
  simp only [facing]
  rw [bind_ok (onReader_facing (Stream.read_quiet 1 xs)), if_neg hfirst]
  exact bind_error (onReader_failing hr)

theorem peekHeader_facing (xs : Bytes) (p : ℕ) (h : headerLen ≤ xs.length) :
    peekHeader (facing xs p) =
      .ok (some (xs.take headerLen, p)) ⟨⟨xs.drop headerLen, []⟩, p, some (xs.take headerLen, p)⟩ := by
  have hfirst : xs.take 1 ≠ [] := by
    cases xs with
    | nil => simp [headerLen] at h
    | cons x xs => simp
  have hjoin : xs.take 1 ++ (xs.drop 1).take (headerLen-1) = xs.take headerLen := by
    conv_rhs => rw [show headerLen = 1+(headerLen-1) from rfl, List.take_add]
  unfold peekHeader
  rw [get_bind]
  simp only [facing]
  rw [bind_ok (onReader_facing (Stream.read_quiet 1 xs)), if_neg hfirst,
    bind_ok (onReader_facing (Stream.readExact_quiet (headerLen-1) (xs.drop 1) (by
      rw [List.length_drop, headerLen] at *; omega))), modify_bind, hjoin, List.drop_drop]
  rfl

theorem checkLoop_facing (frameStart remaining : ℕ) (hasher : Xxh64) (xs : Bytes) (p : ℕ)
    (q : Option (Bytes × ℕ)) (h : remaining ≤ xs.length) :
    checkLoop frameStart remaining hasher ⟨⟨xs, []⟩, p, q⟩ =
      .ok ⟨hasher.input ++ xs.take remaining⟩ ⟨⟨xs.drop remaining, []⟩, p, q⟩ := by
  induction remaining using Nat.strongRecOn generalizing hasher xs with
  | ind remaining ih =>
    rw [checkLoop]
    by_cases h0 : remaining = 0
    · rw [if_pos h0, h0]
      simp
    · -- one chunk of at most 8 KiB, then the rest of the payload
      set k := min remaining (8*1024) with hk
      have hlen : (xs.take k).length = k := by rw [List.length_take]; omega
      have hne : xs.take k ≠ [] := by
        intro hnil
        rw [hnil] at hlen
        simp at hlen
        omega
      rw [if_neg h0, bind_ok (onReader_facing (Stream.read_quiet k xs)), dif_neg hne, hlen,
        ih (remaining-k) (by omega) _ _ (by rw [List.length_drop]; omega)]
      rw [Xxh64.update, List.append_assoc, List.drop_drop, ← List.take_add,
        show k+(remaining-k) = remaining by omega]

theorem checkLoop_short (frameStart remaining : ℕ) (hasher : Xxh64) (xs : Bytes) (p : ℕ)
    (q : Option (Bytes × ℕ)) (h : xs.length < remaining) :
    ∃ s, checkLoop frameStart remaining hasher ⟨⟨xs, []⟩, p, q⟩ = .error (.truncated frameStart) s := by
  induction remaining using Nat.strongRecOn generalizing hasher xs with
  | ind remaining ih =>
    rw [checkLoop, if_neg (by omega)]
    set k := min remaining (8*1024) with hk
    by_cases hnil : xs = []
    · refine ⟨⟨⟨[], []⟩, p, q⟩, ?_⟩
      rw [bind_ok (onReader_facing (Stream.read_quiet k xs))]
      simp [hnil]
    · have hpos := List.length_pos_of_ne_nil hnil
      have hne : xs.take k ≠ [] := by
        intro h0
        rcases List.take_eq_nil_iff.mp h0 with hk0 | hx
        · omega
        · exact hnil hx
      obtain ⟨s, hs⟩ := ih (remaining-(xs.take k).length)
        (by rw [List.length_take]; omega) (hasher.update (xs.take k)) (xs.drop k)
        (by rw [List.length_drop, List.length_take]; omega)
      refine ⟨s, ?_⟩
      rw [bind_ok (onReader_facing (Stream.read_quiet k xs)), dif_neg hne, hs]

section
variable [Crates]

/-- `check` on a stream that holds all of its first frame. -/
theorem check_whole (xs : Bytes) (p : ℕ)
    (h : headerLen+headerPayloadLen (xs.take headerLen) ≤ xs.length) :
    let header := xs.take headerLen
    let n := headerPayloadLen header
    check (facing xs p) =
      if checksum (headerId header, (xs.drop headerLen).take n) ≠ headerChecksum header then
        .error (.checksumMismatch p) (facing (xs.drop (headerLen+n)) (p+(headerLen+n)))
      else .ok (some (headerId header, p)) (facing (xs.drop (headerLen+n)) (p+(headerLen+n))) := by
  intro header n
  have hn : headerLen+n ≤ xs.length := h
  have hloop := checkLoop_facing p n (Xxh64.new.update (be64 (headerId header).val))
    (xs.drop headerLen) p none (by rw [List.length_drop]; omega)
  unfold check
  rw [bind_ok (peekHeader_facing xs p (by omega))]
  simp only [clearPeeked, modify_bind]
  rw [bind_ok hloop, modify_bind, List.drop_drop, Nat.add_assoc]
  by_cases hsum : checksum (headerId header, (xs.drop headerLen).take n) ≠ headerChecksum header
  · rw [if_pos hsum]
    exact congrFun (if_pos hsum) _
  · rw [if_neg hsum]
    exact congrFun (if_neg hsum) _

/-- `check` returns what the grammar decides about the head of the stream. -/
theorem check_item {xs : Bytes} {e : Entry} {n : ℕ} (p : ℕ) (h : frameHead xs = .item e n) :
    check (facing xs p) = .ok (some (e.1, p)) (facing (xs.drop n) (p+n)) := by
  unfold frameHead at h
  dsimp only at h
  split at h
  · cases h
  · split at h
    · cases h
    · split at h
      · cases h
      · rename_i hwhole
        split at h
        · cases h
        · rename_i hsum
          obtain ⟨rfl, rfl⟩ := Head.item.inj h
          exact (check_whole xs p (by omega)).trans (if_neg hsum)

theorem check_done (p : ℕ) : check (facing [] p) = .ok none (facing [] p) := by
  unfold check
  rw [bind_ok (peekHeader_nil p)]
  rfl

theorem check_torn {xs : Bytes} (p : ℕ) (h : frameHead xs = .torn) :
    ∃ s, check (facing xs p) = .error (.truncated p) s := by
  obtain ⟨hne, hshort⟩ := (frameHead_torn_iff xs).mp h
  by_cases hlen : xs.length < headerLen
  · obtain ⟨s, hs⟩ := peekHeader_short xs p hne hlen
    exact ⟨s, bind_error hs⟩
  · obtain ⟨s, hs⟩ := checkLoop_short p (headerPayloadLen (xs.take headerLen))
      (Xxh64.new.update (be64 (headerId (xs.take headerLen)).val)) (xs.drop headerLen) p none
      (by rw [List.length_drop]; omega)
    refine ⟨s, ?_⟩
    unfold check
    rw [bind_ok (peekHeader_facing xs p (by omega))]
    simp only [clearPeeked, modify_bind]
    exact bind_error hs

theorem check_corrupt {xs : Bytes} (p : ℕ) (h : frameHead xs = .corrupt) :
    ∃ s, check (facing xs p) = .error (.checksumMismatch p) s := by
  unfold frameHead at h
  dsimp only at h
  split at h
  · cases h
  · split at h
    · cases h
    · split at h
      · cases h
      · rename_i hwhole
        split at h
        · rename_i hsum
          exact ⟨_, (check_whole xs p (by omega)).trans (if_pos hsum)⟩
        · cases h

/-! ### `scan_all` -/

/-- The checkpoints of the frames `es`, the first of which is number `count` and starts at `p`. -/
def checkpointsFrom (stride : ℕ) : ℕ → ℕ → List Entry → List (EntryId × ℕ)
  | _, _, [] => []
  | count, p, e :: es =>
    (if count % stride = 0 then [(e.1, p)] else []) ++
      checkpointsFrom stride (count+1) (p+(frame e).length) es

omit [Crates] in
def statusOf : Stop → ScanStatus
  | .clean => .clean
  | .torn => .tornTail
  | .corrupt => .checksumCorrupt

/-- The id of the last of the frames `es`, or else `lastId`. -/
def lastIdOf (lastId : Option EntryId) (es : List Entry) : Option EntryId :=
  (es.getLast?.map (·.1)).or lastId

omit [Crates] in
theorem lastIdOf_cons (lastId : Option EntryId) (e : Entry) (es : List Entry) :
    lastIdOf (some e.1) es = lastIdOf lastId (e :: es) := by
  cases es with
  | nil => rfl
  | cons x xs => simp [lastIdOf, List.getLast?_cons]

/-- The loop decodes the frames ahead, and its summary is about them. -/
theorem scanAllLoop_facing (stride : ℕ) (xs : Bytes) (p count : ℕ)
    (checkpoints : List (EntryId × ℕ)) (lastId : Option EntryId) :
    ∃ s, scanAllLoop stride (facing xs p) count checkpoints lastId p =
      .ok ⟨count+(frames.decode xs).items.length,
        checkpoints ++ checkpointsFrom stride count p (frames.decode xs).items,
        lastIdOf lastId (frames.decode xs).items,
        p+(frames.encodeAll (frames.decode xs).items).length,
        statusOf (frames.decode xs).stop⟩ s := by
  induction hn : xs.length using Nat.strongRecOn generalizing xs p count checkpoints lastId with
  | ind n ih =>
    rw [scanAllLoop]
    cases hh : frames.head xs with
    | done =>
      obtain rfl := frames.done_sound xs hh
      refine ⟨facing [] p, ?_⟩
      rw [Grammar.decode_nil]
      split <;> rename_i hc <;> rw [check_done] at hc <;> cases hc
      simp [checkpointsFrom, lastIdOf, statusOf, facing]
    | torn =>
      obtain ⟨s, hs⟩ := check_torn p hh
      refine ⟨s, ?_⟩
      rw [Grammar.decode_torn hh]
      split <;> rename_i hc <;> rw [hs] at hc <;> cases hc
      simp [checkpointsFrom, lastIdOf, statusOf]
    | corrupt =>
      obtain ⟨s, hs⟩ := check_corrupt p hh
      refine ⟨s, ?_⟩
      rw [Grammar.decode_corrupt hh]
      split <;> rename_i hc <;> rw [hs] at hc <;> cases hc
      simp [checkpointsFrom, lastIdOf, statusOf]
    | item e m =>
      obtain ⟨s, hs⟩ := ih _ (hn ▸ frames.drop_length_lt hh) (xs.drop m) (p+m) (count+1)
        (if count % stride = 0 then checkpoints ++ [(e.1, p)] else checkpoints) (some e.1) rfl
      have hm : m = (frame e).length := (frames.item_sound xs e m hh).2.1
      refine ⟨s, ?_⟩
      split <;> rename_i hc <;> rw [check_item p hh] at hc <;> cases hc
      rw [show (facing (xs.drop m) (p+m)).position = p+m from rfl, hs, Grammar.decode_item hh,
        lastIdOf_cons lastId]
      simp only [List.length_cons, checkpointsFrom, Grammar.encodeAll_cons, frames_encode,
        List.length_append, ← hm]
      congr 2
      · omega
      · split <;> simp
      · omega

theorem scanAll_facing (stride : ℕ) (xs : Bytes) (p : ℕ) :
    ∃ s, scanAll stride (facing xs p) =
      .ok ⟨(frames.decode xs).items.length, checkpointsFrom stride 0 p (frames.decode xs).items,
        lastIdOf none (frames.decode xs).items,
        p+(frames.encodeAll (frames.decode xs).items).length,
        statusOf (frames.decode xs).stop⟩ s := by
  obtain ⟨s, hs⟩ := scanAllLoop_facing stride xs p 0 [] none
  exact ⟨s, by simpa [scanAll, facing] using hs⟩

end
end FrameScanner
end Woodshed
