import Woodshed.Reading
import Woodshed.Triples

/-! Readers of which any part of the payload is read before they are dropped, and the state in which
they leave the scanner. -/
namespace Woodshed
open Sequencing Framing

/-! ### Streams -/

/-- No read of the stream fails. Some may come back short. -/
def Stream.Quiet (s : Stream) : Prop := ReadStep.fails ∉ s.reads

theorem Stream.read_keeps (n : ℕ) : Keeps Stream.Quiet (Stream.read n) := by
  rintro ⟨rest, reads⟩ h
  unfold Stream.read
  rcases reads with _ | ⟨_ | more, reads⟩
  · exact h
  · exact absurd (List.mem_cons_self ..) h
  · exact fun hmem => h (List.mem_cons_of_mem _ hmem)

theorem Stream.Quiet.read {s : Stream} (h : s.Quiet) (n : ℕ) :
    ∃ bs s', Stream.read n s = .ok bs s' ∧ s'.Quiet := by
  cases hread : Stream.read n s with
  | ok bs s' => exact ⟨bs, s', rfl, Triple.ok (Stream.read_keeps n) h hread⟩
  | error e s' =>
    exfalso
    obtain ⟨rest, reads⟩ := s
    unfold Stream.read at hread
    rcases reads with _ | ⟨_ | more, reads⟩
    · cases hread
    · exact h (List.mem_cons_self ..)
    · cases hread

/-- However short the reads come back, in the end all that was asked for is there. -/
theorem Stream.Quiet.readFull {s : Stream} (h : s.Quiet) (n : ℕ) :
    ∃ s', Stream.readFull n s = .ok (s.rest.take n) s' ∧ s'.rest = s.rest.drop n ∧ s'.Quiet := by
  have hok : ∃ bs s', Stream.readFull n s = .ok bs s' ∧ s'.Quiet := by
    induction n using Nat.strongRecOn generalizing s with
    | ind n ih =>
      rw [Stream.readFull]
      split
      · exact ⟨[], s, rfl, h⟩
      · obtain ⟨bs, t, hread, ht⟩ := h.read n
        rw [bind_ok hread]
        split
        · exact ⟨[], t, rfl, ht⟩
        · have hpos := List.length_pos_of_ne_nil ‹_›
          obtain ⟨more, u, hmore, hu⟩ := ih (n-bs.length) (by omega) ht
          rw [bind_ok hmore]
          exact ⟨bs ++ more, u, rfl, hu⟩
  obtain ⟨bs, s', hread, hs'⟩ := hok
  obtain ⟨rfl, hrest⟩ := Stream.readFull_ok hread
  exact ⟨s', hread, hrest, hs'⟩

theorem Stream.Quiet.behindSkip {s : Stream} (h : s.Quiet) (n : ℕ) :
    (s.behindSkip n).rest = s.rest.drop n ∧ (s.behindSkip n).Quiet := by
  obtain ⟨s', hread, hrest, hs'⟩ := h.readFull n
  have hskip : Stream.skip n s = .ok (s.rest.take n).length s' := bind_ok hread
  rw [Stream.behindSkip, hskip]
  exact ⟨hrest, hs'⟩

theorem onStream_eq_ok {α : Type} {m : EStateM IoError Stream α} {s s' : FrameScanner} {a : α}
    (h : onStream m s = .ok a s') : ∃ r, m s.reader = .ok a r ∧ s' = { s with reader := r } := by
  unfold onStream onPart at h
  split at h
  · rename_i r hm
    cases h
    exact ⟨r, hm, rfl⟩
  · cases h

theorem onStream_eq_error {α : Type} {m : EStateM IoError Stream α} {s s' : FrameScanner} {e : IoError}
    (h : onStream m s = .error e s') : ∃ r, m s.reader = .error e r ∧ s' = { s with reader := r } := by
  unfold onStream onPart at h
  split at h
  · cases h
  · rename_i e' r hm
    cases h
    exact ⟨r, hm, rfl⟩

/-! ### Reads of a payload -/

/-- What reads that returned `bs` leave of reader and scanner, whether some of them failed or not. -/
structure FrameReader.Took (r : FrameReader) (s : FrameScanner) (bs : Bytes) (r' : FrameReader)
    (s' : FrameScanner) : Prop where
  within : bs.length ≤ r.remaining
  bytes : s.reader.rest = bs ++ s'.reader.rest
  left : r' = { r with remaining := r.remaining-bs.length }
  peeked : s'.peeked = s.peeked
  position : s'.position =
    if bs ≠ [] ∧ r'.remaining = 0 then r.frameStart+headerLen+r.payloadLen else s.position
  quiet : s.reader.Quiet → s'.reader.Quiet

theorem FrameReader.Took.none (r : FrameReader) (s : FrameScanner) {t : Stream}
    (hrest : t.rest = s.reader.rest) (hquiet : s.reader.Quiet → t.Quiet) :
    r.Took s [] r { s with reader := t } where
  within := Nat.zero_le _
  bytes := hrest.symm
  left := rfl
  peeked := rfl
  position := (if_neg fun h => h.1 rfl).symm
  quiet := hquiet

theorem FrameReader.Took.trans {r r' r'' : FrameReader} {s s' s'' : FrameScanner} {bs cs : Bytes}
    (h : r.Took s bs r' s') (h' : r'.Took s' cs r'' s'') : r.Took s (bs ++ cs) r'' s'' := by
  have hleft := h.left
  have hleft' := h'.left
  have hwithin := h.within
  have hwithin' := h'.within
  subst hleft
  dsimp only at hwithin' hleft'
  refine ⟨?_, ?_, ?_, h'.peeked.trans h.peeked, ?_, fun hq => h'.quiet (h.quiet hq)⟩
  · rw [List.length_append]
    omega
  · rw [h.bytes, h'.bytes, List.append_assoc]
  · rw [hleft', List.length_append, Nat.sub_add_eq]
  · rw [h'.position, h.position]
    dsimp only
    subst hleft'
    dsimp only
    rcases cs with _ | ⟨c, cs⟩
    · simp
    · -- something was left behind the first part
      have hpos : r.remaining-bs.length ≠ 0 := by
        rw [List.length_cons] at hwithin'
        omega
      rw [if_neg (fun hz : bs ≠ [] ∧ _ => hpos hz.2)]
      simp

/-- A read takes nothing but what it returns, whether it fails or not. -/
theorem FrameReader.read_took (r : FrameReader) (n : ℕ) (s : FrameScanner) :
    (∃ bs r' s', r.read n s = .ok (bs, r') s' ∧ r.Took s bs r' s') ∨
      ∃ e s', r.read n s = .error e s' ∧ r.Took s [] r s' := by
  unfold FrameReader.read
  by_cases h0 : r.remaining = 0
  · rw [if_pos h0]
    exact Or.inl ⟨[], r, s, rfl, Took.none r s rfl fun hq => hq⟩
  rw [if_neg h0]
  cases hread : onStream (Stream.read (min r.remaining n)) s with
  | error e s' =>
    obtain ⟨t, ht, rfl⟩ := onStream_eq_error hread
    exact Or.inr ⟨e, _, bind_error hread, Took.none r s (Stream.read_error ht) fun hq =>
      Triple.error (Stream.read_keeps _) hq ht⟩
  | ok bs s' =>
    obtain ⟨t, ht, rfl⟩ := onStream_eq_ok hread
    obtain ⟨m, hle, _, rfl, hdrop⟩ := Stream.read_ok ht
    have hquiet (hq : s.reader.Quiet) : t.Quiet := Triple.ok (Stream.read_keeps _) hq ht
    have hsplit : s.reader.rest = s.reader.rest.take m ++ t.rest := by
      rw [hdrop, List.take_append_drop]
    rw [bind_ok hread]
    by_cases hnil : s.reader.rest.take m = []
    · -- nothing was read, so nothing was taken off the stream
      rw [hnil, List.nil_append] at hsplit
      refine Or.inr ⟨⟨.unexpectedEof, "unexpected end of file"⟩, _, ?_,
        Took.none r s hsplit.symm hquiet⟩
      rw [if_pos hnil]
      rfl
    · rw [if_neg hnil]
      have hwithin : (s.reader.rest.take m).length ≤ r.remaining := by
        rw [List.length_take]
        omega
      dsimp only
      by_cases hz : r.remaining-(s.reader.rest.take m).length = 0
      · rw [if_pos hz]
        exact Or.inl ⟨_, _, _, rfl, hwithin, hsplit, rfl, rfl, (if_pos ⟨hnil, hz⟩).symm, hquiet⟩
      · rw [if_neg hz]
        exact Or.inl ⟨_, _, _, rfl, hwithin, hsplit, rfl, rfl, (if_neg fun h => hz h.2).symm, hquiet⟩

/-- A series of reads of a payload, each into a buffer of the given size. A read that fails yields no
bytes, and the next one is made all the same. -/
def FrameReader.consume : List ℕ → FrameReader → FrameScanner → Bytes × FrameReader × FrameScanner
  | [], r, s => ([], r, s)
  | n :: ns, r, s =>
    match r.read n s with
    | .ok (bs, r') s' =>
      let (more, last) := r'.consume ns s'
      (bs ++ more, last)
    | .error _ s' => r.consume ns s'

theorem FrameReader.consume_took (ns : List ℕ) (r : FrameReader) (s : FrameScanner) :
    ∃ bs r' s', r.consume ns s = (bs, r', s') ∧ r.Took s bs r' s' := by
  induction ns generalizing r s with
  | nil => exact ⟨[], r, s, rfl, Took.none r s rfl fun hq => hq⟩
  | cons n ns ih =>
    rw [FrameReader.consume]
    rcases r.read_took n s with ⟨bs, r', s', hread, htook⟩ | ⟨e, s', hread, htook⟩
    · obtain ⟨more, last, s'', hrun, htook'⟩ := ih r' s'
      rw [hread]
      dsimp only
      rw [hrun]
      exact ⟨bs ++ more, last, s'', rfl, htook.trans htook'⟩
    · obtain ⟨more, last, s'', hrun, htook'⟩ := ih r s'
      rw [hread]
      exact ⟨more, last, s'', hrun, htook.trans htook'⟩

theorem Stream.length_read {n : ℕ} {s s' : Stream} {bs : Bytes} (h : Stream.read n s = .ok bs s') :
    bs.length ≤ n := by
  obtain ⟨m, hle, _, rfl, _⟩ := Stream.read_ok h
  rw [List.length_take]
  omega

/-- A series of reads returns at most what it has room for. -/
theorem FrameReader.consume_length (ns : List ℕ) (r : FrameReader) (s : FrameScanner) :
    (r.consume ns s).1.length ≤ ns.sum := by
  induction ns generalizing r s with
  | nil => exact le_rfl
  | cons n ns ih =>
    rw [FrameReader.consume, List.sum_cons]
    cases hread : r.read n s with
    | error e s' => exact (ih r s').trans (Nat.le_add_left _ _)
    | ok out s' =>
      obtain ⟨bs, r'⟩ := out
      have hbs : bs.length ≤ n := by
        unfold FrameReader.read at hread
        split at hread
        · cases hread
          exact Nat.zero_le _
        · obtain ⟨cs, t, hstream, hread⟩ := bind_eq_ok hread
          obtain ⟨u, hu, _⟩ := onStream_eq_ok hstream
          have hcs := Stream.length_read hu
          split at hread
          · cases hread
          · dsimp only at hread
            split at hread <;> cases hread <;> omega
      dsimp only
      rw [List.length_append]
      exact Nat.add_le_add hbs (ih r' s')

/-- Where no read fails, the drop of the reader leaves the stream behind the payload, however much of
it was read. The position moves there unless there was nothing to read. -/
theorem FrameReader.Took.drop {r r' : FrameReader} {s s' : FrameScanner} {bs : Bytes}
    (h : r.Took s bs r' s') (hq : s.reader.Quiet) :
    ∃ t, r'.drop s' = ⟨t, if r.remaining = 0 then s.position else r.frameStart+headerLen+r.payloadLen,
      s.peeked⟩ ∧ t.rest = s.reader.rest.drop r.remaining ∧ t.Quiet := by
  have hleft := h.left
  have hwithin := h.within
  have hposition := h.position
  subst hleft
  dsimp only at hposition
  obtain ⟨t', q', k'⟩ := s'
  have hbytes : s.reader.rest = bs ++ t'.rest := h.bytes
  have hpeeked : k' = s.peeked := h.peeked
  have hquiet : t'.Quiet := h.quiet hq
  dsimp only at hposition
  unfold FrameReader.drop
  dsimp only
  by_cases hz : r.remaining-bs.length = 0
  · -- all of it was read
    have hlen : bs.length = r.remaining := by omega
    rw [if_neg (by omega)]
    refine ⟨t', ?_, ?_, hquiet⟩
    · rw [hposition, hpeeked]
      congr 1
      by_cases h0 : r.remaining = 0
      · rw [if_pos h0, if_neg fun hne => hne.1 (List.length_eq_zero_iff.mp (hlen.trans h0))]
      · rw [if_neg h0, if_pos ⟨fun hnil => h0 (by rw [← hlen, hnil]; rfl), hz⟩]
    · rw [hbytes, ← hlen, List.drop_left]
  · rw [if_pos (by omega)]
    obtain ⟨hrest, hskipped⟩ := hquiet.behindSkip (r.remaining-bs.length)
    refine ⟨_, ?_, ?_, hskipped⟩
    · rw [hpeeked, if_neg (by omega)]
    · rw [hrest, hbytes, List.drop_append, List.drop_eq_nil_of_le hwithin, List.nil_append]

/-- A read into an empty buffer fails, and takes nothing off the stream. -/
theorem FrameReader.read_zero {r : FrameReader} (hr : 0 < r.remaining) (xs : Bytes) (q : ℕ)
    (k : Option (Bytes × ℕ)) :
    r.read 0 ⟨⟨xs, []⟩, q, k⟩ =
      .error ⟨.unexpectedEof, "unexpected end of file"⟩ ⟨⟨xs, []⟩, q, k⟩ := by
  unfold FrameReader.read
  rw [if_neg (by omega), Nat.min_zero, bind_ok (onStream_facing (Stream.read_quiet 0 xs))]
  rfl

theorem Stream.behindSkip_quiet (n : ℕ) (xs : Bytes) :
    Stream.behindSkip n ⟨xs, []⟩ = ⟨xs.drop n, []⟩ := by
  rw [Stream.behindSkip, Stream.skip_quiet]

/-- A read where the stream is at its end fails. -/
theorem FrameReader.read_end {r : FrameReader} (hr : 0 < r.remaining) (n q : ℕ)
    (k : Option (Bytes × ℕ)) :
    r.read n ⟨⟨[], []⟩, q, k⟩ = .error ⟨.unexpectedEof, "unexpected end of file"⟩ ⟨⟨[], []⟩, q, k⟩ := by
  unfold FrameReader.read
  rw [if_neg (by omega), bind_ok (onStream_facing (Stream.read_quiet _ []))]
  simp

/-- What a series of reads returns that never come back short, and where the drop of the reader leaves
the scanner then. -/
theorem FrameReader.consume_drop (ns : List ℕ) (r : FrameReader) (xs : Bytes) (q : ℕ)
    (k : Option (Bytes × ℕ)) :
    ∃ r' s', r.consume ns ⟨⟨xs, []⟩, q, k⟩ = (xs.take (min r.remaining ns.sum), r', s') ∧
      r'.drop s' = ⟨⟨xs.drop r.remaining, []⟩,
        if r.remaining = 0 then q else r.frameStart+headerLen+r.payloadLen, k⟩ := by
  induction ns generalizing r xs q with
  | nil =>
    refine ⟨r, ⟨⟨xs, []⟩, q, k⟩, ?_, ?_⟩
    · rw [List.sum_nil, Nat.min_zero, List.take_zero]
      rfl
    · unfold FrameReader.drop
      by_cases h0 : r.remaining = 0
      · rw [if_neg (by omega), if_pos h0, h0, List.drop_zero]
      · rw [if_pos (by omega), if_neg h0, Stream.behindSkip_quiet]
  | cons n ns ih =>
    rw [List.sum_cons, FrameReader.consume]
    by_cases h0 : r.remaining = 0
    · -- nothing is left: all reads return nothing
      obtain ⟨r', s', hrun, hdrop⟩ := ih r xs q
      rw [FrameReader.read_done _ h0]
      dsimp only
      rw [hrun]
      refine ⟨r', s', ?_, hdrop⟩
      rw [h0, Nat.zero_min, Nat.zero_min, List.take_zero, List.nil_append]
    have hpos : 0 < r.remaining := by omega
    by_cases hn : n = 0
    · subst hn
      rw [FrameReader.read_zero hpos, Nat.zero_add]
      exact ih r xs q
    by_cases hxs : xs = []
    · subst hxs
      obtain ⟨r', s', hrun, hdrop⟩ := ih r [] q
      rw [FrameReader.read_end hpos]
      refine ⟨r', s', ?_, hdrop⟩
      rw [List.take_nil]
      rwa [List.take_nil] at hrun
    · -- a read that returns something, and what is read behind it
      have hread := FrameReader.read_quiet (q := q) (k := k) hpos (Nat.pos_of_ne_zero hn) hxs
      dsimp only at hread
      rw [hread]
      dsimp only
      set m := min r.remaining n with hm
      have hlen : (xs.take m).length = min m xs.length := List.length_take
      obtain ⟨r', s', hrun, hdrop⟩ := ih { r with remaining := r.remaining-(xs.take m).length }
        (xs.drop m)
        (if r.remaining-(xs.take m).length = 0 then r.frameStart+headerLen+r.payloadLen else q)
      dsimp only at hrun hdrop
      rw [hrun]
      refine ⟨r', s', ?_, ?_⟩
      · dsimp only
        congr 1
        rcases Nat.le_total m xs.length with hle | hle
        · rw [hlen, Nat.min_eq_left hle, ← List.take_add]
          congr 1
          omega
        · rw [List.drop_eq_nil_of_le hle, List.take_nil, List.append_nil, List.take_of_length_le hle,
            List.take_of_length_le (by omega)]
      · rw [hdrop, if_neg h0, List.drop_drop]
        have hrest : xs.drop (m+(r.remaining-(xs.take m).length)) = xs.drop r.remaining := by
          rcases Nat.le_total m xs.length with hle | hle
          · rw [hlen, Nat.min_eq_left hle]
            congr 1
            omega
          · rw [List.drop_eq_nil_of_le (by omega), List.drop_eq_nil_of_le (by omega)]
        rw [hrest]
        by_cases hz : r.remaining-(xs.take m).length = 0
        · rw [if_pos hz, if_pos hz]
        · rw [if_neg hz]

section
variable [Crates]

/-! ### The scanner's calls in front of frames -/

namespace FrameScanner

omit [Crates] in
/-- All calls begin with a peek. -/
theorem read_congr {s t : FrameScanner} (h : s.peekHeader = t.peekHeader) : s.read = t.read := by
  unfold read
  change EStateM.bind _ _ s = EStateM.bind _ _ t
  rw [EStateM.bind, EStateM.bind, h]

theorem check_congr {s t : FrameScanner} (h : s.peekHeader = t.peekHeader) : s.check = t.check := by
  unfold check
  change EStateM.bind _ _ s = EStateM.bind _ _ t
  rw [EStateM.bind, EStateM.bind, h]

omit [Crates] in
theorem seekToId_congr {s t : FrameScanner} (h : s.peekHeader = t.peekHeader) (target : EntryId) :
    seekToId target s = seekToId target t := by
  rw [seekToId]
  split <;> rename_i hs <;> rw [h] at hs <;> symm <;> rw [seekToId] <;> split <;> rename_i ht <;>
    rw [hs] at ht <;> cases ht
  · rfl
  · rfl
  · rfl

omit [Crates] in
theorem scanToAfter_congr {s t : FrameScanner} (h : s.peekHeader = t.peekHeader) (target : EntryId) :
    scanToAfter target s = scanToAfter target t := by
  rw [scanToAfter]
  split <;> rename_i hs <;> rw [h] at hs <;> symm <;> rw [scanToAfter] <;> split <;> rename_i ht <;>
    rw [hs] at ht <;> cases ht
  · rfl
  · rfl
  · rfl

theorem Stands.read_nil {s : FrameScanner} {p : ℕ} (h : Stands s p []) :
    s.read = .ok none (facing [] p) :=
  (read_congr h.peekHeader).trans (FrameScanner.read_nil p)

theorem Stands.read_cons {s : FrameScanner} {p : ℕ} {e : Entry} {es : List Entry}
    (h : Stands s p (e :: es)) (hf : Fits e) :
    s.read = .ok (some ⟨e.1, e.2.length, e.2.length, p⟩) (facing (e.2 ++ frames.encodeAll es) p) := by
  rw [read_congr h.peekHeader, Grammar.encodeAll_cons, frames_encode, read_frame e _ p hf]

theorem Stands.check_nil {s : FrameScanner} {p : ℕ} (h : Stands s p []) :
    s.check = .ok none (facing [] p) :=
  (check_congr h.peekHeader).trans (check_done p)

theorem Stands.check_cons {s : FrameScanner} {p : ℕ} {e : Entry} {es : List Entry}
    (h : Stands s p (e :: es)) (hf : Fits e) :
    s.check = .ok (some (e.1, p)) (facing (frames.encodeAll es) (p+(frame e).length)) := by
  have hhead : frameHead (frame e ++ frames.encodeAll es) = .item e (frame e).length :=
    frameHead_frame e _ hf
  rw [check_congr h.peekHeader, Grammar.encodeAll_cons, frames_encode, check_item p hhead,
    List.drop_left]

theorem Stands.seekToId {s : FrameScanner} {p : ℕ} {es : List Entry} (h : Stands s p es)
    (target : EntryId) (hf : ∀ e ∈ es, Fits e) :
    ∃ s', FrameScanner.seekToId target s = .ok () s' ∧
      Stands s' (p+(frames.encodeAll (es.takeWhile fun e => decide (e.1 < target))).length)
        (es.dropWhile fun e => decide (e.1 < target)) := by
  rw [seekToId_congr h.peekHeader]
  exact seekToId_stands target es p hf

end FrameScanner
end
end Woodshed
