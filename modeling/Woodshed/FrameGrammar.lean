import Woodshed.Frame
import Woodshed.Framing

/-! The frame format as a grammar of records: what `check` decides at the head of a stream, and
that the frames `FrameBuffer::write` produces obey the laws of a grammar. -/
namespace Woodshed
open BaseDigits Framing

theorem ofBe64_be64 (x : UInt64) : ofBe64 (be64 x) = x := by
  rw [ofBe64, be64, ofBytes_toBytes, Nat.mod_eq_of_lt (by have := x.toNat_lt; omega)]
  exact UInt64.ofNat_toNat

theorem be64_ofBe64 (bs : Bytes) (h : bs.length = 8) : be64 (ofBe64 bs) = bs := by
  have hlt := ofBytes_lt bs
  rw [h] at hlt
  have hn : (ofBe64 bs).toNat = ofBytes bs := by
    rw [ofBe64, UInt64.toNat_ofNat']
    exact Nat.mod_eq_of_lt (by omega)
  calc
    be64 (ofBe64 bs) = toBytes bs.length (ofBytes bs) := by rw [be64, hn, h]
    _ = bs := toBytes_ofBytes bs

theorem ofBe32_be32 (x : UInt32) : ofBe32 (be32 x) = x := by
  rw [ofBe32, be32, ofBytes_toBytes, Nat.mod_eq_of_lt (by have := x.toNat_lt; omega)]
  exact UInt32.ofNat_toNat

theorem be32_ofBe32 (bs : Bytes) (h : bs.length = 4) : be32 (ofBe32 bs) = bs := by
  have hlt := ofBytes_lt bs
  rw [h] at hlt
  have hn : (ofBe32 bs).toNat = ofBytes bs := by
    rw [ofBe32, UInt32.toNat_ofNat']
    exact Nat.mod_eq_of_lt (by omega)
  calc
    be32 (ofBe32 bs) = toBytes bs.length (ofBytes bs) := by rw [be32, hn, h]
    _ = bs := toBytes_ofBytes bs

@[simp] theorem length_be64 (x : UInt64) : (be64 x).length = 8 := length_toBytes 8 _

@[simp] theorem length_be32 (x : UInt32) : (be32 x).length = 4 := length_toBytes 4 _

section
variable [Crates]

/-- The checksum of an entry. -/
def checksum (e : Entry) : UInt64 := Crates.xxh64 (be64 e.1.val ++ e.2)

/-- The header of an entry's frame. -/
def frameHeader (e : Entry) : Bytes :=
  be64 e.1.val ++ be32 (UInt32.ofNat e.2.length) ++ be64 (checksum e)

/-- The frame of an entry. -/
def frame (e : Entry) : Bytes := frameHeader e ++ e.2

theorem FrameBuffer.write_eq (b : FrameBuffer) (e : Entry) :
    b.write e.1 e.2 = ⟨b.buf ++ frame e⟩ := by
  simp [FrameBuffer.write, Xxh64.digest, Xxh64.update, Xxh64.new, frame, frameHeader, checksum]

@[simp] theorem length_frameHeader (e : Entry) : (frameHeader e).length = headerLen := by
  simp [frameHeader, headerLen]

@[simp] theorem length_frame (e : Entry) : (frame e).length = headerLen+e.2.length := by
  simp [frame]

/-- The entries whose length fits the length field. -/
def Fits (e : Entry) : Prop := e.2.length < 2^32

theorem headerId_frameHeader (e : Entry) : headerId (frameHeader e) = e.1 := by
  rw [headerId, frameHeader, List.append_assoc, List.take_left' (length_be64 _), ofBe64_be64]

/-- The length field holds the length of the payload, cut to 32 bits. -/
theorem headerPayloadLen_wrapped (e : Entry) :
    headerPayloadLen (frameHeader e) = e.2.length%2^32 := by
  rw [headerPayloadLen, frameHeader, List.append_assoc, List.drop_left' (length_be64 _),
    List.take_left' (length_be32 _), ofBe32_be32, UInt32.toNat_ofNat']

theorem headerPayloadLen_frameHeader (e : Entry) (h : Fits e) :
    headerPayloadLen (frameHeader e) = e.2.length := by
  rw [headerPayloadLen_wrapped, Nat.mod_eq_of_lt h]

theorem headerChecksum_frameHeader (e : Entry) :
    headerChecksum (frameHeader e) = checksum e := by
  rw [headerChecksum, frameHeader, List.drop_left' (by simp),
    List.take_of_length_le (by simp), ofBe64_be64]

omit [Crates] in
/-- A header holds its own three fields. -/
theorem header_eq (header : Bytes) (h : header.length = headerLen) :
    header = be64 (headerId header).val ++ be32 (ofBe32 ((header.drop 8).take 4)) ++
      be64 (headerChecksum header) := by
  rw [headerLen] at h
  have hid : be64 (headerId header).val = header.take 8 := be64_ofBe64 _ (by simp [h])
  have hlen : be32 (ofBe32 ((header.drop 8).take 4)) = (header.drop 8).take 4 :=
    be32_ofBe32 _ (by simp [h])
  have hsum : be64 (headerChecksum header) = header.drop 12 := by
    rw [headerChecksum, be64_ofBe64 _ (by simp [h]), List.take_of_length_le (by simp [h])]
  have hdrop : header.drop 12 = (header.drop 8).drop 4 := by rw [List.drop_drop]
  rw [hid, hlen, hsum, hdrop, List.append_assoc, List.take_append_drop, List.take_append_drop]

/-- What `check` decides at the head of a stream. -/
def frameHead (xs : Bytes) : Head Entry :=
  if xs = [] then .done
  else if xs.length < headerLen then .torn
  else
    let header := xs.take headerLen
    let n := headerPayloadLen header
    if xs.length < headerLen+n then .torn
    else
      let e : Entry := (headerId header, (xs.drop headerLen).take n)
      if checksum e ≠ headerChecksum header then .corrupt else .item e (headerLen+n)

theorem frame_ne_nil (e : Entry) : frame e ≠ [] := by
  intro h
  have := congrArg List.length h
  simp [headerLen] at this

theorem frameHead_frame (e : Entry) (rest : Bytes) (h : Fits e) :
    frameHead (frame e ++ rest) = .item e (frame e).length := by
  have hheader : (frame e ++ rest).take headerLen = frameHeader e := by
    rw [frame, List.append_assoc, List.take_left' (length_frameHeader e)]
  have hpayload : ((frame e ++ rest).drop headerLen).take e.2.length = e.2 := by
    rw [frame, List.append_assoc, List.drop_left' (length_frameHeader e), List.take_left]
  have hne : frame e ++ rest ≠ [] := by
    intro h0
    exact frame_ne_nil e (List.append_eq_nil_iff.mp h0).1
  unfold frameHead
  rw [if_neg hne, if_neg (by simp; omega)]
  simp only [hheader, headerId_frameHeader, headerPayloadLen_frameHeader e h,
    headerChecksum_frameHeader, hpayload]
  rw [if_neg (by simp), if_neg (by simp), length_frame]

/-- A frame whose payload does not fit is read as a shorter one, with the checksum of the whole. -/
theorem frameHead_wrapped (e : Entry) (rest : Bytes)
    (h : checksum (e.1, e.2.take (e.2.length%2^32)) ≠ checksum e) :
    frameHead (frame e ++ rest) = .corrupt := by
  have hheader : (frame e ++ rest).take headerLen = frameHeader e := by
    rw [frame, List.append_assoc, List.take_left' (length_frameHeader e)]
  have hle : e.2.length%2^32 ≤ e.2.length := Nat.mod_le _ _
  have hpayload : ((frame e ++ rest).drop headerLen).take (e.2.length%2^32) =
      e.2.take (e.2.length%2^32) := by
    rw [frame, List.append_assoc, List.drop_left' (length_frameHeader e), List.take_append_of_le_length hle]
  have hne : frame e ++ rest ≠ [] := by
    intro h0
    exact frame_ne_nil e (List.append_eq_nil_iff.mp h0).1
  unfold frameHead
  rw [if_neg hne, if_neg (by simp; omega)]
  simp only [hheader, headerId_frameHeader, headerPayloadLen_wrapped, headerChecksum_frameHeader,
    hpayload]
  rw [if_neg (by simp; omega), if_pos h]

theorem frameHead_torn (e : Entry) (xs : Bytes) (h : Fits e) (hp : xs <+: frame e) (hne : xs ≠ [])
    (hlt : xs ≠ frame e) : frameHead xs = .torn := by
  have hlen : xs.length < (frame e).length := by
    rcases Nat.lt_or_ge xs.length (frame e).length with hl | hl
    · exact hl
    · exact absurd (hp.eq_of_length_le hl) hlt
  unfold frameHead
  rw [if_neg hne]
  by_cases hshort : xs.length < headerLen
  · rw [if_pos hshort]
  · -- the whole header is there, so it announces the payload's length
    have hheader : xs.take headerLen = frameHeader e := by
      obtain ⟨ys, hys⟩ := hp
      have := congrArg (List.take headerLen) hys
      rwa [List.take_append_of_le_length (by omega), frame,
        List.take_left' (length_frameHeader e)] at this
    rw [if_neg hshort]
    simp only [hheader, headerPayloadLen_frameHeader e h]
    rw [if_pos (by rwa [length_frame] at hlen)]

theorem frameHead_done (xs : Bytes) (h : frameHead xs = .done) : xs = [] := by
  unfold frameHead at h
  by_contra hne
  rw [if_neg hne] at h
  dsimp only at h
  split at h
  · cases h
  · split at h
    · cases h
    · split at h <;> cases h

theorem frameHead_item (xs : Bytes) (e : Entry) (n : ℕ) (h : frameHead xs = .item e n) :
    Fits e ∧ n = (frame e).length ∧ frame e <+: xs := by
  unfold frameHead at h
  dsimp only at h
  split at h
  · cases h
  · split at h
    · cases h
    · rename_i hlong
      split at h
      · cases h
      · rename_i hwhole
        split at h
        · cases h
        · rename_i hsum
          have hhl : (xs.take headerLen).length = headerLen := by
            rw [List.length_take]; omega
          have heq := header_eq (xs.take headerLen) hhl
          set header := xs.take headerLen with hhd
          set m := headerPayloadLen header with hm
          obtain ⟨rfl, rfl⟩ := Head.item.inj h
          have hpl : ((xs.drop headerLen).take m).length = m := by
            rw [List.length_take, List.length_drop]; omega
          have hfits : m < 2^32 := (ofBe32 ((header.drop 8).take 4)).toNat_lt
          have hframe : frame (headerId header, (xs.drop headerLen).take m) =
              header ++ (xs.drop headerLen).take m := by
            have hsum' := not_ne_iff.mp hsum
            have hlen32 : UInt32.ofNat m = ofBe32 ((header.drop 8).take 4) := UInt32.ofNat_toNat
            rw [frame, frameHeader, hsum', hpl, hlen32, ← heq]
          refine ⟨by rw [Fits, hpl]; exact hfits, by rw [length_frame, hpl], ?_⟩
          rw [hframe]
          refine ⟨(xs.drop headerLen).drop m, ?_⟩
          rw [List.append_assoc, List.take_append_drop, hhd, List.take_append_drop]

/-- Frames are a grammar: `scan_all` is its greedy decoder. -/
def frames : Grammar Entry UInt8 where
  encode := frame
  Fits := Fits
  head := frameHead
  encode_ne_nil := frame_ne_nil
  head_nil := rfl
  head_encode := fun e rest h => frameHead_frame e rest h
  head_torn := frameHead_torn
  done_sound := frameHead_done
  item_sound := frameHead_item

@[simp] theorem frames_encode (e : Entry) : frames.encode e = frame e := rfl

theorem frames_head (xs : Bytes) : frames.head xs = frameHead xs := rfl

/-- A torn head has fewer bytes than a header, or than its header announces. -/
theorem frameHead_torn_iff (xs : Bytes) :
    frameHead xs = .torn ↔ xs ≠ [] ∧ (xs.length < headerLen ∨
      xs.length < headerLen+headerPayloadLen (xs.take headerLen)) := by
  unfold frameHead
  dsimp only
  by_cases h0 : xs = []
  · simp [h0]
  · by_cases h1 : xs.length < headerLen
    · simp [h0, h1]
    · by_cases h2 : xs.length < headerLen+headerPayloadLen (xs.take headerLen)
      · simp [h0, h1, h2]
      · rw [if_neg h0, if_neg h1, if_neg h2]
        simp only [h1, h2, or_self, and_false, iff_false]
        split <;> simp

end
end Woodshed
