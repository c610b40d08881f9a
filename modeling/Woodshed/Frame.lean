import Woodshed.BaseDigits
import Woodshed.Disk

/-! Frames: `[id: 8][payload_len: 4][checksum: 8][payload]`, the buffer and cursor that write
them, and the scanner that reads them back. -/
namespace Woodshed
open Sequencing BaseDigits

def be64 (x : UInt64) : Bytes := toBytes 8 x.toNat
def be32 (x : UInt32) : Bytes := toBytes 4 x.toNat
def ofBe64 (bs : Bytes) : UInt64 := UInt64.ofNat (ofBytes bs)
def ofBe32 (bs : Bytes) : UInt32 := UInt32.ofNat (ofBytes bs)

def headerLen : ℕ := 8+4+8

/-- `Xxh64`: the bytes fed so far. -/
structure Xxh64 where
  input : Bytes

def Xxh64.new : Xxh64 := ⟨[]⟩
def Xxh64.update (h : Xxh64) (bs : Bytes) : Xxh64 := ⟨h.input ++ bs⟩
def Xxh64.digest [Crates] (h : Xxh64) : UInt64 := Crates.xxh64 h.input

/-! ### Writing -/

structure FrameBuffer where
  buf : Bytes
deriving DecidableEq, Repr

def FrameBuffer.new : FrameBuffer := ⟨[]⟩

/-- The length field keeps the low 32 bits of the payload's length. -/
def FrameBuffer.write [Crates] (b : FrameBuffer) (id : EntryId) (payload : Bytes) : FrameBuffer :=
  let hasher := (Xxh64.new.update (be64 id.val)).update payload
  let checksum := hasher.digest
  ⟨b.buf ++ be64 id.val ++ be32 (UInt32.ofNat payload.length) ++ be64 checksum ++ payload⟩

def FrameBuffer.pending (b : FrameBuffer) : Bytes := b.buf
def FrameBuffer.len (b : FrameBuffer) : ℕ := b.buf.length
def FrameBuffer.clear (_ : FrameBuffer) : FrameBuffer := ⟨[]⟩

structure FrameCursor where
  buf : FrameBuffer
  position : ℕ
deriving DecidableEq, Repr

def FrameCursor.new (position : ℕ) : FrameCursor := ⟨FrameBuffer.new, position⟩

def FrameCursor.setPosition (c : FrameCursor) (pos : ℕ) : FrameCursor := { c with position := pos }

def FrameCursor.write [Crates] (c : FrameCursor) (id : EntryId) (payload : Bytes) : FrameCursor :=
  { c with buf := c.buf.write id payload }

/-- Write the buffered frames at the cursor's position. A failed write keeps the buffer. -/
def FrameCursor.flush (c : FrameCursor) (name : FileName) (kind : FileKind) : Fs FrameCursor := do
  File.writeAllAt name kind c.buf.pending c.position
  return { buf := c.buf.clear, position := c.position+c.buf.len }

/-! ### Scanning -/

structure FrameScanner where
  reader : Stream
  position : ℕ
  /-- A header already read, with the offset of its frame. -/
  peeked : Option (Bytes × ℕ)

inductive ScanError where
  | checksumMismatch (offset : ℕ)
  | truncated (offset : ℕ)
  | io (e : IoError)
deriving DecidableEq, Repr

def ScanError.toString : ScanError → String
  | .checksumMismatch offset => s!"checksum mismatch at offset {offset}"
  | .truncated offset => s!"truncated frame at offset {offset}"
  | .io e => "io error: " ++ e.message

abbrev Scan := EStateM ScanError FrameScanner

/-- Run a read on the scanner's stream. -/
def onReader {α : Type} (err : IoError → ScanError) (m : EStateM IoError Stream α) : Scan α :=
  onPart FrameScanner.reader (fun r s => { s with reader := r }) err m

def FrameScanner.new (file : File) (offset : ℕ) : FrameScanner := ⟨file.stream, offset, none⟩

def headerId (header : Bytes) : EntryId := ⟨ofBe64 (header.take 8)⟩
def headerPayloadLen (header : Bytes) : ℕ := (ofBe32 ((header.drop 8).take 4)).toNat
def headerChecksum (header : Bytes) : UInt64 := ofBe64 ((header.drop 12).take 8)

def FrameScanner.peekHeader : Scan (Option (Bytes × ℕ)) := do
  let s ← get
  match s.peeked with
  | some p => return some p
  | none =>
    let frameStart := s.position
    let first ← onReader .io (Stream.read 1)
    if first = [] then return none
    else
      let more ← onReader (fun _ => .truncated frameStart) (Stream.readExact (headerLen-1))
      modify fun s => { s with peeked := some (first ++ more, frameStart) }
      return some (first ++ more, frameStart)

def FrameScanner.clearPeeked : Scan Unit := modify fun s => { s with peeked := none }

def FrameScanner.consumePeekedPayload (payloadLen frameStart : ℕ) : Scan Unit := do
  let skipped ← onReader .io (Stream.skip payloadLen)
  if skipped < payloadLen then throw (.truncated frameStart)
  else modify fun s => { s with position := frameStart+headerLen+payloadLen, peeked := none }

/-- A reader on one frame's payload; it borrows the scanner. -/
structure FrameReader where
  id : EntryId
  remaining : ℕ
  payloadLen : ℕ
  frameStart : ℕ
deriving DecidableEq, Repr

def FrameScanner.read : Scan (Option FrameReader) := do
  match ← FrameScanner.peekHeader with
  | none => return none
  | some (header, frameStart) =>
    FrameScanner.clearPeeked
    return some ⟨headerId header, headerPayloadLen header, headerPayloadLen header, frameStart⟩

/-- The payload loop of `check`: feed the payload to the hasher in chunks of 8 KiB. -/
def FrameScanner.checkLoop (frameStart remaining : ℕ) (hasher : Xxh64) : Scan Xxh64 :=
  if remaining = 0 then return hasher
  else do
    let tmp ← onReader .io (Stream.read (min remaining (8*1024)))
    if _h : tmp = [] then throw (.truncated frameStart)
    else FrameScanner.checkLoop frameStart (remaining-tmp.length) (hasher.update tmp)
termination_by remaining
decreasing_by
  have := List.length_pos_of_ne_nil _h
  omega

def FrameScanner.check [Crates] : Scan (Option (EntryId × ℕ)) := do
  match ← FrameScanner.peekHeader with
  | none => return none
  | some (header, frameStart) =>
    FrameScanner.clearPeeked
    let id := headerId header
    let payloadLen := headerPayloadLen header
    let hasher ← FrameScanner.checkLoop frameStart payloadLen (Xxh64.new.update (be64 id.val))
    modify fun s => { s with position := frameStart+headerLen+payloadLen }
    if hasher.digest ≠ headerChecksum header then throw (.checksumMismatch frameStart)
    else return some (id, frameStart)

/-! ### The scanner moves forward

The loops below end because every round takes a header: what lies unread, a peeked header
included, gets shorter. -/

def FrameScanner.unread (s : FrameScanner) : ℕ :=
  s.reader.rest.length + if s.peeked.isSome then headerLen else 0

/-- A read takes something off the stream, unless there is no room for it. -/
theorem Stream.read_ok {n : ℕ} {s s' : Stream} {bs : Bytes} (h : Stream.read n s = .ok bs s') :
    ∃ m ≤ n, (m = 0 → n = 0) ∧ bs = s.rest.take m ∧ s'.rest = s.rest.drop m := by
  unfold Stream.read at h
  split at h
  · cases h
    exact ⟨n, le_rfl, id, rfl, rfl⟩
  · cases h
  · rename_i more reads _
    cases h
    exact ⟨min n (more+1), min_le_left _ _, by omega, rfl, rfl⟩

theorem Stream.read_one {s s' : Stream} {bs : Bytes} (h : Stream.read 1 s = .ok bs s') :
    bs = s.rest.take 1 ∧ s'.rest = s.rest.drop 1 := by
  obtain ⟨m, hle, hzero, hbs, hrest⟩ := Stream.read_ok h
  obtain rfl : m = 1 := by omega
  exact ⟨hbs, hrest⟩

/-- A read that fails takes nothing off the stream. -/
theorem Stream.read_error {n : ℕ} {s s' : Stream} {e : IoError} (h : Stream.read n s = .error e s') :
    s'.rest = s.rest := by
  unfold Stream.read at h
  split at h <;> cases h
  rfl

theorem Stream.readFull_ok {n : ℕ} {s s' : Stream} {bs : Bytes}
    (h : Stream.readFull n s = .ok bs s') : bs = s.rest.take n ∧ s'.rest = s.rest.drop n := by
  induction n using Nat.strongRecOn generalizing s bs with
  | ind n ih =>
    rw [Stream.readFull] at h
    split at h
    · rename_i hn
      cases h
      rw [hn]
      exact ⟨rfl, rfl⟩
    · rename_i hn
      obtain ⟨cs, t, hread, h⟩ := bind_eq_ok h
      obtain ⟨m, hle, hzero, rfl, hrest⟩ := Stream.read_ok hread
      split at h
      · -- nothing is ahead
        rename_i hnil
        cases h
        have hempty : s.rest = [] := (List.take_eq_nil_iff.mp hnil).resolve_left fun hm => hn (hzero hm)
        rw [hrest, hempty]
        simp
      · obtain ⟨ds, u, hmore, h⟩ := bind_eq_ok h
        cases h
        have hpos := List.length_pos_of_ne_nil ‹_›
        obtain ⟨rfl, hrest'⟩ := ih _ (by omega) hmore
        rw [hrest, hrest', hrest, List.drop_drop]
        rcases Nat.le_total m s.rest.length with hm | hm
        · rw [List.length_take, Nat.min_eq_left hm, ← List.take_add, Nat.add_sub_cancel' hle]
          exact ⟨rfl, rfl⟩
        · rw [List.drop_eq_nil_of_le hm, List.take_nil, List.append_nil, List.take_of_length_le hm,
            List.take_of_length_le (hm.trans hle), List.drop_eq_nil_of_le (by omega),
            List.drop_eq_nil_of_le (hm.trans hle)]
          exact ⟨rfl, rfl⟩

/-- Reads of which one fails have taken a first part off the stream. -/
theorem Stream.readFull_error {n : ℕ} {s s' : Stream} {e : IoError}
    (h : Stream.readFull n s = .error e s') : ∃ m, s'.rest = s.rest.drop m := by
  induction n using Nat.strongRecOn generalizing s with
  | ind n ih =>
    rw [Stream.readFull] at h
    split at h
    · cases h
    · rcases bind_eq_error h with hread | ⟨cs, t, hread, h⟩
      · exact ⟨0, Stream.read_error hread⟩
      · obtain ⟨m, hle, hzero, rfl, hrest⟩ := Stream.read_ok hread
        split at h
        · cases h
        · rcases bind_eq_error h with hmore | ⟨ds, u, hmore, h⟩
          · have hpos := List.length_pos_of_ne_nil ‹_›
            obtain ⟨k, hk⟩ := ih _ (by omega) hmore
            exact ⟨m+k, by rw [hk, hrest, List.drop_drop]⟩
          · cases h

theorem onReader_eq_ok {α : Type} {err : IoError → ScanError} {m : EStateM IoError Stream α}
    {s s' : FrameScanner} {a : α} (h : onReader err m s = .ok a s') :
    ∃ r, m s.reader = .ok a r ∧ s' = { s with reader := r } := by
  unfold onReader onPart at h
  split at h
  · rename_i r hm
    cases h
    exact ⟨r, hm, rfl⟩
  · cases h

theorem Stream.readExact_ok {n : ℕ} {s s' : Stream} {bs : Bytes}
    (h : Stream.readExact n s = .ok bs s') :
    bs = s.rest.take n ∧ s'.rest = s.rest.drop n ∧ n ≤ s.rest.length := by
  obtain ⟨cs, t, hr, h⟩ := bind_eq_ok h
  obtain ⟨hcs, ht⟩ := Stream.readFull_ok hr
  by_cases hshort : cs.length < n
  · simp [hshort] at h
  · simp only [hshort, if_false, pure_apply] at h
    cases h
    refine ⟨hcs, ht, ?_⟩
    rw [hcs, List.length_take] at hshort
    omega

theorem Stream.skip_ok {n m : ℕ} {s s' : Stream} (h : Stream.skip n s = .ok m s') :
    s'.rest = s.rest.drop n := by
  obtain ⟨cs, t, hr, h⟩ := bind_eq_ok h
  cases h
  exact (Stream.readFull_ok hr).2

/-- A header that was peeked is counted as unread, one that is read is taken off the stream. -/
theorem FrameScanner.unread_peekHeader {s s' : FrameScanner} {p : Bytes × ℕ}
    (h : FrameScanner.peekHeader s = .ok (some p) s') :
    s'.peeked = some p ∧ s'.unread ≤ s.unread := by
  unfold FrameScanner.peekHeader at h
  rw [get_bind] at h
  cases hp : s.peeked with
  | some q =>
    simp only [hp, pure_apply] at h
    cases h
    exact ⟨hp, le_rfl⟩
  | none =>
    simp only [hp] at h
    obtain ⟨first, t, hfirst, h⟩ := bind_eq_ok h
    obtain ⟨r, hread, rfl⟩ := onReader_eq_ok hfirst
    obtain ⟨hf, hr⟩ := Stream.read_one hread
    split at h
    · cases h
    · rename_i hne
      obtain ⟨more, t', hmore, h⟩ := bind_eq_ok h
      obtain ⟨r', hread', rfl⟩ := onReader_eq_ok hmore
      obtain ⟨hm, hr', hle⟩ := Stream.readExact_ok hread'
      rw [modify_bind, pure_apply] at h
      cases h
      refine ⟨rfl, ?_⟩
      have hpos : 0 < s.reader.rest.length := by
        rcases Nat.eq_zero_or_pos s.reader.rest.length with h0 | h0
        · exact absurd (by rw [hf, List.length_eq_zero_iff.mp h0]; rfl) hne
        · exact h0
      dsimp only at hle hr' ⊢
      rw [hr, List.length_drop] at hle
      simp only [FrameScanner.unread, hr', hr, List.length_drop, hp, headerLen] at hle ⊢
      simp
      omega

theorem FrameScanner.checkLoop_ok {frameStart remaining : ℕ} {hasher hasher' : Xxh64}
    {s s' : FrameScanner}
    (h : FrameScanner.checkLoop frameStart remaining hasher s = .ok hasher' s') :
    s'.peeked = s.peeked ∧ s'.reader.rest.length ≤ s.reader.rest.length := by
  induction remaining using Nat.strongRecOn generalizing hasher s with
  | ind remaining ih =>
    rw [FrameScanner.checkLoop] at h
    split at h
    · cases h
      exact ⟨rfl, le_rfl⟩
    · rename_i hpos
      obtain ⟨tmp, t, hread, h⟩ := bind_eq_ok h
      obtain ⟨r, hr, rfl⟩ := onReader_eq_ok hread
      split at h
      · cases h
      · rename_i hne
        have hlen := List.length_pos_of_ne_nil hne
        obtain ⟨hp, hl⟩ := ih _ (by omega) h
        obtain ⟨m, _, _, _, hrest⟩ := Stream.read_ok hr
        refine ⟨hp, hl.trans ?_⟩
        rw [show ({ s with reader := r } : FrameScanner).reader.rest = r.rest from rfl, hrest,
          List.length_drop]
        omega

theorem FrameScanner.unread_check [Crates] {s s' : FrameScanner} {x : EntryId × ℕ}
    (h : FrameScanner.check s = .ok (some x) s') : s'.unread < s.unread := by
  obtain ⟨p, t, hpeek, h⟩ := bind_eq_ok h
  cases p with
  | none => cases h
  | some p =>
    obtain ⟨hp, hle⟩ := FrameScanner.unread_peekHeader hpeek
    obtain ⟨header, frameStart⟩ := p
    simp only [FrameScanner.clearPeeked, modify_bind] at h
    obtain ⟨hasher, t', hloop, h⟩ := bind_eq_ok h
    obtain ⟨hp', hl⟩ := FrameScanner.checkLoop_ok hloop
    rw [modify_bind] at h
    split at h
    · cases h
    · cases h
      simp only [FrameScanner.unread, hp, hp', Option.isSome, headerLen] at hle hl ⊢
      simp at hle ⊢
      omega

theorem FrameScanner.unread_skip {s s' : FrameScanner} {header : Bytes} {frameStart n m : ℕ}
    {t : FrameScanner} (hpeek : FrameScanner.peekHeader s = .ok (some (header, frameStart)) t)
    (h : FrameScanner.consumePeekedPayload n m { t with peeked := none } = .ok () s') :
    s'.unread < s.unread := by
  obtain ⟨hp, hle⟩ := FrameScanner.unread_peekHeader hpeek
  obtain ⟨k, u, hskip, h⟩ := bind_eq_ok h
  obtain ⟨r, hr, rfl⟩ := onReader_eq_ok hskip
  have hdrop := Stream.skip_ok hr
  split at h
  · cases h
  · cases h
    simp only [FrameScanner.unread, hp, hdrop, List.length_drop, headerLen] at hle ⊢
    simp at hle ⊢
    omega

/-! ### The scanning loops -/

inductive ScanStatus where
  | clean
  | tornTail
  | checksumCorrupt
deriving DecidableEq, Repr

structure ScanSummary where
  count : ℕ
  /-- `(id, start offset)` of every `stride`-th frame. -/
  checkpoints : List (EntryId × ℕ)
  lastId : Option EntryId
  nextOffset : ℕ
  status : ScanStatus
deriving DecidableEq, Repr

def FrameScanner.scanAllLoop [Crates] (stride : ℕ) (s : FrameScanner) (count : ℕ)
    (checkpoints : List (EntryId × ℕ)) (lastId : Option EntryId) (lastGood : ℕ) :
    EStateM.Result IoError FrameScanner ScanSummary :=
  match _h : FrameScanner.check s with
  | .ok none s' => .ok ⟨count, checkpoints, lastId, s'.position, .clean⟩ s'
  | .ok (some (id, frameOffset)) s' =>
    FrameScanner.scanAllLoop stride s' (count+1)
      (if count % stride = 0 then checkpoints ++ [(id, frameOffset)] else checkpoints)
      (some id) s'.position
  | .error (.truncated _) s' => .ok ⟨count, checkpoints, lastId, lastGood, .tornTail⟩ s'
  | .error (.checksumMismatch _) s' =>
    .ok ⟨count, checkpoints, lastId, lastGood, .checksumCorrupt⟩ s'
  | .error (.io e) s' => .error e s'
termination_by s.unread
decreasing_by exact FrameScanner.unread_check _h

def FrameScanner.scanAll [Crates] (stride : ℕ) : EStateM IoError FrameScanner ScanSummary := fun s =>
  FrameScanner.scanAllLoop stride s 0 [] none s.position

/-- Advance to the first frame with an id of `target` or more; its header stays peeked. -/
def FrameScanner.seekToId (target : EntryId) (s : FrameScanner) :
    EStateM.Result ScanError FrameScanner Unit :=
  match _hp : FrameScanner.peekHeader s with
  | .error e t => .error e t
  | .ok none t => .ok () t
  | .ok (some (header, frameStart)) t =>
    if headerId header ≥ target then .ok () t
    else
      match _hc : FrameScanner.consumePeekedPayload (headerPayloadLen header) frameStart
          { t with peeked := none } with
      | .error e t' => .error e t'
      | .ok () t' => FrameScanner.seekToId target t'
termination_by s.unread
decreasing_by exact FrameScanner.unread_skip _hp _hc

/-- Advance past the frame with id `target` and return the offset behind it. -/
def FrameScanner.scanToAfter (target : EntryId) (s : FrameScanner) :
    EStateM.Result ScanError FrameScanner ℕ :=
  match _hp : FrameScanner.peekHeader s with
  | .error e t => .error e t
  | .ok none t => .error (.truncated t.position) t
  | .ok (some (header, frameStart)) t =>
    match _hc : FrameScanner.consumePeekedPayload (headerPayloadLen header) frameStart
        { t with peeked := none } with
    | .error e t' => .error e t'
    | .ok () t' =>
      if headerId header = target then .ok t'.position t'
      else FrameScanner.scanToAfter target t'
termination_by s.unread
decreasing_by exact FrameScanner.unread_skip _hp _hc

/-! ### Reading a payload -/

abbrev ReadM := EStateM IoError FrameScanner

/-- Run a read on the stream of the scanner that a reader borrows. -/
def onStream {α : Type} (m : EStateM IoError Stream α) : ReadM α :=
  onPart FrameScanner.reader (fun r s => { s with reader := r }) (fun e => e) m

/-- `Read::read` of a frame's payload into a buffer of `n` bytes. -/
def FrameReader.read (r : FrameReader) (n : ℕ) : ReadM (Bytes × FrameReader) :=
  if r.remaining = 0 then return ([], r)
  else do
    let bs ← onStream (Stream.read (min r.remaining n))
    if bs = [] then throw ⟨.unexpectedEof, "unexpected end of file"⟩
    else
      let r' := { r with remaining := r.remaining-bs.length }
      if r'.remaining = 0 then
        modify fun s => { s with position := r.frameStart+headerLen+r.payloadLen }
        return (bs, r')
      else return (bs, r')

/-- The stream behind a skip whose result is ignored. -/
def Stream.behindSkip (n : ℕ) (s : Stream) : Stream :=
  match Stream.skip n s with
  | .ok _ s' => s'
  | .error _ s' => s'

/-- Dropping a reader skips what is left of the payload; an error of the skip is ignored. -/
def FrameReader.drop (r : FrameReader) (s : FrameScanner) : FrameScanner :=
  if r.remaining > 0 then
    { s with
      reader := s.reader.behindSkip r.remaining
      position := r.frameStart+headerLen+r.payloadLen }
  else s

theorem FrameReader.remaining_read {r r' : FrameReader} {n : ℕ} {s s' : FrameScanner} {bs : Bytes}
    (h : r.read n s = .ok (bs, r') s') (hne : bs ≠ []) : r'.remaining < r.remaining := by
  unfold FrameReader.read at h
  split at h
  · cases h
    exact absurd rfl hne
  · rename_i hpos
    obtain ⟨cs, t, _, h⟩ := bind_eq_ok h
    split at h
    · cases h
    · rename_i hcs
      have hlen := List.length_pos_of_ne_nil hcs
      dsimp only at h
      split at h <;> cases h <;> dsimp only <;> omega

/-- `Read::read_to_end`: read chunk by chunk until a read returns nothing. -/
def FrameReader.readToEnd (r : FrameReader) (s : FrameScanner) (acc : Bytes) :
    EStateM.Result IoError FrameScanner (Bytes × FrameReader) :=
  match _h : r.read (8*1024) s with
  | .error e s' => .error e s'
  | .ok (bs, r') s' =>
    if _hne : bs = [] then .ok (acc, r') s'
    else r'.readToEnd s' (acc ++ bs)
termination_by r.remaining
decreasing_by exact FrameReader.remaining_read _h _hne

end Woodshed
