import Woodshed.Files
import Woodshed.Frame
import Woodshed.State

/-! Writing an op to the manifest, and replaying the manifest into a state. -/
namespace Woodshed
open Sequencing

variable [Crates]

def writeOp (cursor : FrameCursor) (op : ManifestOp) : Fs FrameCursor := do
  let cursor ← (cursor.write ⟨0⟩ op.encode).flush manifestFileName .manifest
  File.syncAll manifestFileName .manifest
  return cursor

structure ReplayResult where
  state : StoreState
  nextOffset : ℕ

inductive ReplayError where
  | invalidOp (offset : ℕ) (source : DecodeError)
  | applyFailed (offset : ℕ) (source : ApplyError)
  | io (e : IoError)
deriving DecidableEq, Repr

omit [Crates] in
theorem FrameReader.unread_read {r : FrameReader} {n : ℕ} {s s' : FrameScanner}
    {x : Bytes × FrameReader} (h : r.read n s = .ok x s') :
    s'.peeked = s.peeked ∧ s'.reader.rest.length ≤ s.reader.rest.length := by
  unfold FrameReader.read at h
  split at h
  · cases h
    exact ⟨rfl, le_rfl⟩
  · obtain ⟨cs, t, hread, h⟩ := bind_eq_ok h
    unfold onStream onPart at hread
    split at hread
    · rename_i u hr
      cases hread
      have hlen : u.rest.length ≤ s.reader.rest.length := by
        obtain ⟨m, _, _, _, hrest⟩ := Stream.read_ok hr
        rw [hrest, List.length_drop]
        omega
      split at h
      · cases h
      · dsimp only at h
        split at h <;> cases h <;> exact ⟨rfl, hlen⟩
    · cases hread

omit [Crates] in
theorem FrameReader.unread_readToEnd {r : FrameReader} {s s' : FrameScanner} {acc : Bytes}
    {x : Bytes × FrameReader} (h : r.readToEnd s acc = .ok x s') :
    s'.peeked = s.peeked ∧ s'.reader.rest.length ≤ s.reader.rest.length := by
  induction hn : r.remaining using Nat.strongRecOn generalizing r s acc with
  | ind n ih =>
    rw [FrameReader.readToEnd] at h
    split at h
    · cases h
    · rename_i bs r' t hread
      obtain ⟨hp, hl⟩ := FrameReader.unread_read hread
      split at h
      · cases h
        exact ⟨hp, hl⟩
      · rename_i hne
        obtain ⟨hp', hl'⟩ := ih r'.remaining (hn ▸ FrameReader.remaining_read hread hne) h rfl
        exact ⟨hp'.trans hp, hl'.trans hl⟩

omit [Crates] in
theorem Stream.behindSkip_le (n : ℕ) (s : Stream) :
    (s.behindSkip n).rest.length ≤ s.rest.length := by
  unfold Stream.behindSkip
  cases hr : Stream.readFull n s with
  | ok bs t =>
    have hskip : Stream.skip n s = .ok bs.length t := bind_ok hr
    rw [hskip, (Stream.readFull_ok hr).2, List.length_drop]
    omega
  | error e t =>
    have hskip : Stream.skip n s = .error e t := bind_error hr
    obtain ⟨m, hm⟩ := Stream.readFull_error hr
    rw [hskip, hm, List.length_drop]
    omega

omit [Crates] in
theorem FrameReader.unread_drop (r : FrameReader) (s : FrameScanner) :
    (r.drop s).peeked = s.peeked ∧ (r.drop s).reader.rest.length ≤ s.reader.rest.length := by
  unfold FrameReader.drop
  split
  · exact ⟨rfl, Stream.behindSkip_le _ _⟩
  · exact ⟨rfl, le_rfl⟩

omit [Crates] in
theorem FrameScanner.unread_read {s s' : FrameScanner} {r : FrameReader}
    (h : FrameScanner.read s = .ok (some r) s') :
    s'.peeked = none ∧ s'.reader.rest.length < s.unread := by
  obtain ⟨p, t, hpeek, h⟩ := bind_eq_ok h
  cases p with
  | none => cases h
  | some p =>
    obtain ⟨hp, hle⟩ := FrameScanner.unread_peekHeader hpeek
    cases h
    refine ⟨rfl, lt_of_lt_of_le ?_ hle⟩
    simp only [FrameScanner.unread, hp, headerLen]
    simp

/-- The replay loop: read a frame without verifying its checksum, decode its payload, apply the op. -/
def replayLoop (scanner : FrameScanner) (state : StoreState) (nextOffset : ℕ) :
    Except ReplayError ReplayResult :=
  match _h : FrameScanner.read scanner with
  | .ok none _ => .ok ⟨state, nextOffset⟩
  | .ok (some reader) s =>
    match _hr : reader.readToEnd s [] with
    | .error e _ => .error (.io e)
    | .ok (payload, reader') s' =>
      match ManifestOp.decode payload with
      | .error source => .error (.invalidOp reader.frameStart source)
      | .ok entry =>
        match StoreState.apply entry state with
        | .error source _ => .error (.applyFailed reader.frameStart source)
        | .ok _ state' => replayLoop (reader'.drop s') state' (reader'.drop s').position
  -- the scan should have caught a truncated header
  | .error (.truncated _) _ => .ok ⟨state, nextOffset⟩
  | .error (.io e) _ => .error (.io e)
  | .error (.checksumMismatch _) _ => .ok ⟨state, nextOffset⟩
termination_by scanner.unread
decreasing_by
  obtain ⟨hp, hl⟩ := FrameScanner.unread_read _h
  obtain ⟨hp', hl'⟩ := FrameReader.unread_readToEnd _hr
  obtain ⟨hp'', hl''⟩ := reader'.unread_drop s'
  have hpeeked : (reader'.drop s').peeked = none := hp''.trans (hp'.trans hp)
  rw [FrameScanner.unread, hpeeked]
  simp only [Option.isSome, Bool.false_eq_true, if_false]
  omega

def replay (file : File) (offset : ℕ) : Except ReplayError ReplayResult :=
  replayLoop (FrameScanner.new file offset) StoreState.empty offset

end Woodshed
