import Woodshed.Calming
import Woodshed.Failing

/-! Scans under failing calls: what is handed out is what would have been handed out without them. -/
namespace Woodshed
open Sequencing

/-! ### Payloads -/

namespace FrameReader

/-- A read gives nothing only where there is nothing left. -/
theorem remaining_of_read_nil {r r' : FrameReader} {n : ℕ} {s s' : FrameScanner}
    (h : r.read n s = .ok ([], r') s') : r'.remaining = 0 := by
  unfold FrameReader.read at h
  split at h
  · rename_i hzero
    cases h
    exact hzero
  · obtain ⟨bs, t, _, h⟩ := bind_eq_ok h
    split at h
    · cases h
    · rename_i hne
      dsimp only at h
      split at h <;> cases h <;> exact absurd rfl hne

/-- Reading to the end takes all that is left of the payload. -/
theorem readToEnd_took {r r' : FrameReader} {s s' : FrameScanner} {acc payload : Bytes}
    (h : r.readToEnd s acc = .ok (payload, r') s') :
    ∃ bs, payload = acc ++ bs ∧ r.Took s bs r' s' ∧ r'.remaining = 0 := by
  induction hn : r.remaining using Nat.strongRecOn generalizing r s acc with
  | ind n ih =>
    rw [FrameReader.readToEnd] at h
    split at h
    · cases h
    · rename_i bs r₁ s₁ hread
      have htook : r.Took s bs r₁ s₁ := by
        rcases r.read_took (8*1024) s with ⟨bs', r₂, s₂, hread', htook⟩ | ⟨e, s₂, hread', _⟩
        · obtain ⟨⟨⟩, rfl⟩ := EStateM.Result.ok.inj (hread'.symm.trans hread)
          exact htook
        · exact absurd (hread'.symm.trans hread) (by simp)
      split at h
      · rename_i hnil
        cases h
        subst hnil
        exact ⟨[], (List.append_nil _).symm, htook, remaining_of_read_nil hread⟩
      · rename_i hne
        obtain ⟨cs, hpayload, htook', hzero⟩ :=
          ih r₁.remaining (hn ▸ FrameReader.remaining_read hread hne) h rfl
        exact ⟨bs ++ cs, by rw [hpayload, List.append_assoc], htook.trans htook', hzero⟩

/-- A payload that is read to its end is that of the file, and nothing of it is left to be skipped. -/
theorem readToEnd_calmed {r r' : FrameReader} {s s' : FrameScanner} {acc payload : Bytes}
    (h : r.readToEnd s acc = .ok (payload, r') s') :
    r.readToEnd s.calmed acc = .ok (payload, r') s'.calmed ∧ r'.remaining = 0 := by
  obtain ⟨bs, rfl, htook, hzero⟩ := readToEnd_took h
  have hbytes := htook.bytes
  have hleft := htook.left
  have hlen : bs.length = r.remaining := by
    have := htook.within
    rw [hleft] at hzero
    dsimp only at hzero
    omega
  have hquiet := r.readToEnd_quiet s.reader.rest acc s.position s.peeked
    (by rw [hbytes, List.length_append]; omega)
  refine ⟨?_, hzero⟩
  have htake : s.reader.rest.take r.remaining = bs := by rw [hbytes, ← hlen, List.take_left]
  have hdrop : s.reader.rest.drop r.remaining = s'.reader.rest := by
    rw [hbytes, ← hlen, List.drop_left]
  have hpos : s'.position =
      if r.remaining = 0 then s.position else r.frameStart+headerLen+r.payloadLen := by
    rw [htook.position]
    by_cases h0 : r.remaining = 0
    · rw [if_pos h0, if_neg fun hne => hne.1 (List.length_eq_zero_iff.mp (hlen.trans h0))]
    · rw [if_neg h0, if_pos ⟨fun hnil => h0 (by rw [← hlen, hnil]; rfl), hzero⟩]
  have hr : r' = { r with remaining := 0 } := by rw [hleft, hlen, Nat.sub_self]
  have hcalmed : s'.calmed = ⟨⟨s'.reader.rest, []⟩, s'.position, s.peeked⟩ := by
    rw [← htook.peeked]
    rfl
  rw [htake, hdrop, ← hpos, ← hr] at hquiet
  rw [hcalmed]
  exact hquiet

end FrameReader

/-! ### Segments -/

theorem File.open_calmed {name : FileName} {w w' : World} {file : File}
    (h : File.open name w = .ok file w') :
    File.open name (calm w.dir) = .ok file.calmed (calm w'.dir) := by
  obtain ⟨d, calls, opens⟩ := w
  unfold File.open at h
  rw [get_bind] at h
  rw [File.open_legible (legible_calm d), show (calm d).dir = d from rfl]
  cases hbytes : d.bytes name with
  | none =>
    rcases opens with _ | ⟨_ | reads, rest⟩ <;> simp only [hbytes] at h <;> cases h
  | some bytes =>
    rcases opens with _ | ⟨_ | reads, rest⟩
    · simp only [hbytes] at h
      cases h
      rfl
    · -- the open itself fails
      simp only at h
      cases h
    · simp only [hbytes] at h
      cases h
      rfl

theorem checkMagic_calmed {file file' : File} {expected : Bytes} {w w' : World}
    (h : checkMagic file expected w = .ok file' w') :
    w' = w ∧ ∀ v, checkMagic file.calmed expected v = .ok file'.calmed v := by
  unfold checkMagic at h
  cases hread : Stream.readExact magicLen file.stream with
  | error e rest =>
    rw [hread] at h
    cases h
  | ok magic rest =>
    have hcalm : Stream.readExact magicLen file.calmed.stream = .ok magic rest.calmed :=
      Stream.withstands_readExact magicLen _ _ _ hread
    rw [hread] at h
    dsimp only at h
    by_cases hmagic : magic ≠ expected
    · rw [if_pos hmagic] at h
      cases h
    · rw [if_neg hmagic] at h
      cases h
      refine ⟨rfl, fun v => ?_⟩
      rw [checkMagic, hcalm]
      dsimp only
      rw [if_neg hmagic]
      rfl

theorem openSegment_calmed {id : SegmentId} {w w' : World} {file : File} {n : ℕ}
    (h : openSegment id w = .ok (file, n) w') :
    openSegment id (calm w.dir) = .ok (file.calmed, n) (calm w'.dir) := by
  unfold openSegment at h
  obtain ⟨opened, w₁, hopen, h⟩ := bind_eq_ok h
  cases hcheck : checkMagic opened segmentMagic w₁ with
  | error e w₂ =>
    rw [bind_error hcheck] at h
    cases h
  | ok checked w₂ =>
    rw [bind_ok hcheck] at h
    obtain ⟨rfl, hcalm⟩ := checkMagic_calmed hcheck
    cases h
    unfold openSegment
    rw [bind_ok (File.open_calmed hopen), bind_ok (hcalm _)]
    rfl

/-! ### Readers -/

/-- The world of a call on the files does not matter to what is done with its result. -/
theorem fs_attempt {α : Type} {x : Fs α} (m : Machine) :
    (∃ a w, x m.world = .ok a w ∧ (fs (attempt x) : StoreM _) m = .ok (.ok a) ⟨m.store, w⟩) ∨
      ∃ e w, x m.world = .error e w ∧
        (fs (attempt x) : StoreM (Except IoError α)) m = .ok (.error e) ⟨m.store, w⟩ := by
  cases hx : x m.world with
  | ok a w => exact Or.inl ⟨a, w, rfl, onPart_ok (attempt_ok hx)⟩
  | error e w => exact Or.inr ⟨e, w, rfl, onPart_ok (attempt_error hx)⟩

/-- A round of `next` hands out an error, or what it hands out where nothing fails. -/
theorem nextLoop_calmed (rounds : ℕ) : ∀ {r r' : StoreReader} {m m' : Machine}
    {result : Option (Except IoError FrameReader)}, r.nextLoop rounds m = .ok (result, r') m' →
    (∃ e, result = some (.error e)) ∨
      r.calmed.nextLoop rounds (m.facing .none) = .ok (result, r'.calmed) (m'.facing .none) := by
  induction rounds with
  | zero =>
    intro r r' m m' result h
    cases h
  | succ rounds ih =>
    rintro ⟨_ | ⟨current, s⟩⟩ r' m m' result h
    · cases h
      exact Or.inr rfl
    · rw [StoreReader.nextLoop] at h
      dsimp only at h
      cases hread : FrameScanner.read s with
      | error e s' =>
        rw [hread] at h
        cases h
        exact Or.inl ⟨_, rfl⟩
      | ok found s₁ =>
        have hcalm := FrameScanner.withstands_read s found s₁ hread
        rw [hread] at h
        change _ ∨ StoreReader.nextLoop (rounds+1) ⟨some (current, s.calmed)⟩ _ = _
        rw [StoreReader.nextLoop]
        dsimp only
        rw [hcalm]
        cases found with
        | some reader =>
          cases h
          exact Or.inr rfl
        | none =>
          -- the segment is used up
          dsimp only at h ⊢
          rw [get_bind] at h ⊢
          rw [show (m.facing .none).store = m.store from rfl]
          cases hnext : nextSegment m.store.state.segments current with
          | none =>
            rw [hnext] at h
            cases h
            exact Or.inr rfl
          | some nextId =>
            rw [hnext] at h
            dsimp only at h ⊢
            rcases fs_attempt (x := openSegment nextId) m with ⟨⟨file, n⟩, w, hopen, hrun⟩ |
              ⟨e, w, -, hrun⟩
            · rw [bind_ok hrun] at h
              have hquiet : (fs (attempt (openSegment nextId)) : StoreM _) (m.facing .none) =
                  .ok (.ok (file.calmed, n)) ⟨m.store, calm w.dir⟩ :=
                onPart_ok (attempt_ok (openSegment_calmed hopen))
              rw [bind_ok hquiet]
              exact ih h
            · rw [bind_ok hrun] at h
              cases h
              exact Or.inl ⟨e, rfl⟩

theorem next_calmed {r r' : StoreReader} {m m' : Machine}
    {result : Option (Except IoError FrameReader)} (h : r.next m = .ok (result, r') m') :
    (∃ e, result = some (.error e)) ∨
      r.calmed.next (m.facing .none) = .ok (result, r'.calmed) (m'.facing .none) := by
  unfold StoreReader.next at h ⊢
  rw [get_bind] at h ⊢
  exact nextLoop_calmed _ h

theorem openAt_calmed {segId : SegmentId} {byteOffset : ℕ} {fromId : EntryId} {r : StoreReader}
    {w w' : World} (h : openAt segId byteOffset fromId w = .ok r w') :
    r = ⟨none⟩ ∨ openAt segId byteOffset fromId (calm w.dir) = .ok r.calmed (calm w'.dir) := by
  unfold openAt at h ⊢
  cases hopen : openSegment segId w with
  | error e w₁ =>
    rw [bind_ok (attempt_error hopen)] at h
    cases h
    exact Or.inl rfl
  | ok opened w₁ =>
    obtain ⟨file, n⟩ := opened
    rw [bind_ok (attempt_ok hopen)] at h
    rw [bind_ok (attempt_ok (openSegment_calmed hopen))]
    dsimp only at h ⊢
    cases hseek : FrameScanner.seekToId fromId (FrameScanner.new file byteOffset) with
    | error e s =>
      rw [hseek] at h
      cases h
      exact Or.inl rfl
    | ok u s =>
      rw [hseek] at h
      cases h
      have hcalm := FrameScanner.seekToId_calmed hseek
      rw [show FrameScanner.new file.calmed byteOffset = (FrameScanner.new file byteOffset).calmed
        from rfl, hcalm]
      exact Or.inr rfl

/-- A scan starts without a reader, or where it starts if nothing fails. -/
theorem scan_calmed {fromId : EntryId} {r : StoreReader} {m m' : Machine}
    (h : Store.scan fromId m = .ok r m') :
    r = ⟨none⟩ ∨ Store.scan fromId (m.facing .none) = .ok r.calmed (m'.facing .none) := by
  unfold Store.scan at h ⊢
  rw [get_bind] at h ⊢
  rw [show (m.facing .none).store = m.store from rfl]
  by_cases hlast : (m.store.lastEntry.all fun last =>
      decide (last < max fromId m.store.state.firstEntry)) = true
  · rw [if_pos hlast] at h
    cases h
    exact Or.inl rfl
  · rw [if_neg hlast] at h ⊢
    cases hstart : m.store.scanStart (max fromId m.store.state.firstEntry) with
    | none =>
      rw [hstart] at h
      cases h
    | some start =>
      obtain ⟨segId, byteOffset⟩ := start
      rw [hstart] at h
      dsimp only at h ⊢
      cases hopen : openAt segId byteOffset (max fromId m.store.state.firstEntry) m.world with
      | error e w =>
        have hrun : fs _ m = _ := onPart_error hopen
        rw [hrun] at h
        cases h
      | ok opened w =>
        have hrun : fs _ m = _ := onPart_ok hopen
        rw [hrun] at h
        cases h
        rcases openAt_calmed hopen with hnone | hcalm
        · exact Or.inl hnone
        · exact Or.inr (onPart_ok hcalm)

/-! ### What is handed out -/

/-- The entries that a reader hands out one after the other, each read to its end, until the reader
ends or something fails. -/
def StoreReader.handed : ℕ → StoreReader → Machine → List Entry
  | 0, _, _ => []
  | steps+1, r, m =>
    match r.next m with
    | .ok (some (.ok reader), ⟨some (seg, s)⟩) m' =>
      match reader.readToEnd s [] with
      | .ok (payload, reader') s' =>
        (reader.id, payload) :: StoreReader.handed steps ⟨some (seg, reader'.drop s')⟩ m'
      | .error _ _ => []
    | _ => []

/-- The entries that `scan(from)` hands out. -/
def Store.handed (steps : ℕ) (fromId : EntryId) (m : Machine) : List Entry :=
  match Store.scan fromId m with
  | .ok r m' => r.handed steps m'
  | .error _ _ => []

theorem drop_done {r : FrameReader} (h : r.remaining = 0) (s : FrameScanner) : r.drop s = s := by
  rw [FrameReader.drop, if_neg (by omega)]

theorem handed_prefix (steps : ℕ) (r : StoreReader) (m : Machine) :
    r.handed steps m <+: r.calmed.handed steps (m.facing .none) := by
  induction steps generalizing r m with
  | zero => exact List.prefix_rfl
  | succ steps ih =>
    cases hnext : r.next m with
    | error e m' =>
      rw [StoreReader.handed, hnext]
      exact List.nil_prefix
    | ok out m' =>
      obtain ⟨result, ⟨scanner⟩⟩ := out
      rcases next_calmed hnext with ⟨e, rfl⟩ | hcalm
      · rw [StoreReader.handed, hnext]
        exact List.nil_prefix
      · rw [StoreReader.handed, StoreReader.handed, hnext, hcalm]
        rcases result with _ | ⟨e | reader⟩
        · exact List.nil_prefix
        · exact List.nil_prefix
        · cases scanner with
          | none => exact List.nil_prefix
          | some p =>
            obtain ⟨seg, s⟩ := p
            cases hread : reader.readToEnd s [] with
            | error e s' =>
              simp only [hread]
              exact List.nil_prefix
            | ok out s' =>
              obtain ⟨payload, reader'⟩ := out
              obtain ⟨hquiet, hzero⟩ := FrameReader.readToEnd_calmed hread
              have hrest := ih ⟨some (seg, s')⟩ m'
              simp only [hread, StoreReader.calmed, Option.map_some, hquiet, drop_done hzero]
              exact (List.prefix_cons_inj _).mpr hrest

theorem collect_calmed (steps : ℕ) {r : StoreReader} {m m' : Machine} {es : List Entry}
    (h : r.collect steps m = .ok es m') :
    r.calmed.collect steps (m.facing .none) = .ok es (m'.facing .none) := by
  induction steps generalizing r m es with
  | zero => cases h
  | succ steps ih =>
    rw [StoreReader.collect] at h ⊢
    obtain ⟨⟨result, ⟨scanner⟩⟩, m₁, hnext, h⟩ := bind_eq_ok h
    rcases next_calmed hnext with ⟨e, rfl⟩ | hcalm
    · cases h
    · rw [bind_ok hcalm]
      rcases result with _ | ⟨e | reader⟩
      · cases h
        rfl
      · cases h
      · cases scanner with
        | none =>
          cases h
          rfl
        | some p =>
          obtain ⟨seg, s⟩ := p
          cases hread : reader.readToEnd s [] with
          | error e s' =>
            simp only [hread] at h
            cases h
          | ok out s' =>
            obtain ⟨payload, reader'⟩ := out
            obtain ⟨hquiet, hzero⟩ := FrameReader.readToEnd_calmed hread
            simp only [hread, drop_done hzero] at h
            obtain ⟨rest, m₂, hrest, h⟩ := bind_eq_ok h
            cases h
            have hcollect := ih hrest
            change StoreReader.collect steps ⟨some (seg, s'.calmed)⟩ (m₁.facing .none) = _ at hcollect
            simp only [StoreReader.calmed, Option.map_some, hquiet, drop_done hzero]
            rw [bind_ok hcollect]
            rfl

/-- Failing calls make no scan lie. Whatever a store and its directory are, and whichever calls fail:
the entries that are handed out before an error are the first of those that are handed out where
nothing fails, and a scan that is drained without an error has these, or had no reader to begin with. -/
theorem scan_truthful (m : Machine) (fromId : EntryId) (steps : ℕ) :
    Store.handed steps fromId m <+: Store.handed steps fromId (m.facing .none) ∧
      ∀ es m', Store.scanAll steps fromId m = .ok es m' →
        es = [] ∨ Store.scanAll steps fromId (m.facing .none) = .ok es (m'.facing .none) := by
  constructor
  · cases hscan : Store.scan fromId m with
    | error e m' =>
      rw [Store.handed, hscan]
      exact List.nil_prefix
    | ok r m' =>
      rcases scan_calmed hscan with rfl | hcalm
      · have hnone : Store.handed steps fromId m = [] := by
          rw [Store.handed, hscan]
          cases steps <;> rfl
        rw [hnone]
        exact List.nil_prefix
      · rw [Store.handed, Store.handed, hscan, hcalm]
        exact handed_prefix steps r m'
  · intro es m' h
    unfold Store.scanAll at h ⊢
    obtain ⟨r, m₁, hscan, h⟩ := bind_eq_ok h
    rcases scan_calmed hscan with rfl | hcalm
    · -- the reader is empty from the start
      cases steps with
      | zero => cases h
      | succ steps =>
        cases h
        exact Or.inl rfl
    · rw [bind_ok hcalm]
      exact Or.inr (collect_calmed steps h)

section
attribute [local instance] sample

/-- The second segment cannot be opened. -/
example : (openedBlank ⟨0⟩).map (fun m => (Store.handed 5 ⟨0⟩ ((commandAll m
    [.request (.batch [(⟨1⟩, [])]), .request (.batch [(⟨2⟩, [])])]).facing
      ⟨fun _ => [], [some [], none]⟩)).map (·.1)) = some [⟨1⟩] := by
  decide +kernel

end
end Woodshed
