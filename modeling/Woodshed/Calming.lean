import Woodshed.Consuming

/-! Streams of which some reads come back short and some fail. What the scanner's calls return on them
without a failure is what they return where every read gives all it has room for. -/
namespace Woodshed
open Sequencing

/-! ### Streams -/

def Stream.calmed (s : Stream) : Stream := ⟨s.rest, []⟩

theorem Stream.withstands_read_one : Withstands Stream.calmed (Stream.read 1) := by
  rintro s bs ⟨rest, reads⟩ h
  obtain ⟨rfl, hrest⟩ := Stream.read_one h
  change rest = _ at hrest
  subst hrest
  rfl

theorem Stream.withstands_readFull (n : ℕ) : Withstands Stream.calmed (Stream.readFull n) := by
  rintro s bs ⟨rest, reads⟩ h
  obtain ⟨rfl, hrest⟩ := Stream.readFull_ok h
  change rest = _ at hrest
  subst hrest
  exact Stream.readFull_quiet n s.rest

theorem Stream.withstands_readExact (n : ℕ) : Withstands Stream.calmed (Stream.readExact n) := by
  refine (Stream.withstands_readFull n).bind fun bs => ?_
  split
  · exact Withstands.throw _
  · exact Withstands.ret _

theorem Stream.withstands_skip (n : ℕ) : Withstands Stream.calmed (Stream.skip n) :=
  (Stream.withstands_readFull n).bind fun _ => Withstands.ret _

theorem Stream.mirrors_read_one : Mirrors Stream.Quiet Stream.calmed (Stream.read 1) := by
  intro s hs
  obtain ⟨bs, s', hread, hs'⟩ := hs.read 1
  rw [hread]
  exact ⟨hs', Stream.withstands_read_one s bs s' hread⟩

theorem Stream.mirrors_readFull (n : ℕ) : Mirrors Stream.Quiet Stream.calmed (Stream.readFull n) := by
  intro s hs
  obtain ⟨s', hread, _, hs'⟩ := hs.readFull n
  rw [hread]
  exact ⟨hs', Stream.withstands_readFull n s _ s' hread⟩

theorem Stream.mirrors_readExact (n : ℕ) :
    Mirrors Stream.Quiet Stream.calmed (Stream.readExact n) := by
  refine (Stream.mirrors_readFull n).bind fun bs => ?_
  split
  · exact Mirrors.throw _
  · exact Mirrors.ret _

theorem Stream.mirrors_skip (n : ℕ) : Mirrors Stream.Quiet Stream.calmed (Stream.skip n) :=
  (Stream.mirrors_readFull n).bind fun _ => Mirrors.ret _

/-! ### Scanners -/

def File.calmed (f : File) : File := { f with stream := f.stream.calmed }

def FrameScanner.calmed (s : FrameScanner) : FrameScanner := { s with reader := s.reader.calmed }

/-- No read of the scanner's stream fails. -/
def FrameScanner.Quiet (s : FrameScanner) : Prop := s.reader.Quiet

theorem withstands_onReader {α : Type} {err : IoError → ScanError} {x : EStateM IoError Stream α}
    (h : Withstands Stream.calmed x) : Withstands FrameScanner.calmed (onReader err x) :=
  h.onPart (fun _ => rfl) fun _ _ => rfl

theorem mirrors_onReader {α : Type} {err : IoError → ScanError} {x : EStateM IoError Stream α}
    (h : Mirrors Stream.Quiet Stream.calmed x) :
    Mirrors FrameScanner.Quiet FrameScanner.calmed (onReader err x) :=
  h.onPart (fun _ ht => ht) (fun _ _ hs _ => hs) (fun _ => rfl) fun _ _ => rfl

namespace FrameScanner

theorem withstands_peekHeader : Withstands FrameScanner.calmed peekHeader := by
  unfold peekHeader
  refine Withstands.get (fun _ => rfl) fun s => ?_
  split
  · exact Withstands.ret _
  · refine (withstands_onReader Stream.withstands_read_one).bind fun first => ?_
    split
    · exact Withstands.ret _
    · refine (withstands_onReader (Stream.withstands_readExact _)).bind fun more => ?_
      exact Withstands.bind (Withstands.modify fun _ => rfl) fun _ => Withstands.ret _

theorem mirrors_peekHeader : Mirrors FrameScanner.Quiet FrameScanner.calmed peekHeader := by
  unfold peekHeader
  refine Mirrors.get (fun _ => rfl) fun s => ?_
  split
  · exact Mirrors.ret _
  · refine (mirrors_onReader Stream.mirrors_read_one).bind fun first => ?_
    split
    · exact Mirrors.ret _
    · refine (mirrors_onReader (Stream.mirrors_readExact _)).bind fun more => ?_
      exact Mirrors.bind (Mirrors.modify (fun _ hs => hs) fun _ => rfl) fun _ => Mirrors.ret _

theorem withstands_consumePeekedPayload (n start : ℕ) :
    Withstands FrameScanner.calmed (consumePeekedPayload n start) := by
  unfold consumePeekedPayload
  refine (withstands_onReader (Stream.withstands_skip n)).bind fun skipped => ?_
  split
  · exact Withstands.throw _
  · exact Withstands.modify fun _ => rfl

theorem mirrors_consumePeekedPayload (n start : ℕ) :
    Mirrors FrameScanner.Quiet FrameScanner.calmed (consumePeekedPayload n start) := by
  unfold consumePeekedPayload
  refine (mirrors_onReader (Stream.mirrors_skip n)).bind fun skipped => ?_
  split
  · exact Mirrors.throw _
  · exact Mirrors.modify (fun _ hs => hs) fun _ => rfl

theorem withstands_read : Withstands FrameScanner.calmed FrameScanner.read := by
  unfold FrameScanner.read
  refine withstands_peekHeader.bind fun p => ?_
  split
  · exact Withstands.ret _
  · exact Withstands.bind (Withstands.modify fun _ => rfl) fun _ => Withstands.ret _

theorem mirrors_read : Mirrors FrameScanner.Quiet FrameScanner.calmed FrameScanner.read := by
  unfold FrameScanner.read
  refine mirrors_peekHeader.bind fun p => ?_
  split
  · exact Mirrors.ret _
  · exact Mirrors.bind (Mirrors.modify (fun _ hs => hs) fun _ => rfl) fun _ => Mirrors.ret _

/-! ### Seeks -/

theorem seekToId_eq (target : EntryId) (s : FrameScanner) :
    seekToId target s = match s.peekHeader with
      | .error e t => .error e t
      | .ok none t => .ok () t
      | .ok (some (header, start)) t =>
        if headerId header ≥ target then .ok () t
        else
          match consumePeekedPayload (headerPayloadLen header) start { t with peeked := none } with
          | .error e t' => .error e t'
          | .ok () t' => seekToId target t' := by
  rw [seekToId]
  split <;> rename_i hp <;> simp only [hp]
  split
  · rfl
  · split <;> rename_i hc <;> simp only [hc]

theorem scanToAfter_eq (target : EntryId) (s : FrameScanner) :
    scanToAfter target s = match s.peekHeader with
      | .error e t => .error e t
      | .ok none t => .error (.truncated t.position) t
      | .ok (some (header, start)) t =>
        match consumePeekedPayload (headerPayloadLen header) start { t with peeked := none } with
        | .error e t' => .error e t'
        | .ok () t' =>
          if headerId header = target then .ok t'.position t' else scanToAfter target t' := by
  rw [scanToAfter]
  split <;> rename_i hp <;> simp only [hp]
  split <;> rename_i hc <;> simp only [hc]

theorem seekToId_calmed {target : EntryId} {s s' : FrameScanner}
    (hrun : FrameScanner.seekToId target s = .ok () s') :
    FrameScanner.seekToId target s.calmed = .ok () s'.calmed := by
  induction s using FrameScanner.seekToId.induct target with
  | case1 s e u hp =>
    rw [seekToId_eq, hp] at hrun
    cases hrun
  | case2 s u hp =>
    rw [seekToId_eq, hp] at hrun
    cases hrun
    rw [seekToId_eq, withstands_peekHeader s none _ hp]
  | case3 s header start u hp hge =>
    rw [seekToId_eq, hp] at hrun
    dsimp only at hrun
    rw [if_pos hge] at hrun
    cases hrun
    rw [seekToId_eq, withstands_peekHeader s _ _ hp]
    exact if_pos hge
  | case4 s header start u hp hge e u' hc =>
    rw [seekToId_eq, hp] at hrun
    dsimp only at hrun
    rw [if_neg hge, hc] at hrun
    cases hrun
  | case5 s header start u hp hge u' hc ih =>
    rw [seekToId_eq, hp] at hrun
    dsimp only at hrun
    rw [if_neg hge, hc] at hrun
    have hskip : consumePeekedPayload _ _ { u.calmed with peeked := none } = _ :=
      withstands_consumePeekedPayload _ _ _ _ _ hc
    rw [seekToId_eq, withstands_peekHeader s _ _ hp]
    dsimp only
    rw [if_neg hge, hskip]
    exact ih hrun

theorem mirrors_seekToId (target : EntryId) :
    Mirrors FrameScanner.Quiet FrameScanner.calmed (seekToId target) := by
  intro s
  induction s using FrameScanner.seekToId.induct target with
  | case1 s e u hp =>
    intro hs
    obtain ⟨t, ht⟩ := mirrors_peekHeader.error hs hp
    rw [seekToId_eq, hp, seekToId_eq, ht]
    exact ⟨t, rfl⟩
  | case2 s u hp =>
    intro hs
    obtain ⟨hu, ht⟩ := mirrors_peekHeader.ok hs hp
    rw [seekToId_eq, hp, seekToId_eq, ht]
    exact ⟨hu, rfl⟩
  | case3 s header start u hp hge =>
    intro hs
    obtain ⟨hu, ht⟩ := mirrors_peekHeader.ok hs hp
    rw [seekToId_eq, hp, seekToId_eq target s.calmed, ht]
    dsimp only
    rw [if_pos hge, if_pos hge]
    exact ⟨hu, rfl⟩
  | case4 s header start u hp hge e u' hc =>
    intro hs
    obtain ⟨hu, ht⟩ := mirrors_peekHeader.ok hs hp
    have hu' : FrameScanner.Quiet { u with peeked := none } := hu
    obtain ⟨v, hv⟩ := (mirrors_consumePeekedPayload _ _).error hu' hc
    change consumePeekedPayload _ _ { u.calmed with peeked := none } = _ at hv
    rw [seekToId_eq, hp, seekToId_eq target s.calmed, ht]
    dsimp only
    rw [if_neg hge, hc, if_neg hge, hv]
    exact ⟨v, rfl⟩
  | case5 s header start u hp hge u' hc ih =>
    intro hs
    obtain ⟨hu, ht⟩ := mirrors_peekHeader.ok hs hp
    have hu' : FrameScanner.Quiet { u with peeked := none } := hu
    obtain ⟨hquiet, hv⟩ := (mirrors_consumePeekedPayload _ _).ok hu' hc
    change consumePeekedPayload _ _ { u.calmed with peeked := none } = _ at hv
    rw [seekToId_eq, hp, seekToId_eq target s.calmed, ht]
    dsimp only
    rw [if_neg hge, hc, if_neg hge, hv]
    exact ih hquiet

theorem mirrors_scanToAfter (target : EntryId) :
    Mirrors FrameScanner.Quiet FrameScanner.calmed (scanToAfter target) := by
  intro s
  induction s using FrameScanner.scanToAfter.induct target with
  | case1 s e u hp =>
    intro hs
    obtain ⟨t, ht⟩ := mirrors_peekHeader.error hs hp
    rw [scanToAfter_eq, hp, scanToAfter_eq, ht]
    exact ⟨t, rfl⟩
  | case2 s u hp =>
    intro hs
    obtain ⟨_, ht⟩ := mirrors_peekHeader.ok hs hp
    rw [scanToAfter_eq, hp, scanToAfter_eq, ht]
    exact ⟨u.calmed, rfl⟩
  | case3 s header start u hp e u' hc =>
    intro hs
    obtain ⟨hu, ht⟩ := mirrors_peekHeader.ok hs hp
    have hu' : FrameScanner.Quiet { u with peeked := none } := hu
    obtain ⟨v, hv⟩ := (mirrors_consumePeekedPayload _ _).error hu' hc
    change consumePeekedPayload _ _ { u.calmed with peeked := none } = _ at hv
    rw [scanToAfter_eq, hp, scanToAfter_eq target s.calmed, ht]
    dsimp only
    rw [hc, hv]
    exact ⟨v, rfl⟩
  | case4 s header start u hp u' hc hid =>
    intro hs
    obtain ⟨hu, ht⟩ := mirrors_peekHeader.ok hs hp
    have hu' : FrameScanner.Quiet { u with peeked := none } := hu
    obtain ⟨hquiet, hv⟩ := (mirrors_consumePeekedPayload _ _).ok hu' hc
    change consumePeekedPayload _ _ { u.calmed with peeked := none } = _ at hv
    rw [scanToAfter_eq, hp, scanToAfter_eq target s.calmed, ht]
    dsimp only
    rw [hc, hv]
    dsimp only
    rw [if_pos hid, if_pos hid]
    exact ⟨hquiet, rfl⟩
  | case5 s header start u hp u' hc hid ih =>
    intro hs
    obtain ⟨hu, ht⟩ := mirrors_peekHeader.ok hs hp
    have hu' : FrameScanner.Quiet { u with peeked := none } := hu
    obtain ⟨hquiet, hv⟩ := (mirrors_consumePeekedPayload _ _).ok hu' hc
    change consumePeekedPayload _ _ { u.calmed with peeked := none } = _ at hv
    rw [scanToAfter_eq, hp, scanToAfter_eq target s.calmed, ht]
    dsimp only
    rw [hc, hv]
    dsimp only
    rw [if_neg hid, if_neg hid]
    exact ih hquiet

/-! ### Checks -/

/-- The hasher is fed the payload, in whichever chunks it comes. -/
theorem mirrors_checkLoop (frameStart remaining : ℕ) (hasher : Xxh64) :
    Mirrors FrameScanner.Quiet FrameScanner.calmed (checkLoop frameStart remaining hasher) := by
  have hloop (s : FrameScanner) (hs : s.Quiet) :
      (∃ s', checkLoop frameStart remaining hasher s = .ok ⟨hasher.input ++ s.reader.rest.take remaining⟩ s' ∧
        remaining ≤ s.reader.rest.length ∧ s'.Quiet ∧
        s'.calmed = ⟨⟨s.reader.rest.drop remaining, []⟩, s.position, s.peeked⟩) ∨
      ∃ s', checkLoop frameStart remaining hasher s = .error (.truncated frameStart) s' ∧
        s.reader.rest.length < remaining := by
    induction remaining using Nat.strongRecOn generalizing hasher s with
    | ind remaining ih =>
      rw [checkLoop]
      by_cases h0 : remaining = 0
      · rw [if_pos h0, h0]
        refine Or.inl ⟨s, ?_, Nat.zero_le _, hs, rfl⟩
        rw [List.take_zero, List.append_nil]
        rfl
      rw [if_neg h0]
      obtain ⟨t, pos, peeked⟩ := s
      obtain ⟨bs, t', hread, ht'⟩ := Stream.Quiet.read (s := t) hs (min remaining (8*1024))
      obtain ⟨m, hle, hzero, rfl, hrest⟩ := Stream.read_ok hread
      rw [bind_ok (onReader_facing hread)]
      by_cases hnil : t.rest.take m = []
      · -- the payload is cut short
        have hempty : t.rest = [] :=
          (List.take_eq_nil_iff.mp hnil).resolve_left fun hm => by have := hzero hm; omega
        rw [dif_pos hnil]
        refine Or.inr ⟨_, rfl, ?_⟩
        dsimp only
        rw [hempty, List.length_nil]
        omega
      · rw [dif_neg hnil]
        have hpos := List.length_pos_of_ne_nil hnil
        have hlen : (t.rest.take m).length ≤ remaining := by
          rw [List.length_take]
          omega
        have hsplit : t.rest = t.rest.take m ++ t'.rest := by rw [hrest, List.take_append_drop]
        rcases ih (remaining-(t.rest.take m).length) (by omega) (hasher.update (t.rest.take m))
          ⟨t', pos, peeked⟩ ht' with ⟨s', hrun, hle', hquiet, hcalm⟩ | ⟨s', hrun, hlt⟩
        · left
          refine ⟨s', ?_, ?_, hquiet, ?_⟩
          · rw [hrun, Xxh64.update]
            dsimp only
            conv_rhs => rw [hsplit]
            rw [List.take_append, List.take_of_length_le hlen, List.append_assoc]
          · dsimp only at hle' ⊢
            rw [hsplit, List.length_append]
            omega
          · rw [hcalm]
            dsimp only
            conv_rhs => rw [hsplit]
            rw [List.drop_append, List.drop_eq_nil_of_le hlen, List.nil_append]
        · right
          refine ⟨s', hrun, ?_⟩
          dsimp only at hlt ⊢
          rw [hsplit, List.length_append]
          omega
  intro s hs
  rcases hloop s hs with ⟨s', hrun, hle, hquiet, hcalm⟩ | ⟨s', hrun, hlt⟩
  · have hquietly := checkLoop_facing frameStart remaining hasher s.reader.rest s.position s.peeked hle
    rw [← hcalm] at hquietly
    rw [hrun]
    exact ⟨hquiet, hquietly⟩
  · rw [hrun]
    exact checkLoop_short _ _ _ _ _ _ hlt

theorem mirrors_check [Crates] : Mirrors FrameScanner.Quiet FrameScanner.calmed check := by
  unfold check
  refine mirrors_peekHeader.bind fun p => ?_
  split
  · exact Mirrors.ret _
  · refine Mirrors.bind (Mirrors.modify (fun _ hs => hs) fun _ => rfl) fun _ => ?_
    refine (mirrors_checkLoop _ _ _).bind fun hasher => ?_
    refine Mirrors.bind (Mirrors.modify (fun _ hs => hs) fun _ => rfl) fun _ => ?_
    split
    · exact Mirrors.throw _
    · exact Mirrors.ret _

end FrameScanner

def StoreReader.calmed (r : StoreReader) : StoreReader :=
  ⟨r.scanner.map fun p => (p.1, p.2.calmed)⟩

end Woodshed
