import Woodshed.Sealing

/-! Batches in one and in several: when it makes no difference how entries are grouped. -/
namespace Woodshed
open Sequencing Framing

/-! ### Writes one behind the other -/

theorem Dir.edit_edit (d : Dir) (name : FileName) (f g : FileData → FileData) :
    (d.edit name f).edit name g = d.edit name fun x => g (f x) := by
  cases hl : d.files.lookup name with
  | none => rw [Dir.edit, Dir.edit, Dir.edit, hl]; simp only [hl]
  | some x =>
    have hput : d.edit name f = d.put name (f x) := by rw [Dir.edit, hl]
    rw [hput, Dir.edit, Dir.edit, hl]
    simp only [Dir.put, AList.lookup_insert, AList.insert_insert]

theorem overwrite_overwrite (old xs ys : Bytes) (pos : ℕ) :
    overwrite (overwrite old pos xs) (pos+xs.length) ys = overwrite old pos (xs ++ ys) := by
  set front := (old ++ List.replicate (pos-old.length) 0).take pos with hfront
  have hlen : front.length = pos := by
    rw [hfront, List.length_take, List.length_append, List.length_replicate]
    omega
  -- the second write begins where the first one ends, so that there is nothing to fill up
  have hnone : pos+xs.length-(front ++ xs ++ old.drop (pos+xs.length)).length = 0 := by
    rw [List.length_append, List.length_append, hlen]
    omega
  have htake : (front ++ xs ++ old.drop (pos+xs.length)).take (pos+xs.length) = front ++ xs :=
    List.take_left' (by rw [List.length_append, hlen])
  have hdrop : (front ++ xs ++ old.drop (pos+xs.length)).drop (pos+xs.length+ys.length) =
      old.drop (pos+(xs ++ ys).length) := by
    rw [List.drop_append, List.drop_eq_nil_of_le (by rw [List.length_append, hlen]; omega),
      List.nil_append, List.drop_drop, List.length_append, List.length_append, hlen]
    congr 1
    omega
  rw [overwrite, overwrite, ← hfront, hnone, List.replicate_zero, List.append_nil, htake, hdrop,
    overwrite, ← hfront, List.append_assoc front xs ys]

theorem Dir.writeAt_writeAt (d : Dir) (name : FileName) (pos : ℕ) (xs ys : Bytes) :
    (d.writeAt name pos xs).writeAt name (pos+xs.length) ys = d.writeAt name pos (xs ++ ys) := by
  rw [Dir.writeAt, Dir.writeAt, Dir.writeAt, Dir.edit_edit]
  congr 1
  funext f
  rw [overwrite_overwrite]

section
variable [Crates]
variable {s : Store} {d : Dir} {active : SegmentEntry}

/-- A flush that leaves no rollover pending, and another one, are one flush of both. -/
theorem Store.flushed_flushed {xs ys : List Entry} (hidle : s.activeCursor.buf = ⟨[]⟩)
    (last last' : EntryId) (n n' : ℕ)
    (hnot : ((s.buffered xs).flushed last n).rolloverPending = false) :
    (((s.buffered xs).flushed last n).buffered ys).flushed last' n' =
      (s.buffered (xs ++ ys)).flushed last' (n+n') := by
  obtain ⟨hready, -⟩ := Bool.or_eq_false_iff.mp
    (show (s.rolloverPending || decide (_ > _)) = false from hnot)
  unfold Store.flushed Store.buffered
  unfold Store.flushed Store.buffered at hnot
  dsimp only at hnot ⊢
  rw [hnot, hready, hidle]
  simp only [List.nil_append, Grammar.encodeAll_append, List.length_append, Finset.insert_idem,
    Bool.false_or, Nat.add_assoc]

theorem Dir.flushed_flushed {xs ys : List Entry} (hidle : s.activeCursor.buf = ⟨[]⟩)
    (last : EntryId) (n : ℕ) :
    (d.flushed (s.buffered xs)).flushed (((s.buffered xs).flushed last n).buffered ys) =
      d.flushed (s.buffered (xs ++ ys)) := by
  unfold Dir.flushed Store.flushed Store.buffered
  dsimp only
  rw [hidle]
  simp only [List.nil_append, Grammar.encodeAll_append]
  exact d.writeAt_writeAt _ _ _ _

/-! ### Batches one behind the other -/

/-- The machine behind a batch. -/
def Machine.batch (m : Machine) (xs : List Entry) : Machine :=
  (Command.perform m (.request (.batch xs))).2

/-- The machine behind batches. -/
def Machine.batches (m : Machine) (gs : List (List Entry)) : Machine := gs.foldl Machine.batch m

/-- A batch of a store of a run: a rollover if it is due, then a flush. -/
theorem Standing.batch (h : Standing s d active) {xs : List Entry} (hne : xs ≠ [])
    (hroom : s.Room) :
    ∃ active', Machine.batch ⟨s, calm d⟩ xs =
        ⟨((s.readyFor (xs.head hne).1).buffered xs).flushed (xs.getLast hne).1 xs.length,
          calm ((d.readyFor s (xs.head hne).1).flushed ((s.readyFor (xs.head hne).1).buffered xs))⟩ ∧
      Standing (((s.readyFor (xs.head hne).1).buffered xs).flushed (xs.getLast hne).1 xs.length)
        ((d.readyFor s (xs.head hne).1).flushed ((s.readyFor (xs.head hne).1).buffered xs)) active' := by
  obtain ⟨c, hrun⟩ := h.upright.batch_eq (List.head?_eq_some_head hne)
    (List.getLast?_eq_some_getLast hne) fun _ => h.fresh
  have hbatch : Machine.batch ⟨s, calm d⟩ xs = _ := congrArg Prod.snd (outcomeOf_ok hrun)
  obtain ⟨o, s', d', active', hperform, -, h'⟩ :=
    h.perform (.request (.batch xs)) hroom fun op hop => by cases hop
  have heq : Machine.batch ⟨s, calm d⟩ xs = ⟨s', calm d'⟩ := congrArg Prod.snd hperform
  rw [hbatch] at heq
  obtain ⟨hs, hw⟩ := Machine.mk.inj heq
  have hd := congrArg World.dir hw
  rw [← hs, ← show _ = d' from hd] at h'
  exact ⟨active', hbatch, h'⟩

omit [Crates] in
theorem Store.idle_readyFor [Crates] (hidle : s.activeCursor.buf = ⟨[]⟩) (first : EntryId) :
    (s.readyFor first).activeCursor.buf = ⟨[]⟩ := by
  unfold Store.readyFor
  split
  · exact hidle
  · exact hidle

theorem Store.segments_readyFor (first : EntryId) :
    (s.readyFor first).state.segments.length =
      s.state.segments.length+(if s.rolloverPending = true then 1 else 0) := by
  unfold Store.readyFor
  split
  · exact List.length_append
  · rfl

/-- Two batches are one if the first leaves no rollover pending. -/
theorem Standing.batch_append (h : Standing s d active) {xs ys : List Entry} (hx : xs ≠ [])
    (hy : ys ≠ []) (hroom : s.Room)
    (hnot : (Machine.batch ⟨s, calm d⟩ xs).store.rolloverPending = false) :
    (Machine.batch ⟨s, calm d⟩ xs).batch ys = Machine.batch ⟨s, calm d⟩ (xs ++ ys) := by
  have hxy : xs ++ ys ≠ [] := by simp [hx]
  obtain ⟨active', hrun, h'⟩ := h.batch hx hroom
  obtain ⟨_, hboth, -⟩ := h.batch hxy hroom
  set t := s.readyFor (xs.head hx).1 with ht
  rw [hrun] at hnot
  change ((t.buffered xs).flushed (xs.getLast hx).1 xs.length).rolloverPending = false at hnot
  obtain ⟨_, hrun', -⟩ := h'.batch hy fun hp => by rw [hnot] at hp; cases hp
  have hidle : t.activeCursor.buf = ⟨[]⟩ := Store.idle_readyFor h.upright.idle _
  -- no rollover in front of the second batch
  have hready (first : EntryId) :
      ((t.buffered xs).flushed (xs.getLast hx).1 xs.length).readyFor first =
        (t.buffered xs).flushed (xs.getLast hx).1 xs.length := by
    rw [Store.readyFor, hnot]
    rfl
  have hreadyDir (d : Dir) (first : EntryId) :
      d.readyFor ((t.buffered xs).flushed (xs.getLast hx).1 xs.length) first = d := by
    rw [Dir.readyFor, hnot]
    rfl
  rw [hready, hreadyDir, Store.flushed_flushed hidle _ _ _ _ hnot, Dir.flushed_flushed hidle] at hrun'
  rw [hrun, hrun', hboth, List.head_append_left hx, List.getLast_append_right hy, List.length_append]

/-! ### Groups -/

/-- A batch adds a segment just if a rollover is pending. -/
theorem Machine.Stands.batch {m : Machine} (h : m.Stands) {xs : List Entry} (hne : xs ≠ [])
    (hroom : m.store.Room) :
    (m.batch xs).Stands ∧
      (m.batch xs).store.state.segments.length = m.store.state.segments.length +
        (if m.store.rolloverPending = true then 1 else 0) := by
  obtain ⟨s, d, active, rfl, h⟩ := h
  obtain ⟨active', hrun, h'⟩ := h.batch hne hroom
  rw [hrun]
  exact ⟨⟨_, _, _, rfl, h'⟩, Store.segments_readyFor _⟩

theorem Machine.Stands.batch_append {m : Machine} (h : m.Stands) {xs ys : List Entry} (hx : xs ≠ [])
    (hy : ys ≠ []) (hroom : m.store.Room) (hnot : (m.batch xs).store.rolloverPending = false) :
    (m.batch xs).batch ys = m.batch (xs ++ ys) := by
  obtain ⟨s, d, active, rfl, h⟩ := h
  exact h.batch_append hx hy hroom hnot

/-- While no rollover gets pending, the groups behind a first one are written as if with it. -/
theorem Machine.Stands.batches_flatten {m : Machine} (h : m.Stands) (gs : List (List Entry)) :
    ∀ g : List Entry, g ≠ [] → (∀ x ∈ gs, x ≠ []) → m.store.Room →
      (∀ k < gs.length, ((m.batch g).batches (gs.take k)).store.rolloverPending = false) →
      (m.batch g).batches gs = m.batch (g ++ gs.flatten) := by
  induction gs with
  | nil =>
    intro g _ _ _ _
    rw [List.flatten_nil, List.append_nil]
    rfl
  | cons x gs ih =>
    intro g hg hne hroom hnot
    -- the second group joins the first one, and the induction goes on with both as the first
    have happend := h.batch_append hg (hne x (by simp)) hroom (hnot 0 (by simp))
    have hrest := ih (g ++ x) (by simp [hg]) (fun y hy => hne y (by simp [hy])) hroom fun k hk => by
      have hstep := hnot (k+1) (by simpa using hk)
      rw [List.take_succ_cons] at hstep
      change (((m.batch g).batch x).batches (gs.take k)).store.rolloverPending = false at hstep
      rwa [happend] at hstep
    rw [List.flatten_cons, ← List.append_assoc, ← hrest, ← happend]
    rfl

/-- Batches take no segment away, and add one for each rollover that is pending in front of one. -/
theorem Machine.Stands.segments_le {m : Machine} (h : m.Stands) (gs : List (List Entry))
    (hne : ∀ x ∈ gs, x ≠ []) (hroom : ∀ k, (m.batches (gs.take k)).store.Room) :
    m.store.state.segments.length ≤ (m.batches gs).store.state.segments.length ∧
      ((∃ k < gs.length, (m.batches (gs.take k)).store.rolloverPending = true) →
        m.store.state.segments.length < (m.batches gs).store.state.segments.length) := by
  induction gs generalizing m with
  | nil =>
    refine ⟨le_refl _, ?_⟩
    rintro ⟨k, hk, -⟩
    exact absurd hk (Nat.not_lt_zero k)
  | cons g gs ih =>
    obtain ⟨hnext, hlen⟩ := h.batch (hne g (by simp)) (hroom 0)
    obtain ⟨hle, hlt⟩ := ih hnext (fun x hx => hne x (by simp [hx])) fun k => hroom (k+1)
    change _ ≤ ((m.batch g).batches gs).store.state.segments.length ∧
      (_ → _ < ((m.batch g).batches gs).store.state.segments.length)
    refine ⟨by omega, ?_⟩
    rintro ⟨k, hk, hp⟩
    cases k with
    | zero =>
      -- the rollover is done in front of `g`
      rw [if_pos (show m.store.rolloverPending = true from hp)] at hlen
      omega
    | succ k =>
      have hrest := hlt ⟨k, by simpa using hk, hp⟩
      omega

/-- How entries are grouped into batches makes no difference to the store and its files just if no
batch but the last leaves a rollover pending. -/
theorem Follows.grouping_iff {d : Dir} (hd : Fresh d) {cfg : StoreCfg} {s : Store} {w : World}
    (hopen : Store.openOrCreate cfg (calm d) = .ok s w) {m : Machine}
    (hrun : Follows (fun m c => c.Roomy m ∧ c.Guarded m) ⟨s, w⟩ m) {g : List Entry}
    {gs : List (List Entry)} (hne : ∀ x ∈ g :: gs, x ≠ [])
    (hroom : ∀ k, (m.batches ((g :: gs).take k)).store.Room) :
    m.batches (g :: gs) = m.batch (g :: gs).flatten ↔
      ∀ k < gs.length, (m.batches ((g :: gs).take (k+1))).store.rolloverPending = false := by
  have hstands : m.Stands := Follows.stands hd hopen hrun
  have hg : g ≠ [] := hne g (by simp)
  have hgs : ∀ x ∈ gs, x ≠ [] := fun x hx => hne x (by simp [hx])
  constructor
  · intro heq k hk
    by_contra hp
    -- the batch behind that adds a segment, and one of all entries does not
    obtain ⟨hnext, hlen⟩ := hstands.batch hg (hroom 0)
    obtain ⟨-, hall⟩ := hstands.batch (show (g :: gs).flatten ≠ [] by simp [hg]) (hroom 0)
    have hmore := (hnext.segments_le gs hgs fun k => hroom (k+1)).2
      ⟨k, hk, Bool.eq_true_of_not_eq_false hp⟩
    change (m.batch g).batches gs = _ at heq
    rw [heq] at hmore
    omega
  · intro hnot
    exact hstands.batches_flatten gs g hg hgs (hroom 0) hnot

end

section
attribute [local instance] sample

/-- Two batches under a trigger that only both of them pass. -/
theorem Follows.grouping_iff_together : ∃ m : Machine,
    m.batches [[(⟨1⟩, [])], [(⟨2⟩, []), (⟨3⟩, [])]] = m.batch [(⟨1⟩, []), (⟨2⟩, []), (⟨3⟩, [])] := by
  obtain ⟨s, hopen, _⟩ := fresh_blank.session ⟨40⟩
  have hsome : openedBlank ⟨40⟩ = some ⟨s, calm blank.formatted⟩ := by rw [openedBlank, hopen]
  have hruns : (openedBlank ⟨40⟩).all (fun m =>
      (List.range 3).all (fun k => decide
        ((m.batches ([[(⟨1⟩, [])], [(⟨2⟩, []), (⟨3⟩, [])]].take k)).store.Room)) &&
      !(m.batches [[(⟨1⟩, [])]]).store.rolloverPending) = true := by
    decide +kernel
  rw [hsome] at hruns
  change (_ && _) = true at hruns
  simp only [Bool.and_eq_true, List.all_eq_true, decide_eq_true_eq, Bool.not_eq_true'] at hruns
  obtain ⟨hrooms, hnot⟩ := hruns
  refine ⟨_, (Follows.grouping_iff fresh_blank hopen .here (by simp) fun k => ?_).mpr fun k hk => ?_⟩
  · rcases Nat.lt_or_ge k 3 with hlt | hge
    · exact hrooms k (List.mem_range.mpr hlt)
    · rw [List.take_of_length_le (by simpa using (by omega : 2 ≤ k))]
      exact hrooms 2 (by simp)
  · obtain rfl : k = 0 := by simpa using hk
    exact hnot

end
end Woodshed
