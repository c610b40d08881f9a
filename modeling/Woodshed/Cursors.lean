import Woodshed.Calming
import Woodshed.Sample

/-! The scanner as a cursor over a list of frames: what a series of calls returns, and where the
scanner believes to be behind each of them. -/
namespace Woodshed
open Sequencing Framing FrameScanner

/-! ### Calls of a scanner -/

inductive ScanCall where
  /-- `read`, and reads of the payload into buffers of these sizes before the reader is dropped. -/
  | read (sizes : List ℕ)
  | check
  | seekToId (target : EntryId)
  | scanToAfter (target : EntryId)

inductive Returned where
  | ended
  | frame (id : EntryId) (payload : Bytes) (start : ℕ)
  | checked (id : EntryId) (start : ℕ)
  | sought
  | behind (offset : ℕ)
deriving DecidableEq, Repr

def ScanCall.reads : ScanCall → Bool
  | .read _ => true
  | _ => false

section
variable [Crates]

def ScanCall.perform : ScanCall → Scan Returned
  | .read sizes => do
    match ← FrameScanner.read with
    | none => return .ended
    | some r =>
      let s ← get
      let (payload, r', s') := r.consume sizes s
      set (r'.drop s')
      return .frame r.id payload r.frameStart
  | .check => do
    match ← FrameScanner.check with
    | none => return .ended
    | some (id, start) => return .checked id start
  | .seekToId target => do
    FrameScanner.seekToId target
    return .sought
  | .scanToAfter target => do
    let offset ← FrameScanner.scanToAfter target
    return .behind offset

/-- What the calls return up to the first error, each with the position behind it. -/
def scanRun : List ScanCall → FrameScanner → List (Returned × ℕ)
  | [], _ => []
  | c :: cs, s =>
    match c.perform s with
    | .ok r s' => (r, s'.position) :: scanRun cs s'
    | .error _ _ => []

/-! ### The cursor -/

/-- The frames not read yet, and where the first of them starts. -/
structure ListCursor where
  rest : List Entry
  offset : ℕ

namespace ListCursor

/-- The cursor in front of `rest`, behind the frames `es`. -/
def behind (l : ListCursor) (es rest : List Entry) : ListCursor :=
  ⟨rest, l.offset+(frames.encodeAll es).length⟩

/-- What a call returns, or nothing where it fails. -/
def step (l : ListCursor) : ScanCall → Option (Returned × ListCursor)
  | .read sizes =>
    match l.rest with
    | [] => some (.ended, l)
    | e :: es => some (.frame e.1 (e.2.take sizes.sum) l.offset, l.behind [e] es)
  | .check =>
    match l.rest with
    | [] => some (.ended, l)
    | e :: es => some (.checked e.1 l.offset, l.behind [e] es)
  | .seekToId target =>
    some (.sought, l.behind (l.rest.takeWhile fun e => decide (e.1 < target))
      (l.rest.dropWhile fun e => decide (e.1 < target)))
  | .scanToAfter target =>
    match l.rest.dropWhile (fun e => decide (e.1 ≠ target)) with
    | [] => none
    | e :: es =>
      let l' := l.behind (l.rest.takeWhile (fun e => decide (e.1 ≠ target)) ++ [e]) es
      some (.behind l'.offset, l')

def run : List ScanCall → ListCursor → List (Returned × ℕ)
  | [], _ => []
  | c :: cs, l =>
    match l.step c with
    | some (r, l') => (r, l'.offset) :: run cs l'
    | none => []

/-- The call does not read a frame with an empty payload. -/
def spares (l : ListCursor) (c : ScanCall) : Bool :=
  !c.reads || l.rest.head?.all fun e => decide (e.2 ≠ [])

/-- No call reads a frame with an empty payload. -/
def sparesAll : List ScanCall → ListCursor → Bool
  | [], _ => true
  | c :: cs, l => l.spares c && match l.step c with
    | some (_, l') => sparesAll cs l'
    | none => true

end ListCursor

/-! ### One call -/

/-- How a scanner that stands where a cursor is takes a call: both fail, or both return the same, and
the scanner stands where the cursor is again unless an empty payload was read. -/
def Steps (l : ListCursor) (c : ScanCall) (s : FrameScanner) : Prop :=
  (l.step c = none ∧ ∃ e s', c.perform s = .error e s') ∨
    ∃ r l' s', l.step c = some (r, l') ∧ c.perform s = .ok r s' ∧ (∀ e ∈ l'.rest, Fits e) ∧
      (l.spares c = true → Stands s' l'.offset l'.rest) ∧
      (l.spares c = false → s'.position ≠ l'.offset)

section
variable {l : ListCursor} {s : FrameScanner}

theorem steps_read (h : Stands s l.offset l.rest) (hf : ∀ e ∈ l.rest, Fits e) (sizes : List ℕ) :
    Steps l (.read sizes) s := by
  obtain ⟨rest, offset⟩ := l
  right
  cases rest with
  | nil =>
    refine ⟨.ended, ⟨[], offset⟩, facing [] offset, rfl, ?_, hf, fun _ => Or.inl rfl, fun hc => ?_⟩
    · rw [ScanCall.perform, bind_ok h.read_nil]
      rfl
    · cases hc
  | cons e es =>
    obtain ⟨r', s', hrun, hdrop⟩ := FrameReader.consume_drop sizes ⟨e.1, e.2.length, e.2.length, offset⟩
      (e.2 ++ frames.encodeAll es) offset none
    have htake : (e.2 ++ frames.encodeAll es).take (min e.2.length sizes.sum) = e.2.take sizes.sum := by
      rw [List.take_append_of_le_length (by omega), List.take_eq_take_iff]
      omega
    dsimp only at hrun hdrop
    rw [htake] at hrun
    rw [List.drop_left] at hdrop
    have hread : s.read = _ := h.read_cons (hf e (by simp))
    refine ⟨.frame e.1 (e.2.take sizes.sum) offset, ListCursor.behind ⟨e :: es, offset⟩ [e] es,
      r'.drop s', rfl, ?_, fun x hx => hf x (List.mem_cons_of_mem e hx), fun hc => ?_, fun hc => ?_⟩
    · rw [ScanCall.perform, bind_ok hread, facing]
      dsimp only
      rw [get_bind, hrun]
      rfl
    · -- the position moved behind the payload
      have hne : e.2.length ≠ 0 := by
        have hpayload : e.2 ≠ [] := by simpa [ListCursor.spares, ScanCall.reads] using hc
        exact fun h0 => hpayload (List.length_eq_zero_iff.mp h0)
      left
      rw [hdrop, if_neg hne, facing, ListCursor.behind]
      simp [Nat.add_assoc]
    · -- nothing was read, and the position stays in front of the header
      have hnil : e.2.length = 0 := by
        have hpayload : e.2 = [] := by simpa [ListCursor.spares, ScanCall.reads] using hc
        rw [hpayload, List.length_nil]
      rw [hdrop, if_pos hnil, ListCursor.behind]
      simp [headerLen]

theorem steps_check (h : Stands s l.offset l.rest) (hf : ∀ e ∈ l.rest, Fits e) :
    Steps l .check s := by
  obtain ⟨rest, offset⟩ := l
  right
  cases rest with
  | nil =>
    refine ⟨.ended, ⟨[], offset⟩, facing [] offset, rfl, ?_, hf, fun _ => Or.inl rfl,
      fun hc => by cases hc⟩
    rw [ScanCall.perform, bind_ok h.check_nil]
    rfl
  | cons e es =>
    refine ⟨.checked e.1 offset, ListCursor.behind ⟨e :: es, offset⟩ [e] es,
      facing (frames.encodeAll es) (offset+(frame e).length), rfl, ?_,
      fun x hx => hf x (List.mem_cons_of_mem e hx), fun _ => Or.inl ?_, fun hc => by cases hc⟩
    · rw [ScanCall.perform, bind_ok (h.check_cons (hf e (by simp)))]
      rfl
    · simp [ListCursor.behind]

theorem steps_seekToId (h : Stands s l.offset l.rest) (hf : ∀ e ∈ l.rest, Fits e)
    (target : EntryId) : Steps l (.seekToId target) s := by
  right
  obtain ⟨s', hseek, hs'⟩ := h.seekToId target hf
  refine ⟨.sought, _, s', rfl, ?_, fun x hx => hf x ((List.dropWhile_sublist _).mem hx),
    fun _ => hs', fun hc => by cases hc⟩
  rw [ScanCall.perform, bind_ok hseek]
  rfl

theorem steps_scanToAfter (h : Stands s l.offset l.rest) (hf : ∀ e ∈ l.rest, Fits e)
    (target : EntryId) : Steps l (.scanToAfter target) s := by
  obtain ⟨rest, offset⟩ := l
  have hcongr := scanToAfter_congr h.peekHeader target
  have hsplit : rest.takeWhile (fun e => decide (e.1 ≠ target)) ++
      rest.dropWhile (fun e => decide (e.1 ≠ target)) = rest := List.takeWhile_append_dropWhile
  have hbefore : ∀ x ∈ rest.takeWhile (fun e => decide (e.1 ≠ target)), x.1 ≠ target :=
    fun x hx => by simpa using List.mem_takeWhile_imp hx
  set before := rest.takeWhile (fun e => decide (e.1 ≠ target)) with hb
  cases hdrop : rest.dropWhile (fun e => decide (e.1 ≠ target)) with
  | nil =>
    -- no frame has the id
    left
    rw [hdrop, List.append_nil] at hsplit
    obtain ⟨s', hmiss⟩ := scanToAfter_missing target rest offset hf (by rwa [hsplit] at hbefore)
    refine ⟨?_, .truncated (offset+(frames.encodeAll rest).length), s', ?_⟩
    · unfold ListCursor.step
      dsimp only
      rw [hdrop]
    · rw [ScanCall.perform]
      exact bind_error (hcongr.trans hmiss)
  | cons e es =>
    right
    rw [hdrop] at hsplit
    have he : e.1 = target := by
      have hhead := List.head?_dropWhile_not (fun e : Entry => decide (e.1 ≠ target)) rest
      rw [hdrop] at hhead
      simpa using hhead
    have hfits : ∀ x ∈ before ++ e :: es, Fits x := by rwa [hsplit]
    have hscan := scanToAfter_facing before e (frames.encodeAll es) offset
      (fun x hx => hfits x (by simp [hx])) (hfits e (by simp)) (by rwa [he])
    have hall : frames.encodeAll before ++ (frame e ++ frames.encodeAll es) = frames.encodeAll rest := by
      rw [← hsplit, Grammar.encodeAll_append, Grammar.encodeAll_cons, frames_encode]
    rw [hall, he] at hscan
    refine ⟨.behind (offset+(frames.encodeAll (before ++ [e])).length),
      ListCursor.behind ⟨rest, offset⟩ (before ++ [e]) es,
      facing (frames.encodeAll es) (offset+(frames.encodeAll (before ++ [e])).length), ?_, ?_,
      fun x hx => hfits x (List.mem_append_right _ (List.mem_cons_of_mem e hx)), fun _ => Or.inl rfl,
      fun hc => by cases hc⟩
    · unfold ListCursor.step
      dsimp only
      rw [hdrop]
      rfl
    · rw [ScanCall.perform, bind_ok (hcongr.trans hscan)]
      rfl

theorem steps (h : Stands s l.offset l.rest) (hf : ∀ e ∈ l.rest, Fits e) (c : ScanCall) :
    Steps l c s := by
  cases c with
  | read sizes => exact steps_read h hf sizes
  | check => exact steps_check h hf
  | seekToId target => exact steps_seekToId h hf target
  | scanToAfter target => exact steps_scanToAfter h hf target

/-- Runs of scanner and cursor are the same if no empty payload is read on the way, and else not even
the positions are. -/
theorem Stands.run (h : Stands s l.offset l.rest) (hf : ∀ e ∈ l.rest, Fits e)
    (calls : List ScanCall) : (l.sparesAll calls = true → scanRun calls s = l.run calls) ∧
      ((scanRun calls s).map (·.2) = (l.run calls).map (·.2) → l.sparesAll calls = true) := by
  induction calls generalizing l s with
  | nil => exact ⟨fun _ => rfl, fun _ => rfl⟩
  | cons c cs ih =>
    rw [scanRun, ListCursor.run, ListCursor.sparesAll, Bool.and_eq_true]
    rcases steps h hf c with ⟨hnone, e, s', hrun⟩ | ⟨r, l', s', hsome, hrun, hf', hstands, hdrift⟩
    · have hspares : l.spares c = true := by
        cases c with
        | read sizes =>
          rw [ListCursor.step] at hnone
          split at hnone <;> cases hnone
        | check => rfl
        | seekToId target => rfl
        | scanToAfter target => rfl
      rw [hnone, hrun]
      exact ⟨fun _ => rfl, fun _ => ⟨hspares, rfl⟩⟩
    · rw [hsome, hrun]
      dsimp only
      rw [List.map_cons, List.map_cons]
      cases hspares : l.spares c with
      | true =>
        have hs' := hstands hspares
        obtain ⟨hsame, hpositions⟩ := ih hs' hf'
        rw [hs'.position]
        exact ⟨fun hall => by rw [hsame hall.2], fun heq => ⟨rfl, hpositions (List.cons.inj heq).2⟩⟩
      | false =>
        -- the two are apart from here on
        exact ⟨fun hall => absurd hall.1 (by simp), fun heq =>
          absurd (List.cons.inj heq).1 (hdrift hspares)⟩

end

/-! ### Reads that come back short -/

/-- A scanner returned what a cursor returns, of a payload perhaps only a first part. -/
def Returned.Within : Returned → Returned → Prop
  | .frame id bytes start, .frame id' bytes' start' => id = id' ∧ bytes <+: bytes' ∧ start = start'
  | r, r' => r = r'

omit [Crates] in
theorem Returned.within_self (r : Returned) : r.Within r := by
  cases r with
  | frame id bytes start => exact ⟨rfl, List.prefix_rfl, rfl⟩
  | ended => exact rfl
  | checked id start => exact rfl
  | sought => exact rfl
  | behind offset => exact rfl

/-- The calls returned what the cursor returns, of payloads perhaps only first parts, and the scanner
was where the cursor is behind each of them. -/
def Follow (xs ys : List (Returned × ℕ)) : Prop :=
  List.Forall₂ (fun x y => x.1.Within y.1 ∧ x.2 = y.2) xs ys

omit [Crates] in
theorem Follow.positions {xs ys : List (Returned × ℕ)} (h : Follow xs ys) :
    xs.map (·.2) = ys.map (·.2) := by
  induction h with
  | nil => rfl
  | cons hxy _ ih => rw [List.map_cons, List.map_cons, hxy.2, ih]

/-- A call on a stream whose reads may come back short. -/
theorem perform_alike (c : ScanCall) {s : FrameScanner} (h : s.Quiet) :
    (∃ r r' s', c.perform s = .ok r s' ∧ s'.Quiet ∧ c.perform s.calmed = .ok r' s'.calmed ∧
      r.Within r') ∨
    ∃ e s' t, c.perform s = .error e s' ∧ c.perform s.calmed = .error e t := by
  have hsame (m : Scan Returned) (hm : Mirrors FrameScanner.Quiet FrameScanner.calmed m) :
      (∃ r r' s', m s = .ok r s' ∧ s'.Quiet ∧ m s.calmed = .ok r' s'.calmed ∧ r.Within r') ∨
      ∃ e s' t, m s = .error e s' ∧ m s.calmed = .error e t := by
    cases hrun : m s with
    | ok r s' =>
      obtain ⟨hquiet, hcalm⟩ := hm.ok h hrun
      exact Or.inl ⟨r, r, s', rfl, hquiet, hcalm, r.within_self⟩
    | error e s' =>
      obtain ⟨t, ht⟩ := hm.error h hrun
      exact Or.inr ⟨e, s', t, rfl, ht⟩
  cases c with
  | read sizes =>
    rw [ScanCall.perform]
    cases hread : s.read with
    | error e s' =>
      obtain ⟨t, ht⟩ := mirrors_read.error h hread
      exact Or.inr ⟨e, s', t, bind_error hread, bind_error ht⟩
    | ok x s' =>
      obtain ⟨hquiet, ht⟩ := mirrors_read.ok h hread
      rw [bind_ok hread, bind_ok ht]
      left
      cases x with
      | none => exact ⟨_, _, s', rfl, hquiet, rfl, rfl⟩
      | some r =>
        obtain ⟨bs, r', s₁, hrun, htook⟩ := r.consume_took sizes s'
        obtain ⟨t, hdrop, hrest, htq⟩ := htook.drop hquiet
        obtain ⟨r'', s₂, hrun', hdrop'⟩ :=
          FrameReader.consume_drop sizes r s'.reader.rest s'.position s'.peeked
        have hlen := FrameReader.consume_length sizes r s'
        rw [hrun] at hlen
        refine ⟨.frame r.id bs r.frameStart, .frame r.id (s'.reader.rest.take (min r.remaining sizes.sum))
          r.frameStart, r'.drop s₁, ?_, ?_, ?_, rfl, ?_, rfl⟩
        · dsimp only
          rw [get_bind, hrun]
          rfl
        · rw [hdrop]
          exact htq
        · dsimp only
          rw [get_bind, show s'.calmed = ⟨⟨s'.reader.rest, []⟩, s'.position, s'.peeked⟩ from rfl, hrun']
          have hsame : r''.drop s₂ = (r'.drop s₁).calmed := by
            rw [hdrop', hdrop, FrameScanner.calmed, Stream.calmed, hrest]
          exact congrArg _ hsame
        · rw [htook.bytes, List.take_append, List.take_of_length_le (le_min htook.within hlen)]
          exact List.prefix_append _ _
  | check =>
    refine hsame _ (mirrors_check.bind fun x => ?_)
    split <;> exact Mirrors.ret _
  | seekToId target => exact hsame _ ((mirrors_seekToId target).bind fun _ => Mirrors.ret _)
  | scanToAfter target => exact hsame _ ((mirrors_scanToAfter target).bind fun _ => Mirrors.ret _)

theorem follow_calmed (calls : List ScanCall) {s : FrameScanner} (h : s.Quiet) :
    Follow (scanRun calls s) (scanRun calls s.calmed) := by
  induction calls generalizing s with
  | nil => exact .nil
  | cons c cs ih =>
    rw [scanRun, scanRun]
    rcases perform_alike c h with ⟨r, r', s', hrun, hquiet, hcalm, hwithin⟩ | ⟨e, s', t, hrun, hcalm⟩
    · rw [hrun, hcalm]
      exact .cons ⟨hwithin, rfl⟩ (ih hquiet)
    · rw [hrun, hcalm]
      exact .nil

/-- A scanner on whole frames is a cursor over their list: it returns what the cursor returns and is
where the cursor is behind every call, just if no call reads a frame with an empty payload. Where reads
come back short, the same holds with first parts of what the cursor returns of the payloads. -/
theorem scanRun_eq_run_iff (name : FileName) (es : List Entry) (hf : ∀ e ∈ es, Fits e) (offset : ℕ)
    (calls : List ScanCall) :
    (scanRun calls (FrameScanner.new ⟨name, ⟨frames.encodeAll es, []⟩⟩ offset) =
      ListCursor.run calls ⟨es, offset⟩ ↔ ListCursor.sparesAll calls ⟨es, offset⟩ = true) ∧
    ∀ reads, ReadStep.fails ∉ reads →
      (Follow (scanRun calls (FrameScanner.new ⟨name, ⟨frames.encodeAll es, reads⟩⟩ offset))
        (ListCursor.run calls ⟨es, offset⟩) ↔ ListCursor.sparesAll calls ⟨es, offset⟩ = true) := by
  obtain ⟨hsame, hpositions⟩ := Stands.run (l := ⟨es, offset⟩) (Or.inl rfl) hf calls
  refine ⟨⟨fun heq => hpositions (congrArg _ heq), hsame⟩, fun reads hreads => ?_⟩
  have hfollow := follow_calmed calls
    (s := FrameScanner.new ⟨name, ⟨frames.encodeAll es, reads⟩⟩ offset) hreads
  change Follow _ (scanRun calls (facing (frames.encodeAll es) offset)) at hfollow
  constructor
  · intro h
    exact hpositions (hfollow.positions.symm.trans h.positions)
  · intro h
    rwa [hsame h] at hfollow

end

section
attribute [local instance] sample

theorem scanRun_eq_run_iff_read :
    scanRun [.seekToId ⟨2⟩, .read [1], .check]
        (FrameScanner.new ⟨[], ⟨frames.encodeAll [(⟨1⟩, []), (⟨2⟩, [7, 8]), (⟨3⟩, [])], []⟩⟩ 8) =
      [(.sought, 28), (.frame ⟨2⟩ [7] 28, 50), (.checked ⟨3⟩ 50, 70)] :=
  ((scanRun_eq_run_iff [] [(⟨1⟩, []), (⟨2⟩, [7, 8]), (⟨3⟩, [])] (by simp [Fits]) 8
    [.seekToId ⟨2⟩, .read [1], .check]).1.mpr (by decide +kernel)).trans (by decide +kernel)

/-- Behind the read of an empty payload the position is still in front of its header. -/
theorem scanRun_ne_run_empty : ¬ ∀ (name : FileName) (es : List Entry) (offset : ℕ)
    (calls : List ScanCall), (∀ e ∈ es, Fits e) →
      scanRun calls (FrameScanner.new ⟨name, ⟨frames.encodeAll es, []⟩⟩ offset) =
        ListCursor.run calls ⟨es, offset⟩ := by
  intro hall
  have hrun := hall [] [(⟨1⟩, [])] 8 [.read []] (by simp [Fits])
  revert hrun
  decide +kernel

end
end Woodshed
