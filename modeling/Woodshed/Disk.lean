import Woodshed.Types
import Woodshed.Sequencing

/-! The store directory as byte files, with the I/O calls the store makes on it. Each call can
be made to fail by a schedule of faults, one queue for each kind of call. -/
namespace Woodshed
open Sequencing

abbrev FileName := List Char

/-- A file's bytes, and the bytes it had when it was last synced. -/
structure FileData where
  bytes : Bytes
  durable : Bytes
deriving DecidableEq, Repr

structure Dir where
  present : Bool
  files : AList (fun _ : FileName => FileData)

/-- The two types of file in a store directory. -/
inductive FileKind where
  | manifest
  | segment
deriving DecidableEq, Repr

inductive Call where
  | create (kind : FileKind)
  | writeMagic (kind : FileKind)
  | flush (kind : FileKind)
  | sync (kind : FileKind)
  | setLen (kind : FileKind)
  | stat (kind : FileKind)
  | syncDir
  | remove
  | readDir
deriving DecidableEq, Repr

/-- What becomes of a read of a handle: it fails, or it returns at most `more+1` bytes. -/
inductive ReadStep where
  | fails
  | gives (more : ℕ)
deriving DecidableEq, Repr

/-- Which of the coming calls fail; a call whose queue is empty succeeds. An open takes the
schedule of the reads that will be made on the handle. -/
structure Faults where
  calls : Call → List Bool
  opens : List (Option (List ReadStep))

def Faults.none : Faults := ⟨fun _ => [], []⟩

structure World where
  dir : Dir
  faults : Faults

/-- A world in which no call fails. -/
def calm (d : Dir) : World := ⟨d, Faults.none⟩

abbrev Fs := EStateM IoError World

def faulted : IoError := ⟨.other, "input/output error"⟩

def call (c : Call) : Fs Unit := fun w =>
  match w.faults.calls c with
  | [] => .ok () w
  | b :: bs =>
    let w' := { w with faults := { w.faults with calls := Function.update w.faults.calls c bs } }
    if b then .error faulted w' else .ok () w'

theorem call_calm (c : Call) (d : Dir) : call c (calm d) = .ok () (calm d) := rfl

/-! ### The directory -/

def Dir.bytes (d : Dir) (name : FileName) : Option Bytes := (d.files.lookup name).map (·.bytes)

def Dir.durable (d : Dir) (name : FileName) : Option Bytes := (d.files.lookup name).map (·.durable)

def Dir.put (d : Dir) (name : FileName) (f : FileData) : Dir :=
  { d with files := d.files.insert name f }

def Dir.remove (d : Dir) (name : FileName) : Dir := { d with files := d.files.erase name }

/-- Change a file through an open handle. A handle on a removed file changes nothing here. -/
def Dir.edit (d : Dir) (name : FileName) (change : FileData → FileData) : Dir :=
  match d.files.lookup name with
  | none => d
  | some f => d.put name (change f)

/-- `write_all_at`: the bytes from `pos` on are replaced, a gap reads as zeros. -/
def overwrite (old : Bytes) (pos : ℕ) (new : Bytes) : Bytes :=
  (old ++ List.replicate (pos-old.length) 0).take pos ++ new ++ old.drop (pos+new.length)

/-- `set_len`: cut, or extend with zeros. -/
def resize (old : Bytes) (len : ℕ) : Bytes :=
  (old ++ List.replicate (len-old.length) 0).take len

/-- Write `data` at `pos` of a file. -/
def Dir.writeAt (d : Dir) (name : FileName) (pos : ℕ) (data : Bytes) : Dir :=
  d.edit name fun f => { f with bytes := overwrite f.bytes pos data }

def Dir.setLen (d : Dir) (name : FileName) (len : ℕ) : Dir :=
  d.edit name fun f => { f with bytes := resize f.bytes len }

/-- What a file holds now is what it holds after a crash. -/
def Dir.sync (d : Dir) (name : FileName) : Dir :=
  d.edit name fun f => { f with durable := f.bytes }

/-! ### Handles -/

/-- The bytes ahead of a handle, with the schedule of the coming reads. A read behind the end of the
schedule returns all that it has room for. -/
structure Stream where
  rest : Bytes
  reads : List ReadStep
deriving DecidableEq, Repr

/-- An open file: its name, and what lies ahead of the handle's own position. -/
structure File where
  name : FileName
  stream : Stream
deriving DecidableEq, Repr

/-- `Read::read` into a buffer of `n` bytes. It may come back short, but not empty unless there is no
room or nothing ahead. -/
def Stream.read (n : ℕ) : EStateM IoError Stream Bytes := fun s =>
  match s.reads with
  | [] => .ok (s.rest.take n) ⟨s.rest.drop n, []⟩
  | .fails :: reads => .error faulted ⟨s.rest, reads⟩
  | .gives more :: reads =>
    .ok (s.rest.take (min n (more+1))) ⟨s.rest.drop (min n (more+1)), reads⟩

/-- Reads until there are `n` bytes, or one of them returns nothing. -/
def Stream.readFull (n : ℕ) : EStateM IoError Stream Bytes :=
  if _hn : n = 0 then return []
  else do
    let bs ← Stream.read n
    if _h : bs = [] then return []
    else
      let more ← Stream.readFull (n-bs.length)
      return bs ++ more
termination_by n
decreasing_by
  have := List.length_pos_of_ne_nil _h
  omega

def unexpectedEof : IoError := ⟨.unexpectedEof, "failed to fill whole buffer"⟩

/-- `Read::read_exact` into a buffer of `n` bytes. -/
def Stream.readExact (n : ℕ) : EStateM IoError Stream Bytes := do
  let bs ← Stream.readFull n
  if bs.length < n then throw unexpectedEof
  else return bs

/-- `io::copy` of at most `n` bytes into a sink. -/
def Stream.skip (n : ℕ) : EStateM IoError Stream ℕ := do
  let bs ← Stream.readFull n
  return bs.length

def notFound : IoError := ⟨.notFound, "no such file or directory"⟩

/-- `File::create_new`. -/
def File.createNew (name : FileName) (kind : FileKind) : Fs File := do
  call (.create kind)
  let w ← get
  if w.dir.present = false then throw notFound
  else if name ∈ w.dir.files then throw ⟨.alreadyExists, "file exists"⟩
  else
    modify fun w => { w with dir := w.dir.put name ⟨[], []⟩ }
    return ⟨name, ⟨[], []⟩⟩

/-- `File::open`. -/
def File.open (name : FileName) : Fs File := do
  let w ← get
  match w.dir.bytes name, w.faults.opens with
  | _, .none :: rest =>
    modify fun w => { w with faults := { w.faults with opens := rest } }
    throw faulted
  | .none, _ => throw notFound
  | .some bytes, [] => return ⟨name, ⟨bytes, []⟩⟩
  | .some bytes, .some reads :: rest =>
    modify fun w => { w with faults := { w.faults with opens := rest } }
    return ⟨name, ⟨bytes, reads⟩⟩

/-- `write_all` at the start of a new file. -/
def File.writeMagic (f : File) (kind : FileKind) (magic : Bytes) : Fs Unit := do
  call (.writeMagic kind)
  modify fun w => { w with dir := w.dir.writeAt f.name 0 magic }

/-- `FileExt::write_all_at`. -/
def File.writeAllAt (name : FileName) (kind : FileKind) (data : Bytes) (pos : ℕ) : Fs Unit := do
  call (.flush kind)
  modify fun w => { w with dir := w.dir.writeAt name pos data }

def File.syncAll (name : FileName) (kind : FileKind) : Fs Unit := do
  call (.sync kind)
  modify fun w => { w with dir := w.dir.sync name }

def File.setLen (name : FileName) (kind : FileKind) (len : ℕ) : Fs Unit := do
  call (.setLen kind)
  modify fun w => { w with dir := w.dir.setLen name len }

/-- The length in a file's metadata. -/
def File.len (name : FileName) (kind : FileKind) : Fs ℕ := do
  call (.stat kind)
  let w ← get
  match w.dir.bytes name with
  | .none => throw notFound
  | .some bytes => return bytes.length

def File.remove (name : FileName) : Fs Unit := do
  call .remove
  let w ← get
  if name ∈ w.dir.files then modify fun w => { w with dir := w.dir.remove name }
  else throw notFound

/-! ### What the directory holds after a change -/

@[simp] theorem Dir.present_put (d : Dir) (name : FileName) (f : FileData) :
    (d.put name f).present = d.present := rfl

@[simp] theorem Dir.present_remove (d : Dir) (name : FileName) :
    (d.remove name).present = d.present := rfl

@[simp] theorem Dir.present_edit (d : Dir) (name : FileName) (g : FileData → FileData) :
    (d.edit name g).present = d.present := by
  unfold Dir.edit
  split <;> rfl

theorem Dir.mem_files_iff (d : Dir) (name : FileName) :
    name ∈ d.files ↔ (d.files.lookup name).isSome = true := by
  rw [AList.lookup_isSome]

theorem Dir.lookup_put (d : Dir) (name other : FileName) (f : FileData) :
    (d.put name f).files.lookup other = if other = name then some f else d.files.lookup other := by
  by_cases h : other = name
  · rw [if_pos h, h, Dir.put, AList.lookup_insert]
  · rw [if_neg h, Dir.put, AList.lookup_insert_ne h]

theorem Dir.lookup_edit (d : Dir) (name other : FileName) (g : FileData → FileData) :
    (d.edit name g).files.lookup other =
      if other = name then (d.files.lookup name).map g else d.files.lookup other := by
  unfold Dir.edit
  cases hl : d.files.lookup name with
  | none =>
    by_cases h : other = name
    · rw [if_pos h, h, hl, Option.map_none]
    · rw [if_neg h]
  | some f => rw [Dir.lookup_put, Option.map_some]

theorem Dir.lookup_remove (d : Dir) (name other : FileName) :
    (d.remove name).files.lookup other = if other = name then none else d.files.lookup other := by
  by_cases h : other = name
  · rw [if_pos h, h, Dir.remove, AList.lookup_erase]
  · rw [if_neg h, Dir.remove, AList.lookup_erase_ne h]

theorem Dir.mem_edit (d : Dir) (name other : FileName) (g : FileData → FileData) :
    other ∈ (d.edit name g).files ↔ other ∈ d.files := by
  rw [Dir.mem_files_iff, Dir.mem_files_iff, Dir.lookup_edit]
  by_cases h : other = name
  · rw [if_pos h, h, Option.isSome_map]
  · rw [if_neg h]

theorem Dir.mem_put (d : Dir) (name other : FileName) (f : FileData) :
    other ∈ (d.put name f).files ↔ other = name ∨ other ∈ d.files := by
  simp [Dir.put, AList.mem_insert]

theorem Dir.mem_remove (d : Dir) (name other : FileName) :
    other ∈ (d.remove name).files ↔ other ≠ name ∧ other ∈ d.files := by
  simp [Dir.remove, AList.mem_erase]

theorem Dir.bytes_put (d : Dir) (name other : FileName) (f : FileData) :
    (d.put name f).bytes other = if other = name then some f.bytes else d.bytes other := by
  rw [Dir.bytes, Dir.lookup_put]
  split <;> rfl

theorem Dir.bytes_remove (d : Dir) (name other : FileName) :
    (d.remove name).bytes other = if other = name then none else d.bytes other := by
  rw [Dir.bytes, Dir.lookup_remove]
  split <;> rfl

/-- A change of a file's bytes, seen from any file. -/
theorem Dir.bytes_edit (d : Dir) (name other : FileName) (g : FileData → FileData)
    (change : Bytes → Bytes) (hg : ∀ f, (g f).bytes = change f.bytes) :
    (d.edit name g).bytes other = if other = name then (d.bytes name).map change
      else d.bytes other := by
  rw [Dir.bytes, Dir.lookup_edit]
  by_cases h : other = name
  · rw [if_pos h, if_pos h, Dir.bytes, Option.map_map, Option.map_map]
    congr 1
    funext f
    exact hg f
  · rw [if_neg h, if_neg h, Dir.bytes]

theorem Dir.bytes_writeAt (d : Dir) (name other : FileName) (pos : ℕ) (data : Bytes) :
    (d.writeAt name pos data).bytes other =
      if other = name then (d.bytes name).map (overwrite · pos data) else d.bytes other :=
  d.bytes_edit name other _ _ fun _ => rfl

theorem Dir.bytes_setLen (d : Dir) (name other : FileName) (len : ℕ) :
    (d.setLen name len).bytes other =
      if other = name then (d.bytes name).map (resize · len) else d.bytes other :=
  d.bytes_edit name other _ _ fun _ => rfl

@[simp] theorem Dir.bytes_sync (d : Dir) (name other : FileName) :
    (d.sync name).bytes other = d.bytes other := by
  have h := d.bytes_edit name other (fun f => { f with durable := f.bytes }) (fun bs => bs)
    fun _ => rfl
  rw [Dir.sync, h]
  by_cases heq : other = name
  · rw [if_pos heq, heq, Option.map_id']
  · rw [if_neg heq]

theorem Dir.mem_of_bytes {d : Dir} {name : FileName} {bs : Bytes} (h : d.bytes name = some bs) :
    name ∈ d.files := by
  rw [Dir.mem_files_iff]
  rw [Dir.bytes] at h
  cases hl : d.files.lookup name with
  | none => rw [hl] at h; cases h
  | some f => rfl

/-- Writing where a file ends appends to it. -/
theorem overwrite_end (old new : Bytes) : overwrite old old.length new = old ++ new := by
  simp [overwrite]

theorem resize_of_le (old : Bytes) (len : ℕ) (h : len ≤ old.length) :
    resize old len = old.take len := by
  simp [resize, Nat.sub_eq_zero_of_le h]

/-! ### Calls that do not fail -/

theorem File.createNew_calm (d : Dir) (name : FileName) (kind : FileKind)
    (hp : d.present = true) (h : name ∉ d.files) :
    File.createNew name kind (calm d) = .ok ⟨name, ⟨[], []⟩⟩ (calm (d.put name ⟨[], []⟩)) := by
  unfold File.createNew
  rw [bind_ok (call_calm _ d), get_bind]
  simp only [calm, hp, Bool.true_eq_false, if_false, h]
  rfl

theorem File.syncAll_calm (d : Dir) (name : FileName) (kind : FileKind) :
    File.syncAll name kind (calm d) = .ok ⟨⟩ (calm (d.sync name)) := rfl

theorem File.setLen_calm (d : Dir) (name : FileName) (kind : FileKind) (len : ℕ) :
    File.setLen name kind len (calm d) = .ok ⟨⟩ (calm (d.setLen name len)) := rfl

theorem File.len_calm (d : Dir) (name : FileName) (kind : FileKind) {bs : Bytes}
    (h : d.bytes name = some bs) : File.len name kind (calm d) = .ok bs.length (calm d) := by
  unfold File.len
  rw [bind_ok (call_calm _ d), get_bind]
  simp only [calm, h]
  rfl

theorem File.remove_calm (d : Dir) (name : FileName) (h : name ∈ d.files) :
    File.remove name (calm d) = .ok ⟨⟩ (calm (d.remove name)) := by
  unfold File.remove
  rw [bind_ok (call_calm _ d), get_bind]
  exact congrFun (if_pos h) _

end Woodshed
