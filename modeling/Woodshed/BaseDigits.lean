import Mathlib

/-! Fixed-width big-endian numerals: `w` digits in base `b`, the most significant first, and
their instance in base 256 on byte lists. -/
namespace BaseDigits

/-- The `w` low digits of `n` in base `b`, most significant first. -/
def toDigits (b : ℕ) : ℕ → ℕ → List ℕ
  | 0, _ => []
  | w+1, n => toDigits b w (n/b) ++ [n%b]

/-- The number a big-endian digit list denotes. -/
def ofDigits (b : ℕ) (ds : List ℕ) : ℕ := ds.foldl (fun acc d => acc*b+d) 0

@[simp] theorem length_toDigits (b w n : ℕ) : (toDigits b w n).length = w := by
  induction w generalizing n with
  | zero => rfl
  | succ w ih => simp [toDigits, ih]

@[simp] theorem ofDigits_nil (b : ℕ) : ofDigits b [] = 0 := rfl

theorem ofDigits_snoc (b : ℕ) (ds : List ℕ) (d : ℕ) :
    ofDigits b (ds ++ [d]) = ofDigits b ds*b+d := by
  simp [ofDigits]

theorem toDigits_lt (b w n : ℕ) (hb : 0 < b) : ∀ d ∈ toDigits b w n, d < b := by
  induction w generalizing n with
  | zero => simp [toDigits]
  | succ w ih =>
    intro d hd
    rcases List.mem_append.mp hd with h | h
    · exact ih (n/b) d h
    · rw [List.mem_singleton.mp h]
      exact Nat.mod_lt n hb

/-- Writing and reading back keeps the number modulo the width. -/
theorem ofDigits_toDigits (b w n : ℕ) : ofDigits b (toDigits b w n) = n%b^w := by
  induction w generalizing n with
  | zero => simp [toDigits, Nat.mod_one]
  | succ w ih =>
    rw [toDigits, ofDigits_snoc, ih, Nat.pow_succ', Nat.mod_mul]
    ring

theorem ofDigits_lt (b : ℕ) (ds : List ℕ) (h : ∀ d ∈ ds, d < b) : ofDigits b ds < b^ds.length := by
  induction ds using List.reverseRecOn with
  | nil => simp
  | append_singleton ds d ih =>
    have hd : d < b := h d (by simp)
    have hds := ih (fun e he => h e (by simp [he]))
    rw [ofDigits_snoc, List.length_append, List.length_singleton, pow_succ]
    nlinarith

/-- Reading and writing back gives the same digits. -/
theorem toDigits_ofDigits (b : ℕ) (ds : List ℕ) (h : ∀ d ∈ ds, d < b) :
    toDigits b ds.length (ofDigits b ds) = ds := by
  induction ds using List.reverseRecOn with
  | nil => rfl
  | append_singleton ds d ih =>
    have hd : d < b := h d (by simp)
    have hb : 0 < b := by omega
    have hq : (ofDigits b ds*b+d)/b = ofDigits b ds := by
      rw [Nat.add_comm, Nat.add_mul_div_right _ _ hb, Nat.div_eq_of_lt hd, Nat.zero_add]
    have hr : (ofDigits b ds*b+d)%b = d := by
      rw [Nat.add_comm, Nat.add_mul_mod_self_right, Nat.mod_eq_of_lt hd]
    rw [List.length_append, List.length_singleton, toDigits, ofDigits_snoc, hq, hr,
      ih (fun e he => h e (by simp [he]))]

/-- The `w` big-endian bytes of `n`. -/
def toBytes (w n : ℕ) : List UInt8 := (toDigits 256 w n).map UInt8.ofNat

/-- The number a big-endian byte string denotes. -/
def ofBytes (bs : List UInt8) : ℕ := ofDigits 256 (bs.map UInt8.toNat)

@[simp] theorem length_toBytes (w n : ℕ) : (toBytes w n).length = w := by simp [toBytes]

theorem ofBytes_toBytes (w n : ℕ) : ofBytes (toBytes w n) = n%256^w := by
  have hid : ((toDigits 256 w n).map UInt8.ofNat).map UInt8.toNat = toDigits 256 w n := by
    rw [List.map_map, List.map_congr_left, List.map_id]
    intro d hd
    have := toDigits_lt 256 w n (by decide) d hd
    simp only [Function.comp, id, UInt8.toNat_ofNat']
    omega
  rw [ofBytes, toBytes, hid, ofDigits_toDigits]

theorem ofBytes_lt (bs : List UInt8) : ofBytes bs < 256^bs.length := by
  have h := ofDigits_lt 256 (bs.map UInt8.toNat) (by
    intro d hd
    obtain ⟨x, _, rfl⟩ := List.mem_map.mp hd
    exact x.toNat_lt)
  simpa [ofBytes] using h

theorem toBytes_ofBytes (bs : List UInt8) : toBytes bs.length (ofBytes bs) = bs := by
  have h := toDigits_ofDigits 256 (bs.map UInt8.toNat) (by
    intro d hd
    obtain ⟨x, _, rfl⟩ := List.mem_map.mp hd
    exact x.toNat_lt)
  rw [List.length_map] at h
  rw [toBytes, ofBytes, h, List.map_map, List.map_congr_left, List.map_id]
  intro x _
  simp

end BaseDigits
