import Mathlib

/-! Self-delimiting records on a flat stream: a grammar gives the encoding of one record and a
decision on the head of an input, and greedy decoding cuts records off until the head is not
a complete valid one. -/
namespace Framing
variable {α β : Type*}

/-- What the head of an input is: nothing left, a record cut short, a complete record that
does not verify, or a verified record of the given size. -/
inductive Head (α : Type*) where
  | done
  | torn
  | corrupt
  | item (a : α) (size : ℕ)

structure Grammar (α β : Type*) where
  encode : α → List β
  /-- The records whose encoding is faithful. -/
  Fits : α → Prop
  head : List β → Head α
  encode_ne_nil : ∀ a, encode a ≠ []
  head_nil : head [] = .done
  head_encode : ∀ a rest, Fits a → head (encode a ++ rest) = .item a (encode a).length
  head_torn : ∀ a xs, Fits a → xs <+: encode a → xs ≠ [] → xs ≠ encode a → head xs = .torn
  done_sound : ∀ xs, head xs = .done → xs = []
  item_sound : ∀ xs a n, head xs = .item a n → Fits a ∧ n = (encode a).length ∧ encode a <+: xs

/-- Why greedy decoding stopped. -/
inductive Stop where
  | clean
  | torn
  | corrupt
deriving DecidableEq, Repr

structure Decoded (α β : Type*) where
  items : List α
  rest : List β
  stop : Stop

namespace Grammar
variable (G : Grammar α β)

def encodeAll (as : List α) : List β := as.flatMap G.encode

@[simp] theorem encodeAll_nil : G.encodeAll [] = [] := rfl

@[simp] theorem encodeAll_cons (a : α) (as : List α) :
    G.encodeAll (a :: as) = G.encode a ++ G.encodeAll as := rfl

@[simp] theorem encodeAll_append (as bs : List α) :
    G.encodeAll (as ++ bs) = G.encodeAll as ++ G.encodeAll bs := by
  simp [encodeAll]

theorem encode_length_pos (a : α) : 0 < (G.encode a).length :=
  List.length_pos_of_ne_nil (G.encode_ne_nil a)

theorem drop_length_lt {xs : List β} {a : α} {n : ℕ} (h : G.head xs = .item a n) :
    (xs.drop n).length < xs.length := by
  obtain ⟨_, hn, hp⟩ := G.item_sound xs a n h
  have hpos := G.encode_length_pos a
  have hle := hp.length_le
  rw [List.length_drop]
  omega

/-- Greedy decoding. -/
def decode (xs : List β) : Decoded α β :=
  match _h : G.head xs with
  | .done => ⟨[], xs, .clean⟩
  | .torn => ⟨[], xs, .torn⟩
  | .corrupt => ⟨[], xs, .corrupt⟩
  | .item a n =>
    let r := decode (xs.drop n)
    ⟨a :: r.items, r.rest, r.stop⟩
termination_by xs.length
decreasing_by exact G.drop_length_lt _h

variable {G}

theorem decode_done {xs : List β} (h : G.head xs = .done) : G.decode xs = ⟨[], xs, .clean⟩ := by
  rw [decode]
  split <;> simp_all

theorem decode_torn {xs : List β} (h : G.head xs = .torn) : G.decode xs = ⟨[], xs, .torn⟩ := by
  rw [decode]
  split <;> simp_all

theorem decode_corrupt {xs : List β} (h : G.head xs = .corrupt) :
    G.decode xs = ⟨[], xs, .corrupt⟩ := by
  rw [decode]
  split <;> simp_all

theorem decode_item {xs : List β} {a : α} {n : ℕ} (h : G.head xs = .item a n) :
    G.decode xs = ⟨a :: (G.decode (xs.drop n)).items, (G.decode (xs.drop n)).rest,
      (G.decode (xs.drop n)).stop⟩ := by
  rw [decode]
  split <;> simp_all

variable (G)

@[simp] theorem decode_nil : G.decode [] = ⟨[], [], .clean⟩ := decode_done G.head_nil

/-- Encoded records in front of an input are decoded first. -/
theorem decode_encodeAll_append (as : List α) (xs : List β) (hf : ∀ a ∈ as, G.Fits a) :
    G.decode (G.encodeAll as ++ xs) =
      ⟨as ++ (G.decode xs).items, (G.decode xs).rest, (G.decode xs).stop⟩ := by
  induction as with
  | nil => simp
  | cons a as ih =>
    have hhead : G.head (G.encodeAll (a :: as) ++ xs) = .item a (G.encode a).length := by
      rw [encodeAll_cons, List.append_assoc]
      exact G.head_encode a _ (hf a (by simp))
    have hdrop : (G.encodeAll (a :: as) ++ xs).drop (G.encode a).length = G.encodeAll as ++ xs := by
      rw [encodeAll_cons, List.append_assoc, List.drop_left]
    rw [decode_item hhead, hdrop, ih (fun b hb => hf b (by simp [hb]))]
    rfl

theorem decode_encodeAll (as : List α) (hf : ∀ a ∈ as, G.Fits a) :
    G.decode (G.encodeAll as) = ⟨as, [], .clean⟩ := by
  simpa using G.decode_encodeAll_append as [] hf

/-- The head the decoder stops at, for each reason to stop. -/
def Stop.Head (s : Stop) (xs : List β) : Prop :=
  match s with
  | .clean => xs = []
  | .torn => G.head xs = .torn
  | .corrupt => G.head xs = .corrupt

/-- The input is the encoding of the decoded records followed by what was not decoded. -/
theorem decode_sound (xs : List β) :
    xs = G.encodeAll (G.decode xs).items ++ (G.decode xs).rest ∧
      (∀ a ∈ (G.decode xs).items, G.Fits a) ∧
      Stop.Head G (G.decode xs).stop (G.decode xs).rest := by
  induction hn : xs.length using Nat.strongRecOn generalizing xs with
  | ind n ih =>
    cases hh : G.head xs with
    | done =>
      have hnil := G.done_sound xs hh
      rw [decode_done hh]
      exact ⟨by simp [hnil], by simp, hnil⟩
    | torn =>
      rw [decode_torn hh]
      exact ⟨by simp, by simp, hh⟩
    | corrupt =>
      rw [decode_corrupt hh]
      exact ⟨by simp, by simp, hh⟩
    | item a m =>
      obtain ⟨hfit, hm, hp⟩ := G.item_sound xs a m hh
      obtain ⟨hsplit, hfits, hstop⟩ := ih _ (hn ▸ G.drop_length_lt hh) (xs.drop m) rfl
      rw [decode_item hh]
      refine ⟨?_, ?_, hstop⟩
      · have htake : xs.take m = G.encode a := by
          rw [hm]
          exact (List.prefix_iff_eq_take.mp hp).symm
        calc
          xs = xs.take m ++ xs.drop m := (List.take_append_drop m xs).symm
          _ = G.encode a ++ (G.encodeAll (G.decode (xs.drop m)).items
                ++ (G.decode (xs.drop m)).rest) := by rw [htake, ← hsplit]
          _ = _ := by simp
      · intro b hb
        rcases List.mem_cons.mp hb with rfl | hb
        · exact hfit
        · exact hfits b hb

/-- No longer list of records is encoded at the front of the input. -/
theorem prefix_decode (as : List α) (xs : List β) (hf : ∀ a ∈ as, G.Fits a)
    (hp : G.encodeAll as <+: xs) : as <+: (G.decode xs).items := by
  obtain ⟨ys, rfl⟩ := hp
  rw [decode_encodeAll_append G as ys hf]
  exact List.prefix_append _ _

variable {G}

theorem Stop.Head.eq_clean {s : Stop} (h : Stop.Head G s []) : s = .clean := by
  cases s with
  | clean => rfl
  | torn => simp [Stop.Head, G.head_nil] at h
  | corrupt => simp [Stop.Head, G.head_nil] at h

theorem Stop.Head.eq_torn {s : Stop} {xs : List β} (h : Stop.Head G s xs)
    (ht : G.head xs = .torn) : s = .torn := by
  cases s with
  | clean => rw [Stop.Head] at h; simp [h, G.head_nil] at ht
  | torn => rfl
  | corrupt => simp [Stop.Head, ht] at h

theorem Stop.Head.not_prefix {s : Stop} {xs : List β} (h : Stop.Head G s xs) {a : α}
    (ha : G.Fits a) : ¬ G.encode a <+: xs := by
  rintro ⟨ys, rfl⟩
  have hitem := G.head_encode a ys ha
  cases s with
  | clean => exact G.encode_ne_nil a (List.append_eq_nil_iff.mp h).1
  | torn => simp [Stop.Head, hitem] at h
  | corrupt => simp [Stop.Head, hitem] at h

variable (G)

/-- What greedy decoding finds in a prefix of an encoding: the longest list of whole records in
it, followed by nothing or by a torn record. -/
theorem decode_prefix (as : List α) (xs : List β) (hf : ∀ a ∈ as, G.Fits a)
    (hp : xs <+: G.encodeAll as) :
    ∃ k ≤ as.length, (G.decode xs).items = as.take k ∧
      (∀ j ≤ as.length, (G.encodeAll (as.take j)).length ≤ xs.length → j ≤ k) ∧
      ((G.decode xs).stop = .clean ∧ (G.decode xs).rest = [] ∨
        (G.decode xs).stop = .torn ∧ G.head (G.decode xs).rest = .torn) := by
  obtain ⟨hsplit, hfits, hstop⟩ := G.decode_sound xs
  have hpre : (G.decode xs).items <+: as := by
    have h := G.prefix_decode (G.decode xs).items (G.encodeAll as) hfits
      (List.IsPrefix.trans ⟨_, hsplit.symm⟩ hp)
    rwa [decode_encodeAll G as hf] at h
  refine ⟨(G.decode xs).items.length, hpre.length_le, List.prefix_iff_eq_take.mp hpre, ?_, ?_⟩
  · intro j hj hlen
    have hjp : G.encodeAll (as.take j) <+: xs := by
      refine List.prefix_of_prefix_length_le ?_ hp hlen
      conv_rhs => rw [← List.take_append_drop j as, encodeAll_append]
      exact List.prefix_append _ _
    have h := G.prefix_decode (as.take j) xs (fun a ha => hf a (List.mem_of_mem_take ha)) hjp
    simpa [Nat.min_eq_left hj] using h.length_le
  · obtain ⟨bs, hbs⟩ := hpre
    have hrest : (G.decode xs).rest <+: G.encodeAll bs := by
      rw [← hbs, encodeAll_append] at hp
      have hle : G.encodeAll (G.decode xs).items ++ (G.decode xs).rest <+: xs :=
        hsplit ▸ List.prefix_refl _
      exact (List.prefix_append_right_inj _).mp (hle.trans hp)
    cases hr : (G.decode xs).rest with
    | nil => exact Or.inl ⟨Stop.Head.eq_clean (hr ▸ hstop), rfl⟩
    | cons y ys =>
      rw [hr] at hrest hstop
      cases bs with
      | nil => simp at hrest
      | cons b bs =>
        -- the rest is a proper prefix of the next record, or the decoder would have taken it
        have hfb : G.Fits b := hf b (by simp [← hbs])
        have hnot := hstop.not_prefix hfb
        have hshort : y :: ys <+: G.encode b :=
          (List.prefix_or_prefix_of_prefix hrest (List.prefix_append _ _)).resolve_right hnot
        have htorn := G.head_torn b (y :: ys) hfb hshort (by simp)
          (fun he => hnot (he ▸ List.prefix_refl _))
        exact Or.inr ⟨hstop.eq_torn htorn, htorn⟩

end Grammar
end Framing
