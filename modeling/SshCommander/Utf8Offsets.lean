import SshCommander.RustText

/-!
# Byte offsets into a text

Where the characters of a text stand in its bytes: an ASCII character is its own byte, every byte
of another one is out of the ASCII range, and a slice is defined at the boundaries only.
-/

namespace SshCommander.RustText

def Ascii (c : Char) : Prop := c.toNat < 128

instance (c : Char) : Decidable (Ascii c) := inferInstanceAs (Decidable (_ < _))

def firstByte (c : Char) : UInt8 := (String.utf8EncodeChar c).headD 0

theorem utf8_nil : utf8 [] = [] := rfl

theorem utf8_cons (c : Char) (cs : Text) : utf8 (c :: cs) = String.utf8EncodeChar c ++ utf8 cs :=
  List.flatMap_cons

theorem utf8_append (a b : Text) : utf8 (a ++ b) = utf8 a ++ utf8 b := List.flatMap_append

theorem length_utf8_cons (c : Char) (cs : Text) :
    (utf8 (c :: cs)).length = c.utf8Size + (utf8 cs).length := by
  rw [utf8_cons, List.length_append, String.length_utf8EncodeChar]

theorem encode_ascii {c : Char} (h : Ascii c) :
    String.utf8EncodeChar c = [UInt8.ofNat c.toNat] := by
  have h' : c.val.toNat ≤ 0x7f := Nat.le_of_lt_succ h
  rw [String.utf8EncodeChar]
  simp only [h', if_true]
  rfl

theorem utf8Size_ascii {c : Char} (h : Ascii c) : c.utf8Size = 1 := by
  rw [← String.length_utf8EncodeChar, encode_ascii h]
  rfl

theorem firstByte_ascii {c : Char} (h : Ascii c) : (firstByte c).toNat = c.toNat := by
  have h' : c.toNat < 128 := h
  rw [firstByte, encode_ascii h, List.headD_cons, UInt8.toNat_ofNat']
  omega

theorem encode_wide {c : Char} (h : ¬Ascii c) {b : UInt8} (hb : b ∈ String.utf8EncodeChar c) :
    128 ≤ b.toNat := by
  have h' : ¬c.val.toNat ≤ 0x7f := fun hle => h (Nat.lt_succ_of_le hle)
  have hc : c.val.toNat < 1114112 := by
    rcases c.valid with hv | hv
    · have := hv
      simp only [Nat.lt_iff_add_one_le] at this ⊢
      omega
    · exact hv.2
  rw [String.utf8EncodeChar] at hb
  simp only [h', if_false] at hb
  split at hb
  · simp only [List.mem_cons, List.not_mem_nil, or_false] at hb
    rcases hb with rfl | rfl <;> (rw [UInt8.toNat_ofNat']; omega)
  · split at hb
    · simp only [List.mem_cons, List.not_mem_nil, or_false] at hb
      rcases hb with rfl | rfl | rfl <;> (rw [UInt8.toNat_ofNat']; omega)
    · simp only [List.mem_cons, List.not_mem_nil, or_false] at hb
      rcases hb with rfl | rfl | rfl | rfl <;> (rw [UInt8.toNat_ofNat']; omega)

theorem firstByte_mem (c : Char) : firstByte c ∈ String.utf8EncodeChar c := by
  rw [firstByte]
  cases h : String.utf8EncodeChar c with
  | nil => exact absurd h String.utf8EncodeChar_ne_nil
  | cons b bs => simp

theorem firstByte_wide {c : Char} (h : ¬Ascii c) : 128 ≤ (firstByte c).toNat :=
  encode_wide h (firstByte_mem c)

/-- The first byte tells the ASCII characters apart. -/
theorem firstByte_eq_iff {c d : Char} (hd : Ascii d) :
    firstByte c = UInt8.ofNat d.toNat ↔ c = d := by
  have hd' : d.toNat < 128 := hd
  have hbyte : (UInt8.ofNat d.toNat).toNat = d.toNat := by
    rw [UInt8.toNat_ofNat']
    omega
  constructor
  · intro h
    by_cases hc : Ascii c
    · apply Char.toNat_inj.mp
      rw [← firstByte_ascii hc, h, hbyte]
    · have := firstByte_wide hc
      rw [h, hbyte] at this
      omega
  · rintro rfl
    apply UInt8.toNat_inj.mp
    rw [firstByte_ascii hd, hbyte]

theorem utf8Size_wide {c : Char} (h : ¬Ascii c) : 1 < c.utf8Size := by
  have hpos := c.utf8Size_pos
  by_contra hle
  have hone : c.utf8Size = 1 := by omega
  rw [Char.utf8Size_eq_one_iff, UInt32.le_iff_toNat_le] at hone
  exact h (Nat.lt_succ_of_le hone)

theorem getElem?_utf8_append (a b : Text) (j : ℕ) :
    (utf8 (a ++ b))[(utf8 a).length + j]? = (utf8 b)[j]? := by
  rw [utf8_append, List.getElem?_append_right (Nat.le_add_right _ _), Nat.add_sub_cancel_left]

theorem getElem?_utf8_zero (s : Text) : (utf8 s)[0]? = s.head?.map firstByte := by
  cases s with
  | nil => rfl
  | cons c cs =>
    rw [utf8_cons, List.head?_cons, Option.map_some, firstByte]
    cases h : String.utf8EncodeChar c with
    | nil => exact absurd h String.utf8EncodeChar_ne_nil
    | cons b bs => simp

/-- The byte at a boundary is the first byte of the character there. -/
theorem getElem?_boundary (a b : Text) :
    (utf8 (a ++ b))[(utf8 a).length]? = b.head?.map firstByte := by
  have := getElem?_utf8_append a b 0
  rwa [Nat.add_zero, getElem?_utf8_zero] at this

/-- The byte after an ASCII character is the first byte of the next character. -/
theorem getElem?_after_ascii (a : Text) {c : Char} (hc : Ascii c) (cs : Text) :
    (utf8 (a ++ c :: cs))[(utf8 a).length + 1]? = cs.head?.map firstByte := by
  rw [getElem?_utf8_append, utf8_cons, encode_ascii hc, List.singleton_append,
    List.getElem?_cons_succ, getElem?_utf8_zero]

theorem sliceFrom_boundary (a b : Text) : sliceFrom (a ++ b) (utf8 a).length = some b := by
  induction a with
  | nil => simp [utf8_nil]
  | cons c cs ih =>
    have hpos := c.utf8Size_pos
    rw [length_utf8_cons, List.cons_append]
    obtain ⟨k, hk⟩ : ∃ k, c.utf8Size + (utf8 cs).length = k + 1 := ⟨_, (Nat.succ_pred (by omega)).symm⟩
    rw [hk, sliceFrom, if_pos (by omega)]
    have : k + 1 - c.utf8Size = (utf8 cs).length := by omega
    rw [this, ih]

theorem sliceTo_boundary (a b : Text) : sliceTo (a ++ b) (utf8 a).length = some a := by
  induction a with
  | nil => simp [utf8_nil]
  | cons c cs ih =>
    have hpos := c.utf8Size_pos
    rw [length_utf8_cons, List.cons_append]
    obtain ⟨k, hk⟩ : ∃ k, c.utf8Size + (utf8 cs).length = k + 1 := ⟨_, (Nat.succ_pred (by omega)).symm⟩
    rw [hk, sliceTo, if_pos (by omega)]
    have : k + 1 - c.utf8Size = (utf8 cs).length := by omega
    rw [this, ih]
    rfl

/-- There is no slice from inside a character. -/
theorem sliceFrom_inside (a : Text) {c : Char} (cs : Text) {j : ℕ} (hj : 0 < j)
    (hc : j < c.utf8Size) : sliceFrom (a ++ c :: cs) ((utf8 a).length + j) = none := by
  induction a with
  | nil =>
    obtain ⟨k, rfl⟩ : ∃ k, j = k + 1 := ⟨_, (Nat.succ_pred (by omega)).symm⟩
    rw [utf8_nil, List.length_nil, Nat.zero_add, List.nil_append, sliceFrom, if_neg (by omega)]
  | cons d ds ih =>
    have hpos := d.utf8Size_pos
    rw [length_utf8_cons, List.cons_append]
    obtain ⟨k, hk⟩ : ∃ k, d.utf8Size + (utf8 ds).length + j = k + 1 :=
      ⟨_, (Nat.succ_pred (by omega)).symm⟩
    rw [hk, sliceFrom, if_pos (by omega)]
    have : k + 1 - d.utf8Size = (utf8 ds).length + j := by omega
    rw [this, ih]

theorem length_utf8_ascii {s : Text} (h : ∀ c ∈ s, Ascii c) : (utf8 s).length = s.length := by
  induction s with
  | nil => rfl
  | cons c cs ih =>
    rw [length_utf8_cons, utf8Size_ascii (h c (by simp)), ih fun d hd => h d (by simp [hd]),
      List.length_cons, Nat.add_comm]

theorem length_le_utf8 (s : Text) : s.length ≤ (utf8 s).length := by
  induction s with
  | nil => exact le_rfl
  | cons c cs ih =>
    have hpos := c.utf8Size_pos
    rw [length_utf8_cons, List.length_cons]
    omega

end SshCommander.RustText
