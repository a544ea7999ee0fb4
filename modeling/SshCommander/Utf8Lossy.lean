import SshCommander.Utf8Offsets

/-!
# Lossy UTF-8 decoding

A decoder that takes one byte at a time. A byte that no sequence of the encoding can hold at its
place, and a sequence that is broken off, each give one replacement character.
-/

namespace SshCommander.Utf8Lossy
open RustText

/-- A sequence that has begun: how many bytes follow the next one, the range of the next one and
the bits so far. -/
structure Pending where
  more : ℕ
  low : ℕ
  high : ℕ
  bits : ℕ
  low_le : 0x80 ≤ low
  le_high : high ≤ 0xBF
  deriving DecidableEq, Repr

def Pending.accepts (p : Pending) (b : UInt8) : Prop := p.low ≤ b.toNat ∧ b.toNat ≤ p.high

instance (p : Pending) (b : UInt8) : Decidable (p.accepts b) := inferInstanceAs (Decidable (_ ∧ _))

/-- The sequence that a byte begins, when it begins one of several bytes. -/
def opened (b : UInt8) : Option Pending :=
  let n := b.toNat
  if 0xC2 ≤ n ∧ n ≤ 0xDF then some ⟨0, 0x80, 0xBF, n - 0xC0, by decide, by decide⟩
  else if n = 0xE0 then some ⟨1, 0xA0, 0xBF, n - 0xE0, by decide, by decide⟩
  else if n = 0xED then some ⟨1, 0x80, 0x9F, n - 0xE0, by decide, by decide⟩
  else if 0xE1 ≤ n ∧ n ≤ 0xEF then some ⟨1, 0x80, 0xBF, n - 0xE0, by decide, by decide⟩
  else if n = 0xF0 then some ⟨2, 0x90, 0xBF, n - 0xF0, by decide, by decide⟩
  else if n = 0xF4 then some ⟨2, 0x80, 0x8F, n - 0xF0, by decide, by decide⟩
  else if 0xF1 ≤ n ∧ n ≤ 0xF3 then some ⟨2, 0x80, 0xBF, n - 0xF0, by decide, by decide⟩
  else none

def replacement : Char := Char.ofNat 0xFFFD

def Pending.joined (p : Pending) (b : UInt8) : ℕ := p.bits * 64 + (b.toNat - 0x80)

/-- The next byte of a sequence ends it, or leaves it with one byte less to come. -/
def Pending.extend (p : Pending) (b : UInt8) : Text × Option Pending :=
  match p.more with
  | 0 => ([Char.ofNat (p.joined b)], none)
  | n + 1 => ([], some ⟨n, 0x80, 0xBF, p.joined b, by decide, by decide⟩)

/-- A byte between two sequences. -/
def start (b : UInt8) : Text × Option Pending :=
  if b.toNat < 0x80 then ([Char.ofNat b.toNat], none)
  else match opened b with
    | some p => ([], some p)
    | none => ([replacement], none)

def feed : Option Pending → UInt8 → Text × Option Pending
  | none, b => start b
  | some p, b => if p.accepts b then p.extend b else (replacement :: (start b).1, (start b).2)

/-- A sequence is broken off at the end of the bytes. -/
def flush : Option Pending → Text
  | none => []
  | some _ => [replacement]

def decode : Option Pending → List UInt8 → Text
  | q, [] => flush q
  | q, b :: bs => (feed q b).1 ++ decode (feed q b).2 bs

def fromUtf8Lossy (bs : List UInt8) : Text := decode none bs

/-- The characters that are complete before the end of the bytes. -/
def written : Option Pending → List UInt8 → Text
  | _, [] => []
  | q, b :: bs => (feed q b).1 ++ written (feed q b).2 bs

/-- The sequence that is open after the bytes. -/
def left : Option Pending → List UInt8 → Option Pending
  | q, [] => q
  | q, b :: bs => left (feed q b).2 bs

def Continues : Option Pending → List UInt8 → Prop
  | some p, b :: _ => p.accepts b
  | _, _ => False

variable {p : Pending} {q : Option Pending} {a b : List UInt8}

theorem decode_append (q : Option Pending) (a b : List UInt8) :
    decode q (a ++ b) = written q a ++ decode (left q a) b := by
  induction a generalizing q with
  | nil => rfl
  | cons x xs ih => simp only [List.cons_append, decode, written, left, ih, List.append_assoc]

theorem decode_eq_flush (q : Option Pending) (a : List UInt8) :
    decode q a = written q a ++ flush (left q a) := by
  have := decode_append q a []
  rwa [List.append_nil] at this

theorem left_append (q : Option Pending) (a b : List UInt8) :
    left q (a ++ b) = left (left q a) b := by
  induction a generalizing q with
  | nil => rfl
  | cons x xs ih => exact ih _

/-- Bytes that do not go on with the open sequence break it off. -/
theorem decode_of_not_continues (h : ¬Continues q b) : decode q b = flush q ++ decode none b := by
  cases q with
  | none => rfl
  | some p =>
    cases b with
    | nil => rfl
    | cons x xs =>
      have hx : ¬p.accepts x := h
      simp only [decode, feed, hx, if_false, flush, List.cons_append, List.nil_append]

/-- A byte that goes on with a sequence begins none. -/
theorem start_of_accepts {x : UInt8} (h : p.accepts x) : start x = ([replacement], none) := by
  obtain ⟨hlow, hhigh⟩ := h
  have h1 := p.low_le
  have h2 := p.le_high
  have hopened : opened x = none := by
    unfold opened
    simp only
    repeat rw [if_neg (by omega)]
  rw [start, if_neg (by omega), hopened]

/-- A byte that goes on with a sequence gives one character less than it does on its own. -/
theorem length_decode_accepted {x : UInt8} {xs : List UInt8} (h : p.accepts x)
    (hxs : ∀ q, (decode q xs).length ≤ 1 + (decode none xs).length) :
    (decode (some p) (x :: xs)).length < 1 + (decode none (x :: xs)).length := by
  have hstart := start_of_accepts h
  simp only [decode, feed, h, if_true, hstart, Pending.extend]
  cases hm : p.more with
  | zero => simp
  | succ n =>
    have := hxs (some ⟨n, 0x80, 0xBF, p.joined x, by decide, by decide⟩)
    simp only [List.nil_append, List.length_append, List.length_singleton]
    omega

theorem length_decode_le (q : Option Pending) (b : List UInt8) :
    (decode q b).length ≤ 1 + (decode none b).length := by
  induction b generalizing q with
  | nil => cases q <;> simp [decode, flush]
  | cons x xs ih =>
    by_cases h : Continues q (x :: xs)
    · cases q with
      | none => exact h.elim
      | some p => exact (length_decode_accepted h ih).le
    · rw [decode_of_not_continues h, List.length_append]
      cases q <;> simp [flush]

/-- Bytes that go on with a sequence are shorter with it than without. -/
theorem length_decode_lt (h : Continues q b) :
    (decode q b).length < 1 + (decode none b).length := by
  cases q with
  | none => exact h.elim
  | some p =>
    cases b with
    | nil => exact h.elim
    | cons x xs => exact length_decode_accepted h fun q => length_decode_le q xs

theorem flush_of_continues (h : Continues q b) : flush q = [replacement] := by
  cases q with
  | none => exact h.elim
  | some p => rfl

/-- Two parts decode as their whole when the cut is not inside of a sequence. -/
theorem fromUtf8Lossy_append (h : ¬Continues (left none a) b) :
    fromUtf8Lossy (a ++ b) = fromUtf8Lossy a ++ fromUtf8Lossy b := by
  rw [fromUtf8Lossy, decode_append, decode_of_not_continues h, ← List.append_assoc,
    ← decode_eq_flush]
  rfl

/-- Two parts are longer than their whole when the cut is inside of a sequence. -/
theorem length_append_lt (h : Continues (left none a) b) :
    (fromUtf8Lossy (a ++ b)).length < (fromUtf8Lossy a).length + (fromUtf8Lossy b).length := by
  have := length_decode_lt h
  simp only [fromUtf8Lossy, decode_append, decode_eq_flush none a, flush_of_continues h,
    List.length_append, List.length_singleton]
  omega

theorem length_append_le (a b : List UInt8) :
    (fromUtf8Lossy (a ++ b)).length ≤ (fromUtf8Lossy a).length + (fromUtf8Lossy b).length := by
  by_cases h : Continues (left none a) b
  · exact (length_append_lt h).le
  · rw [fromUtf8Lossy_append h, List.length_append]

/-- The bytes are what is to come of a sequence, and the character is the one that it spells. -/
inductive Spells : Pending → List UInt8 → Char → Prop
  | last {p : Pending} {b : UInt8} {c : Char} (hb : p.accepts b) (hmore : p.more = 0)
      (hc : c = Char.ofNat (p.joined b)) : Spells p [b] c
  | next {p : Pending} {b : UInt8} {bs : List UInt8} {c : Char} {n : ℕ} (hb : p.accepts b)
      (hmore : p.more = n + 1)
      (hbs : Spells ⟨n, 0x80, 0xBF, p.joined b, by decide, by decide⟩ bs c) : Spells p (b :: bs) c

theorem Spells.decode {bs : List UInt8} {c : Char} (h : Spells p bs c) (rest : List UInt8) :
    decode (some p) (bs ++ rest) = c :: decode none rest := by
  induction h with
  | last hb hmore hc =>
    simp only [List.cons_append, List.nil_append, Utf8Lossy.decode, feed, hb, if_true,
      Pending.extend, hmore, hc]
  | next hb hmore _ ih =>
    simp only [List.cons_append, List.nil_append, Utf8Lossy.decode, feed, hb, if_true,
      Pending.extend, hmore]
    exact ih

/-- A sequence goes on with each of its bytes. -/
theorem Spells.continues {bs s : List UInt8} {c : Char} {x : UInt8} (h : Spells p bs c)
    (hs : s ++ [x] <+: bs) : Continues (left (some p) s) [x] := by
  induction h generalizing s with
  | @last p b c hb hmore _ =>
    cases s with
    | nil =>
      obtain ⟨rfl, -⟩ := List.cons_prefix_cons.mp hs
      exact hb
    | cons y ys =>
      have := hs.length_le
      simp at this
  | @next p b bs c n hb hmore _ ih =>
    cases s with
    | nil =>
      obtain ⟨rfl, -⟩ := List.cons_prefix_cons.mp hs
      exact hb
    | cons y ys =>
      obtain ⟨rfl, hys⟩ := List.cons_prefix_cons.mp hs
      simp only [left, feed, hb, if_true, Pending.extend, hmore]
      exact ih hys

/-- Every byte that goes on with a sequence goes on with one that spells a character. -/
theorem exists_spells {x : UInt8} (h : p.accepts x) : ∃ bs c, Spells p (x :: bs) c := by
  obtain ⟨m, low, high, bits, hlow, hhigh⟩ := p
  induction m generalizing low high bits x with
  | zero => exact ⟨[], _, .last h rfl rfl⟩
  | succ n ih =>
    obtain ⟨bs, c, hbs⟩ := ih (x := 0x80) 0x80 0xBF (bits * 64 + (x.toNat - 0x80)) (by decide)
      (by decide) ⟨Nat.le_refl _, (by decide : 0x80 ≤ 0xBF)⟩
    exact ⟨0x80 :: bs, c, .next h rfl hbs⟩

/-- What a byte must be to begin a sequence of three bytes that goes on with the other one. -/
structure Opens3 (x b : UInt8) : Prop where
  lead : 0xE0 ≤ x.toNat ∧ x.toNat ≤ 0xEF
  tail : 0x80 ≤ b.toNat ∧ b.toNat ≤ 0xBF
  short : x.toNat = 0xE0 → 0xA0 ≤ b.toNat
  surrogate : x.toNat = 0xED → b.toNat ≤ 0x9F

structure Opens4 (x b : UInt8) : Prop where
  lead : 0xF0 ≤ x.toNat ∧ x.toNat ≤ 0xF4
  tail : 0x80 ≤ b.toNat ∧ b.toNat ≤ 0xBF
  short : x.toNat = 0xF0 → 0x90 ≤ b.toNat
  large : x.toNat = 0xF4 → b.toNat ≤ 0x8F

theorem opened_two {x b : UInt8} (hx : 0xC2 ≤ x.toNat ∧ x.toNat ≤ 0xDF)
    (hb : 0x80 ≤ b.toNat ∧ b.toNat ≤ 0xBF) :
    ∃ p, opened x = some p ∧ p.more = 0 ∧ p.accepts b ∧
      p.joined b = (x.toNat - 0xC0) * 64 + (b.toNat - 0x80) := by
  simp only [opened]
  rw [if_pos hx]
  exact ⟨_, rfl, rfl, hb, rfl⟩

theorem opened_three {x b : UInt8} (h : Opens3 x b) :
    ∃ p, opened x = some p ∧ p.more = 1 ∧ p.accepts b ∧
      p.joined b = (x.toNat - 0xE0) * 64 + (b.toNat - 0x80) := by
  obtain ⟨hlead, htail, hshort, hsurrogate⟩ := h
  simp only [opened]
  rw [if_neg (by omega)]
  by_cases h0 : x.toNat = 0xE0
  · rw [if_pos h0]
    exact ⟨_, rfl, rfl, ⟨hshort h0, htail.2⟩, rfl⟩
  by_cases hd : x.toNat = 0xED
  · rw [if_neg h0, if_pos hd]
    exact ⟨_, rfl, rfl, ⟨htail.1, hsurrogate hd⟩, rfl⟩
  rw [if_neg h0, if_neg hd, if_pos (by omega)]
  exact ⟨_, rfl, rfl, htail, rfl⟩

theorem opened_four {x b : UInt8} (h : Opens4 x b) :
    ∃ p, opened x = some p ∧ p.more = 2 ∧ p.accepts b ∧
      p.joined b = (x.toNat - 0xF0) * 64 + (b.toNat - 0x80) := by
  obtain ⟨hlead, htail, hshort, hlarge⟩ := h
  simp only [opened]
  rw [if_neg (by omega), if_neg (by omega), if_neg (by omega), if_neg (by omega)]
  by_cases h0 : x.toNat = 0xF0
  · rw [if_pos h0]
    exact ⟨_, rfl, rfl, ⟨hshort h0, htail.2⟩, rfl⟩
  by_cases h4 : x.toNat = 0xF4
  · rw [if_neg h0, if_pos h4]
    exact ⟨_, rfl, rfl, ⟨htail.1, hlarge h4⟩, rfl⟩
  rw [if_neg h0, if_neg h4, if_pos (by omega)]
  exact ⟨_, rfl, rfl, htail, rfl⟩

/-- The three lengths of a sequence of several bytes. -/
theorem opened_cases {x b : UInt8} (h : opened x = some p) (hb : p.accepts b) :
    (p.more = 0 ∧ p.joined b = (x.toNat - 0xC0) * 64 + (b.toNat - 0x80) ∧
        0xC2 ≤ x.toNat ∧ x.toNat ≤ 0xDF) ∨
      (p.more = 1 ∧ p.joined b = (x.toNat - 0xE0) * 64 + (b.toNat - 0x80) ∧ Opens3 x b) ∨
      (p.more = 2 ∧ p.joined b = (x.toNat - 0xF0) * 64 + (b.toNat - 0x80) ∧ Opens4 x b) := by
  have htail : 0x80 ≤ b.toNat ∧ b.toNat ≤ 0xBF := ⟨p.low_le.trans hb.1, hb.2.trans p.le_high⟩
  simp only [opened] at h
  by_cases hx : 0xC2 ≤ x.toNat ∧ x.toNat ≤ 0xDF
  · rw [if_pos hx] at h
    obtain rfl := Option.some.inj h
    exact .inl ⟨rfl, rfl, hx⟩
  rw [if_neg hx] at h
  by_cases hE0 : x.toNat = 0xE0
  · rw [if_pos hE0] at h
    obtain rfl := Option.some.inj h
    exact .inr (.inl ⟨rfl, rfl, by omega, htail, fun _ => hb.1, by omega⟩)
  rw [if_neg hE0] at h
  by_cases hED : x.toNat = 0xED
  · rw [if_pos hED] at h
    obtain rfl := Option.some.inj h
    exact .inr (.inl ⟨rfl, rfl, by omega, htail, by omega, fun _ => hb.2⟩)
  rw [if_neg hED] at h
  by_cases hthree : 0xE1 ≤ x.toNat ∧ x.toNat ≤ 0xEF
  · rw [if_pos hthree] at h
    obtain rfl := Option.some.inj h
    exact .inr (.inl ⟨rfl, rfl, by omega, htail, by omega, by omega⟩)
  rw [if_neg hthree] at h
  by_cases hF0 : x.toNat = 0xF0
  · rw [if_pos hF0] at h
    obtain rfl := Option.some.inj h
    exact .inr (.inr ⟨rfl, rfl, by omega, htail, fun _ => hb.1, by omega⟩)
  rw [if_neg hF0] at h
  by_cases hF4 : x.toNat = 0xF4
  · rw [if_pos hF4] at h
    obtain rfl := Option.some.inj h
    exact .inr (.inr ⟨rfl, rfl, by omega, htail, by omega, fun _ => hb.2⟩)
  rw [if_neg hF4] at h
  by_cases hfour : 0xF1 ≤ x.toNat ∧ x.toNat ≤ 0xF3
  · rw [if_pos hfour] at h
    obtain rfl := Option.some.inj h
    exact .inr (.inr ⟨rfl, rfl, by omega, htail, by omega, by omega⟩)
  · rw [if_neg hfour] at h
    cases h

section Lengths

variable {c : Char} {b d e : UInt8}

theorem spells_one_more (hmore : p.more = 0) (hb : p.accepts b) (hc : p.joined b = c.toNat) :
    Spells p [b] c :=
  .last hb hmore (by rw [hc, Char.ofNat_toNat])

theorem spells_two_more (hmore : p.more = 1) (hb : p.accepts b)
    (hd : 0x80 ≤ d.toNat ∧ d.toNat ≤ 0xBF) (hc : p.joined b * 64 + (d.toNat - 0x80) = c.toNat) :
    Spells p [b, d] c :=
  .next hb hmore (spells_one_more rfl hd hc)

theorem spells_three_more (hmore : p.more = 2) (hb : p.accepts b)
    (hd : 0x80 ≤ d.toNat ∧ d.toNat ≤ 0xBF) (he : 0x80 ≤ e.toNat ∧ e.toNat ≤ 0xBF)
    (hc : (p.joined b * 64 + (d.toNat - 0x80)) * 64 + (e.toNat - 0x80) = c.toNat) :
    Spells p [b, d, e] c :=
  .next hb hmore (spells_two_more rfl hd he hc)

end Lengths

theorem exists_byte {n : ℕ} (h : n < 256) : ∃ x : UInt8, UInt8.ofNat n = x ∧ x.toNat = n :=
  ⟨_, rfl, UInt8.toNat_ofNat_of_lt h⟩

/-- The sequence of a character that is not ASCII. -/
theorem encode_spelled {c : Char} (hc : ¬Ascii c) : ∃ x p bs,
    String.utf8EncodeChar c = x :: bs ∧ opened x = some p ∧ Spells p bs c := by
  have hwide : ¬c.toNat ≤ 0x7F := fun h => hc (Nat.lt_succ_of_le h)
  have hvalid : c.toNat < 0xD800 ∨ 0xDFFF < c.toNat ∧ c.toNat < 0x110000 := c.valid
  have hcode : c.val.toNat = c.toNat := rfl
  rw [String.utf8EncodeChar]
  simp only [hcode, hwide, if_false]
  obtain ⟨last, hlast, hlastNat⟩ := exists_byte (n := c.toNat % 64 + 128) (by omega)
  obtain ⟨third, hthird, hthirdNat⟩ := exists_byte (n := c.toNat / 64 % 64 + 128) (by omega)
  rw [hlast, hthird]
  split
  · obtain ⟨lead, hlead, hleadNat⟩ := exists_byte (n := c.toNat / 64 % 32 + 192) (by omega)
    obtain ⟨p, hp, hmore, hb, hjoined⟩ := opened_two (x := lead) (b := last) (by omega) (by omega)
    refine ⟨lead, p, [last], by rw [hlead], hp, spells_one_more hmore hb (by omega)⟩
  split
  · obtain ⟨lead, hlead, hleadNat⟩ := exists_byte (n := c.toNat / 4096 % 16 + 224) (by omega)
    obtain ⟨p, hp, hmore, hb, hjoined⟩ := opened_three (x := lead) (b := third)
      (by constructor <;> omega)
    refine ⟨lead, p, [third, last], by rw [hlead], hp, spells_two_more hmore hb (by omega) (by omega)⟩
  · obtain ⟨lead, hlead, hleadNat⟩ := exists_byte (n := c.toNat / 262144 % 8 + 240) (by omega)
    obtain ⟨second, hsecond, hsecondNat⟩ := exists_byte (n := c.toNat / 4096 % 64 + 128)
      (by omega)
    obtain ⟨p, hp, hmore, hb, hjoined⟩ := opened_four (x := lead) (b := second)
      (by constructor <;> omega)
    refine ⟨lead, p, [second, third, last], by rw [hlead, hsecond], hp,
      spells_three_more hmore hb (by omega) (by omega) (by omega)⟩

theorem toNat_ofNat {n : ℕ} (h : n < 0xD800 ∨ 0xDFFF < n ∧ n < 0x110000) :
    (Char.ofNat n).toNat = n := by
  have hvalid : n.isValidChar := h
  rw [Char.ofNat, dif_pos hvalid]
  rfl

theorem ofNat_eq {n : ℕ} {x : UInt8} (h : n = x.toNat) : UInt8.ofNat n = x := by
  rw [h, UInt8.ofNat_toNat]

theorem encode_two {n : ℕ} {x b : UInt8} (hn : n = (x.toNat - 0xC0) * 64 + (b.toNat - 0x80))
    (hx : 0xC2 ≤ x.toNat ∧ x.toNat ≤ 0xDF) (hb : 0x80 ≤ b.toNat ∧ b.toNat ≤ 0xBF) :
    String.utf8EncodeChar (Char.ofNat n) = [x, b] := by
  have hcode : (Char.ofNat n).val.toNat = n := toNat_ofNat (by omega)
  rw [String.utf8EncodeChar]
  simp only [hcode]
  rw [if_neg (by omega), if_pos (by omega), ofNat_eq (x := x) (by omega),
    ofNat_eq (x := b) (by omega)]

theorem encode_three {n : ℕ} {x b d : UInt8}
    (hn : n = ((x.toNat - 0xE0) * 64 + (b.toNat - 0x80)) * 64 + (d.toNat - 0x80))
    (h : Opens3 x b) (hd : 0x80 ≤ d.toNat ∧ d.toNat ≤ 0xBF) :
    String.utf8EncodeChar (Char.ofNat n) = [x, b, d] := by
  obtain ⟨hlead, htail, hshort, hsurrogate⟩ := h
  obtain ⟨u, hu⟩ := Nat.exists_eq_add_of_le hlead.1
  obtain ⟨v, hv⟩ := Nat.exists_eq_add_of_le htail.1
  obtain ⟨w, hw⟩ := Nat.exists_eq_add_of_le hd.1
  simp only [hu, hv, hw, Nat.add_sub_cancel_left] at hn hlead htail hd hshort hsurrogate
  have hlow : 0x800 ≤ n := by omega
  have hhigh : n ≤ 0xFFFF := by omega
  have hcode : (Char.ofNat n).val.toNat = n := toNat_ofNat (by omega)
  clear hshort hsurrogate
  rw [String.utf8EncodeChar]
  simp only [hcode]
  rw [if_neg (by omega), if_neg (by omega), if_pos (by omega), ofNat_eq (x := x) (by omega),
    ofNat_eq (x := b) (by omega), ofNat_eq (x := d) (by omega)]

theorem encode_four {n : ℕ} {x b d e : UInt8}
    (hn : n = (((x.toNat - 0xF0) * 64 + (b.toNat - 0x80)) * 64 + (d.toNat - 0x80)) * 64 +
      (e.toNat - 0x80))
    (h : Opens4 x b) (hd : 0x80 ≤ d.toNat ∧ d.toNat ≤ 0xBF)
    (he : 0x80 ≤ e.toNat ∧ e.toNat ≤ 0xBF) :
    String.utf8EncodeChar (Char.ofNat n) = [x, b, d, e] := by
  obtain ⟨hlead, htail, hshort, hlarge⟩ := h
  obtain ⟨u, hu⟩ := Nat.exists_eq_add_of_le hlead.1
  obtain ⟨v, hv⟩ := Nat.exists_eq_add_of_le htail.1
  obtain ⟨w, hw⟩ := Nat.exists_eq_add_of_le hd.1
  obtain ⟨z, hz⟩ := Nat.exists_eq_add_of_le he.1
  simp only [hu, hv, hw, hz, Nat.add_sub_cancel_left] at hn hlead htail hd he hshort hlarge
  have hlow : 0x10000 ≤ n := by omega
  have hhigh : n < 0x110000 := by omega
  have hcode : (Char.ofNat n).val.toNat = n := toNat_ofNat (by omega)
  clear hshort hlarge
  rw [String.utf8EncodeChar]
  simp only [hcode]
  rw [if_neg (by omega), if_neg (by omega), if_neg (by omega), ofNat_eq (x := x) (by omega),
    ofNat_eq (x := b) (by omega), ofNat_eq (x := d) (by omega), ofNat_eq (x := e) (by omega)]

/-- A sequence that spells a character is the one that encodes it. -/
theorem encode_of_spells {x : UInt8} {bs : List UInt8} {c : Char} (h : opened x = some p)
    (hbs : Spells p bs c) : String.utf8EncodeChar c = x :: bs := by
  have htail : ∀ {b : UInt8}, p.accepts b → 0x80 ≤ b.toNat ∧ b.toNat ≤ 0xBF :=
    fun hb => ⟨p.low_le.trans hb.1, hb.2.trans p.le_high⟩
  have hlater : ∀ {m n : ℕ}, m = n → ∀ d : UInt8,
      m * 64 + (d.toNat - 0x80) = n * 64 + (d.toNat - 0x80) :=
    fun hmn d => congrArg (· * 64 + (d.toNat - 0x80)) hmn
  cases hbs with
  | last hb hmore hc =>
    rcases opened_cases h hb with ⟨_, hjoined, hx⟩ | ⟨hmore', _⟩ | ⟨hmore', _⟩
    · rw [hc, encode_two hjoined hx (htail hb)]
    · omega
    · omega
  | next hb hmore hbs =>
    rcases opened_cases h hb with ⟨hmore', _⟩ | ⟨hmore', hjoined, hx⟩ | ⟨hmore', hjoined, hx⟩
    · omega
    · obtain rfl : _ = 0 := Nat.succ_injective (hmore.symm.trans hmore')
      cases hbs with
      | last hd _ hc =>
        rw [hc]
        exact encode_three (hlater hjoined _) hx hd
      | next hd hmore _ => cases hmore
    · obtain rfl : _ = 1 := Nat.succ_injective (hmore.symm.trans hmore')
      cases hbs with
      | last hd hmore _ => cases hmore
      | next hd hmore hbs =>
        obtain rfl : 0 = _ := Nat.succ_injective hmore
        cases hbs with
        | last he _ hc =>
          rw [hc]
          exact encode_four (hlater (hlater hjoined _) _) hx hd he
        | next he hmore _ => cases hmore

theorem toNat_asciiByte {c : Char} (h : Ascii c) : (UInt8.ofNat c.toNat).toNat = c.toNat :=
  UInt8.toNat_ofNat_of_lt (lt_trans h (by decide))

/-- The decoder inverts the encoder. -/
theorem fromUtf8Lossy_utf8 (t : Text) (rest : List UInt8) :
    fromUtf8Lossy (utf8 t ++ rest) = t ++ fromUtf8Lossy rest := by
  induction t with
  | nil => rfl
  | cons c cs ih =>
    rw [utf8_cons, List.append_assoc, List.cons_append, ← ih]
    by_cases hc : Ascii c
    · rw [encode_ascii hc, List.singleton_append, fromUtf8Lossy, decode, feed, start,
        toNat_asciiByte hc, if_pos (show c.toNat < 0x80 from hc), Char.ofNat_toNat]
      rfl
    · obtain ⟨x, p, bs, henc, hp, hbs⟩ := encode_spelled hc
      have hx : ¬x.toNat < 0x80 := by
        have := encode_wide hc (henc ▸ List.mem_cons_self)
        omega
      rw [henc, List.cons_append, fromUtf8Lossy, decode, feed, start, if_neg hx, hp]
      exact hbs.decode _

theorem fromUtf8Lossy_ascii {bs : List UInt8} (h : ∀ b ∈ bs, b.toNat < 0x80) :
    fromUtf8Lossy bs = bs.map fun b => Char.ofNat b.toNat := by
  induction bs with
  | nil => rfl
  | cons b bs ih =>
    rw [fromUtf8Lossy, decode, feed, start, if_pos (h b List.mem_cons_self), List.map_cons,
      ← ih fun b hb => h b (List.mem_cons_of_mem _ hb)]
    rfl

/-- The end of the first bytes and the next one stand in the sequence of one character. -/
def Severed (a b : List UInt8) : Prop :=
  ∃ c s x, s ≠ [] ∧ s <:+ a ∧ [x] <+: b ∧ s ++ [x] <+: String.utf8EncodeChar c

theorem start_of_opened {x : UInt8} (h : opened x = some p) : start x = ([], some p) := by
  have hx : ¬x.toNat < 0x80 := by
    intro hlt
    simp only [opened] at h
    repeat rw [if_neg (by omega)] at h
    cases h
  rw [start, if_neg hx, h]

/-- A byte that begins a sequence begins it wherever it stands. -/
theorem feed_of_opened {x : UInt8} (h : opened x = some p) (q : Option Pending) :
    (feed q x).2 = some p := by
  have hstart := start_of_opened h
  cases q with
  | none => rw [feed, hstart]
  | some p' =>
    have hx : ¬p'.accepts x := by
      intro haccepts
      rw [start_of_accepts haccepts] at hstart
      cases hstart
    rw [feed, if_neg hx, hstart]

theorem opened_of_start {x : UInt8} (h : (start x).2 = some p) : opened x = some p := by
  rw [start] at h
  split at h
  · cases h
  cases hx : opened x with
  | none =>
    rw [hx] at h
    cases h
  | some p' =>
    rw [hx] at h
    exact h

/-- The sequence that is open was begun by one byte, and every one since has gone on with it. -/
theorem exists_lead (a : List UInt8) : ∀ p, left none a = some p →
    ∃ y s p₀, y :: s <:+ a ∧ opened y = some p₀ ∧
      ∀ bs c, Spells p bs c → Spells p₀ (s ++ bs) c := by
  induction a using List.reverseRecOn with
  | nil => exact fun p h => nomatch h
  | append_singleton a z ih =>
    intro p h
    have hlast : (feed (left none a) z).2 = some p := by
      rw [left_append] at h
      exact h
    have hbegun : (start z).2 = some p → ∃ y s p₀, y :: s <:+ a ++ [z] ∧ opened y = some p₀ ∧
        ∀ bs c, Spells p bs c → Spells p₀ (s ++ bs) c := fun hz =>
      ⟨z, [], p, List.suffix_append a [z], opened_of_start hz, fun _ _ hs => hs⟩
    cases hq : left none a with
    | none =>
      rw [hq] at hlast
      exact hbegun hlast
    | some p' =>
      rw [hq, feed] at hlast
      split at hlast
      · rename_i hz
        obtain ⟨y, s, p₀, ⟨t, rfl⟩, hp₀, hspells⟩ := ih p' hq
        refine ⟨y, s ++ [z], p₀, ⟨t, by simp⟩, hp₀, fun bs c hs => ?_⟩
        have hmore : Spells p' (z :: bs) c := by
          rw [Pending.extend] at hlast
          split at hlast
          · cases hlast
          · rename_i n hn
            obtain rfl := Option.some.inj hlast
            exact .next hz hn hs
        rw [List.append_assoc]
        exact hspells _ _ hmore
      · exact hbegun hlast

theorem severed_of_continues (h : Continues (left none a) b) : Severed a b := by
  cases hq : left none a with
  | none =>
    rw [hq] at h
    exact h.elim
  | some p =>
    cases b with
    | nil =>
      rw [hq] at h
      exact h.elim
    | cons x xs =>
      rw [hq] at h
      obtain ⟨bs, c, hbs⟩ := exists_spells (p := p) (x := x) h
      obtain ⟨y, s, p₀, hsuffix, hp₀, hspells⟩ := exists_lead a p hq
      have hencode := encode_of_spells hp₀ (hspells _ _ hbs)
      refine ⟨c, y :: s, x, List.cons_ne_nil _ _, hsuffix, ⟨xs, rfl⟩, ⟨bs, ?_⟩⟩
      rw [hencode, List.cons_append, List.cons_append, List.append_assoc]
      rfl

theorem continues_of_severed (h : Severed a b) : Continues (left none a) b := by
  obtain ⟨c, s, x, hs, ⟨t, rfl⟩, ⟨xs, rfl⟩, hencode⟩ := h
  cases s with
  | nil => exact absurd rfl hs
  | cons y s =>
    have hc : ¬Ascii c := by
      intro hc
      have := hencode.length_le
      rw [encode_ascii hc] at this
      simp at this
    obtain ⟨y', p, bs, hy, hp, hbs⟩ := encode_spelled hc
    rw [hy] at hencode
    obtain ⟨rfl, hprefix⟩ := List.cons_prefix_cons.mp hencode
    have hcontinues := hbs.continues hprefix
    rw [left_append, left, feed_of_opened hp]
    cases hq : left (some p) s with
    | none =>
      rw [hq] at hcontinues
      exact hcontinues.elim
    | some p' =>
      rw [hq] at hcontinues
      exact hcontinues

/-- An open sequence goes on after a cut exactly when the cut is inside of a character. -/
theorem continues_iff (a b : List UInt8) : Continues (left none a) b ↔ Severed a b :=
  ⟨severed_of_continues, continues_of_severed⟩

/-- No cut between two of the parts is inside of a character. -/
def Whole : List (List UInt8) → Prop
  | [] => True
  | part :: parts => ¬Severed part parts.flatten ∧ Whole parts

instance : (q : Option Pending) → (b : List UInt8) → Decidable (Continues q b)
  | none, _ => isFalse id
  | some _, [] => isFalse id
  | some p, x :: _ => inferInstanceAs (Decidable (p.accepts x))

instance (a b : List UInt8) : Decidable (Severed a b) := decidable_of_iff _ (continues_iff a b)

instance decidableWhole : (parts : List (List UInt8)) → Decidable (Whole parts)
  | [] => isTrue trivial
  | part :: parts =>
    have := decidableWhole parts
    inferInstanceAs (Decidable (¬Severed part parts.flatten ∧ Whole parts))

theorem length_flatten_le (parts : List (List UInt8)) :
    (fromUtf8Lossy parts.flatten).length ≤ (parts.flatMap fromUtf8Lossy).length := by
  induction parts with
  | nil => exact Nat.le_refl _
  | cons part parts ih =>
    have := length_append_le part parts.flatten
    simp only [List.flatten_cons, List.flatMap_cons, List.length_append]
    omega

/-- The parts decode one by one as their whole exactly when every cut is between two
characters. -/
theorem flatMap_eq_iff (parts : List (List UInt8)) :
    parts.flatMap fromUtf8Lossy = fromUtf8Lossy parts.flatten ↔ Whole parts := by
  induction parts with
  | nil => exact ⟨fun _ => trivial, fun _ => rfl⟩
  | cons part parts ih =>
    rw [List.flatMap_cons, List.flatten_cons, Whole, ← ih, ← continues_iff]
    by_cases h : Continues (left none part) parts.flatten
    · refine ⟨fun heq => ?_, fun heq => absurd h heq.1⟩
      have hle := length_flatten_le parts
      have hlt := length_append_lt h
      rw [← heq, List.length_append] at hlt
      omega
    · rw [fromUtf8Lossy_append h]
      exact ⟨fun heq => ⟨h, List.append_cancel_left heq⟩, fun heq => by rw [heq.2]⟩

end SshCommander.Utf8Lossy
