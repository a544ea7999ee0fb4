import Mathlib.Data.List.DropRight

/-!
# Rust string operations on lists of characters

A `&str` is the list of its characters. Byte offsets are offsets into `utf8`, and
slicing at an offset inside a character is the panic `none`.
-/

namespace SshCommander.RustText

abbrev Text := List Char

/-- The Unicode `White_Space` property, as `char::is_whitespace` reads it. -/
def isWhitespace (c : Char) : Bool :=
  let n := c.toNat
  (9 ≤ n && n ≤ 13) || n == 0x20 || n == 0x85 || n == 0xA0 || n == 0x1680 ||
    (0x2000 ≤ n && n ≤ 0x200A) || n == 0x2028 || n == 0x2029 || n == 0x202F || n == 0x205F ||
    n == 0x3000

def trim (s : Text) : Text := (s.dropWhile isWhitespace).rdropWhile isWhitespace

/-- `str::lines`: a final line without a newline counts, an empty one does not, and
`"\r\n"` ends a line as `"\n"` does. -/
def lines : Text → List Text
  | [] => []
  | c :: cs =>
    if c = '\n' then [] :: lines cs
    else if c = '\r' ∧ cs.head? = some '\n' then lines cs
    else match lines cs with
      | [] => [[c]]
      | l :: ls => (c :: l) :: ls

/-- `splitn(2, char::is_whitespace)`. -/
def splitAtWhitespace (s : Text) : Text × Option Text :=
  match s.dropWhile (! isWhitespace ·) with
  | [] => (s, none)
  | _ :: rest => (s.takeWhile (! isWhitespace ·), some rest)

def utf8 (s : Text) : List UInt8 := s.flatMap String.utf8EncodeChar

/-- `&s[i..]`; `none` where `i` is out of range or inside a character. -/
def sliceFrom : Text → ℕ → Option Text
  | s, 0 => some s
  | [], _ + 1 => none
  | c :: cs, i + 1 => if c.utf8Size ≤ i + 1 then sliceFrom cs (i + 1 - c.utf8Size) else none

def sliceTo : Text → ℕ → Option Text
  | _, 0 => some []
  | [], _ + 1 => none
  | c :: cs, i + 1 =>
    if c.utf8Size ≤ i + 1 then (sliceTo cs (i + 1 - c.utf8Size)).map (c :: ·) else none

/-- The order `String` is sorted in; UTF-8 keeps the order of the code points. -/
def textLe : Text → Text → Bool
  | [], _ => true
  | _ :: _, [] => false
  | a :: as, b :: bs => a < b || (a == b && textLe as bs)

@[simp] theorem sliceFrom_zero (s : Text) : sliceFrom s 0 = some s := by cases s <;> rfl

@[simp] theorem sliceTo_zero (s : Text) : sliceTo s 0 = some [] := by cases s <;> rfl

/-- The two slices at one offset put the text back together. -/
theorem sliceTo_append_sliceFrom {s a b : Text} {i : ℕ} (ha : sliceTo s i = some a)
    (hb : sliceFrom s i = some b) : s = a ++ b := by
  induction s generalizing i a with
  | nil =>
    cases i with
    | zero => simp_all [sliceFrom, sliceTo]
    | succ i => simp [sliceTo] at ha
  | cons c cs ih =>
    cases i with
    | zero => simp_all
    | succ i =>
      simp only [sliceTo, sliceFrom] at ha hb
      split at ha
      · rename_i hc
        rw [if_pos hc] at hb
        obtain ⟨a', ha', rfl⟩ := Option.map_eq_some_iff.mp ha
        rw [ih ha' hb, List.cons_append]
      · cases ha

end SshCommander.RustText
