import Mathlib.Data.List.Forall2
import Mathlib.Data.List.Infix

/-!
# Patterns of SQL

`LIKE` with its usual escape: `%` stands for any text, `_` for any one character, and what follows
a backslash for itself.
-/

namespace SshCommander.LikePatterns

/-- `s LIKE p`. A pattern that ends in the escape, which is an error there, matches nothing. -/
def like : List Char → List Char → Bool
  | [], s => s.isEmpty
  | '%' :: p, s => s.tails.any (like p)
  | '_' :: _, [] => false
  | '_' :: p, _ :: s => like p s
  | '\\' :: c :: p, d :: s => c == d && like p s
  | '\\' :: _, _ => false
  | _ :: _, [] => false
  | c :: p, d :: s => c == d && like p s

/-- A character of a pattern that stands for itself, or for any character. -/
def Plain (c : Char) : Prop := c ≠ '%' ∧ c ≠ '\\'

instance (c : Char) : Decidable (Plain c) := inferInstanceAs (Decidable (_ ∧ _))

variable {p w s t : List Char} {c d : Char}

theorem like_percent : like ('%' :: p) s = true ↔ ∃ t, t <:+ s ∧ like p t = true := by
  rw [like, List.any_eq_true]
  simp only [List.mem_tails]

theorem like_all (s : List Char) : like ['%'] s = true :=
  like_percent.mpr ⟨[], List.nil_suffix, rfl⟩

theorem like_plain (hc : Plain c) : like (c :: p) (d :: s) = true ↔
    (c = '_' ∨ c = d) ∧ like p s = true := by
  by_cases hone : c = '_'
  · subst hone
    simp [like]
  · have hself : like (c :: p) (d :: s) = (c == d && like p s) := by
      rw [like]
      · exact hc.1
      · exact hone
      · exact fun _ _ h _ => hc.2 h
      · exact hc.2
    simp [hself, hone]

theorem like_plain_nil (hc : Plain c) : like (c :: p) [] = false := by
  by_cases hone : c = '_'
  · subst hone
    rfl
  · rw [like]
    · exact hc.1
    · exact hone
    · exact hc.2

/-- What starts as a pattern says. -/
theorem like_prefix (hw : ∀ c ∈ w, Plain c) : like (w ++ ['%']) s = true ↔
    ∃ t rest, s = t ++ rest ∧ List.Forall₂ (fun c d => c = '_' ∨ c = d) w t := by
  induction w generalizing s with
  | nil => exact iff_of_true (like_all s) ⟨[], s, rfl, .nil⟩
  | cons c w ih =>
    obtain ⟨hc, hw⟩ := List.forall_mem_cons.mp hw
    rw [List.cons_append]
    cases s with
    | nil =>
      rw [like_plain_nil hc]
      refine iff_of_false Bool.false_ne_true ?_
      rintro ⟨t, rest, hs, h⟩
      obtain ⟨rfl, rfl⟩ := List.append_eq_nil_iff.mp hs.symm
      cases h
    | cons d s =>
      rw [like_plain hc, ih hw]
      constructor
      · rintro ⟨hd, t, rest, rfl, h⟩
        exact ⟨d :: t, rest, rfl, .cons hd h⟩
      · rintro ⟨t, rest, hs, h⟩
        cases h with
        | @cons _ d' _ t hd h =>
          obtain ⟨rfl, rfl⟩ := List.cons.inj hs
          exact ⟨hd, t, rest, rfl, h⟩

end SshCommander.LikePatterns
