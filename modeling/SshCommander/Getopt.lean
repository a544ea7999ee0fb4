import Mathlib.Data.List.Basic

/-!
# Option parsing

The utility syntax of `getopt`: clustered letters, options whose argument follows in the word or
as the next one, `--`, and operands from the first word on that is none of these.
-/

namespace Getopt

abbrev Word := List Char

/-- Which letters are options, and whether they take an argument. -/
abbrev Spec := Char → Option Bool

structure Parsed where
  options : List (Char × Option Word)
  operands : List Word
  deriving DecidableEq, Repr

def Parsed.prepend (options : List (Char × Option Word)) (p : Parsed) : Parsed :=
  { p with options := options ++ p.options }

/-- The letters of a word behind its dash, with the option whose argument is still to come. -/
def cluster (spec : Spec) : Word → Option (List (Char × Option Word) × Option Char)
  | [] => some ([], none)
  | c :: cs =>
    match spec c with
    | none => none
    | some false => (cluster spec cs).map fun r => ((c, none) :: r.1, r.2)
    | some true => if cs = [] then some ([], some c) else some ([(c, some cs)], none)

/-- The words after the name of the utility, the first of which may be the argument of an option;
`none` for an unknown option or a missing argument. -/
def parse (spec : Spec) : Option Char → List Word → Option Parsed
  | none, [] => some ⟨[], []⟩
  | some _, [] => none
  | some c, word :: words => (parse spec none words).map (.prepend [(c, some word)])
  | none, word :: words =>
    if word = ['-', '-'] then some ⟨[], words⟩
    else if word.head? = some '-' ∧ word ≠ ['-'] then
      match cluster spec word.tail with
      | none => none
      | some (options, pending) => (parse spec pending words).map (.prepend options)
    else some ⟨[], word :: words⟩

variable {spec : Spec} {word : Word} {words : List Word} {p : Parsed} {c : Char}

theorem parse_operand (h : word.head? ≠ some '-' ∨ word = ['-']) (words : List Word) :
    parse spec none (word :: words) = some ⟨[], word :: words⟩ := by
  have hends : word ≠ ['-', '-'] := by
    rintro rfl
    simp at h
  have hno : ¬(word.head? = some '-' ∧ word ≠ ['-']) := by tauto
  rw [parse, if_neg hends, if_neg hno]

/-- A last word with a dash, other than the dash alone, is not an operand. -/
theorem parse_dash (h : word.head? = some '-') (hne : word ≠ ['-'])
    (hp : parse spec none [word] = some p) : p.operands = [] := by
  rw [parse] at hp
  split at hp
  · rw [← Option.some.inj hp]
  · rw [if_pos ⟨h, hne⟩] at hp
    cases hc : cluster spec word.tail with
    | none => simp [hc] at hp
    | some r =>
      obtain ⟨options, pending⟩ := r
      cases pending with
      | none =>
        simp only [hc, parse, Option.map_some, Option.some.injEq] at hp
        rw [← hp]
        rfl
      | some c => simp [hc, parse] at hp

/-- A word of options that come first in the word. -/
theorem parse_cluster {cs : Word} (hd : ∀ c ∈ cs, c ≠ '-') (hne : cs ≠ []) (words : List Word) :
    parse spec none (('-' :: cs) :: words) =
      (cluster spec cs).bind fun r => (parse spec r.2 words).map (.prepend r.1) := by
  obtain ⟨c, cs, rfl⟩ := List.exists_cons_of_ne_nil hne
  have hc : c ≠ '-' := hd c List.mem_cons_self
  have hends : ('-' :: c :: cs : Word) ≠ ['-', '-'] := by
    simp only [ne_eq, List.cons.injEq, true_and, not_and]
    exact fun h => absurd h hc
  rw [parse, if_neg hends, if_pos ⟨rfl, by simp⟩]
  simp only [List.tail_cons]
  cases cluster spec (c :: cs) with
  | none => rfl
  | some r => rfl

theorem cluster_flags {cs : Word} (h : ∀ c ∈ cs, spec c = some false) :
    cluster spec cs = some (cs.map (·, none), none) := by
  induction cs with
  | nil => rfl
  | cons c cs ih =>
    have hrest := ih fun d hd => h d (List.mem_cons_of_mem _ hd)
    simp only [cluster, h c List.mem_cons_self, hrest]
    rfl

/-- A word of options without arguments. -/
theorem parse_flags {cs : Word} (h : ∀ c ∈ cs, spec c = some false) (hd : ∀ c ∈ cs, c ≠ '-')
    (hne : cs ≠ []) (words : List Word) :
    parse spec none (('-' :: cs) :: words) =
      (parse spec none words).map (.prepend (cs.map (·, none))) := by
  rw [parse_cluster hd hne, cluster_flags h]
  rfl

/-- An option with its argument as the next word, whatever the word is. -/
theorem parse_argument (h : spec c = some true) (hc : c ≠ '-') (word : Word) (words : List Word) :
    parse spec none (['-', c] :: word :: words) =
      (parse spec none words).map (.prepend [(c, some word)]) := by
  have hcluster : cluster spec [c] = some ([], some c) := by simp [cluster, h]
  rw [parse_cluster (by simpa using hc) (by simp), hcluster]
  simp only [Option.bind_some, parse, Option.map_map]
  rfl

end Getopt
