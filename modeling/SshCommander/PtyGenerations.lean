import SshCommander.PtyRegistry

/-!
# Generations between purges

`insert` bumps the counter of its connection and only `purge` drops it. So the generations of a
connection increase from one purge to the next, and start over after it.
-/

namespace SshCommander.PtyGenerations
open RustText PtyRegistry PtyRegistry.Registry

inductive Call where
  | insert (id : Text)
  | cancelExisting (id : Text)
  | remove (id : Text) (expectedGen : Option ℕ)
  | purge (id : Text)
  deriving DecidableEq, Repr

variable {r : Registry} {id : Text} {c : Call} {cs : List Call}

/-- One whole call, and the generation that `insert` returns. -/
def call (r : Registry) : Call → Registry × Option ℕ
  | .insert id =>
    let (r', s) := r.create
    ((r'.insert id s).1, some (r'.insert id s).2)
  | .cancelExisting id => (r.cancelExisting id, none)
  | .remove id expectedGen => (r.remove id expectedGen, none)
  | .purge id => (r.purge id, none)

def afterCalls (r : Registry) (cs : List Call) : Registry := cs.foldl (fun r c => (call r c).1) r

def returned (id : Text) : Registry → List Call → List ℕ
  | _, [] => []
  | r, c :: cs =>
    (if c = .insert id then (call r c).2.toList else []) ++ returned id (call r c).1 cs

def inserts (id : Text) (cs : List Call) : ℕ := cs.count (.insert id)

theorem currentGen_take (r : Registry) (id id' : Text) :
    (r.take id).currentGen id' = r.currentGen id' := currentGen_congr (take_generations r id)

theorem currentGen_remove (r : Registry) (id id' : Text) (expectedGen : Option ℕ) :
    (r.remove id expectedGen).currentGen id' = r.currentGen id' := by
  cases expectedGen with
  | none => exact currentGen_take r id id'
  | some g =>
    simp only [remove]
    split
    · exact currentGen_take r id id'
    · rfl

theorem call_insert (r : Registry) (id : Text) :
    (call r (.insert id)).2 = some ((r.currentGen id + 1) % 2 ^ 64) := rfl

theorem currentGen_insert_self : (call r (.insert id)).1.currentGen id =
    (r.currentGen id + 1) % 2 ^ 64 := currentGen_bump_self

theorem currentGen_call_other (hc : c ≠ .insert id) (hp : c ≠ .purge id) :
    (call r c).1.currentGen id = r.currentGen id := by
  cases c with
  | insert id' =>
    have hne : id ≠ id' := fun h => hc (h ▸ rfl)
    exact currentGen_bump_ne hne
  | cancelExisting id' => exact currentGen_take r id' id
  | remove id' expectedGen => exact currentGen_remove r id' id expectedGen
  | purge id' =>
    have hne : id ≠ id' := fun h => hp (h ▸ rfl)
    exact (currentGen_forget_ne hne).trans (currentGen_take r id' id)

theorem currentGen_purge : (call r (.purge id)).1.currentGen id = 0 := by
  simp [call, Registry.purge, forget, currentGen]

/-- By induction on the calls: the counter never exceeds the number of inserts. -/
theorem currentGen_le (r : Registry) (id : Text) (cs : List Call) :
    (afterCalls r cs).currentGen id ≤ r.currentGen id + inserts id cs := by
  induction cs generalizing r with
  | nil => exact le_refl _
  | cons c cs ih =>
    have hrest : (afterCalls r (c :: cs)).currentGen id ≤
        (call r c).1.currentGen id + inserts id cs := ih (call r c).1
    by_cases hc : c = .insert id
    · have hcount : inserts id (c :: cs) = inserts id cs + 1 := by simp [inserts, hc]
      have hself : (call r (.insert id)).1.currentGen id = (r.currentGen id + 1) % 2 ^ 64 :=
        currentGen_insert_self
      have hmod := Nat.mod_le (r.currentGen id + 1) (2 ^ 64)
      rw [hc] at hrest ⊢
      rw [hc] at hcount
      omega
    · have hcount : inserts id (c :: cs) = inserts id cs := List.count_cons_of_ne hc
      by_cases hp : c = .purge id
      · have hzero : (call r c).1.currentGen id = 0 := hp ▸ currentGen_purge
        omega
      · have hsame := currentGen_call_other (r := r) hc hp
        omega

/-- Between two purges it counts the inserts, until it wraps. -/
theorem currentGen_eq (hp : .purge id ∉ cs) (hn : r.currentGen id + inserts id cs < 2 ^ 64) :
    (afterCalls r cs).currentGen id = r.currentGen id + inserts id cs := by
  induction cs generalizing r with
  | nil => rfl
  | cons c cs ih =>
    have hne : c ≠ .purge id := fun h => hp (h ▸ List.mem_cons_self)
    have hrest : .purge id ∉ cs := fun h => hp (List.mem_cons_of_mem c h)
    by_cases hc : c = .insert id
    · subst hc
      have hcount : inserts id (.insert id :: cs) = inserts id cs + 1 := by simp [inserts]
      have hself : (call r (.insert id)).1.currentGen id = r.currentGen id + 1 := by
        rw [currentGen_insert_self, Nat.mod_eq_of_lt (by omega)]
      have hrec := ih (r := (call r (.insert id)).1) hrest (by omega)
      rw [hcount, ← Nat.add_assoc, Nat.add_right_comm, ← hself]
      exact hrec
    · have hcount : inserts id (c :: cs) = inserts id cs := List.count_cons_of_ne hc
      have hsame := currentGen_call_other (r := r) hc hne
      have hrec := ih (r := (call r c).1) hrest (by omega)
      rw [hcount, ← hsame]
      exact hrec

theorem insert_after_purge (r : Registry) (hi : .insert id ∉ cs) :
    (call (afterCalls r (.purge id :: cs)) (.insert id)).2 = some 1 := by
  have hcount : inserts id cs = 0 := List.count_eq_zero.mpr hi
  have hle := currentGen_le (call r (.purge id)).1 id cs
  rw [currentGen_purge, hcount, Nat.le_zero] at hle
  have hzero : (afterCalls r (.purge id :: cs)).currentGen id = 0 := hle
  rw [call_insert, hzero]
  rfl

theorem remove_stale {g : ℕ} (h : r.currentGen id ≠ g) : r.remove id (some g) = r := if_neg h

/-- Of two inserts on a connection with no purge of it between them, the second returns a greater
generation, and from then until the next purge a close with the first one does nothing: unless
there are so many inserts that the counter wraps. The purge starts the generations over. -/
theorem generations_increase_between_purges (id : Text) (before between later : List Call)
    (hbetween : .purge id ∉ between) (hlater : .purge id ∉ later)
    (hn : inserts id (before ++ .insert id :: between ++ .insert id :: later) < 2 ^ 64) :
    let r₁ := afterCalls .new before
    let r₂ := afterCalls (call r₁ (.insert id)).1 between
    let r₃ := afterCalls (call r₂ (.insert id)).1 later
    (∃ g₁ g₂, (call r₁ (.insert id)).2 = some g₁ ∧ (call r₂ (.insert id)).2 = some g₂ ∧
      g₁ < g₂ ∧ r₃.remove id (some g₁) = r₃) ∧
    ∀ rest, .insert id ∉ rest → (call (afterCalls r₃ (.purge id :: rest)) (.insert id)).2 = some 1 := by
  intro r₁ r₂ r₃
  have hcount : inserts id before + inserts id between + inserts id later + 2 < 2 ^ 64 := by
    simp only [inserts, List.count_append, List.count_cons_self] at hn ⊢
    omega
  have hnew : Registry.new.currentGen id = 0 := by simp [Registry.new, currentGen]
  have hle : r₁.currentGen id ≤ inserts id before := by
    have h := currentGen_le .new id before
    rwa [hnew, Nat.zero_add] at h
  have h₁ : (call r₁ (.insert id)).1.currentGen id = r₁.currentGen id + 1 := by
    rw [currentGen_insert_self, Nat.mod_eq_of_lt (by omega)]
  have h₂ : r₂.currentGen id = r₁.currentGen id + 1 + inserts id between := by
    rw [← h₁]
    exact currentGen_eq hbetween (by omega)
  have h₂' : (call r₂ (.insert id)).1.currentGen id = r₂.currentGen id + 1 := by
    rw [currentGen_insert_self, Nat.mod_eq_of_lt (by omega)]
  have h₃ : r₃.currentGen id = r₂.currentGen id + 1 + inserts id later := by
    rw [← h₂']
    exact currentGen_eq hlater (by omega)
  refine ⟨⟨r₁.currentGen id + 1, r₂.currentGen id + 1, ?_, ?_, by omega, remove_stale (by omega)⟩,
    fun rest hrest => insert_after_purge r₃ hrest⟩
  · rw [call_insert, Nat.mod_eq_of_lt (by omega)]
  · rw [call_insert, Nat.mod_eq_of_lt (by omega)]

/-- A close and a cancel between the inserts, an earlier life of the connection before them. -/
theorem generations_increase_reopened :
    let r₁ := afterCalls .new [.insert "c".toList, .purge "c".toList]
    let r₂ := afterCalls (call r₁ (.insert "c".toList)).1 [.cancelExisting "c".toList]
    let r₃ := afterCalls (call r₂ (.insert "c".toList)).1 [.remove "c".toList (some 2)]
    (∃ g₁ g₂, (call r₁ (.insert "c".toList)).2 = some g₁ ∧
      (call r₂ (.insert "c".toList)).2 = some g₂ ∧ g₁ < g₂ ∧
      r₃.remove "c".toList (some g₁) = r₃) ∧
    ∀ rest, .insert "c".toList ∉ rest →
      (call (afterCalls r₃ (.purge "c".toList :: rest)) (.insert "c".toList)).2 = some 1 :=
  generations_increase_between_purges "c".toList [.insert "c".toList, .purge "c".toList]
    [.cancelExisting "c".toList] [.remove "c".toList (some 2)] (by decide) (by decide) (by decide)

/-- The counter after inserts only, one for one. -/
theorem currentGen_replicate (n : ℕ) :
    (afterCalls .new (List.replicate n (.insert id))).currentGen id = n % 2 ^ 64 := by
  induction n with
  | zero => rfl
  | succ n ih =>
    rw [List.replicate_succ', afterCalls, List.foldl_concat, ← afterCalls, currentGen_insert_self,
      ih, Nat.mod_add_mod]

/-- After a purge the generations start over, and a close of the first session hits the second.
And after `2 ^ 64` inserts the counter has wrapped, with no purge at all. -/
theorem purge_reuses_generation :
    returned "c".toList .new [.insert "c".toList, .purge "c".toList, .insert "c".toList] = [1, 1] ∧
      ¬(returned "c".toList .new
        [.insert "c".toList, .purge "c".toList, .insert "c".toList]).Pairwise (· < ·) ∧
      ((afterCalls .new [.insert "c".toList, .purge "c".toList, .insert "c".toList]).remove
        "c".toList (some 1)).cancelled = [1, 0] ∧
      (call (afterCalls .new (List.replicate (2 ^ 64) (.insert "c".toList)))
        (.insert "c".toList)).2 = some 1 := by
  refine ⟨by decide, by decide, by decide, ?_⟩
  rw [call_insert, currentGen_replicate, Nat.mod_self]
  rfl

end SshCommander.PtyGenerations
