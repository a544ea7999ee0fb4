import Mathlib.Data.List.Nodup
import Mathlib.Data.List.Perm.Basic

/-!
# Queries over lists of rows

Joins as nested loops, and the order of an answer. Where the key that is joined on is unique, a join
looks a row up.
-/

namespace SshCommander.RelationalQueries

variable {α β γ κ : Type}

/-- `l JOIN r ON on`. -/
def join (l : List α) (r : List β) (on : α → β → Bool) : List (α × β) :=
  l.flatMap fun a => (r.filter (on a)).map fun b => (a, b)

/-- `l LEFT JOIN r ON on`. -/
def leftJoin (l : List α) (r : List β) (on : α → β → Bool) : List (α × Option β) :=
  l.flatMap fun a =>
    match r.filter (on a) with
    | [] => [(a, none)]
    | b :: bs => (b :: bs).map fun b => (a, some b)

/-- The rows of a query under its `ORDER BY`. Rows that the order does not tell apart come in any
order. -/
structure Answers (le : α → α → Prop) (rows answer : List α) : Prop where
  same : answer.Perm rows
  ordered : answer.Pairwise le

/-- No left row matches two right rows. -/
def Unique (r : List β) (on : α → β → Bool) : Prop :=
  ∀ a, r.Pairwise fun b b' => ¬(on a b = true ∧ on a b' = true)

theorem Unique.of_nodup {key : β → κ} {r : List β} {on : α → β → Bool} {f : α → κ}
    (h : (r.map key).Nodup) (hon : ∀ a b, on a b = true → key b = f a) : Unique r on := by
  intro a
  refine (List.pairwise_map.mp h).imp fun hne hboth => hne ?_
  rw [hon a _ hboth.1, hon a _ hboth.2]

theorem filter_eq_find? {r : List β} {p : β → Bool}
    (h : r.Pairwise fun b b' => ¬(p b = true ∧ p b' = true)) :
    r.filter p = (r.find? p).toList := by
  induction r with
  | nil => rfl
  | cons b r ih =>
    obtain ⟨hfirst, hrest⟩ := List.pairwise_cons.mp h
    cases hb : p b with
    | false => rw [List.filter_cons_of_neg (by simp [hb]), List.find?_cons_of_neg (by simp [hb]), ih hrest]
    | true =>
      have hnone : r.filter p = [] := by
        rw [List.filter_eq_nil_iff]
        exact fun b' hb' hp => hfirst b' hb' ⟨hb, hp⟩
      rw [List.filter_cons_of_pos hb, List.find?_cons_of_pos hb, hnone]
      rfl

/-- A join on a unique key looks up the right row. -/
theorem join_unique {r : List β} {on : α → β → Bool} (h : Unique r on) (l : List α) :
    join l r on = l.filterMap fun a => (r.find? (on a)).map fun b => (a, b) := by
  induction l with
  | nil => rfl
  | cons a l ih =>
    rw [join, List.flatMap_cons, filter_eq_find? (h a)]
    rw [join] at ih
    rw [ih]
    cases hf : r.find? (on a) with
    | none => rw [List.filterMap_cons_none (by rw [hf]; rfl)]; rfl
    | some b => rw [List.filterMap_cons_some (by rw [hf]; rfl)]; rfl

/-- A left join on a unique key looks up the right row, if there is one. -/
theorem leftJoin_unique {r : List β} {on : α → β → Bool} (h : Unique r on) (l : List α) :
    leftJoin l r on = l.map fun a => (a, r.find? (on a)) := by
  induction l with
  | nil => rfl
  | cons a l ih =>
    rw [leftJoin] at ih ⊢
    rw [List.flatMap_cons, ih, filter_eq_find? (h a), List.map_cons]
    cases r.find? (on a) with
    | none => rfl
    | some b => rfl

/-- The lookup of a key that is there. -/
theorem find?_of_mem {r : List β} {p : β → Bool} {b : β}
    (h : r.Pairwise fun b b' => ¬(p b = true ∧ p b' = true)) (hb : b ∈ r) (hp : p b = true) :
    r.find? p = some b := by
  have hmem : b ∈ r.filter p := List.mem_filter.mpr ⟨hb, hp⟩
  rw [filter_eq_find? h, Option.mem_toList] at hmem
  exact hmem

/-- A join on a unique key, with one right row picked, goes over the left rows that match it. -/
theorem join_pick {r : List β} {on : α → β → Bool} {p : β → Bool} (hon : Unique r on)
    (hp : r.Pairwise fun b b' => ¬(p b = true ∧ p b' = true)) (l : List α) :
    ((join l r on).filter fun x => p x.2) =
      (r.find? p).elim [] fun b => (l.filter fun a => on a b).map fun a => (a, b) := by
  rw [join_unique hon]
  cases hb : r.find? p with
  | none =>
    rw [Option.elim_none, List.filter_eq_nil_iff]
    intro x hx hpx
    obtain ⟨a, -, hx⟩ := List.mem_filterMap.mp hx
    obtain ⟨b, hfound, rfl⟩ := Option.map_eq_some_iff.mp hx
    exact List.find?_eq_none.mp hb b (List.mem_of_find?_eq_some hfound) hpx
  | some b =>
    have hmem := List.mem_of_find?_eq_some hb
    have hpicked : p b = true := List.find?_some hb
    rw [Option.elim_some]
    induction l with
    | nil => rfl
    | cons a l ih =>
      cases hab : on a b with
      | true =>
        rw [List.filterMap_cons_some (by rw [find?_of_mem (hon a) hmem hab]; rfl),
          List.filter_cons_of_pos (by exact hpicked), ih,
          List.filter_cons_of_pos (p := fun a => on a b) hab, List.map_cons]
      | false =>
        rw [List.filter_cons_of_neg (p := fun a => on a b) (by simp [hab]), ← ih]
        cases hfound : r.find? (on a) with
        | none => rw [List.filterMap_cons_none (by rw [hfound]; rfl)]
        | some b' =>
          have hother : p b' = false := by
            by_contra hpb
            have hpick := find?_of_mem hp (List.mem_of_find?_eq_some hfound) (by simpa using hpb)
            obtain rfl := Option.some.inj (hb.symm.trans hpick)
            have hmatch : on a b = true := List.find?_some hfound
            rw [hmatch] at hab
            cases hab
          rw [List.filterMap_cons_some (by rw [hfound]; rfl),
            List.filter_cons_of_neg (by simp [hother])]

/-- A property of the row that is looked up, if there is one. -/
theorem find?_any {r : List β} {p : β → Bool}
    (h : r.Pairwise fun b b' => ¬(p b = true ∧ p b' = true)) (q : β → Bool) :
    (r.find? p).any q = r.any fun b => p b && q b := by
  rw [← List.any_filter, filter_eq_find? h]
  cases r.find? p <;> simp

namespace Answers

variable {le : α → α → Prop} {le' : β → β → Prop} {rows rows' answer : List α}

theorem perm (h : Answers le rows answer) (hp : rows.Perm rows') : Answers le rows' answer :=
  ⟨h.same.trans hp, h.ordered⟩

/-- What is read off each row comes in the order of the rows. -/
theorem filterMap {f : α → Option β} (h : Answers le rows answer)
    (hle : ∀ a a' b b', f a = some b → f a' = some b' → le a a' → le' b b') :
    Answers le' (rows.filterMap f) (answer.filterMap f) := by
  refine ⟨h.same.filterMap f, List.pairwise_filterMap.mpr (h.ordered.imp ?_)⟩
  intro a a' haa' b hb b' hb'
  exact hle a a' b b' hb hb' haa'

theorem map {f : α → β} (h : Answers le rows answer) (hle : ∀ a a', le a a' → le' (f a) (f a')) :
    Answers le' (rows.map f) (answer.map f) :=
  ⟨h.same.map f, List.pairwise_map.mpr (h.ordered.imp (hle _ _))⟩

theorem filter (h : Answers le rows answer) (p : α → Bool) :
    Answers le (rows.filter p) (answer.filter p) :=
  ⟨h.same.filter p, h.ordered.filter p⟩

end Answers

end SshCommander.RelationalQueries
