import Mathlib.Data.List.AList
import Mathlib.Algebra.BigOperators.Group.List.Basic
import Mathlib.Algebra.GroupWithZero.Nat

/-!
# Weights summed over an association map

The weight of a map is the sum over its values. Inserting, erasing and erasing many keys change
it by the values that come and go; with weight one this is the size of the map, and with an
indicator it counts the occurrences of a value.
-/

namespace SshCommander.MapWeights

variable {α β : Type} [DecidableEq α]

def weigh (w : β → ℕ) (m : AList fun _ : α => β) : ℕ := (m.entries.map fun e => w e.2).sum

variable {w : β → ℕ} {m : AList fun _ : α => β} {a : α} {b b' : β}

omit [DecidableEq α] in
@[simp] theorem weigh_empty : weigh w (∅ : AList fun _ : α => β) = 0 := rfl

theorem weigh_erase (h : m.lookup a = some b) : weigh w (m.erase a) + w b = weigh w m := by
  have hmem : a ∈ m.entries.keys := AList.lookup_isSome.mp (by rw [h]; rfl)
  obtain ⟨b', l₁, l₂, hnot, hl, hk⟩ := List.exists_of_kerase hmem
  have hb : m.lookup a = some b' := by
    refine AList.mem_lookup_iff.mpr ?_
    rw [hl]
    simp
  obtain rfl := Option.some.inj (h.symm.trans hb)
  have he : (m.erase a).entries = l₁ ++ l₂ := hk
  simp only [weigh, he, hl, List.map_append, List.map_cons, List.sum_append, List.sum_cons]
  omega

theorem weigh_erase_none (h : m.lookup a = none) : weigh w (m.erase a) = weigh w m := by
  have hmem : a ∉ m.entries.keys := AList.lookup_eq_none.mp h
  have he : (m.erase a).entries = m.entries := List.kerase_of_notMem_keys hmem
  simp only [weigh, he]

theorem weigh_insert (m : AList fun _ : α => β) (a : α) (b : β) :
    weigh w (m.insert a b) = w b + weigh w (m.erase a) := by
  have he : (m.insert a b).entries = ⟨a, b⟩ :: (m.erase a).entries := AList.entries_insert
  simp only [weigh, he, List.map_cons, List.sum_cons]

theorem weigh_insert_none (h : m.lookup a = none) (b : β) :
    weigh w (m.insert a b) = weigh w m + w b := by
  rw [weigh_insert, weigh_erase_none h, Nat.add_comm]

theorem weigh_insert_some (h : m.lookup a = some b) (b' : β) :
    weigh w (m.insert a b') + w b = weigh w m + w b' := by
  rw [weigh_insert, Nat.add_assoc, weigh_erase h, Nat.add_comm]

theorem le_weigh (h : m.lookup a = some b) : w b ≤ weigh w m := by
  rw [← weigh_erase h]
  exact Nat.le_add_left _ _

/-- Two keys weigh at least their two values. -/
theorem add_le_weigh {a' : α} (h : m.lookup a = some b) (h' : m.lookup a' = some b')
    (hne : a ≠ a') : w b + w b' ≤ weigh w m := by
  have he : (m.erase a').lookup a = some b := by rwa [AList.lookup_erase_ne hne]
  have hle := le_weigh (w := w) he
  have hsum := weigh_erase (w := w) h'
  omega

omit [DecidableEq α] in
theorem weigh_one (m : AList fun _ : α => β) : weigh (fun _ => 1) m = m.entries.length := by
  simp [weigh]

theorem length_insert_some (h : m.lookup a = some b) (b' : β) :
    (m.insert a b').entries.length = m.entries.length := by
  have hw := weigh_insert_some (w := fun _ => 1) h b'
  rw [weigh_one, weigh_one] at hw
  exact Nat.add_right_cancel hw

theorem length_pos_of_lookup (h : m.lookup a = some b) : 0 < m.entries.length := by
  rw [← weigh_one]
  exact le_weigh (w := fun _ => 1) h

/-- Erasing some of the entries of a map. -/
theorem weigh_eraseMany {drop : List (Sigma fun _ : α => β)} (hn : drop.NodupKeys)
    (hd : ∀ e ∈ drop, m.lookup e.1 = some e.2) :
    weigh w (drop.foldl (fun m e => m.erase e.1) m) + (drop.map fun e => w e.2).sum =
      weigh w m := by
  induction drop generalizing m with
  | nil => rfl
  | cons e drop ih =>
    obtain ⟨hnot, hn⟩ := List.nodupKeys_cons.mp hn
    have hrest : ∀ e' ∈ drop, (m.erase e.1).lookup e'.1 = some e'.2 := by
      intro e' he'
      have hne : e'.1 ≠ e.1 := fun heq => hnot (heq ▸ List.mem_keys_of_mem he')
      rw [AList.lookup_erase_ne hne]
      exact hd e' (List.mem_cons_of_mem _ he')
    have h := ih hn hrest
    have he := weigh_erase (w := w) (hd e List.mem_cons_self)
    simp only [List.foldl_cons, List.map_cons, List.sum_cons]
    omega

/-- What is there after an erase was there before, under another key. -/
theorem lookup_of_erase {a' : α} (h : (m.erase a).lookup a' = some b) :
    a' ≠ a ∧ m.lookup a' = some b := by
  by_cases ha : a' = a
  · subst ha
    cases (AList.lookup_erase _ _).symm.trans h
  · exact ⟨ha, (AList.lookup_erase_ne ha).symm.trans h⟩

theorem lookup_of_mem {e : Sigma fun _ : α => β} (h : e ∈ m.entries) : m.lookup e.1 = some e.2 :=
  AList.mem_lookup_iff.mpr h

theorem weigh_eraseFilter (m : AList fun _ : α => β) (f : (Sigma fun _ : α => β) → Bool) :
    weigh w ((m.entries.filter f).foldl (fun m e => m.erase e.1) m) +
      ((m.entries.filter f).map fun e => w e.2).sum = weigh w m :=
  weigh_eraseMany (m.nodupKeys.sublist List.filter_sublist)
    fun _ he => lookup_of_mem (List.mem_filter.mp he).1

end SshCommander.MapWeights
