import Mathlib.Data.List.Nodup
import Mathlib.Data.List.Perm.Basic

/-!
# Identifiers from a counter that wraps

A counter of 64 bits starts at one and gives out its value before each increment.
-/

namespace SshCommander.IssuedIds

/-- The first `n` identifiers. They repeat after `2 ^ 64`. -/
def firstIds (n : ℕ) : List UInt64 := (List.range n).map fun j => UInt64.ofNat (j + 1)

/-- `ids` are what a counter that is now at `next` has given out, in any order. -/
def Issued (next : UInt64) (ids : List UInt64) : Prop :=
  ∃ n, next = UInt64.ofNat (n + 1) ∧ ids.Perm (firstIds n)

theorem nodup_firstIds {n : ℕ} (hn : n ≤ UInt64.size) : (firstIds n).Nodup := by
  refine (List.nodup_range).map_on fun j hj j' hj' heq => ?_
  have hlt := List.mem_range.mp hj
  have hlt' := List.mem_range.mp hj'
  have hmod := congrArg UInt64.toNat heq
  simp only [UInt64.toNat_ofNat'] at hmod
  simp only [UInt64.size] at hn
  omega

namespace Issued

variable {next : UInt64} {ids ids' : List UInt64}

theorem start : Issued 1 [] := ⟨0, rfl, .refl _⟩

theorem perm (h : Issued next ids) (hp : ids'.Perm ids) : Issued next ids' := by
  obtain ⟨n, hn, hids⟩ := h
  exact ⟨n, hn, hp.trans hids⟩

theorem take (h : Issued next ids) : Issued (next + 1) (ids ++ [next]) := by
  obtain ⟨n, rfl, hids⟩ := h
  refine ⟨n + 1, (UInt64.ofNat_add _ _).symm, ?_⟩
  rw [firstIds, List.range_succ, List.map_append]
  exact hids.append_right _

/-- Nothing is given out twice before the counter has gone round. -/
theorem nodup (h : Issued next ids) (hlen : ids.length ≤ UInt64.size) : ids.Nodup := by
  obtain ⟨n, -, hids⟩ := h
  have hn := hids.length_eq
  simp only [firstIds, List.length_map, List.length_range] at hn
  exact hids.nodup_iff.mpr (nodup_firstIds (hn ▸ hlen))

end Issued

end SshCommander.IssuedIds
