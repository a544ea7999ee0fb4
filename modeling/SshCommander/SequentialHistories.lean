import Mathlib.Data.List.Induction
import SshCommander.InterleavedTasks

/-!
# Histories of concurrent calls

A call takes effect in the section in which it returns. The returned calls of a run, in that order,
are the history that a sequential object has to explain.
-/

namespace SshCommander.SequentialHistories
open InterleavedTasks InterleavedTasks.TaskSystem

/-- What a call with this answer may do to a sequential object. -/
abbrev Object (V Call : Type) := V → Call → V → Prop

/-- The calls, made one after the other. -/
inductive Explains {V Call : Type} (object : Object V Call) (v₀ : V) : List Call → V → Prop where
  | nil : Explains object v₀ [] v₀
  | snoc {calls : List Call} {v v' : V} {call : Call} (h : Explains object v₀ calls v)
      (hcall : object v call v') : Explains object v₀ (calls ++ [call]) v'

variable {V Call S L E : Type} {object : Object V Call}

/-- What no call of the history changes. -/
theorem Explains.kept {v₀ v : V} {calls : List Call} (h : Explains object v₀ calls v)
    {P : V → Prop} (hcalls : ∀ call ∈ calls, ∀ v v', object v call v' → P v → P v') (hP : P v₀) :
    P v := by
  induction h with
  | nil => exact hP
  | snoc h hcall ih =>
    refine hcalls _ (List.mem_append_right _ (List.mem_singleton_self _)) _ _ hcall (ih ?_)
    exact fun call hmem => hcalls call (List.mem_append_left _ hmem)

variable (sys : TaskSystem S L E) (returned : L → Option Call)

def entry (c : Config S L) : Action L E → List (ℕ × Call)
  | .spawn _ => []
  | .advance i e =>
    match (c.tasks[i]?).bind fun l => sys.step c.shared l e with
    | none => []
    | some (_, l') => ((returned l').map fun call => (i, call)).toList

def history (c : Config S L) : List (Action L E) → List (ℕ × Call)
  | [] => []
  | a :: as => entry sys returned c a ++ ((sys.act c a).map fun c' => history c' as).getD []

/-- The run is one of calls to the sequential object, made one after the other: each call that has
returned once, and after all the calls that had returned before it was made. -/
structure Linearizable (object : Object V Call) (view : S → V) (c : Config S L)
    (as : List (Action L E)) (d : Config S L) : Prop where
  explained : Explains object (view c.shared) ((history sys returned c as).map Prod.snd)
    (view d.shared)
  once : ((history sys returned c as).map Prod.fst).Nodup
  complete : ∀ i call, (i, call) ∈ history sys returned c as ↔
    ∃ l, d.tasks[i]? = some l ∧ returned l = some call
  ordered : ∀ bs cs m, as = bs ++ cs → sys.run c bs = some m →
    ∃ later, history sys returned c as = history sys returned c bs ++ later ∧
      ∀ x ∈ later, ∀ l, m.tasks[x.1]? = some l → returned l = none

/-- What the sections have to do: nothing that the object sees before the call returns, and what the
object allows as it does. -/
structure Returns (object : Object V Call) (view : S → V) (Inv : Config S L → Prop)
    (cond : Config S L → Action L E → Prop) : Prop where
  starts : ∀ l, sys.starts l = true → returned l = none
  ended : ∀ s l e call, returned l = some call → sys.step s l e = none
  inv : ∀ c a c', Inv c → cond c a → sys.act c a = some c' → Inv c'
  pending : ∀ c i e l s' l', Inv c → c.tasks[i]? = some l → cond c (.advance i e) →
    sys.step c.shared l e = some (s', l') → returned l' = none → view s' = view c.shared
  effect : ∀ c i e l s' l' call, Inv c → c.tasks[i]? = some l → cond c (.advance i e) →
    sys.step c.shared l e = some (s', l') → returned l' = some call →
      object (view c.shared) call (view s')

variable {sys returned} {view : S → V} {Inv : Config S L → Prop}
  {cond : Config S L → Action L E → Prop} {c d m : Config S L} {as bs : List (Action L E)}

theorem history_cons {a : Action L E} {c' : Config S L} (h : sys.act c a = some c') :
    history sys returned c (a :: as) = entry sys returned c a ++ history sys returned c' as := by
  rw [history, h]
  rfl

theorem history_append (h : sys.run c as = some m) :
    history sys returned c (as ++ bs) = history sys returned c as ++ history sys returned m bs := by
  induction as generalizing c with
  | nil =>
    obtain rfl := Option.some.inj h
    rfl
  | cons a as ih =>
    obtain ⟨c', ha, h⟩ := run_cons h
    rw [List.cons_append, history_cons ha, history_cons ha, ih h, List.append_assoc]

theorem Explains.trans {v₀ v w : V} {calls calls' : List Call} (h : Explains object v₀ calls v)
    (h' : Explains object v calls' w) : Explains object v₀ (calls ++ calls') w := by
  induction h' with
  | nil => rwa [List.append_nil]
  | snoc h' hcall ih => exact List.append_assoc .. ▸ ih.snoc hcall

theorem run_rest (hm : sys.run c as = some m) (hr : sys.run c (as ++ bs) = some d) :
    sys.run m bs = some d := by
  induction as generalizing c with
  | nil => exact Option.some.inj hm ▸ hr
  | cons a as ih =>
    obtain ⟨c', ha, hm⟩ := run_cons hm
    obtain ⟨c'', ha', hr⟩ := run_cons hr
    obtain rfl := Option.some.inj (ha.symm.trans ha')
    exact ih hm hr

theorem Explains.split {v₀ v : V} {calls calls' : List Call}
    (h : Explains object v₀ (calls ++ calls') v) :
    ∃ m, Explains object v₀ calls m ∧ Explains object m calls' v := by
  induction calls' using List.reverseRecOn generalizing v with
  | nil => exact ⟨v, by rwa [List.append_nil] at h, .nil⟩
  | append_singleton calls' call ih =>
    rw [← List.append_assoc] at h
    generalize hall : calls ++ calls' ++ [call] = all at h
    cases h with
    | nil => simp at hall
    | snoc h hcall =>
      obtain ⟨rfl, heq⟩ := List.append_inj' hall rfl
      obtain rfl := List.singleton_inj.mp heq
      obtain ⟨m, hm, hrest⟩ := ih h
      exact ⟨m, hm, hrest.snoc hcall⟩

theorem Explains.eq_of_nil {v₀ v : V} (h : Explains object v₀ [] v) : v = v₀ := by
  generalize hnil : [] = calls at h
  cases h with
  | nil => rfl
  | snoc => simp at hnil

/-- The first of the calls. -/
theorem Explains.first {v₀ v : V} {call : Call} {calls : List Call}
    (h : Explains object v₀ (call :: calls) v) :
    ∃ m, object v₀ call m ∧ Explains object m calls v := by
  have hone : Explains object v₀ ([call] ++ calls) v := h
  obtain ⟨m, hm, hrest⟩ := hone.split
  generalize hsingle : [call] = single at hm
  cases hm with
  | nil => simp at hsingle
  | snoc h' hcall =>
    obtain ⟨rfl, heq⟩ := List.append_inj' ((List.nil_append _).trans hsingle) rfl
    obtain rfl := List.singleton_inj.mp heq
    obtain rfl := h'.eq_of_nil
    exact ⟨m, hcall, hrest⟩

theorem entry_advance {i : ℕ} {e : E} {l l' : L} {s' : S} (hi : c.tasks[i]? = some l)
    (hs : sys.step c.shared l e = some (s', l')) :
    entry sys returned c (.advance i e) = ((returned l').map fun call => (i, call)).toList := by
  rw [entry, hi, Option.bind_some, hs]

theorem nodup_entry {a : Action L E} : ((entry sys returned c a).map Prod.fst).Nodup := by
  cases a with
  | spawn l => exact List.nodup_nil
  | advance i e =>
    rw [entry]
    split
    · exact List.nodup_nil
    · rename_i l' _
      cases returned l' with
      | none => exact List.nodup_nil
      | some call => exact List.nodup_cons.mpr ⟨List.not_mem_nil, List.nodup_nil⟩

theorem returned_entry {a : Action L E} {c' : Config S L} {i : ℕ} {call : Call}
    (hact : sys.act c a = some c') (hentry : (i, call) ∈ entry sys returned c a) :
    ∃ l, c'.tasks[i]? = some l ∧ returned l = some call := by
  obtain ⟨l₀, rfl, -, rfl⟩ | ⟨j, e, l, s', l', rfl, hj, hs, rfl⟩ := act_cases hact
  · cases hentry
  · rw [entry_advance hj hs, Option.mem_toList] at hentry
    obtain ⟨call', hl, heq⟩ := Option.map_eq_some_iff.mp hentry
    obtain ⟨rfl, rfl⟩ := Prod.mk.inj heq
    refine ⟨l', ?_, hl⟩
    rw [List.getElem?_set_self', hj]
    rfl

namespace Returns

variable (h : Returns sys returned object view Inv cond)
include h

theorem act_returned {a : Action L E} {c' : Config S L} {i : ℕ} {l : L} {call : Call}
    (hact : sys.act c a = some c') (hi : c.tasks[i]? = some l) (hl : returned l = some call) :
    c'.tasks[i]? = some l := by
  obtain ⟨l₀, rfl, -, rfl⟩ | ⟨j, e, l₀, s', l', rfl, hj, hs, rfl⟩ := act_cases hact
  · exact (List.getElem?_append_left (List.getElem?_eq_some_iff.mp hi).1).trans hi
  · rcases Decidable.eq_or_ne j i with rfl | hne
    · obtain rfl := Option.some.inj (hi.symm.trans hj)
      cases (h.ended _ _ e _ hl).symm.trans hs
    · exact (List.getElem?_set_ne hne).trans hi

theorem run_returned {i : ℕ} {l : L} {call : Call} (hr : sys.run c as = some d)
    (hi : c.tasks[i]? = some l) (hl : returned l = some call) : d.tasks[i]? = some l := by
  induction as generalizing c with
  | nil => exact Option.some.inj hr ▸ hi
  | cons a as ih =>
    obtain ⟨c', ha, hr⟩ := run_cons hr
    exact ih hr (h.act_returned ha hi hl)

/-- The calls that return in a run are those that have returned after it and had not before. -/
theorem mem_history {i : ℕ} {call : Call} (hr : sys.run c as = some d) :
    (i, call) ∈ history sys returned c as ↔ (∃ l, d.tasks[i]? = some l ∧ returned l = some call) ∧
      ∀ l, c.tasks[i]? = some l → returned l = none := by
  induction as generalizing c with
  | nil =>
    obtain rfl := Option.some.inj hr
    refine iff_of_false List.not_mem_nil ?_
    rintro ⟨⟨l, hi, hl⟩, hnone⟩
    cases hl.symm.trans (hnone l hi)
  | cons a as ih =>
    obtain ⟨c', ha, hr⟩ := run_cons hr
    rw [history_cons ha, List.mem_append, ih hr]
    obtain ⟨l₀, rfl, hstarts, rfl⟩ | ⟨j, e, l, s', l', rfl, hj, hs, rfl⟩ := act_cases ha
    · have hnew : returned l₀ = none := h.starts l₀ hstarts
      have hentry : (i, call) ∉ entry sys returned c (.spawn l₀) := List.not_mem_nil
      rw [or_iff_right hentry]
      refine and_congr_right fun _ => ⟨fun hnone l hi => ?_, fun hnone l hi => ?_⟩
      · exact hnone l ((List.getElem?_append_left (List.getElem?_eq_some_iff.mp hi).1).trans hi)
      · rcases getElem?_append_singleton_cases hi with hi | ⟨-, rfl⟩
        · exact hnone l hi
        · exact hnew
    · have hlive : returned l = none := by
        cases hl : returned l with
        | none => rfl
        | some call => cases (h.ended _ _ e _ hl).symm.trans hs
      have hself : (c.tasks.set j l')[j]? = some l' := by
        rw [List.getElem?_set_self', hj]
        rfl
      rw [entry_advance hj hs]
      rcases Decidable.eq_or_ne i j with rfl | hne
      · cases hl : returned l' with
        | none =>
          -- the call goes on, and may return later
          simp [hj, hself, hl, hlive]
        | some call' =>
          have hd := h.run_returned hr hself hl
          simp [hj, hself, hd, hl, hlive, eq_comm]
      · rw [List.getElem?_set_ne hne.symm, or_iff_right]
        cases returned l' <;> simp [hne]

theorem nodup_history (hr : sys.run c as = some d) :
    ((history sys returned c as).map Prod.fst).Nodup := by
  induction as generalizing c with
  | nil => exact List.nodup_nil
  | cons a as ih =>
    obtain ⟨c', ha, hr⟩ := run_cons hr
    rw [history_cons ha, List.map_append]
    refine List.nodup_append.mpr ⟨?_, ih hr, ?_⟩
    · exact nodup_entry
    · intro i hi j hj heq
      obtain ⟨⟨i, call⟩, hentry, rfl⟩ := List.mem_map.mp hi
      obtain ⟨⟨j, call'⟩, hlater, rfl⟩ := List.mem_map.mp hj
      obtain rfl : i = j := heq
      obtain ⟨l, hl, hreturned⟩ := returned_entry ha hentry
      cases hreturned.symm.trans (((h.mem_history hr).mp hlater).2 l hl)

theorem explains_history (hc : Inv c) (hm : sys.Meets cond c as) (hr : sys.run c as = some d) :
    Explains object (view c.shared) ((history sys returned c as).map Prod.snd) (view d.shared) := by
  induction as generalizing c with
  | nil =>
    obtain rfl := Option.some.inj hr
    exact .nil
  | cons a as ih =>
    obtain ⟨c', ha, hr⟩ := run_cons hr
    have hrest := ih (h.inv c a c' hc hm.1 ha) (hm.2 c' ha) hr
    rw [history_cons ha, List.map_append]
    refine Explains.trans ?_ hrest
    obtain ⟨l₀, rfl, -, rfl⟩ | ⟨j, e, l, s', l', rfl, hj, hs, rfl⟩ := act_cases ha
    · exact .nil
    · rw [entry_advance hj hs]
      cases hl : returned l' with
      | none =>
        rw [h.pending c j e l s' l' hc hj hm.1 hs hl]
        exact .nil
      | some call => exact Explains.nil.snoc (h.effect c j e l s' l' call hc hj hm.1 hs hl)

/-- Every run from no calls is linearizable. -/
theorem linearizable {s : S} (hc : Inv ⟨s, []⟩) (hm : sys.Meets cond ⟨s, []⟩ as)
    (hr : sys.run ⟨s, []⟩ as = some d) : Linearizable sys returned object view ⟨s, []⟩ as d where
  explained := h.explains_history hc hm hr
  once := h.nodup_history hr
  complete i call := by
    rw [h.mem_history hr]
    exact and_iff_left fun l hi => by simp at hi
  ordered bs cs m := by
    rintro rfl hm
    refine ⟨history sys returned m cs, history_append hm, ?_⟩
    rintro ⟨i, call⟩ hx
    exact ((h.mem_history (run_rest hm hr)).mp hx).2

end Returns

end SshCommander.SequentialHistories
