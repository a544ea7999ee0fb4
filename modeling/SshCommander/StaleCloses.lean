import SshCommander.PtyRegistry

/-!
# Stale closes

`remove` with a generation reads the counter under one lock and takes the session under another,
and `insert` bumps the counter before it stores the session. So the session that is taken is the
one of that generation exactly when the last `insert` to store is the one that returned it.
-/

namespace SshCommander.StaleCloses
open InterleavedTasks InterleavedTasks.TaskSystem RustText PtyRegistry PtyRegistry.Registry

variable {c c' : Config Registry PtyRegistry.Task} {a : Action PtyRegistry.Task Unit}
  {r r' : Registry} {id : Text} {s : PtySession} {g : ℕ} {i : ℕ} {t : PtyRegistry.Task}

/-- The session is no longer registered, or its token is cancelled, and before it was not so. -/
def TornDown (r r' : Registry) (s : PtySession) : Prop :=
  (∃ id, r.sessions.lookup id = some s ∧ r'.sessions.lookup id ≠ some s) ∨
    (s ∈ r'.cancelled ∧ s ∉ r.cancelled)

/-- A section of `remove` with a generation tears down only the session whose `insert` returned
that generation. -/
def SparesOthers (c : Config Registry PtyRegistry.Task) (a : Action PtyRegistry.Task Unit) : Prop :=
  ∀ i e id g c', a = .advance i e →
    c.tasks[i]? = some (.remove id (some g)) ∨ c.tasks[i]? = some (.removing id g) →
    calls.act c a = some c' → ∀ s, TornDown c.shared c'.shared s → ⟨id, s, g⟩ ∈ c.shared.inserted

/-- When `remove` with a generation starts and the session whose `insert` returned it is
registered, the whole call tears it down. -/
def ClosesOwn (c : Config Registry PtyRegistry.Task) (a : Action PtyRegistry.Task Unit) : Prop :=
  ∀ i e id g s, a = .advance i e → c.tasks[i]? = some (.remove id (some g)) →
    ⟨id, s, g⟩ ∈ c.shared.inserted → c.shared.sessions.lookup id = some s →
    (c.shared.remove id (some g)).sessions.lookup id = none ∧
      s ∈ (c.shared.remove id (some g)).cancelled

/-- While a session is registered, `remove` takes it only if the last `insert` to store is the one
that returned its generation, and if that is so when it reads the counter, no `insert` has bumped
the counter since. -/
def LastStored (c : Config Registry PtyRegistry.Task) (a : Action PtyRegistry.Task Unit) : Prop :=
  ∀ i e id g x, a = .advance i e → (c.shared.sessions.lookup id).isSome →
    c.shared.lastInserted id = some x →
    (c.tasks[i]? = some (.removing id g) → x.generation = g) ∧
    (c.tasks[i]? = some (.remove id (some g)) → x.generation = g → c.shared.currentGen id = g)

/-- With nothing else between them, the sections of `remove` are the whole call. -/
theorem sections_remove (h : c.tasks[i]? = some (.remove id (some g))) :
    ∃ n, (calls.run c (List.replicate n (.advance i ()))).map (·.shared) =
      some (c.shared.remove id (some g)) := by
  have hi : i < c.tasks.length := (List.getElem?_eq_some_iff.mp h).1
  by_cases hg : c.shared.currentGen id = g
  · refine ⟨2, ?_⟩
    simp [List.replicate, run, act, h, calls, PtyRegistry.step, hg, remove,
      List.getElem?_set_self hi]
  · refine ⟨1, ?_⟩
    simp [List.replicate, run, act, h, calls, PtyRegistry.step, hg, remove]

def pending : PtyRegistry.Task → Option PtySession
  | .inserting _ s _ => some s
  | _ => none

def Kept (c : Config Registry PtyRegistry.Task) : Prop := Sound c.shared (c.tasks.filterMap pending)

theorem Kept.take (h : Kept c) (hi : c.tasks[i]? = some t) (ht : pending t = none) (id : Text) :
    Kept ⟨c.shared.take id, c.tasks.set i .returned⟩ := by
  have hkept : Kept ⟨c.shared, c.tasks.set i .returned⟩ :=
    h.congr rfl rfl rfl (h.numbered.keep hi ht.symm)
  exact Sound.take hkept id

theorem kept_act (h : Kept c) (hact : calls.act c a = some c') : Kept c' := by
  rcases act_cases hact with ⟨t, rfl, ht, rfl⟩ | ⟨i, e, t, r', t', rfl, hi, hs, rfl⟩
  · have hnone : pending t = none := by
      cases t <;> first | rfl | cases ht
    simpa [Kept, List.filterMap_append, hnone] using h
  · cases t with
    | cancelExisting id =>
      obtain ⟨rfl, rfl⟩ := hs
      exact h.take hi rfl id
    | insert id =>
      obtain ⟨rfl, rfl⟩ := hs
      exact h.congr rfl rfl rfl (h.numbered.take_fresh hi rfl rfl)
    | inserting id s g =>
      obtain ⟨rfl, rfl⟩ := hs
      exact Sound.store h (h.numbered.hand_over hi rfl rfl)
    | remove id expectedGen =>
      cases expectedGen with
      | none =>
        obtain ⟨rfl, rfl⟩ := hs
        exact h.take hi rfl id
      | some g =>
        obtain ⟨rfl, rfl⟩ := hs
        refine h.congr rfl rfl rfl (h.numbered.keep hi ?_)
        split <;> rfl
    | removing id g =>
      obtain ⟨rfl, rfl⟩ := hs
      exact h.take hi rfl id
    | inserted | returned => cases hs

theorem tornDown_take (h : TornDown r (r.take id) s) : r.sessions.lookup id = some s := by
  rcases h with ⟨id', hl, hne⟩ | ⟨hc, hnot⟩
  · by_cases hid : id' = id
    · exact hid ▸ hl
    · exact absurd ((lookup_take_ne hid).trans hl) hne
  · exact (mem_cancelled_take.mp hc).resolve_left hnot

theorem not_tornDown_self : ¬TornDown r r s := by
  rintro (⟨id, hl, hne⟩ | ⟨hc, hnot⟩)
  · exact hne hl
  · exact hnot hc

theorem spares_iff (h : Kept c) :
    SparesOthers c a ∧ ClosesOwn c a ↔ LastStored c a := by
  constructor
  · rintro ⟨hspares, hcloses⟩ i e id g x rfl hreg hx
    obtain ⟨s, hs⟩ := Option.isSome_iff_exists.mp hreg
    obtain ⟨g₀, hlast⟩ := h.recorded id s hs
    obtain rfl := Option.some.inj (hx.symm.trans hlast)
    have hmem := (mem_of_lastInserted hlast).1
    constructor
    · intro ht
      have hact : calls.act c (.advance i e) =
          some ⟨c.shared.take id, c.tasks.set i .returned⟩ := by
        simp [act, ht, calls, PtyRegistry.step]
      have htorn : TornDown c.shared (c.shared.take id) s :=
        .inl ⟨id, hs, by simp [lookup_take_self]⟩
      have hown := hspares i e id g _ rfl (.inr ht) hact s htorn
      exact congrArg Inserted.generation (h.unique hmem hown rfl)
    · rintro ht rfl
      by_contra hg
      have hgone := (hcloses i e id g₀ s rfl ht hmem hs).1
      simp only [remove, if_neg hg] at hgone
      cases hgone.symm.trans hs
  · intro hlast
    constructor
    · rintro i e id g c' rfl ht hact s htorn
      rcases ht with ht | ht
      · simp only [act, ht, calls, PtyRegistry.step, Option.map_some, Option.some.injEq] at hact
        subst hact
        exact absurd htorn not_tornDown_self
      · simp only [act, ht, calls, PtyRegistry.step, Option.map_some, Option.some.injEq] at hact
        subst hact
        have hs := tornDown_take htorn
        obtain ⟨g₀, hl⟩ := h.recorded id s hs
        have hgen : g₀ = g := (hlast i e id g _ rfl (by simp [hs]) hl).1 ht
        exact hgen ▸ (mem_of_lastInserted hl).1
    · rintro i e id g s rfl ht hmem hs
      obtain ⟨g₀, hl⟩ := h.recorded id s hs
      have hgen : g₀ = g :=
        congrArg Inserted.generation (h.unique (mem_of_lastInserted hl).1 hmem rfl)
      have hcur := (hlast i e id g _ rfl (by simp [hs]) hl).2 ht hgen
      simp only [remove, if_pos hcur]
      exact ⟨lookup_take_self, mem_cancelled_take.mpr (.inr hs)⟩

/-- In every interleaving, each `remove` with a generation tears down its own session and no
other exactly when the last session stored is its own whenever it takes one, and the counter is
still its own when it reads it. -/
theorem closes_own_iff (as : List (Action PtyRegistry.Task Unit)) :
    calls.Meets (fun c a => SparesOthers c a ∧ ClosesOwn c a) ⟨.new, []⟩ as ↔
      calls.Meets LastStored ⟨.new, []⟩ as :=
  meets_congr (fun _ _ _ h hact => kept_act h hact) (fun _ _ h => spares_iff h) sound_new

/-- A session is closed with the generation its `insert` returned, and a second `insert` comes
between the two sections of that. -/
def insertedWhileClosing : List (Action PtyRegistry.Task Unit) :=
  [.spawn (.insert "c".toList), .advance 0 (), .advance 0 (),
    .spawn (.remove "c".toList (some 1)), .advance 1 (),
    .spawn (.insert "c".toList), .advance 2 (), .advance 2 ()]

/-- The last section of the stale close tears the new session down. -/
theorem insertedWhileClosing_harms :
    ¬calls.Meets (fun c a => SparesOthers c a ∧ ClosesOwn c a) ⟨.new, []⟩
      (insertedWhileClosing ++ [.advance 1 ()]) := by
  intro h
  have hrun : ∃ d, calls.run ⟨.new, []⟩ insertedWhileClosing = some d ∧
      d.tasks[1]? = some (.removing "c".toList 1) ∧
      d.shared.sessions.lookup "c".toList = some 1 ∧
      ⟨"c".toList, 1, 1⟩ ∉ d.shared.inserted := run_decided (by decide)
  obtain ⟨d, hd, ht, hs, hnot⟩ := hrun
  have hact : calls.act d (.advance 1 ()) =
      some ⟨d.shared.take "c".toList, d.tasks.set 1 .returned⟩ := by
    simp [act, ht, calls, PtyRegistry.step]
  have htorn : TornDown d.shared (d.shared.take "c".toList) 1 :=
    .inl ⟨_, hs, by simp [lookup_take_self]⟩
  exact hnot ((meets_at h hd).1 1 () _ 1 _ rfl (.inr ht) hact 1 htorn)

end SshCommander.StaleCloses
