import Mathlib.Algebra.Order.BigOperators.Group.List
import Mathlib.Algebra.Order.Group.Nat
import Mathlib.Algebra.GroupWithZero.Nat

/-!
# Tasks interleaving over a shared state

A task is a local state that advances by atomic sections; each section sees the
shared state and one choice of the environment. A run is a list of actions, so
every interleaving of any number of tasks is one list. The rules below turn a
fact about one section into a fact about every run.
-/

namespace SshCommander.InterleavedTasks

variable {S L E : Type}

/-- `step` is `none` where a task is blocked or has returned. -/
structure TaskSystem (S L E : Type) where
  starts : L → Bool
  step : S → L → E → Option (S × L)

/-- Tasks are never removed, so a position names the same task for the whole run. -/
structure Config (S L : Type) where
  shared : S
  tasks : List L

inductive Action (L E : Type) where
  | spawn (l : L)
  | advance (i : ℕ) (e : E)

namespace TaskSystem

variable (sys : TaskSystem S L E)

def act (c : Config S L) : Action L E → Option (Config S L)
  | .spawn l => if sys.starts l then some ⟨c.shared, c.tasks ++ [l]⟩ else none
  | .advance i e =>
    match c.tasks[i]? with
    | none => none
    | some l => (sys.step c.shared l e).map fun r => ⟨r.1, c.tasks.set i r.2⟩

def run (c : Config S L) : List (Action L E) → Option (Config S L)
  | [] => some c
  | a :: as => (sys.act c a).bind fun c' => run c' as

def Meets (cond : Config S L → Action L E → Prop) : Config S L → List (Action L E) → Prop
  | _, [] => True
  | c, a :: as => cond c a ∧ ∀ c', sys.act c a = some c' → Meets cond c' as

instance decidableMeets (cond : Config S L → Action L E → Prop) [∀ c a, Decidable (cond c a)] :
    ∀ (c : Config S L) (as : List (Action L E)), Decidable (sys.Meets cond c as)
  | _, [] => .isTrue trivial
  | c, a :: as =>
    match h : sys.act c a with
    | none => decidable_of_iff (cond c a) (by simp [Meets, h])
    | some c' =>
      have := decidableMeets cond c' as
      decidable_of_iff (cond c a ∧ sys.Meets cond c' as) (by simp [Meets, h])

/-- A record kept alongside a run, which the run does not read. -/
def noted {G : Type} (note : Config S L → Action L E → G → G) :
    Config S L → G → List (Action L E) → G
  | _, r, [] => r
  | c, r, a :: as =>
    match sys.act c a with
    | none => r
    | some c' => noted note c' (note c a r) as

variable {sys} {c c' d : Config S L} {a : Action L E} {as bs : List (Action L E)}

/-- What one action can do, guards included. -/
theorem act_cases (h : sys.act c a = some c') :
    (∃ l, a = .spawn l ∧ sys.starts l = true ∧ c' = ⟨c.shared, c.tasks ++ [l]⟩) ∨
    (∃ i e l s' l', a = .advance i e ∧ c.tasks[i]? = some l ∧
      sys.step c.shared l e = some (s', l') ∧ c' = ⟨s', c.tasks.set i l'⟩) := by
  cases a with
  | spawn l =>
    by_cases hl : sys.starts l = true
    · simp only [act, hl, if_true, Option.some.injEq] at h
      exact .inl ⟨l, rfl, hl, h.symm⟩
    · simp [act, hl] at h
  | advance i e =>
    cases hi : c.tasks[i]? with
    | none => simp [act, hi] at h
    | some l =>
      simp only [act, hi, Option.map_eq_some_iff] at h
      obtain ⟨⟨s', l'⟩, hs, rfl⟩ := h
      exact .inr ⟨i, e, l, s', l', rfl, hi, hs, rfl⟩

theorem run_cons (h : sys.run c (a :: as) = some d) :
    ∃ c', sys.act c a = some c' ∧ sys.run c' as = some d := by
  simpa only [run, Option.bind_eq_some_iff] using h

/-- What can be decided of the end of a concrete run is found by running it. -/
theorem run_decided {p : Config S L → Prop} [DecidablePred p]
    (h : (sys.run c as).any (fun d => p d) = true) : ∃ d, sys.run c as = some d ∧ p d := by
  obtain ⟨d, hd, hp⟩ := (Option.any_eq_true _ _).mp h
  exact ⟨d, hd, of_decide_eq_true hp⟩

/-- An invariant of every action that meets the condition holds after every run that does. -/
theorem run_invariant {Inv : Config S L → Prop} {cond : Config S L → Action L E → Prop}
    (hstep : ∀ c a c', Inv c → cond c a → sys.act c a = some c' → Inv c')
    (hc : Inv c) (hm : sys.Meets cond c as) (hr : sys.run c as = some d) : Inv d := by
  induction as generalizing c with
  | nil => exact Option.some.inj hr ▸ hc
  | cons a as ih =>
    obtain ⟨c', ha, hr⟩ := run_cons hr
    exact ih (hstep c a c' hc hm.1 ha) (hm.2 c' ha) hr

theorem run_noted {G : Type} {note : Config S L → Action L E → G → G}
    {Inv : Config S L → G → Prop} {cond : Config S L → Action L E → Prop}
    (hstep : ∀ c r a c', Inv c r → cond c a → sys.act c a = some c' → Inv c' (note c a r))
    {r : G} (hc : Inv c r) (hm : sys.Meets cond c as) (hr : sys.run c as = some d) :
    Inv d (sys.noted note c r as) := by
  induction as generalizing c r with
  | nil => exact Option.some.inj hr ▸ hc
  | cons a as ih =>
    obtain ⟨c', ha, hr⟩ := run_cons hr
    simp only [noted, ha]
    exact ih (hstep c r a c' hc hm.1 ha) (hm.2 c' ha) hr

theorem meets_mono {p q : Config S L → Action L E → Prop} (hpq : ∀ c a, p c a → q c a)
    (h : sys.Meets p c as) : sys.Meets q c as := by
  induction as generalizing c with
  | nil => trivial
  | cons a as ih => exact ⟨hpq c a h.1, fun c' ha => ih (h.2 c' ha)⟩

theorem meets_of_forall {p : Action L E → Prop} (h : ∀ a ∈ as, p a) :
    sys.Meets (fun _ => p) c as := by
  induction as generalizing c with
  | nil => trivial
  | cons a as ih =>
    exact ⟨h a List.mem_cons_self, fun _ _ => ih fun b hb => h b (List.mem_cons_of_mem _ hb)⟩

theorem meets_and {p q : Config S L → Action L E → Prop} (hp : sys.Meets p c as)
    (hq : sys.Meets q c as) : sys.Meets (fun c a => p c a ∧ q c a) c as := by
  induction as generalizing c with
  | nil => trivial
  | cons a as ih => exact ⟨⟨hp.1, hq.1⟩, fun c' ha => ih (hp.2 c' ha) (hq.2 c' ha)⟩

/-- The condition holds of an action where the run before it leads. -/
theorem meets_at {p : Config S L → Action L E → Prop} (h : sys.Meets p c (as ++ a :: bs))
    (hr : sys.run c as = some d) : p d a := by
  induction as generalizing c with
  | nil => exact Option.some.inj hr ▸ h.1
  | cons b as ih =>
    obtain ⟨c', ha, hr⟩ := run_cons hr
    exact ih (h.2 c' ha) hr

/-- An invariant of every action holds after every run. -/
theorem run_always (Inv : Config S L → Prop)
    (hstep : ∀ c a c', Inv c → sys.act c a = some c' → Inv c') (hc : Inv c)
    (hr : sys.run c as = some d) : Inv d :=
  run_invariant (fun c a c' hc _ hact => hstep c a c' hc hact) hc
    (meets_of_forall (p := fun _ => True) fun _ _ => trivial) hr

theorem run_always_noted {G : Type} (note : Config S L → Action L E → G → G)
    (Inv : Config S L → G → Prop)
    (hstep : ∀ c r a c', Inv c r → sys.act c a = some c' → Inv c' (note c a r)) {r : G}
    (hc : Inv c r) (hr : sys.run c as = some d) : Inv d (sys.noted note c r as) :=
  run_noted (fun c r a c' hc _ hact => hstep c r a c' hc hact) hc
    (meets_of_forall (p := fun _ => True) fun _ _ => trivial) hr

/-- Where every action is one action of another system or none, every run is a run of that system. -/
theorem run_simulated {S' L' E' : Type} {sys' : TaskSystem S' L' E'} (f : Config S L → Config S' L')
    (hact : ∀ c a c', sys.act c a = some c' → f c' = f c ∨ ∃ b, sys'.act (f c) b = some (f c'))
    (hr : sys.run c as = some d) : ∃ bs, sys'.run (f c) bs = some (f d) := by
  induction as generalizing c with
  | nil => exact ⟨[], by rw [Option.some.inj hr]; rfl⟩
  | cons a as ih =>
    obtain ⟨c', ha, hr⟩ := run_cons hr
    obtain ⟨bs, hbs⟩ := ih hr
    rcases hact c a c' ha with hsame | ⟨b, hb⟩
    · exact ⟨bs, hsame ▸ hbs⟩
    · exact ⟨b :: bs, by rw [run, hb]; exact hbs⟩

/-- Two conditions that agree wherever an invariant of all runs holds. -/
theorem meets_congr {Inv : Config S L → Prop} {p q : Config S L → Action L E → Prop}
    (hinv : ∀ c a c', Inv c → sys.act c a = some c' → Inv c')
    (hpq : ∀ c a, Inv c → (p c a ↔ q c a)) (hc : Inv c) : sys.Meets p c as ↔ sys.Meets q c as := by
  induction as generalizing c with
  | nil => exact Iff.rfl
  | cons a as ih =>
    refine and_congr (hpq c a hc) (forall_congr' fun c' => ?_)
    exact forall_congr' fun ha => ih (hinv c a c' hc ha)

/-- What each action keeps exactly when it meets the condition holds after exactly the runs that do,
and that start with it. -/
theorem run_iff {Inv J : Config S L → Prop} {cond : Config S L → Action L E → Prop}
    (hinv : ∀ c a c', Inv c → sys.act c a = some c' → Inv c')
    (hstep : ∀ c a c', Inv c → sys.act c a = some c' → (J c' ↔ J c ∧ cond c a))
    (hc : Inv c) (hr : sys.run c as = some d) : J d ↔ J c ∧ sys.Meets cond c as := by
  induction as generalizing c with
  | nil =>
    obtain rfl := Option.some.inj hr
    simp [Meets]
  | cons a as ih =>
    obtain ⟨c', ha, hr⟩ := run_cons hr
    rw [ih (hinv c a c' hc ha) hr, hstep c a c' hc ha, and_assoc]
    simp [Meets, ha]

/-- When each action from a good configuration leads to a good one exactly if it meets the
condition, all configurations of a run are good exactly if all its actions meet it. -/
theorem always_iff {Inv J : Config S L → Prop} {cond : Config S L → Action L E → Prop}
    (hinv : ∀ c a c', Inv c → sys.act c a = some c' → Inv c')
    (hstep : ∀ c a c', Inv c → J c → sys.act c a = some c' → (J c' ↔ cond c a))
    (hc : Inv c) (hJ : J c) (hr : sys.run c as = some d) :
    (∀ bs c', bs <+: as → sys.run c bs = some c' → J c') ↔ sys.Meets cond c as := by
  induction as generalizing c with
  | nil =>
    refine iff_of_true (fun bs c' hbs hrun => ?_) trivial
    obtain rfl := List.prefix_nil.mp hbs
    exact Option.some.inj hrun ▸ hJ
  | cons a as ih =>
    obtain ⟨c', ha, hrest⟩ := run_cons hr
    have hc' := hinv c a c' hc ha
    constructor
    · intro h
      have hJ' : J c' := h [a] c' ⟨as, rfl⟩ (by simp [run, ha])
      refine ⟨(hstep c a c' hc hJ ha).mp hJ', fun x hx => ?_⟩
      obtain rfl := Option.some.inj (ha.symm.trans hx)
      refine (ih hc' hJ' hrest).mp fun bs y hbs hrun => h (a :: bs) y ?_ (by simp [run, ha, hrun])
      exact List.cons_prefix_cons.mpr ⟨rfl, hbs⟩
    · rintro ⟨hcond, hmeets⟩ bs y hbs hrun
      cases bs with
      | nil => exact Option.some.inj hrun ▸ hJ
      | cons b bs =>
        obtain ⟨rfl, htail⟩ := List.cons_prefix_cons.mp hbs
        obtain ⟨z, hz, hrun⟩ := run_cons hrun
        obtain rfl := Option.some.inj (ha.symm.trans hz)
        have hJ' : J c' := (hstep c b c' hc hJ ha).mpr hcond
        exact (ih hc' hJ' hrest).mpr (hmeets c' ha) bs y htail hrun

/-- A run with an action that violates the condition ends spoiled, when such an action spoils the
configuration and no later one mends it. -/
theorem run_violated {Inv Bad : Config S L → Prop} {cond side : Config S L → Action L E → Prop}
    (hinv : ∀ c a c', Inv c → side c a → sys.act c a = some c' → Inv c')
    (hviol : ∀ c a c', Inv c → side c a → ¬cond c a → sys.act c a = some c' → Bad c')
    (hbad : ∀ c a c', Inv c → side c a → Bad c → sys.act c a = some c' → Bad c')
    (hc : Inv c) (hs : sys.Meets side c as) (hr : sys.run c as = some d)
    (hm : ¬sys.Meets cond c as) : Bad d := by
  induction as generalizing c with
  | nil => exact absurd trivial hm
  | cons a as ih =>
    obtain ⟨c', ha, hr⟩ := run_cons hr
    have hc' := hinv c a c' hc hs.1 ha
    by_cases hcond : cond c a
    · refine ih hc' (hs.2 c' ha) hr fun hm' => hm ⟨hcond, fun x hx => ?_⟩
      obtain rfl := Option.some.inj (ha.symm.trans hx)
      exact hm'
    · have hspoilt : Inv c' ∧ Bad c' := ⟨hc', hviol c a c' hc hs.1 hcond ha⟩
      have hstep (x : Config S L) (b : Action L E) (y : Config S L) (h : Inv x ∧ Bad x)
          (hb : side x b) (hact : sys.act x b = some y) : Inv y ∧ Bad y :=
        ⟨hinv x b y h.1 hb hact, hbad x b y h.1 hb h.2 hact⟩
      exact (run_invariant hstep hspoilt (hs.2 c' ha) hr).2

/-- A quantity that every action raises by `gain` is raised by the sum of the gains. -/
def gained (sys : TaskSystem S L E) (gain : Config S L → Action L E → ℕ) :
    Config S L → List (Action L E) → ℕ
  | _, [] => 0
  | c, a :: as => gain c a + match sys.act c a with
    | none => 0
    | some c' => gained sys gain c' as

theorem run_gained {m : Config S L → ℕ} {gain : Config S L → Action L E → ℕ}
    {Inv : Config S L → Prop} {cond : Config S L → Action L E → Prop}
    (hinv : ∀ c a c', Inv c → cond c a → sys.act c a = some c' → Inv c')
    (hstep : ∀ c a c', Inv c → cond c a → sys.act c a = some c' → m c' = m c + gain c a)
    (hc : Inv c) (hm : sys.Meets cond c as) (hr : sys.run c as = some d) :
    m d = m c + sys.gained gain c as := by
  induction as generalizing c with
  | nil => simp [gained, Option.some.inj hr]
  | cons a as ih =>
    obtain ⟨c', ha, hr⟩ := run_cons hr
    simp only [gained, ha]
    rw [ih (hinv c a c' hc hm.1 ha) (hm.2 c' ha) hr, hstep c a c' hc hm.1 ha, Nat.add_assoc]

/-- Where every action balances what it adds against what it takes off, so does the run. -/
theorem run_balanced {m : Config S L → ℕ} {less more : Config S L → Action L E → ℕ}
    {Inv : Config S L → Prop} {cond : Config S L → Action L E → Prop}
    (hinv : ∀ c a c', Inv c → cond c a → sys.act c a = some c' → Inv c')
    (hstep : ∀ c a c', Inv c → cond c a → sys.act c a = some c' →
      m c' + less c a = m c + more c a)
    (hc : Inv c) (hm : sys.Meets cond c as) (hr : sys.run c as = some d) :
    m d + sys.gained less c as = m c + sys.gained more c as := by
  induction as generalizing c with
  | nil =>
    obtain rfl := Option.some.inj hr
    rfl
  | cons a as ih =>
    obtain ⟨c', ha, hr⟩ := run_cons hr
    have hrest := ih (hinv c a c' hc hm.1 ha) (hm.2 c' ha) hr
    have hfirst := hstep c a c' hc hm.1 ha
    simp only [gained, ha]
    omega

theorem gained_eq_zero {gain : Config S L → Action L E → ℕ} :
    sys.gained gain c as = 0 ↔ sys.Meets (fun c a => gain c a = 0) c as := by
  induction as generalizing c with
  | nil => exact ⟨fun _ => trivial, fun _ => rfl⟩
  | cons a as ih => cases ha : sys.act c a <;> simp [gained, Meets, ha, ih]

end TaskSystem

theorem sum_map_set (w : L → ℕ) {ls : List L} {i : ℕ} {l : L} (h : ls[i]? = some l) (l' : L) :
    ((ls.set i l').map w).sum + w l = (ls.map w).sum + w l' := by
  induction ls generalizing i with
  | nil => simp at h
  | cons x ls ih =>
    cases i with
    | zero =>
      simp only [List.getElem?_cons_zero, Option.some.injEq] at h
      simp only [List.set_cons_zero, List.map_cons, List.sum_cons, h]
      omega
    | succ i =>
      have hi := ih (by simpa using h)
      simp only [List.set_cons_succ, List.map_cons, List.sum_cons]
      omega

/-- What the other tasks weigh stays when one is replaced. -/
theorem sum_map_others (w : L → ℕ) {ls : List L} {i : ℕ} {l : L} (h : ls[i]? = some l) :
    ∃ others, (ls.map w).sum = w l + others ∧ ∀ l', ((ls.set i l').map w).sum = w l' + others := by
  have hle : w l ≤ (ls.map w).sum :=
    List.single_le_sum (by simp) _ (List.mem_map_of_mem (List.mem_of_getElem? h))
  refine ⟨(ls.map w).sum - w l, by omega, fun l' => ?_⟩
  have hset := sum_map_set w h l'
  omega

theorem le_sum_map (w : L → ℕ) {ls : List L} {i : ℕ} {l : L} (h : ls[i]? = some l) :
    w l ≤ (ls.map w).sum :=
  List.single_le_sum (by simp) _ (List.mem_map_of_mem (List.mem_of_getElem? h))

/-- A task list is quiet when the weight of every task in it is zero. -/
theorem sum_map_eq_zero (w : L → ℕ) {ls : List L} (h : ∀ l ∈ ls, w l = 0) : (ls.map w).sum = 0 := by
  induction ls with
  | nil => rfl
  | cons x ls ih =>
    simp only [List.map_cons, List.sum_cons, h x (by simp), ih fun l hl => h l (by simp [hl])]

/-- Two tasks weigh at most what all of them weigh. -/
theorem add_le_sum_map (w : L → ℕ) {ls : List L} {l l' : L} (h : l ∈ ls) (h' : l' ∈ ls)
    (hne : l ≠ l') : w l + w l' ≤ (ls.map w).sum := by
  induction ls with
  | nil => cases h
  | cons x ls ih =>
    simp only [List.map_cons, List.sum_cons]
    rcases List.mem_cons.mp h with rfl | hl <;> rcases List.mem_cons.mp h' with rfl | hl'
    · exact absurd rfl hne
    · have := List.single_le_sum (by simp) _ (List.mem_map_of_mem (f := w) hl')
      omega
    · have := List.single_le_sum (by simp) _ (List.mem_map_of_mem (f := w) hl)
      omega
    · have := ih hl hl'
      omega

theorem getElem?_set_cases {ls : List L} {i j : ℕ} {l l' : L} (h : (ls.set i l')[j]? = some l) :
    (j = i ∧ l = l') ∨ (j ≠ i ∧ ls[j]? = some l) := by
  by_cases hj : i = j
  · subst hj
    rw [List.getElem?_set_self'] at h
    cases hi : ls[i]? <;> simp [hi] at h
    exact .inl ⟨rfl, h.symm⟩
  · rw [List.getElem?_set_ne hj] at h
    exact .inr ⟨fun e => hj e.symm, h⟩

theorem mem_set_self {ls : List L} {i : ℕ} {l : L} (h : ls[i]? = some l) (l' : L) :
    l' ∈ ls.set i l' := by
  refine List.mem_of_getElem? (i := i) ?_
  rw [List.getElem?_set_self']
  simp [h]

theorem mem_set_or_eq {ls : List L} {i : ℕ} {l u : L} (h : ls[i]? = some l) (hu : u ∈ ls) (l' : L) :
    u ∈ ls.set i l' ∨ u = l := by
  obtain ⟨j, hj⟩ := List.getElem?_of_mem hu
  by_cases hij : i = j
  · subst hij
    exact .inr (Option.some.inj (hj.symm.trans h))
  · exact .inl (List.mem_of_getElem? ((List.getElem?_set_ne hij).trans hj))

/-- What is read off the other tasks stays when one of them is replaced. -/
theorem filterMap_set {W : Type} (f : L → Option W) {ls : List L} {i : ℕ} {l : L}
    (h : ls[i]? = some l) : ∃ ws ws', ls.filterMap f = ws ++ (f l).toList ++ ws' ∧
      ∀ l', (ls.set i l').filterMap f = ws ++ (f l').toList ++ ws' := by
  induction ls generalizing i with
  | nil => simp at h
  | cons x ls ih =>
    cases i with
    | zero =>
      simp only [List.getElem?_cons_zero, Option.some.injEq] at h
      subst h
      refine ⟨[], ls.filterMap f, ?_, fun l' => ?_⟩
      · cases hx : f x <;> simp [hx]
      · cases hx : f l' <;> simp [hx]
    | succ i =>
      obtain ⟨ws, ws', hls, hset⟩ := ih (by simpa using h)
      refine ⟨(f x).toList ++ ws, ws', ?_, fun l' => ?_⟩
      · cases hx : f x <;> simp [hx, hls]
      · cases hx : f x <;> simp [hx, hset]

theorem map_set_eq {W : Type} (f : L → W) {ls : List L} {i : ℕ} {l l' : L} (h : ls[i]? = some l)
    (hl : f l' = f l) : (ls.set i l').map f = ls.map f := by
  obtain ⟨hlt, rfl⟩ := List.getElem?_eq_some_iff.mp h
  rw [List.map_set, hl, ← List.getElem_map f (h := by simpa using hlt), List.set_getElem_self]

/-- A task that had nothing to show gets something. -/
theorem filterMap_set_perm {W : Type} (f : L → Option W) {ls : List L} {i : ℕ} {l l' : L} {w : W}
    (h : ls[i]? = some l) (hl : f l = none) (hl' : f l' = some w) :
    ((ls.set i l').filterMap f).Perm (ls.filterMap f ++ [w]) := by
  obtain ⟨ws, ws', hls, hset⟩ := filterMap_set f h
  rw [hset, hls, hl, hl', Option.toList_some, Option.toList_none, List.append_nil,
    List.append_assoc, List.append_assoc]
  exact List.Perm.append_left ws List.perm_append_comm

/-- What is read off the tasks stays while the one that moves shows the same. -/
theorem filterMap_set_eq {W : Type} (f : L → Option W) {ls : List L} {i : ℕ} {l l' : L}
    (h : ls[i]? = some l) (hl : f l' = f l) : (ls.set i l').filterMap f = ls.filterMap f := by
  obtain ⟨ws, ws', hls, hset⟩ := filterMap_set f h
  rw [hset, hls, hl]

/-- What is read off one task only says which task it is. -/
theorem index_unique {W : Type} {f : L → Option W} {ls : List L} (h : (ls.filterMap f).Nodup)
    {i j : ℕ} {l l' : L} {w : W} (hi : ls[i]? = some l) (hj : ls[j]? = some l') (hl : f l = some w)
    (hl' : f l' = some w) : i = j := by
  have hpair := List.pairwise_iff_getElem.mp (List.pairwise_filterMap.mp h)
  obtain ⟨hilt, rfl⟩ := List.getElem?_eq_some_iff.mp hi
  obtain ⟨hjlt, rfl⟩ := List.getElem?_eq_some_iff.mp hj
  rcases Nat.lt_trichotomy i j with hlt | heq | hlt
  · exact absurd rfl (hpair i j hilt hjlt hlt w hl w hl')
  · exact heq
  · exact absurd rfl (hpair j i hjlt hilt hlt w hl' w hl)

theorem getElem?_append_singleton_cases {ls : List L} {j : ℕ} {l l' : L}
    (h : (ls ++ [l'])[j]? = some l) : ls[j]? = some l ∨ (j = ls.length ∧ l = l') := by
  rcases Nat.lt_trichotomy j ls.length with hj | rfl | hj
  · exact .inl (by rwa [List.getElem?_append_left hj] at h)
  · exact .inr ⟨rfl, by simpa using h.symm⟩
  · rw [List.getElem?_eq_none (by simp; omega)] at h
    cases h

/-- The shared state is as it should be, or a task that is due to see to it is there. -/
def HoldsOrDue (P : S → Prop) (due : L → Bool) (c : Config S L) : Prop :=
  P c.shared ∨ ∃ l ∈ c.tasks, due l = true

instance {P : S → Prop} [DecidablePred P] {due : L → Bool} (c : Config S L) :
    Decidable (HoldsOrDue P due c) := inferInstanceAs (Decidable (P c.shared ∨ ∃ l ∈ c.tasks, _))

namespace HoldsOrDue

variable {P : S → Prop} {due : L → Bool} {c : Config S L} {i : ℕ} {l l' : L} {s' : S}

theorem advance (h : HoldsOrDue P due c) (hi : c.tasks[i]? = some l)
    (hdue : due l = true → P s' ∨ due l' = true) (hP : P c.shared → P s' ∨ due l' = true) :
    HoldsOrDue P due ⟨s', c.tasks.set i l'⟩ := by
  have hnext (hor : P s' ∨ due l' = true) : HoldsOrDue P due ⟨s', c.tasks.set i l'⟩ :=
    hor.imp_right fun hl => ⟨l', mem_set_self hi l', hl⟩
  rcases h with h | ⟨u, hu, hsu⟩
  · exact hnext (hP h)
  · rcases mem_set_or_eq hi hu l' with hu | rfl
    · exact .inr ⟨u, hu, hsu⟩
    · exact hnext (hdue hsu)

theorem spawn (h : HoldsOrDue P due c) (l : L) : HoldsOrDue P due ⟨c.shared, c.tasks ++ [l]⟩ :=
  h.imp_right fun ⟨u, hu, hdue⟩ => ⟨u, List.mem_append_left _ hu, hdue⟩

theorem holds (h : HoldsOrDue P due c) (hno : ∀ l ∈ c.tasks, due l = false) : P c.shared := by
  rcases h with h | ⟨l, hl, hdue⟩
  · exact h
  · cases hdue.symm.trans (hno l hl)

end HoldsOrDue

/-- The numbers in use when the next one given out is `n`: each is used once. -/
structure Numbered (n : ℕ) (xs : List ℕ) : Prop where
  nodup : xs.Nodup
  below : ∀ x ∈ xs, x < n

namespace Numbered

variable {n : ℕ} {xs ys : List ℕ}

theorem nil : Numbered n [] := ⟨List.nodup_nil, by simp⟩

theorem perm (h : Numbered n xs) (hp : xs.Perm ys) : Numbered n ys :=
  ⟨hp.nodup_iff.mp h.nodup, fun x hx => h.below x (hp.mem_iff.mpr hx)⟩

theorem sublist (h : Numbered n xs) (hs : ys.Sublist xs) : Numbered n ys :=
  ⟨h.nodup.sublist hs, fun x hx => h.below x (hs.subset hx)⟩

theorem fresh (h : Numbered n xs) : Numbered (n + 1) (n :: xs) := by
  refine ⟨List.nodup_cons.mpr ⟨fun hn => Nat.lt_irrefl n (h.below n hn), h.nodup⟩, ?_⟩
  intro x hx
  rcases List.mem_cons.mp hx with rfl | hx
  · exact Nat.lt_succ_self x
  · exact Nat.lt_succ_of_lt (h.below x hx)

variable {f : L → Option ℕ} {ls : List L} {i : ℕ} {l l' : L}

/-- A task that held no number gets the next one. -/
theorem take_fresh (h : Numbered n (xs ++ ls.filterMap f)) (hi : ls[i]? = some l)
    (hl : f l = none) (hl' : f l' = some n) :
    Numbered (n + 1) (xs ++ (ls.set i l').filterMap f) := by
  obtain ⟨ws, ws', hls, hset⟩ := filterMap_set f hi
  rw [hls, hl] at h
  rw [hset, hl']
  apply h.fresh.perm
  simp only [Option.toList_none, Option.toList_some, List.append_nil, List.append_assoc]
  calc (n :: (xs ++ (ws ++ ws'))).Perm (xs ++ n :: (ws ++ ws')) := List.perm_middle.symm
    _ |>.Perm (xs ++ (ws ++ ([n] ++ ws'))) := List.Perm.append_left _ List.perm_middle.symm

/-- A task puts its number on record. -/
theorem hand_over {x : ℕ} (h : Numbered n (xs ++ ls.filterMap f)) (hi : ls[i]? = some l)
    (hl : f l = some x) (hl' : f l' = none) :
    Numbered n (x :: xs ++ (ls.set i l').filterMap f) := by
  obtain ⟨ws, ws', hls, hset⟩ := filterMap_set f hi
  rw [hls, hl] at h
  rw [hset, hl']
  apply h.perm
  simp only [Option.toList_none, Option.toList_some, List.append_nil, List.append_assoc]
  calc (xs ++ (ws ++ ([x] ++ ws'))).Perm (xs ++ x :: (ws ++ ws')) :=
        List.Perm.append_left _ List.perm_middle
    _ |>.Perm (x :: xs ++ (ws ++ ws')) := List.perm_middle

/-- A task gives its number up. -/
theorem drop (h : Numbered n (xs ++ ls.filterMap f)) (hi : ls[i]? = some l) (hl' : f l' = none) :
    Numbered n (xs ++ (ls.set i l').filterMap f) := by
  obtain ⟨ws, ws', hls, hset⟩ := filterMap_set f hi
  rw [hls] at h
  rw [hset, hl']
  apply h.sublist
  simp

/-- A task goes on with what it holds. -/
theorem keep (h : Numbered n (xs ++ ls.filterMap f)) (hi : ls[i]? = some l) (hl : f l' = f l) :
    Numbered n (xs ++ (ls.set i l').filterMap f) := by
  obtain ⟨ws, ws', hls, hset⟩ := filterMap_set f hi
  rw [hls] at h
  rwa [hset, hl]

end Numbered

end SshCommander.InterleavedTasks
