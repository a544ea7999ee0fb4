import Mathlib.Data.Nat.Notation
import Mathlib.Logic.Nonempty

/-!
# Programs that talk to a server

A program is a tree of requests, each followed by a continuation over the reply.
A server is a function of its state, the request and one choice of the
environment, so a stream of choices fixes a whole execution. `wp` is the weakest
precondition over every stream; its postcondition also reads the trace.
-/

namespace SshCommander.InteractionPrograms

variable {Q : Type} {R : Q → Type} {α β : Type} {S E : Type}

inductive Prog (Q : Type) (R : Q → Type) (α : Type) where
  | ret (a : α)
  | ask (q : Q) (k : R q → Prog Q R α)

namespace Prog

def bind : Prog Q R α → (α → Prog Q R β) → Prog Q R β
  | .ret a, f => f a
  | .ask q k, f => .ask q fun r => (k r).bind f

instance : Monad (Prog Q R) where
  pure := .ret
  bind := bind

def request (q : Q) : Prog Q R (R q) := .ask q .ret

@[simp] theorem pure_def (a : α) : (pure a : Prog Q R α) = .ret a := rfl

@[simp] theorem ret_bind (a : α) (f : α → Prog Q R β) : (.ret a >>= f : Prog Q R β) = f a := rfl

@[simp] theorem ask_bind (q : Q) (k : R q → Prog Q R α) (f : α → Prog Q R β) :
    (.ask q k >>= f : Prog Q R β) = .ask q fun r => k r >>= f := rfl

@[simp] theorem request_bind (q : Q) (f : R q → Prog Q R β) :
    (request q >>= f : Prog Q R β) = .ask q f := rfl

end Prog

/-- A request as the server met it: its state before, and the environment's choice. -/
structure Exchange (S Q E : Type) where
  before : S
  asked : Q
  choice : E

structure Execution (S Q E α : Type) where
  value : α
  state : S
  trace : List (Exchange S Q E)

variable (serve : S → (q : Q) → E → S × R q)

def exec : Prog Q R α → S → (ℕ → E) → Execution S Q E α
  | .ret a, s, _ => ⟨a, s, []⟩
  | .ask q k, s, env =>
    let next := exec (k (serve s q (env 0)).2) (serve s q (env 0)).1 fun n => env (n + 1)
    ⟨next.value, next.state, ⟨s, q, env 0⟩ :: next.trace⟩

/-- The postcondition holds whatever the environment chooses. -/
def wp : Prog Q R α → S → (α → S → List (Exchange S Q E) → Prop) → Prop
  | .ret a, s, post => post a s []
  | .ask q k, s, post =>
    ∀ e, wp (k (serve s q e).2) (serve s q e).1 fun a s' tr => post a s' (⟨s, q, e⟩ :: tr)

variable {serve} {p : Prog Q R α} {f : α → Prog Q R β} {s : S}
variable {post post' : α → S → List (Exchange S Q E) → Prop}

@[simp] theorem wp_ret (a : α) : wp serve (.ret a) s post ↔ post a s [] := Iff.rfl

@[simp] theorem wp_ask (q : Q) (k : R q → Prog Q R α) :
    wp serve (.ask q k) s post ↔
      ∀ e, wp serve (k (serve s q e).2) (serve s q e).1 fun a s' tr =>
        post a s' (⟨s, q, e⟩ :: tr) := Iff.rfl

theorem wp_mono (h : ∀ a s' tr, post a s' tr → post' a s' tr) (hp : wp serve p s post) :
    wp serve p s post' := by
  induction p generalizing s post post' with
  | ret a => exact h _ _ _ hp
  | ask q k ih => exact fun e => ih _ (fun a s' tr => h a s' _) (hp e)

theorem wp_bind {post : β → S → List (Exchange S Q E) → Prop} :
    wp serve (p >>= f) s post ↔
      wp serve p s fun a s' tr => wp serve (f a) s' fun b s'' tr' => post b s'' (tr ++ tr') := by
  induction p generalizing s post with
  | ret a => exact Iff.rfl
  | ask q k ih => exact forall_congr' fun e => ih _

/-- The weakest precondition speaks of exactly the executions. -/
theorem wp_iff_exec [Nonempty E] : wp serve p s post ↔
    ∀ env, post (exec serve p s env).value (exec serve p s env).state
      (exec serve p s env).trace := by
  induction p generalizing s post with
  | ret a => exact ⟨fun h _ => h, fun h => h fun _ => Classical.arbitrary E⟩
  | ask q k ih =>
    constructor
    · intro h env
      exact (ih _).mp (h (env 0)) fun n => env (n + 1)
    · intro h e
      exact (ih _).mpr fun env => h fun | 0 => e | n + 1 => env n

/-- What a statement about executions leaves out, and what it watches for. -/
structure Watch (S Q E : Type) where
  excluded : Exchange S Q E → Prop
  bad : Exchange S Q E → Prop

def Watch.idle : Watch S Q E := ⟨fun _ => False, fun _ => False⟩

section Watched

variable (serve) (W : Watch S Q E)

/-- Where no exchange is excluded: `good` when none was bad, `spoilt` when one was. -/
def wpUnless (p : Prog Q R α) (s : S) (good spoilt : α → S → Prop) : Prop :=
  wp serve p s fun a s' tr => (∀ x ∈ tr, ¬W.excluded x) →
    ((∀ x ∈ tr, ¬W.bad x) → good a s') ∧ ((∃ x ∈ tr, W.bad x) → spoilt a s')

theorem wp_true (p : Prog Q R α) (s : S) :
    wp serve p s fun _ _ (_ : List (Exchange S Q E)) => True := by
  induction p generalizing s with
  | ret a => trivial
  | ask q k ih =>
    intro e
    apply ih

variable {serve W} {good spoilt good' spoilt' : α → S → Prop}

theorem of_watched {bad : Exchange S Q E → Prop} {tr : List (Exchange S Q E)} {P : Prop}
    (h : ((∀ x ∈ tr, ¬bad x) → P) ∧ ((∃ x ∈ tr, bad x) → P)) : P := by
  by_cases hm : ∃ x ∈ tr, bad x
  · exact h.2 hm
  · exact h.1 fun x hx hbx => hm ⟨x, hx, hbx⟩

theorem wpUnless_ret {a : α} (h : good a s) : wpUnless serve W (.ret a) s good spoilt :=
  fun _ => ⟨fun _ => h, fun ⟨_, hx, _⟩ => absurd hx List.not_mem_nil⟩

/-- After a bad exchange `spoilt` is what is left to show. -/
theorem wpUnless_ask {q : Q} {k : R q → Prog Q R α}
    (h : ∀ e, ¬W.excluded ⟨s, q, e⟩ → ¬W.bad ⟨s, q, e⟩ →
      wpUnless serve W (k (serve s q e).2) (serve s q e).1 good spoilt)
    (h' : ∀ e, ¬W.excluded ⟨s, q, e⟩ → W.bad ⟨s, q, e⟩ →
      wpUnless serve W (k (serve s q e).2) (serve s q e).1 spoilt spoilt) :
    wpUnless serve W (.ask q k) s good spoilt := by
  intro e
  by_cases hex : W.excluded ⟨s, q, e⟩
  · apply wp_mono _ (wp_true serve _ _)
    intro a s' tr _ hx
    exact absurd hex (hx _ List.mem_cons_self)
  · by_cases hb : W.bad ⟨s, q, e⟩
    · apply wp_mono _ (h' e hex hb)
      intro a s' tr ha hx
      have hspoilt : spoilt a s' := of_watched (ha fun x hm => hx x (List.mem_cons_of_mem _ hm))
      exact ⟨fun hno => absurd hb (hno _ List.mem_cons_self), fun _ => hspoilt⟩
    · apply wp_mono _ (h e hex hb)
      intro a s' tr ha hx
      obtain ⟨hgood, hbad⟩ := ha fun x hm => hx x (List.mem_cons_of_mem _ hm)
      constructor
      · intro hno
        exact hgood fun x hm => hno x (List.mem_cons_of_mem _ hm)
      · rintro ⟨x, hm, hbx⟩
        rcases List.mem_cons.mp hm with rfl | hm
        · exact absurd hbx hb
        · exact hbad ⟨x, hm, hbx⟩

/-- After one exchange that is neither excluded nor bad, what is left to show of the rest. -/
theorem wpUnless_served {q : Q} {k : R q → Prog Q R α} {e : E}
    (h : wpUnless serve W (.ask q k) s good spoilt) (hex : ¬W.excluded ⟨s, q, e⟩)
    (hb : ¬W.bad ⟨s, q, e⟩) :
    wpUnless serve W (k (serve s q e).2) (serve s q e).1 good spoilt := by
  apply wp_mono _ (h e)
  intro a s' tr ha hx
  have hall := ha fun x hm => ?_
  · refine ⟨fun hno => hall.1 fun x hm => ?_, fun ⟨x, hm, hbx⟩ =>
      hall.2 ⟨x, List.mem_cons_of_mem _ hm, hbx⟩⟩
    rcases List.mem_cons.mp hm with rfl | hm
    · exact hb
    · exact hno x hm
  · rcases List.mem_cons.mp hm with rfl | hm
    · exact hex
    · exact hx x hm

/-- A request that is never bad. -/
theorem wpUnless_request {q : Q} {f : R q → Prog Q R α} (hq : ∀ e, ¬W.bad ⟨s, q, e⟩)
    (h : ∀ e, ¬W.excluded ⟨s, q, e⟩ →
      wpUnless serve W (f (serve s q e).2) (serve s q e).1 good spoilt) :
    wpUnless serve W (Prog.request q >>= f) s good spoilt :=
  wpUnless_ask (fun e hex _ => h e hex) fun e _ hb => absurd hb (hq e)

theorem wpUnless_mono (hg : ∀ a s', good a s' → good' a s')
    (hs : ∀ a s', spoilt a s' → spoilt' a s') (h : wpUnless serve W p s good spoilt) :
    wpUnless serve W p s good' spoilt' := by
  apply wp_mono _ h
  intro a s' tr ha hex
  exact ⟨fun hx => hg a s' ((ha hex).1 hx), fun hx => hs a s' ((ha hex).2 hx)⟩

theorem wpUnless_bind {good spoilt : β → S → Prop}
    (h : wpUnless serve W p s (fun a s' => wpUnless serve W (f a) s' good spoilt)
      fun a s' => wpUnless serve W (f a) s' spoilt spoilt) :
    wpUnless serve W (p >>= f) s good spoilt := by
  apply wp_bind.mpr
  apply wp_mono _ h
  intro a s' tr ha
  by_cases hex : ∀ x ∈ tr, ¬W.excluded x
  · by_cases hb : ∃ x ∈ tr, W.bad x
    · apply wp_mono _ ((ha hex).2 hb)
      intro b s'' tr' hpost hx
      have hspoilt : spoilt b s'' :=
        of_watched (hpost fun x hm => hx x (List.mem_append_right _ hm))
      obtain ⟨x, hm, hbx⟩ := hb
      exact ⟨fun hno => absurd hbx (hno x (List.mem_append_left _ hm)), fun _ => hspoilt⟩
    · apply wp_mono _ ((ha hex).1 fun x hm hx => hb ⟨x, hm, hx⟩)
      intro b s'' tr' hpost hx
      obtain ⟨hgood, hbad⟩ := hpost fun x hm => hx x (List.mem_append_right _ hm)
      constructor
      · intro hno
        exact hgood fun x hm => hno x (List.mem_append_right _ hm)
      · rintro ⟨x, hm, hbx⟩
        rcases List.mem_append.mp hm with hm | hm
        · exact absurd ⟨x, hm, hbx⟩ hb
        · exact hbad ⟨x, hm, hbx⟩
  · apply wp_mono _ (wp_true serve _ _)
    intro b s'' tr' _ hx
    exact absurd (fun x hm => hx x (List.mem_append_left _ hm)) hex

theorem wpUnless_exec [Nonempty E] (h : wpUnless serve W p s good spoilt) (env : ℕ → E)
    (hx : ∀ x ∈ (exec serve p s env).trace, ¬W.excluded x) :
    ((∀ x ∈ (exec serve p s env).trace, ¬W.bad x) →
      good (exec serve p s env).value (exec serve p s env).state) ∧
    ((∃ x ∈ (exec serve p s env).trace, W.bad x) →
      spoilt (exec serve p s env).value (exec serve p s env).state) :=
  wp_iff_exec.mp h env hx

/-- With nothing left out or watched for, every execution ends as the walk says. -/
theorem wpUnless_idle_exec [Nonempty E] (h : wpUnless serve Watch.idle p s good spoilt)
    (env : ℕ → E) : good (exec serve p s env).value (exec serve p s env).state :=
  (wpUnless_exec h env fun _ _ hx => hx).1 fun _ _ hx => hx

end Watched

/-- A property of the state that every exchange keeps. -/
theorem exec_preserved (inv : S → Prop) (h : ∀ s q e, inv s → inv (serve s q e).1) (hs : inv s)
    (env : ℕ → E) : inv (exec serve p s env).state := by
  induction p generalizing s env with
  | ret a => exact hs
  | ask q k ih =>
    apply ih
    exact h s q (env 0) hs

/-- Every exchange was made under a choice of the stream. -/
theorem exec_choice {env : ℕ → E} {x : Exchange S Q E} (hx : x ∈ (exec serve p s env).trace) :
    ∃ n, x.choice = env n := by
  induction p generalizing s env with
  | ret a => cases hx
  | ask q k ih =>
    rcases List.mem_cons.mp hx with rfl | hx
    · exact ⟨0, rfl⟩
    · obtain ⟨n, hn⟩ := ih _ hx
      exact ⟨n + 1, hn⟩

/-- Two server states that answer alike and stay related give the same value. -/
theorem exec_related {rel : S → S → Prop}
    (h : ∀ s t q e, rel s t → (serve s q e).2 = (serve t q e).2 ∧
      rel (serve s q e).1 (serve t q e).1)
    {t : S} (hst : rel s t) (env : ℕ → E) :
    (exec serve p s env).value = (exec serve p t env).value ∧
      rel (exec serve p s env).state (exec serve p t env).state := by
  induction p generalizing s t env with
  | ret a => exact ⟨rfl, hst⟩
  | ask q k ih =>
    obtain ⟨hr, hs⟩ := h s t q (env 0) hst
    have hk := ih (serve t q (env 0)).2 hs fun n => env (n + 1)
    simp only [exec, hr]
    exact hk

section Calls

/-- A call with the environment's choices for it. -/
structure Issued (C E : Type) where
  call : C
  env : ℕ → E

variable {C : Type} (serve) (prog : C → Prog Q R α)

def after (s : S) (x : Issued C E) : S := (exec serve (prog x.call) s x.env).state

def answer (s : S) (x : Issued C E) : α := (exec serve (prog x.call) s x.env).value

def traceOf (s : S) (x : Issued C E) : List (Exchange S Q E) :=
  (exec serve (prog x.call) s x.env).trace

def afterAll (s : S) (xs : List (Issued C E)) : S := xs.foldl (after serve prog) s

def Each (cond : S → Issued C E → Prop) : S → List (Issued C E) → Prop
  | _, [] => True
  | s, x :: xs => cond s x ∧ Each cond (after serve prog s x) xs

variable {serve prog} {xs ys : List (Issued C E)}

@[simp] theorem afterAll_nil : afterAll serve prog s [] = s := rfl

@[simp] theorem afterAll_cons (x : Issued C E) :
    afterAll serve prog s (x :: xs) = afterAll serve prog (after serve prog s x) xs := rfl

theorem each_and {p q : S → Issued C E → Prop} (hp : Each serve prog p s xs)
    (hq : Each serve prog q s xs) : Each serve prog (fun s x => p s x ∧ q s x) s xs := by
  induction xs generalizing s with
  | nil => trivial
  | cons x xs ih => exact ⟨⟨hp.1, hq.1⟩, ih hp.2 hq.2⟩

theorem each_of_forall {p : Issued C E → Prop} (h : ∀ x ∈ xs, p x) :
    Each serve prog (fun _ => p) s xs := by
  induction xs generalizing s with
  | nil => trivial
  | cons x xs ih => exact ⟨h x List.mem_cons_self, ih fun y hy => h y (List.mem_cons_of_mem x hy)⟩

/-- An invariant of every call that meets the condition holds after every such sequence. -/
theorem afterAll_invariant {inv : S → Prop} {cond : S → Issued C E → Prop}
    (h : ∀ s x, inv s → cond s x → inv (after serve prog s x)) (hs : inv s)
    (hx : Each serve prog cond s xs) : inv (afterAll serve prog s xs) := by
  induction xs generalizing s with
  | nil => exact hs
  | cons x xs ih => exact ih (h s x hs hx.1) hx.2

/-- Where a call that fails the condition spoils what the invariant gives, the calls all meet
the condition exactly when every prefix of them is good. -/
theorem prefixes_good_iff {inv good : S → Prop} {cond : S → Issued C E → Prop}
    (hgood : ∀ s, inv s → good s) (hs : inv s)
    (hmeets : ∀ s, ∀ x ∈ xs, inv s → cond s x → inv (after serve prog s x))
    (hfails : ∀ s, ∀ x ∈ xs, inv s → ¬cond s x → ¬good (after serve prog s x)) :
    (∀ ys zs, xs = ys ++ zs → good (afterAll serve prog s ys)) ↔
      Each serve prog cond s xs := by
  induction xs generalizing s with
  | nil =>
    refine ⟨fun _ => trivial, fun _ ys zs h => ?_⟩
    obtain ⟨rfl, -⟩ := List.append_eq_nil_iff.mp h.symm
    exact hgood s hs
  | cons x xs ih =>
    have ih := fun hs' => ih (s := after serve prog s x) hs'
      (fun t y hy => hmeets t y (List.mem_cons_of_mem x hy))
      (fun t y hy => hfails t y (List.mem_cons_of_mem x hy))
    constructor
    · intro h
      have hc : cond s x := Classical.byContradiction fun hc =>
        hfails s x List.mem_cons_self hs hc (h [x] xs rfl)
      refine ⟨hc, (ih (hmeets s x List.mem_cons_self hs hc)).mp fun ys zs hyz => ?_⟩
      exact h (x :: ys) zs (by rw [hyz, List.cons_append])
    · rintro ⟨hc, hrest⟩ ys zs hyz
      cases ys with
      | nil => exact hgood s hs
      | cons y ys =>
        obtain ⟨rfl, rfl⟩ := List.cons_eq_cons.mp hyz
        exact (ih (hmeets s x List.mem_cons_self hs hc)).mpr hrest ys zs rfl

end Calls

end SshCommander.InteractionPrograms
