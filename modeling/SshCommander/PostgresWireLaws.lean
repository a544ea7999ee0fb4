import SshCommander.PostgresWire

/-!
# Laws of the server model

What ending a block, one statement and one message can change. An invariant of a wire is
shown once for the five ways a wire changes (`Keeps`) and then holds of every message.
-/

namespace SshCommander.PostgresWire.Wire
open RustText

variable {w w' : Wire} {o : Origin} {ch : Choice} {sts : List Stmt} {st : Stmt}

@[simp] theorem endBlock_block (w : Wire) (e : Ending) : (w.endBlock e).block = none := by
  unfold endBlock
  split <;> simp_all

@[simp] theorem endBlock_up (w : Wire) (e : Ending) : (w.endBlock e).up = w.up := by
  unfold endBlock
  split <;> rfl

@[simp] theorem endBlock_nextEffect (w : Wire) (e : Ending) :
    (w.endBlock e).nextEffect = w.nextEffect := by
  unfold endBlock
  split <;> rfl

theorem endBlock_none (h : w.block = none) (e : Ending) : w.endBlock e = w := by
  simp [endBlock, h]

theorem endBlock_history {b : Block} (h : w.block = some b) (e : Ending) :
    (w.endBlock e).history = ⟨b.owner, b.failed, e, b.pending⟩ :: w.history := by
  simp [endBlock, h]

/-- A cursor that is left was there before, under the same name and owner. -/
theorem mem_endBlock_cursors {k : Cursor} {e : Ending} (hk : k ∈ (w.endBlock e).cursors) :
    ∃ k₀ ∈ w.cursors, k₀.name = k.name ∧ k₀.owner = k.owner ∧ k₀.hold = k.hold ∧
      (w.block ≠ none → (k.hold = true ∨ k₀.fresh = false) ∧ k.fresh = false) := by
  unfold endBlock at hk
  split at hk
  · rename_i hb
    exact ⟨k, hk, rfl, rfl, rfl, fun h => absurd hb h⟩
  · dsimp only at hk
    split at hk
    · obtain ⟨k₀, hk₀, rfl⟩ := List.mem_map.mp hk
      obtain ⟨hm, hh⟩ := List.mem_filter.mp hk₀
      exact ⟨k₀, hm, rfl, rfl, rfl, fun _ => ⟨.inl hh, rfl⟩⟩
    · obtain ⟨hm, hf⟩ := List.mem_filter.mp hk
      have hf : k.fresh = false := by simpa using hf
      exact ⟨k, hm, rfl, rfl, rfl, fun _ => ⟨.inr hf, hf⟩⟩

theorem enter_none (h : w.block = none) : w.enter = { w with block := some ⟨none, false, []⟩ } := by
  simp [enter, h]

theorem enter_some {b : Block} (h : w.block = some b) : w.enter = w := by simp [enter, h]

@[simp] theorem enter_up (w : Wire) : w.enter.up = w.up := by unfold enter; split <;> rfl

@[simp] theorem enter_cursors (w : Wire) : w.enter.cursors = w.cursors := by
  unfold enter; split <;> rfl

@[simp] theorem enter_history (w : Wire) : w.enter.history = w.history := by
  unfold enter; split <;> rfl

@[simp] theorem enter_nextEffect (w : Wire) : w.enter.nextEffect = w.nextEffect := by
  unfold enter; split <;> rfl

theorem enter_block (w : Wire) :
    w.enter.block = some ⟨none, false, []⟩ ∧ w.block = none ∨ w.enter.block = w.block ∧
      w.block ≠ none := by
  cases hb : w.block with
  | none => exact .inl ⟨by simp [enter_none hb], rfl⟩
  | some b => exact .inr ⟨by rw [enter_some hb, hb], by simp⟩

theorem abort_none (h : w.block = none) : w.abort = w := by simp [abort, h]

theorem abort_implicit {b : Block} (h : w.block = some b) (ho : b.owner = none) :
    w.abort = w.endBlock .error := by simp [abort, h, ho]

theorem abort_explicit {b : Block} (h : w.block = some b) (ho : b.owner ≠ none) :
    w.abort = { w with block := some { b with failed := true } } := by
  cases hb : b.owner with
  | none => exact absurd hb ho
  | some x => simp [abort, h, hb]

theorem finish_none (h : w.block = none) : w.finish = w := by simp [finish, h]

theorem finish_implicit {b : Block} (h : w.block = some b) (ho : b.owner = none) :
    w.finish = w.endBlock .auto := by
  obtain ⟨owner, failed, pending⟩ := b
  cases ho
  simp [finish, h]

theorem finish_explicit {b : Block} (h : w.block = some b) (ho : b.owner ≠ none) :
    w.finish = w := by
  obtain ⟨owner, failed, pending⟩ := b
  cases owner with
  | none => exact absurd rfl ho
  | some x => simp [finish, h]

@[simp] theorem lose_up (w : Wire) : w.lose.up = false := rfl
@[simp] theorem lose_block (w : Wire) : w.lose.block = none := by simp [lose]
@[simp] theorem lose_cursors (w : Wire) : w.lose.cursors = [] := rfl

@[simp] theorem lose_nextEffect (w : Wire) : w.lose.nextEffect = w.nextEffect := by simp [lose]

/-- What a statement other than BEGIN, COMMIT and ROLLBACK can change. -/
structure PlainStep (o : Origin) (w w' : Wire) : Prop where
  up : w'.up = w.up
  history : w'.history = w.history
  outside : w.block = none → w'.block = none ∧ w'.nextEffect = w.nextEffect
  inside : ∀ b, w.block = some b →
    w'.block = some b ∧ w'.nextEffect = w.nextEffect ∨
    w'.block = some { b with pending := w.nextEffect :: b.pending } ∧
      w'.nextEffect = w.nextEffect + 1
  cursors : ∀ k ∈ w'.cursors, k.owner = o ∧ k.fresh = true ∨
    ∃ k₀ ∈ w.cursors, k₀.name = k.name ∧ k₀.owner = k.owner ∧ k₀.hold = k.hold ∧
      k₀.fresh = k.fresh

theorem plainStep_cursors (o : Origin) (w : Wire) (cs : List Cursor)
    (h : ∀ k ∈ cs, ∃ k₀ ∈ w.cursors, k₀.name = k.name ∧ k₀.owner = k.owner ∧ k₀.hold = k.hold ∧
      k₀.fresh = k.fresh) : PlainStep o w { w with cursors := cs } :=
  ⟨rfl, rfl, fun hb => ⟨hb, rfl⟩, fun _ hb => .inl ⟨hb, rfl⟩, fun k hk => .inr (h k hk)⟩

theorem plainStep_record (o : Origin) (w : Wire) (writes : Bool) :
    PlainStep o w (w.record writes) := by
  have same (k : Cursor) (hk : k ∈ w.cursors) : ∃ k₀ ∈ w.cursors, k₀.name = k.name ∧
      k₀.owner = k.owner ∧ k₀.hold = k.hold ∧ k₀.fresh = k.fresh := ⟨k, hk, rfl, rfl, rfl, rfl⟩
  unfold record
  split
  · rename_i b hb
    refine ⟨rfl, rfl, fun h => absurd (hb.symm.trans h) (by simp), fun b' hb' => .inr ?_,
      fun k hk => .inr (same k hk)⟩
    obtain rfl := Option.some.inj (hb.symm.trans hb')
    exact ⟨rfl, rfl⟩
  · exact ⟨rfl, rfl, fun h => ⟨h, rfl⟩, fun b hb => .inl ⟨hb, rfl⟩, fun k hk => .inr (same k hk)⟩

@[simp] theorem record_cursors (w : Wire) (writes : Bool) : (w.record writes).cursors = w.cursors := by
  unfold record; split <;> rfl

theorem stmtOpen_plain {rows : List Row} {n : ℕ} {ms : List Message} (hst : st.isControl = false)
    (h : w.stmtOpen o rows n st = .ok (w', ms)) : PlainStep o w w' := by
  cases st with
  | begin | commit | rollback => simp [Stmt.isControl] at hst
  | declare name hold q =>
    simp only [stmtOpen] at h
    split at h
    · cases h
    · simp only [Except.ok.injEq, Prod.mk.injEq] at h
      obtain ⟨rfl, -⟩ := h
      have hr := plainStep_record o w q.writes
      refine ⟨hr.up, hr.history, hr.outside, hr.inside, fun k hk => ?_⟩
      rcases List.mem_cons.mp hk with rfl | hk
      · exact .inl ⟨rfl, rfl⟩
      · exact hr.cursors k hk
  | fetch count name =>
    simp only [stmtOpen] at h
    split at h
    · cases h
    · simp only [Except.ok.injEq, Prod.mk.injEq] at h
      obtain ⟨rfl, -⟩ := h
      refine plainStep_cursors o w _ fun k hk => ?_
      obtain ⟨k₀, hk₀, rfl⟩ := List.mem_map.mp hk
      refine ⟨k₀, hk₀, ?_⟩
      split <;> exact ⟨rfl, rfl, rfl, rfl⟩
  | close name =>
    simp only [stmtOpen] at h
    split at h
    · simp only [Except.ok.injEq, Prod.mk.injEq] at h
      obtain ⟨rfl, -⟩ := h
      exact plainStep_cursors o w _ fun k hk => ⟨k, (List.mem_filter.mp hk).1, rfl, rfl, rfl, rfl⟩
    · cases h
  | closeAll =>
    simp only [stmtOpen, Except.ok.injEq, Prod.mk.injEq] at h
    obtain ⟨rfl, -⟩ := h
    exact plainStep_cursors o w _ (by simp)
  | query q =>
    simp only [stmtOpen, Except.ok.injEq, Prod.mk.injEq] at h
    exact h.1 ▸ plainStep_record o w q.writes

/-- A statement that runs does so as in a block that is not aborted. -/
theorem stmt_ok {rows : List Row} {n : ℕ} {ms : List Message}
    (h : w.stmt o rows n st = .ok (w', ms)) : w.stmtOpen o rows n st = .ok (w', ms) := by
  unfold stmt at h
  split at h
  · split at h
    · exact h
    · cases h
  · exact h

/-- The four things a successful statement can be. -/
theorem stmt_cases {rows : List Row} {n : ℕ} {ms : List Message}
    (h : w.stmt o rows n st = .ok (w', ms)) :
    (st = .begin ∧ w' = w.begin o) ∨
    (st = .commit ∧ w' = (w.endBlock (.commit o)).enter) ∨
    (st = .rollback ∧ w' = (w.endBlock (.rollback o)).enter) ∨
    (st.isControl = false ∧ PlainStep o w w') := by
  have h := stmt_ok h
  cases st with
  | begin =>
    simp only [stmtOpen, Except.ok.injEq, Prod.mk.injEq] at h
    exact .inl ⟨rfl, h.1.symm⟩
  | commit =>
    simp only [stmtOpen, Except.ok.injEq, Prod.mk.injEq] at h
    exact .inr (.inl ⟨rfl, h.1.symm⟩)
  | rollback =>
    simp only [stmtOpen, Except.ok.injEq, Prod.mk.injEq] at h
    exact .inr (.inr (.inl ⟨rfl, h.1.symm⟩))
  | _ => exact .inr (.inr (.inr ⟨rfl, stmtOpen_plain rfl h⟩))

/-- The three outcomes of one statement of a message, each with its cause. -/
theorem runOne_cases (w : Wire) (o : Origin) (ch : Choice) (i : ℕ) (st : Stmt) :
    (w.runOne o ch i st = (w.lose, .error .closed) ∧ ch.fault = .lost i) ∨
    (∃ code, w.runOne o ch i st = (w.abort, .error (.server code)) ∧
      (ch.fault.codeAt i st = some code ∨
        w.stmt o (ch.rows i) (ch.affected i) st = .error code)) ∨
    (∃ w' ms, w.runOne o ch i st = (w', .ok ms) ∧ ch.fault.codeAt i st = none ∧
      w.stmt o (ch.rows i) (ch.affected i) st = .ok (w', ms)) := by
  unfold runOne
  split
  · rename_i hl
    exact .inl ⟨rfl, hl⟩
  · cases hc : ch.fault.codeAt i st with
    | some code => exact .inr (.inl ⟨code, rfl, .inl rfl⟩)
    | none =>
      cases hs : w.stmt o (ch.rows i) (ch.affected i) st with
      | error code => exact .inr (.inl ⟨code, rfl, .inr rfl⟩)
      | ok r => exact .inr (.inr ⟨r.1, r.2, rfl, rfl, rfl⟩)

/-- `P` survives the statements of a message that `o` may send, and every way the message can
end turns it into `P'`. -/
structure Keeps (P P' : Wire → Prop) (o : Origin) (sts : List Stmt) : Prop where
  stmt : ∀ w w' rows n st ms, st ∈ sts → P w → w.stmt o rows n st = .ok (w', ms) → P w'
  abort : ∀ w, P w → P' w.abort
  finish : ∀ w, P w → P' w.finish
  lose : ∀ w, P w → P' w.lose

variable {P P' : Wire → Prop}

theorem Keeps.mono {sts' : List Stmt} (h : Keeps P P' o sts) (hs : ∀ st ∈ sts', st ∈ sts) :
    Keeps P P' o sts' :=
  ⟨fun w w' rows n st ms hm => h.stmt w w' rows n st ms (hs st hm), h.abort, h.finish, h.lose⟩

theorem Keeps.runStmts (h : Keeps P P' o sts) (ch : Choice) (i : ℕ) (out : List Message)
    (hw : P w) : P' (runStmts o ch w i sts out).1 := by
  induction sts generalizing w i out with
  | nil => exact h.finish w hw
  | cons st rest ih =>
    simp only [Wire.runStmts]
    rcases runOne_cases w o ch i st with ⟨hr, -⟩ | ⟨code, hr, -⟩ | ⟨w', ms, hr, -, hs⟩
    · rw [hr]
      exact h.lose w hw
    · rw [hr]
      exact h.abort w hw
    · rw [hr]
      exact ih (h.mono fun _ => List.mem_cons_of_mem st) _ _
        (h.stmt w w' _ _ st ms List.mem_cons_self hw hs)

theorem Keeps.simpleQuery (h : Keeps P P' o sts) (ch : Choice) (hdown : w.up = false → P' w)
    (hw : P w.enter) : P' (w.simpleQuery o (some sts) ch).1 := by
  unfold Wire.simpleQuery
  split
  · rename_i hup
    exact hdown hup
  · exact h.runStmts ch 0 _ hw

theorem simpleQuery_none (h : w.up = true) :
    w.simpleQuery o none ch = (w.abort, .error (.server "42601")) := by
  simp [simpleQuery, h]

theorem simpleQuery_down (h : w.up = false) (parsed : Option (List Stmt)) :
    w.simpleQuery o parsed ch = (w, .error .closed) := by simp [simpleQuery, h]

inductive Ran (o : Origin) : Wire → List Stmt → Wire → Prop where
  | nil (w : Wire) : Ran o w [] w
  | cons {w w₁ w' : Wire} {st : Stmt} {sts : List Stmt} {rows : List Row} {n : ℕ}
      {ms : List Message} (h : w.stmt o rows n st = .ok (w₁, ms)) (hrest : Ran o w₁ sts w') :
      Ran o w (st :: sts) w'

theorem runStmts_ok {i : ℕ} {out ms : List Message}
    (h : (runStmts o ch w i sts out).2 = .ok ms) :
    ∃ w', Ran o w sts w' ∧ (runStmts o ch w i sts out).1 = w'.finish := by
  induction sts generalizing w i out with
  | nil => exact ⟨w, .nil w, rfl⟩
  | cons st rest ih =>
    simp only [Wire.runStmts] at h ⊢
    rcases runOne_cases w o ch i st with ⟨hr, -⟩ | ⟨code, hr, -⟩ | ⟨w₁, ms₁, hr, -, hs⟩
    · simp [hr] at h
    · simp [hr] at h
    · rw [hr] at h ⊢
      obtain ⟨w', hran, hw'⟩ := ih h
      exact ⟨w', .cons hs hran, hw'⟩

/-- A message that succeeds ran all its statements. -/
theorem simpleQuery_ok {ms : List Message} (h : (w.simpleQuery o (some sts) ch).2 = .ok ms) :
    w.up = true ∧ ∃ w', Ran o w.enter sts w' ∧ (w.simpleQuery o (some sts) ch).1 = w'.finish := by
  cases hup : w.up with
  | false => simp [simpleQuery_down hup] at h
  | true =>
    have hdown : ¬w.up = false := by simp [hup]
    simp only [simpleQuery, if_neg hdown] at h ⊢
    exact ⟨trivial, runStmts_ok h⟩

/-- Preparing a statement changes the wire only by losing it or aborting its block. -/
theorem prepare_wire (w : Wire) (parsed : Option (List Stmt)) (ch : Choice) :
    (w.prepare parsed ch).1 = w ∨ (w.prepare parsed ch).1 = w.lose ∨
      (w.prepare parsed ch).1 = w.abort := by
  unfold prepare
  split
  · exact .inl rfl
  · split
    · exact .inr (.inl rfl)
    · exact .inr (.inr rfl)
    · exact .inl rfl
    · split <;> exact .inl rfl
    · exact .inr (.inr rfl)

theorem prepare_ok {parsed : Option (List Stmt)} (h : (w.prepare parsed ch).2.isOk = true) :
    (w.prepare parsed ch).1 = w := by
  unfold prepare at h ⊢
  split
  · rfl
  · rename_i hup
    rw [if_neg hup] at h
    split <;> simp_all [Except.isOk, Except.toBool]
    split <;> rfl

theorem Keeps.extended {q : Query} (h : Keeps P P' .pool [.query q]) (ch : Choice) (hw' : P' w)
    (hw : P w.enter) : P' (w.extended q ch).1 := by
  unfold Wire.extended
  split
  · exact hw'
  split
  · exact hw'
  rcases runOne_cases w.enter .pool ch 0 (.query q) with ⟨hr, -⟩ | ⟨code, hr, -⟩ | ⟨w', ms, hr, -, hs⟩
  · rw [hr]
    exact h.lose _ hw
  · rw [hr]
    exact h.abort _ hw
  · rw [hr]
    exact h.finish _ (h.stmt _ w' _ _ _ ms (List.mem_singleton.mpr rfl) hw hs)

/-- The wire a message leaves, by whether it succeeded. -/
structure Leads {α : Type} (good bad : Wire → Prop) (r : Wire × Except DriverError α) : Prop where
  ok : ∀ a, r.2 = .ok a → good r.1
  error : ∀ e, r.2 = .error e → bad r.1

variable {α : Type} {good bad : Wire → Prop}

theorem leads_ok {a : α} (h : good w) : Leads good bad (w, .ok a) :=
  ⟨fun _ _ => h, fun _ he => nomatch he⟩

theorem leads_error {e : DriverError} (h : bad w) :
    Leads good bad ((w, .error e) : Wire × Except DriverError α) :=
  ⟨fun _ ha => (nomatch ha), fun _ _ => h⟩

theorem Leads.imp {good' bad' : Wire → Prop} {r : Wire × Except DriverError α}
    (h : Leads good bad r) (hgood : ∀ w, good w → good' w) (hbad : ∀ w, bad w → bad' w) :
    Leads good' bad' r :=
  ⟨fun a ha => hgood _ (h.ok a ha), fun e he => hbad _ (h.error e he)⟩

theorem Leads.either {r : Wire × Except DriverError α} {post : Wire → Prop} (h : Leads good bad r)
    (hgood : ∀ w, good w → post w) (hbad : ∀ w, bad w → post w) : post r.1 := by
  cases hr : r.2 with
  | ok a => exact hgood _ (h.ok a hr)
  | error e => exact hbad _ (h.error e hr)

end SshCommander.PostgresWire.Wire
