import SshCommander.PostgresWireLaws
import SshCommander.SessionCalls

/-!
# The paths through a query

`open_query` has many exits, and what is shown of it is shown along every path. A `Discipline`
says what the wire is like between the pool's commands and what each command makes of that; the
walks below carry it through every path of a query, a page and a clean-up once.
-/

namespace SshCommander.QueryPaths
open InteractionPrograms RustText SqlStatementSplit PostgresWire PostgresWire.Wire
  PooledConnection QueryExecution RowEditing SessionCalls

/-- The texts `open_query` makes of a script: the script, its preambles and its main statements. -/
inductive Piece : Sql → Sql → Prop where
  | whole (sql : Sql) : Piece sql sql
  | preamble {sql preamble main : Sql} (h : splitAtLastStatement sql = some (some (preamble, main))) :
      Piece sql preamble
  | main {sql preamble main t : Sql} (h : splitAtLastStatement sql = some (some (preamble, main)))
      (ht : Piece main t) : Piece sql t

/-- What the wire is like between the commands of a query, and what each command makes of it. -/
structure Discipline (g : Grammar) where
  watch : Watch Conn Request Choice
  /-- Only the clean-up after an exhausted page is watched. -/
  watched : ∀ x, watch.bad x → ∃ c, x.asked = .send (.closeCommit c .exhausted)
  allowed : Sql → Prop
  /-- Before a statement. -/
  ready : Wire → Prop
  /-- After a failure that is followed by ROLLBACK. -/
  failed : Wire → Prop
  declared : Text → Wire → Prop
  fetched : Text → Wire → Prop
  /-- Between calls, with the cursor open. -/
  held : Text → Wire → Prop
  /-- After a watched exchange. -/
  spoilt : Conn → Prop
  text : ∀ {conn : Conn} {c : Command} {sql : Sql} {ch : Choice},
    c = .simpleQuery sql ∨ c = .batchExecute sql → allowed sql →
    ¬watch.excluded ⟨conn, .send c, ch⟩ → ready conn.wire → ready (c.send g conn.wire ch).1
  prepare : ∀ {conn : Conn} {sql : Sql} {ch : Choice},
    ¬watch.excluded ⟨conn, .send (.prepare sql), ch⟩ → ready conn.wire →
    ready ((Command.prepare sql).send g conn.wire ch).1
  declare : ∀ {conn : Conn} {sql : Sql} {c : Text} {ch : Choice},
    ¬watch.excluded ⟨conn, .send (.beginDeclare c sql), ch⟩ → ready conn.wire →
    Leads (declared c) failed ((Command.beginDeclare c sql).send g conn.wire ch)
  fetch : ∀ {w : Wire} {n : ℕ} {c : Text} {ch : Choice}, declared c w →
    Leads (fetched c) failed ((Command.fetchForward n c).send g w ch)
  rollback : ∀ {w : Wire} {ch : Choice}, failed w → ready (Command.rollback.send g w ch).1
  keep : ∀ {w : Wire} {c : Text}, fetched c w → held c w
  exhaust : ∀ {conn : Conn} {c : Text} {ch : Choice},
    ¬watch.bad ⟨conn, .send (.closeCommit c .exhausted), ch⟩ → fetched c conn.wire →
    ready ((Command.closeCommit c .exhausted).send g conn.wire ch).1
  spoil : ∀ {conn : Conn} {c : Text} {ch : Choice},
    watch.bad ⟨conn, .send (.closeCommit c .exhausted), ch⟩ → fetched c conn.wire →
    spoilt ⟨((Command.closeCommit c .exhausted).send g conn.wire ch).1, none⟩
  close : ∀ {w : Wire} {c : Text} {why : Cleanup} {ch : Choice}, held c w →
    Leads ready failed ((Command.closeCommit c why).send g w ch)

namespace Discipline

variable {g : Grammar} (D : Discipline g) {conn : Conn} {α : Type}

def Between (conn : Conn) : Prop :=
  match conn.activeCursor with
  | none => D.ready conn.wire
  | some c => D.held c.cursorId conn.wire

/-- Every text of the script is allowed. -/
def Allowed (sql : Sql) : Prop := ∀ t, Piece sql t → D.allowed t

/-- The connection once `execute` has stored what `open_query` returned. -/
def leave (r : Opened) (conn : Conn) : Conn :=
  match r with
  | .error _ => conn
  | .ok (_, c) => { conn with activeCursor := c }

abbrev Walk (p : Dialogue α) (conn : Conn) (good spoilt : α → Conn → Prop) : Prop :=
  wpUnless (Conn.serve g) D.watch p conn good spoilt

/-- A path of `open_query` ends, with `active_cursor` taken meanwhile, in what `execute` may
store. -/
abbrev Opens (p : Dialogue Opened) (conn : Conn) : Prop :=
  D.Walk p conn (fun r conn => conn.activeCursor = none ∧ D.Between (leave r conn))
    fun r conn => D.spoilt (leave r conn)

variable {D} {good spoilt : α → Conn → Prop}

theorem unwatched {q : Request} (hq : ∀ c, q ≠ .send (.closeCommit c .exhausted)) (ch : Choice) :
    ¬D.watch.bad ⟨conn, q, ch⟩ := by
  intro hb
  obtain ⟨c, hc⟩ := D.watched _ hb
  exact hq c hc

theorem between_of_none (ha : conn.activeCursor = none) (hw : D.ready conn.wire) :
    D.Between conn := by
  simpa only [Between, ha] using hw

theorem opens_ret {r : Opened} (ha : conn.activeCursor = none) (hw : D.ready conn.wire)
    (hr : ∀ outcome c, r ≠ .ok (outcome, some c)) : D.Opens (.ret r) conn := by
  refine wpUnless_ret ⟨ha, ?_⟩
  match r, hr with
  | .error e, _ => exact between_of_none ha hw
  | .ok (outcome, none), _ => exact hw
  | .ok (outcome, some c), hr => exact absurd rfl (hr outcome c)

theorem rollback_walk {a : α} (h : D.failed conn.wire)
    (hgood : ∀ w', D.ready w' → good a { conn with wire := w' }) :
    D.Walk (send .rollback >>= fun _ => pure a) conn good spoilt := by
  apply wpUnless_request (unwatched (by simp))
  intro ch _
  exact wpUnless_ret (hgood _ (D.rollback h))

/-- `CLOSE; COMMIT` with ROLLBACK as its fallback. -/
theorem closeCommit_walk {a : α} {c : Text} {why : Cleanup}
    {f : Except DriverError (List Message) → Dialogue α} (hwhy : why ≠ .exhausted)
    (hok : ∀ ms, f (.ok ms) = pure a) (herr : ∀ e, f (.error e) = send .rollback >>= fun _ => pure a)
    (h : D.held c conn.wire) (hgood : ∀ w', D.ready w' → good a { conn with wire := w' }) :
    D.Walk (send (.closeCommit c why) >>= f) conn good spoilt := by
  have hnot : ∀ c', Request.send (.closeCommit c why) ≠ .send (.closeCommit c' .exhausted) := by
    intro c' hc
    simp only [Request.send.injEq, Command.closeCommit.injEq] at hc
    exact hwhy hc.2
  apply wpUnless_request (unwatched hnot)
  intro ch _
  have hclose : Leads D.ready D.failed ((Command.closeCommit c why).send g conn.wire ch) :=
    D.close h
  cases hr : ((Command.closeCommit c why).send g conn.wire ch).2 with
  | ok ms =>
    have hs : (Conn.serve g conn (.send (.closeCommit c why)) ch).2 = .ok ms := hr
    rw [hs, hok]
    exact wpUnless_ret (hgood _ (hclose.ok ms hr))
  | error e =>
    have hs : (Conn.serve g conn (.send (.closeCommit c why)) ch).2 = .error e := hr
    rw [hs, herr]
    exact rollback_walk (hclose.error e hr) hgood

theorem closePrevious_walk {previous : Option ActiveCursor} {w : Wire} {good : Unit → Conn → Prop}
    {spoilt : Unit → Conn → Prop} (h : D.Between ⟨w, previous⟩)
    (hgood : ∀ w', D.ready w' → good () ⟨w', none⟩) :
    D.Walk (closePrevious previous) ⟨w, none⟩ good spoilt := by
  cases previous with
  | none => exact wpUnless_ret (hgood w h)
  | some prev => exact closeCommit_walk (by simp) (fun _ => rfl) (fun _ => rfl) h hgood

theorem fetchFirstPage_opens {columns : List ColumnMeta} {c : Text} {pageSize : ℕ}
    (h : D.declared c conn.wire) (ha : conn.activeCursor = none) :
    D.Opens (fetchFirstPage columns c pageSize) conn := by
  apply wpUnless_request (unwatched (by simp))
  intro ch _
  have hfetch : Leads (D.fetched c) D.failed
      ((Command.fetchForward pageSize c).send g conn.wire ch) := D.fetch h
  split
  · rename_i e hr
    apply rollback_walk (hfetch.error e hr)
    intro w' hw
    exact ⟨ha, between_of_none ha hw⟩
  · rename_i ms hr
    have hfetched := hfetch.ok ms hr
    dsimp only
    split
    · apply wpUnless_ask
      · intro ch' _ hb
        exact opens_ret ha (D.exhaust hb hfetched) (by simp)
      · intro ch' _ hb
        have hconn : (Conn.serve g (Conn.serve g conn (.send (.fetchForward pageSize c)) ch).1
            (.send (.closeCommit c .exhausted)) ch').1.activeCursor = none := ha
        exact wpUnless_ret (D.spoil hb hfetched)
    · exact wpUnless_ret ⟨ha, D.keep hfetched⟩

/-- A run of the whole text hands its outcome on without a cursor. -/
theorem bulk_opens {sql : Sql} {pageSize : ℕ} {f : Except PgError ExecutionOutcome → Dialogue Opened}
    (herr : ∀ e, f (.error e) = pure (.error e))
    (hok : ∀ outcome, f (.ok outcome) = pure (.ok (outcome, none)))
    (hsql : D.allowed sql) (h : D.ready conn.wire) (ha : conn.activeCursor = none) :
    D.Opens (runMultiStatement sql pageSize >>= f) conn := by
  have hf (r : Except PgError ExecutionOutcome) (conn : Conn) (h : D.ready conn.wire)
      (ha : conn.activeCursor = none) : D.Opens (f r) conn := by
    cases r with
    | error e =>
      rw [herr]
      exact opens_ret ha h (by simp)
    | ok outcome =>
      rw [hok]
      exact opens_ret ha h (by simp)
  apply wpUnless_bind
  apply wpUnless_request (unwatched (by simp))
  intro ch hex
  have hready : D.ready (Conn.serve g conn (.send (.simpleQuery sql)) ch).1.wire :=
    D.text (.inl rfl) hsql hex h
  split
  · exact wpUnless_ret (hf _ _ hready ha)
  · exact wpUnless_ret (hf _ _ hready ha)

theorem openCursor_opens {sql : Sql} {columns : List ColumnMeta} {c : Text} {pageSize : ℕ}
    (hsql : D.allowed sql) (h : D.ready conn.wire) (ha : conn.activeCursor = none) :
    D.Opens (openCursor sql columns c pageSize) conn := by
  apply wpUnless_request (unwatched (by simp))
  intro ch hex
  have hdeclare : Leads (D.declared c) D.failed
      ((Command.beginDeclare c sql).send g conn.wire ch) := D.declare hex h
  split
  · rename_i ms hr
    exact fetchFirstPage_opens (hdeclare.ok ms hr) ha
  · rename_i e hr
    apply wpUnless_request (unwatched (by simp))
    intro ch' _
    have hready : D.ready (Conn.serve g (Conn.serve g conn (.send (.beginDeclare c sql)) ch).1
        (.send .rollback) ch').1.wire := D.rollback (hdeclare.error e hr)
    split
    · exact bulk_opens (fun _ => rfl) (fun _ => rfl) hsql hready ha
    · exact opens_ret ha hready (by simp)

theorem openStatement_opens {sql : Sql} {pageSize : ℕ} {uuid : Text} (hsql : D.allowed sql)
    (h : D.ready conn.wire) (ha : conn.activeCursor = none) :
    D.Opens (openStatement sql pageSize uuid) conn := by
  apply wpUnless_request (unwatched (by simp))
  intro ch hex
  have hprepared : D.ready (Conn.serve g conn (.send (.prepare sql)) ch).1.wire :=
    D.prepare hex h
  split
  · exact opens_ret ha hprepared (by simp)
  · split
    · apply wpUnless_request (unwatched (by simp))
      intro ch' hex'
      have hready := D.text (.inl rfl) hsql hex' hprepared
      split
      · exact opens_ret ha hready (by simp)
      · exact opens_ret ha hready (by simp)
    · exact openCursor_opens hsql hprepared ha

/-- By induction on the fuel: the preamble goes to a ready wire, and the main statement is opened
on the ready wire it leaves. -/
theorem openScript_opens {pageSize : ℕ} {uuid : Text} {fuel : ℕ} {sql : Sql}
    (hsql : D.Allowed sql) (h : D.ready conn.wire) (ha : conn.activeCursor = none) :
    D.Opens (openScript pageSize uuid fuel sql) conn := by
  induction fuel generalizing sql conn with
  | zero => exact opens_ret ha h (by simp)
  | succ fuel ih =>
    simp only [openScript]
    split
    · exact opens_ret ha h (by simp)
    · exact openStatement_opens (hsql sql (.whole sql)) h ha
    · split
      · exact opens_ret ha h (by simp)
      · rename_i preamble main hsplit
        apply wpUnless_request (unwatched (by simp))
        intro ch hex
        have hready : D.ready (Conn.serve g conn (.send (.batchExecute preamble)) ch).1.wire :=
          D.text (.inr rfl) (hsql preamble (.preamble hsplit)) hex h
        split
        · exact opens_ret ha hready (by simp)
        · exact ih (fun t ht => hsql t (.main hsplit ht)) hready ha
      · exact bulk_opens (fun _ => rfl) (fun _ => rfl) (hsql sql (.whole sql)) h ha

theorem openQuery_opens {sql : Sql} {pageSize : ℕ} {previous : Option ActiveCursor} {uuid : Text}
    {w : Wire} (hsql : D.Allowed sql) (h : D.Between ⟨w, previous⟩) :
    D.Opens (openQuery sql pageSize previous uuid) ⟨w, none⟩ := by
  apply wpUnless_bind
  apply closePrevious_walk h
  intro w' hw
  exact openScript_opens hsql hw rfl

theorem store_walk (D : Discipline g) {r : Opened} {post : Conn → Prop}
    {f : Opened → Dialogue (Except PgError ExecutionOutcome)}
    {spoilt : Except PgError ExecutionOutcome → Conn → Prop}
    (herr : ∀ e, f (.error e) = pure (.error e))
    (hok : ∀ outcome c, f (.ok (outcome, c)) = ask (.setCursor c) >>= fun _ => pure (.ok outcome))
    (hr : post (leave r conn)) : D.Walk (f r) conn (fun _ => post) spoilt := by
  match r, hr with
  | .error e, hr =>
    rw [herr]
    exact wpUnless_ret hr
  | .ok (outcome, c), hr =>
    rw [hok]
    apply wpUnless_request (unwatched (by simp))
    intro _ _
    exact wpUnless_ret hr

/-- `execute` stores what `open_query` opened. -/
theorem execute_walk {sql : Sql} {pageSize : ℕ} {uuid : Text} (hsql : D.Allowed sql)
    (h : D.Between conn) :
    D.Walk (SessionCalls.execute sql pageSize uuid) conn (fun _ => D.Between) fun _ => D.spoilt := by
  apply wpUnless_request (unwatched (by simp))
  intro _ _
  apply wpUnless_bind
  apply wpUnless_mono _ _ (openQuery_opens hsql h)
  · intro r conn' hr
    apply store_walk D _ _ hr.2
    · intro e
      rfl
    · intro outcome c
      rfl
  · intro r conn' hr
    apply store_walk D _ _ hr
    · intro e
      rfl
    · intro outcome c
      rfl

/-- A page is fetched from the cursor that is open, if the cursor survives that. -/
theorem fetchPageOf_walk {sessionId cursorId : Text} {count : ℕ}
    {spoilt : Except PgError PageResult → Conn → Prop}
    (hfetch : ∀ (w : Wire) (c : Text) (ch : Choice), D.held c w →
      D.held c ((Command.fetchForward count c).send g w ch).1) (h : D.Between conn) :
    D.Walk (fetchPageOf sessionId cursorId count) conn (fun _ => D.Between) spoilt := by
  apply wpUnless_request (unwatched (by simp))
  intro _ _
  obtain ⟨w, active⟩ := conn
  cases active with
  | none => exact wpUnless_ret h
  | some c =>
    dsimp only [Conn.serve]
    split
    · apply wpUnless_request (unwatched (by simp))
      intro ch _
      have hheld : D.Between (Conn.serve g ⟨w, some c⟩
          (.send (.fetchForward count c.cursorId)) ch).1 := hfetch w c.cursorId ch h
      split
      · exact wpUnless_ret hheld
      · exact wpUnless_ret hheld
    · exact wpUnless_ret h

theorem closeQueryOf_walk {cursorId : Text} {spoilt : Unit → Conn → Prop} (h : D.Between conn) :
    D.Walk (closeQueryOf cursorId) conn (fun _ => D.Between) spoilt := by
  apply wpUnless_request (unwatched (by simp))
  intro _ _
  obtain ⟨w, active⟩ := conn
  cases active with
  | none => exact wpUnless_ret h
  | some c =>
    dsimp only [Conn.serve, Conn.takeIf]
    by_cases hc : c.cursorId = cursorId
    · rw [if_pos hc]
      exact closeCommit_walk (by simp) (fun _ => rfl) (fun _ => rfl) h fun w' hw => hw
    · rw [if_neg hc]
      exact wpUnless_ret h

theorem answering_walk {p : Dialogue (Except PgError α)} {f : α → CallValue} {good spoilt : Conn → Prop}
    (h : D.Walk p conn (fun _ => good) fun _ => spoilt) :
    D.Walk (answering f p) conn (fun _ => good) fun _ => spoilt := by
  apply wpUnless_bind
  apply wpUnless_mono _ _ h
  · intro r _ hs
    cases r with
    | error e => exact wpUnless_ret hs
    | ok a => exact wpUnless_ret hs
  · intro r _ hs
    cases r with
    | error e => exact wpUnless_ret hs
    | ok a => exact wpUnless_ret hs

/-- An edit is one statement outside the cursor's, or nothing at all. -/
theorem editForm_walk {p : Dialogue CallResult} {spoilt : CallResult → Conn → Prop}
    (hp : EditForm p)
    (hextended : ∀ (w : Wire) (active : Option ActiveCursor) (q : Query) (ch : Choice),
      D.Between ⟨w, active⟩ → D.Between ⟨(w.extended q ch).1, active⟩) (h : D.Between conn) :
    D.Walk p conn (fun _ => D.Between) spoilt := by
  cases hp with
  | refused r => exact wpUnless_ret h
  | sent sql params f k herr hok _ =>
    apply wpUnless_request (unwatched (by simp))
    intro ch _
    have hbetween : D.Between (Conn.serve g conn (.send (.extended sql params editQuery)) ch).1 :=
      hextended conn.wire conn.activeCursor editQuery ch h
    cases hr : (Conn.serve g conn (.send (.extended sql params editQuery)) ch).2 with
    | error e =>
      rw [herr]
      exact wpUnless_ret hbetween
    | ok reply =>
      rw [hok]
      exact wpUnless_ret hbetween

/-- Every call of a session goes from between two calls to between two calls. -/
theorem prog_walk (c : Call)
    (hsql : ∀ sql pageSize uuid, c = .execute sql pageSize uuid → D.Allowed sql)
    (hfetch : ∀ (w : Wire) (n : ℕ) (id : Text) (ch : Choice), D.held id w →
      D.held id ((Command.fetchForward n id).send g w ch).1)
    (hextended : ∀ (w : Wire) (active : Option ActiveCursor) (q : Query) (ch : Choice),
      D.Between ⟨w, active⟩ → D.Between ⟨(w.extended q ch).1, active⟩) (h : D.Between conn) :
    D.Walk c.prog conn (fun _ => D.Between) fun _ => D.spoilt := by
  cases c with
  | execute sql pageSize uuid => exact answering_walk (execute_walk (hsql _ _ _ rfl) h)
  | fetchPage sessionId cursorId count =>
    apply answering_walk
    exact fetchPageOf_walk (fun w id ch => hfetch w count id ch) h
  | closeQuery cursorId =>
    apply wpUnless_bind
    exact wpUnless_mono (fun _ _ hs => wpUnless_ret hs) (fun _ _ hs => hs) (closeQueryOf_walk h)
  | updateCell | insertRow | deleteRows => exact editForm_walk (Call.edit_form rfl) hextended h

/-- `release_session` closes the cursor that is open. -/
theorem releaseCleanup_walk {spoilt : Unit → Conn → Prop} (h : D.Between conn) :
    D.Walk releaseCleanup conn (fun _ => D.Between) spoilt := by
  apply wpUnless_request (unwatched (by simp))
  intro _ _
  obtain ⟨w, active⟩ := conn
  cases active with
  | none => exact wpUnless_ret h
  | some c => exact closeCommit_walk (by simp) (fun _ => rfl) (fun _ => rfl) h fun w' hw => hw

end Discipline

end SshCommander.QueryPaths
