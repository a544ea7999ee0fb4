import SshCommander.CursorPaging
import SshCommander.EmptyStatements
import SshCommander.PostgresLexer

/-!
# Queries that are run as a preamble

`open_query` shows the main statement of a split and discards what the preamble returns. The server
may see less in the main statement than the splitter, and a statement without rows shows nothing.
-/

namespace SshCommander.DiscardedPreambles
open InteractionPrograms RustText SqlStatementSplit PostgresWire PostgresWire.Wire PooledConnection
open QueryExecution PostgresLexer SplitterBytes SplitHalves EmptyStatements
open CursorPaging (commented oneRow)

/-- The server finds no statement in a text just where nothing stands in it. -/
def ReadsAsLexed (g : Grammar) : Prop := ∀ sql, g.parse sql = some [] ↔ holdsNothing sql = true

def returnsRows : Stmt → Bool
  | .query q => !q.columns.isEmpty
  | .fetch _ _ => true
  | _ => false

def rowStatements (g : Grammar) (sql : Sql) : ℕ := ((g.parse sql).getD []).countP returnsRows

/-- The one statement of a script that answers with rows is in its preamble. -/
def OnlyInPreamble (g : Grammar) (pre main : Sql) : Prop :=
  rowStatements g pre = 1 ∧ rowStatements g main = 0

instance (g : Grammar) (pre main : Sql) : Decidable (OnlyInPreamble g pre main) :=
  inferInstanceAs (Decidable (_ ∧ _))

/-- There is a connection on which the server runs the one text and then the other. -/
def RunsBoth (g : Grammar) (pre main : Sql) : Prop :=
  ∃ (w : Wire) (ch ch' : Choice) (ms ms' : List Message),
    (w.simpleQuery .user (g.parse pre) ch).2 = .ok ms ∧
      ((w.simpleQuery .user (g.parse pre) ch).1.simpleQuery .user (g.parse main) ch').2 = .ok ms'

/-- The main statement of a split has something in it, and no run of `open_query` discards the only
rows of the script and returns an empty result instead. -/
def MainStands (g : Grammar) (sql : Sql) : Prop :=
  ∀ pre main, splitAtLastStatement sql = some (some (pre, main)) →
    isEffectivelyEmpty main = false ∧ (OnlyInPreamble g pre main →
      ∀ (pageSize : ℕ) (previous : Option ActiveCursor) (uuid : Text) (conn : Conn)
        (env : ℕ → Choice) (out : ExecutionOutcome) (active : Option ActiveCursor),
        (exec (Conn.serve g) (openQuery sql pageSize previous uuid) conn env).value =
          .ok (out, active) → ¬(out.columns = [] ∧ out.rows = []))

/-- The server runs a preamble that has the only rows of the script, and then a main statement in
which it sees nothing, or one statement. -/
def DiscardsRows (g : Grammar) (pre main : Sql) : Prop :=
  OnlyInPreamble g pre main ∧ RunsBoth g pre main ∧
    (holdsNothing main = true ∨ ∃ st, g.parse main = some [st])

/-- The splitter takes the tail for empty wherever it is noise between white space, and a head that
is run before it does not have the only rows. -/
def TailStands (g : Grammar) (sql : Sql) : Prop :=
  (∀ head tail, lastCut sql = some (head, tail) → OnlyNoise tail → Noise tail) ∧
    ∀ head tail, lastCut sql = some (head, tail) → ¬Noise tail → ¬DiscardsRows g head (trim tail)

variable {g : Grammar} {sql pre main : Sql} {w : Wire} {conn : Conn} {st : Stmt} {ch : Choice}
  {env : ℕ → Choice} {α β : Type}

theorem describe_rowless (h : returnsRows st = false) (w : Wire) : w.describe st = [] := by
  cases st with
  | query q => simpa [returnsRows, describe] using h
  | fetch count name => cases h
  | _ => rfl

/-- The server describes a statement that it can run. -/
theorem prepare_runnable {ms : List Message}
    (h : (w.simpleQuery .user (some [st]) ch).2 = .ok ms) :
    w.prepare (some [st]) .quiet = (w, .ok (w.describe st)) := by
  obtain ⟨hup, w', hran, -⟩ := simpleQuery_ok h
  have hdown : ¬w.up = false := by simp [hup]
  have haccepted : ¬(w.block.any (·.failed) && !st.endsBlock) = true := by
    cases hran with
    | cons hst hrest =>
      cases hb : w.block with
      | none => simp
      | some b =>
        obtain ⟨owner, failed, pending⟩ := b
        rw [enter_some hb, stmt, hb] at hst
        cases failed with
        | false => simp
        | true =>
          simp only at hst
          split at hst
          · rename_i hends
            simp [hends]
          · cases hst
  simp only [prepare, if_neg hdown, Choice.quiet, if_neg haccepted]

theorem prepare_nothing (h : w.up = true) : w.prepare (some []) .quiet = (w, .ok []) := by
  have hdown : ¬w.up = false := by simp [h]
  simp only [prepare, if_neg hdown, Choice.quiet]

theorem exec_send (c : Command) (f : Except DriverError c.Answer → Dialogue α) :
    (exec (Conn.serve g) (send c >>= f) conn env).value =
      (exec (Conn.serve g) (f (c.send g conn.wire (env 0)).2)
        { conn with wire := (c.send g conn.wire (env 0)).1 } fun n => env (n + 1)).value := rfl

/-- One statement without rows, or none, that the server runs: an empty result. -/
theorem openStatement_empty {ms : List Message} {pageSize : ℕ} {uuid : Text}
    (hprepare : conn.wire.prepare (g.parse sql) (env 0) = (conn.wire, .ok []))
    (hrun : (conn.wire.simpleQuery .user (g.parse sql) (env 1)).2 = .ok ms) :
    (exec (Conn.serve g) (openStatement sql pageSize uuid) conn env).value =
      .ok (⟨[], [], rowsAffectedOf ms, none⟩, none) := by
  rw [openStatement, exec_send]
  simp only [Command.send, hprepare, List.isEmpty_nil, if_true]
  rw [exec_send]
  simp only [Command.send, Nat.zero_add, hrun]
  rfl

/-- What `open_query` goes on with when the preamble of a split has run. -/
def afterPreamble (main : Sql) (pageSize : ℕ) (uuid : Text) :
    Except DriverError (List Message) → Dialogue Opened
  | .error e => pure (.error (.driver e))
  | .ok _ => openStatement main pageSize uuid

theorem openQuery_split (hsplit : splitAtLastStatement sql = some (some (pre, main)))
    (pageSize : ℕ) (previous : Option ActiveCursor) (uuid : Text) :
    openQuery sql pageSize previous uuid = closePrevious previous >>= fun _ =>
      send (.batchExecute pre) >>= afterPreamble main pageSize uuid := by
  simp only [openQuery, openScript, isMultiStatement_split hsplit, hsplit, openScript_main hsplit]
  refine congrArg (closePrevious previous >>= ·) (funext fun _ => ?_)
  refine congrArg (send (.batchExecute pre) >>= ·) (funext fun r => ?_)
  cases r with
  | error e => rfl
  | ok ms => rfl

theorem exec_ret_bind (a : α) (f : α → Dialogue β) :
    (exec (Conn.serve g) ((return a : Dialogue α) >>= f) conn env).value =
      (exec (Conn.serve g) (f a) conn env).value := rfl

theorem rowless_of_none {sts : List Stmt} (h : rowStatements g sql = 0)
    (hparse : g.parse sql = some sts) (hst : st ∈ sts) : returnsRows st = false := by
  rw [rowStatements, hparse, Option.getD_some, List.countP_eq_zero] at h
  exact Bool.eq_false_iff.mpr (h st hst)

/-- A server that can run both texts shows nothing of the first. -/
theorem openQuery_discards (hg : ReadsAsLexed g)
    (hsplit : splitAtLastStatement sql = some (some (pre, main))) (h : DiscardsRows g pre main) :
    ∃ conn env count, (exec (Conn.serve g) (openQuery sql 1 none "u".toList) conn env).value =
      .ok (⟨[], [], count, none⟩, none) := by
  obtain ⟨⟨-, hnone⟩, ⟨w, ch, ch', ms, ms', hpre, hmain⟩, hreads⟩ := h
  have hprepare : (w.simpleQuery .user (g.parse pre) ch).1.prepare (g.parse main) .quiet =
      ((w.simpleQuery .user (g.parse pre) ch).1, .ok []) := by
    rcases hreads with hnothing | ⟨st, hst⟩
    · rw [(hg main).mpr hnothing] at hmain ⊢
      exact prepare_nothing (simpleQuery_ok hmain).1
    · have hrowless := rowless_of_none hnone hst (List.mem_singleton_self st)
      rw [hst] at hmain ⊢
      rw [prepare_runnable hmain, describe_rowless hrowless]
  let choices : ℕ → Choice := fun | 0 => ch | 1 => .quiet | _ => ch'
  refine ⟨⟨w, none⟩, choices, rowsAffectedOf ms', ?_⟩
  rw [openQuery_split hsplit, closePrevious, exec_ret_bind, exec_send]
  simp only [Command.send, show choices 0 = ch from rfl, hpre, afterPreamble]
  exact openStatement_empty hprepare hmain

theorem prepare_ok_reads {parsed : Option (List Stmt)} {columns : List ColumnMeta}
    (h : (w.prepare parsed ch).2 = .ok columns) :
    parsed = some [] ∧ columns = [] ∨ ∃ st, parsed = some [st] ∧ columns = w.describe st := by
  unfold prepare at h
  split at h
  · cases h
  · split at h
    · cases h
    · cases h
    · exact .inl ⟨rfl, (Except.ok.inj h).symm⟩
    · split at h
      · cases h
      · exact .inr ⟨_, rfl, (Except.ok.inj h).symm⟩
    · cases h

def RunsAlone (g : Grammar) (w : Wire) (sql : Sql) : Prop :=
  (∃ ch ms, (w.simpleQuery .user (g.parse sql) ch).2 = .ok ms) ∧
    (g.parse sql = some [] ∨ ∃ st, g.parse sql = some [st])

theorem openStatement_ok (hnone : rowStatements g sql = 0) (pageSize : ℕ) (uuid : Text)
    (conn : Conn) : wp (Conn.serve g) (openStatement sql pageSize uuid) conn
      fun value _ _ => ∀ r, value = .ok r → RunsAlone g conn.wire sql := by
  intro ch₁
  simp only [Conn.serve, Command.send]
  cases hprepare : (conn.wire.prepare (g.parse sql) ch₁).2 with
  | error e =>
    intro r hvalue
    cases hvalue
  | ok columns =>
    have hsame : (conn.wire.prepare (g.parse sql) ch₁).1 = conn.wire :=
      prepare_ok (by rw [hprepare]; rfl)
    have hreads := prepare_ok_reads hprepare
    have hempty : columns.isEmpty = true := by
      rcases hreads with ⟨-, rfl⟩ | ⟨st, hst, rfl⟩
      · rfl
      · rw [describe_rowless (rowless_of_none hnone hst (List.mem_singleton_self st))]
        rfl
    have hone : g.parse sql = some [] ∨ ∃ st, g.parse sql = some [st] := by
      rcases hreads with ⟨hst, -⟩ | ⟨st, hst, -⟩
      · exact .inl hst
      · exact .inr ⟨st, hst⟩
    simp only [Prog.bind, hempty, if_true]
    intro ch₂
    simp only [Conn.serve, Command.send, hsame]
    cases hrun : (conn.wire.simpleQuery .user (g.parse sql) ch₂).2 with
    | error e =>
      intro r hvalue
      cases hvalue
    | ok ms => exact fun _ _ => ⟨⟨ch₂, ms, hrun⟩, hone⟩

/-- A result that comes out after a preamble with the only rows is that of no statement or one. -/
theorem openQuery_ok (hsplit : splitAtLastStatement sql = some (some (pre, main)))
    (hnone : rowStatements g main = 0) {pageSize : ℕ} {previous : Option ActiveCursor} {uuid : Text}
    (env : ℕ → Choice) {r : ExecutionOutcome × Option ActiveCursor}
    (h : (exec (Conn.serve g) (openQuery sql pageSize previous uuid) conn env).value = .ok r) :
    RunsBoth g pre main ∧ (g.parse main = some [] ∨ ∃ st, g.parse main = some [st]) := by
  have hall : wp (Conn.serve g) (openQuery sql pageSize previous uuid) conn
      fun value _ _ => ∀ r, value = .ok r →
        RunsBoth g pre main ∧ (g.parse main = some [] ∨ ∃ st, g.parse main = some [st]) := by
    rw [openQuery_split hsplit, wp_bind]
    apply wp_mono _ (wp_true (Conn.serve g) (closePrevious previous) conn)
    intro _ conn _ _ ch
    simp only [Conn.serve, Command.send]
    cases hpre : (conn.wire.simpleQuery .user (g.parse pre) ch).2 with
    | error e =>
      intro r hvalue
      cases hvalue
    | ok ms =>
      apply wp_mono _ (openStatement_ok hnone pageSize uuid _)
      intro value _ _ hvalue r hr
      obtain ⟨⟨ch', ms', hmain⟩, hreads⟩ := hvalue r hr
      exact ⟨⟨conn.wire, ch, ch', ms, ms', hpre, hmain⟩, hreads⟩
  exact wp_iff_exec.mp hall env r h

/-- The main statement of a split stands exactly where the tail does. -/
theorem main_stands_iff (g : Grammar) (hg : ReadsAsLexed g) (sql : Sql) :
    MainStands g sql ↔ TailStands g sql := by
  constructor
  · intro h
    refine ⟨(main_nonempty_iff sql).mp fun pre main hsplit => (h pre main hsplit).1, ?_⟩
    intro head tail hcut hnot hdiscards
    have hsplit := split_iff_lastCut.mpr ⟨tail, hcut, hnot, rfl⟩
    obtain ⟨conn, env, count, hvalue⟩ := openQuery_discards hg hsplit hdiscards
    exact (h head _ hsplit).2 hdiscards.1 1 none _ conn env _ _ hvalue ⟨rfl, rfl⟩
  · rintro ⟨htail, hrows⟩ pre main hsplit
    refine ⟨(main_nonempty_iff sql).mpr htail pre main hsplit, fun honly => ?_⟩
    intro pageSize previous uuid conn env out active hvalue _
    obtain ⟨hruns, hreads⟩ := openQuery_ok hsplit honly.2 env hvalue
    obtain ⟨tail, hcut, hnot, rfl⟩ := split_iff_lastCut.mp hsplit
    exact hrows pre tail hcut hnot ⟨honly, hruns, hreads.imp_left (hg (trim tail)).mp⟩

def oneColumn : Query := ⟨[⟨"c".toList, 25, "text".toList⟩], true, false⟩

/-- A server that knows two queries, and sees nothing in a text just where its lexer does. -/
def twoQueries : Grammar where
  parse sql := if holdsNothing sql then some []
    else if sql = "SELECT 1;".toList ∨ sql = "SELECT 2".toList then some [.query oneColumn]
    else none

theorem twoQueries_lexed : ReadsAsLexed twoQueries := by
  intro sql
  unfold twoQueries
  by_cases h : holdsNothing sql = true
  · simp [h]
  · simp only [if_neg h, iff_false_right h]
    split <;> simp

/-- The rows of a query behind the last semicolon are shown. -/
theorem main_stands_twoQueries : MainStands twoQueries "SELECT 1;SELECT 2".toList := by
  have hlast : lastCut "SELECT 1;SELECT 2".toList =
      some ("SELECT 1;".toList, "SELECT 2".toList) := by decide +kernel
  have hrows : rowStatements twoQueries (trim "SELECT 2".toList) = 1 := by decide +kernel
  refine (main_stands_iff twoQueries twoQueries_lexed _).mpr ⟨?_, ?_⟩
  · intro head tail hcut honly
    obtain ⟨rfl, rfl⟩ := Prod.mk.inj (Option.some.inj (hlast.symm.trans hcut))
    rw [← noise_trim_iff, ← isEffectivelyEmpty_iff] at honly
    exact absurd honly (by decide +kernel)
  · intro head tail hcut _ hdiscards
    obtain ⟨rfl, rfl⟩ := Prod.mk.inj (Option.some.inj (hlast.symm.trans hcut))
    rw [hdiscards.1.2] at hrows
    cases hrows

/-- A form feed behind the semicolon, and a comment in a comment: the only query is the preamble of
a main statement in which the splitter, or the server, sees nothing, and its row is dropped. -/
theorem preamble_loses_row :
    splitAtLastStatement ("SELECT 1;".toList ++ ['\x0c']) =
        some (some ("SELECT 1;".toList, [])) ∧
      isEffectivelyEmpty [] = true ∧
      (exec (Conn.serve twoQueries) (openQuery ("SELECT 1;".toList ++ ['\x0c']) 10 none "u".toList)
        .fresh fun _ => oneRow).value = .ok (⟨[], [], some 0, none⟩, none) ∧
      splitAtLastStatement commented = some (some ("SELECT 1;".toList, "/* a /* b */ c */".toList)) ∧
      (exec (Conn.serve twoQueries) (openQuery commented 10 none "u".toList) .fresh
        fun _ => oneRow).value = .ok (⟨[], [], some 0, none⟩, none) ∧
      ¬MainStands twoQueries ("SELECT 1;".toList ++ ['\x0c']) ∧ ¬MainStands twoQueries commented := by
  have hformFeed : splitAtLastStatement ("SELECT 1;".toList ++ ['\x0c']) =
      some (some ("SELECT 1;".toList, [])) := by decide +kernel
  have hcommented : splitAtLastStatement commented =
      some (some ("SELECT 1;".toList, "/* a /* b */ c */".toList)) := by decide +kernel
  have hrun : (exec (Conn.serve twoQueries) (openQuery commented 10 none "u".toList) .fresh
      fun _ => oneRow).value = .ok (⟨[], [], some 0, none⟩, none) := by decide +kernel
  refine ⟨hformFeed, rfl, by decide +kernel, hcommented, hrun, fun h => ?_, fun h => ?_⟩
  · exact Bool.noConfusion (h _ _ hformFeed).1
  · have honly : OnlyInPreamble twoQueries "SELECT 1;".toList "/* a /* b */ c */".toList := by
      decide +kernel
    exact (h _ _ hcommented).2 honly 10 none _ .fresh _ _ _ hrun ⟨rfl, rfl⟩

end SshCommander.DiscardedPreambles
