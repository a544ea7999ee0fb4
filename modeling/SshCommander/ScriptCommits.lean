import SshCommander.TransactionalServer
import SshCommander.QueryExecution
import SshCommander.SplitterBlanks

/-!
# What a script commits, on the split path and in bulk

A script that ends without a semicolon runs as two transactions, the preamble and the last
statement; with one it is a single transaction.
-/

namespace SshCommander.ScriptCommits
open InteractionPrograms RustText SqlStatementSplit PostgresWire PooledConnection QueryExecution
open SplitterLexer SplitterBytes SplitterSuffixes SplitterBlanks TransactionalServer

variable {D W S : Type} {srv : Server D W S}

/-- With a semicolon at its end the text is run in bulk. -/
theorem bulk_route {sql pre main : Sql} (h : splitAtLastStatement sql = some (some (pre, main)))
    (hend : endState .normal 0 sql = .normal) :
    isMultiStatement (sql ++ [';']) = some true ∧ splitAtLastStatement (sql ++ [';']) = some none := by
  obtain ⟨hquoted, rest, hrest, hempty⟩ := splitAtLastStatement_eq h
  have hneutral : ∀ x, [';'].head? = some x → Neutral x := by
    intro x hx
    obtain rfl := Option.some.inj hx
    exact neutral_semicolon
  have hquoted' : AsciiQuoted .normal (sql ++ [';']) := by
    apply (asciiQuoted_append hneutral sql sound_normal).mpr
    refine ⟨hquoted, ?_⟩
    rw [hend]
    intro r hr d hd
    obtain rfl := List.mem_singleton.mp hr
    cases hd
  have hafter := afterSemicolons_append hneutral sql sound_normal
  have hlast : afterSemicolons .normal [';'] = [[]] := rfl
  rw [hend, hlast] at hafter
  constructor
  · rw [isMultiStatement_eq hquoted', hafter]
    congr 1
    apply List.any_eq_true.mpr
    refine ⟨rest ++ [';'], List.mem_append_left _ (List.mem_map_of_mem hrest), ?_⟩
    rw [isEffectivelyEmpty_eq] at hempty ⊢
    rw [onlyBlank_append hneutral rest.length rest le_rfl .normal hempty]
    rfl
  · have htop := (topLevelSemicolons_scan (sql ++ [';'])).completes hquoted'
    rw [List.nil_append, List.nil_append, hafter] at htop
    have hbefore : ∃ before, sql ++ [';'] = before ++ ';' :: [] := ⟨sql, rfl⟩
    obtain ⟨hfrom, hto⟩ := slices_offset hbefore
    obtain ⟨preamble, hpre⟩ := Option.isSome_iff_exists.mp hto
    have hempty' : isEffectivelyEmpty [] = true := rfl
    simp only [splitAtLastStatement, htop, offsets, List.getLast?_map, List.getLast?_append,
      List.getLast?_singleton, Option.some_or, Option.map_some, hfrom, hpre, hempty', if_true]

/-- The last statement does not run to its end: no cursor takes it, though its syntax is right, or
the cursor has a full first page and stays open. -/
def CutShort (srv : Server D W S) (m : S) (pageSize : ℕ) (d : D) : Prop :=
  (∃ columns, srv.prepare m (srv.begin d) = .ok columns ∧ columns.isEmpty = false) ∧
    srv.cursorable m = true ∧
      ((∃ code, srv.declare m (srv.begin d) = .error code ∧ code ≠ "42601") ∨
        ∃ w w' rows, srv.declare m (srv.begin d) = .ok w ∧
          srv.fetch m pageSize w = .ok (w', rows) ∧ pageSize ≤ rows.length)

theorem after_send {α : Type} (c : Command)
    (k : Except DriverError c.Answer → Dialogue α) (s : Session D W S) :
    srv.after (PooledConnection.send c >>= k) s =
      srv.after (k (srv.answer s c).2) (srv.answer s c).1 := rfl

theorem after_bind {α β : Type} (p : Dialogue α) (f : α → Dialogue β) (s : Session D W S) :
    srv.after (p >>= f) s =
      srv.after (f (exec srv.serve p s fun _ => ()).value) (srv.after p s) := by
  induction p generalizing s with
  | ret a => rfl
  | ask q k ih => exact ih _ _

theorem collectRows_page (rows : List Row) (width : ℕ) :
    (collectRows (rows.map .row ++ [.commandComplete rows.length]) width).2 = rows.length := by
  rw [collectRows, List.foldl_append]
  rfl

theorem after_runMultiStatement {sql : Sql} {sts : List S} {s : Session D W S}
    (hparse : srv.parse sql = some sts) (hblock : s.block = none) (pageSize : ℕ) :
    srv.after (runMultiStatement sql pageSize) s =
      { s with database := srv.leaves sts s.database } := by
  rw [← simpleQuery_outside hparse hblock, runMultiStatement, after_send]
  cases (srv.answer s (.simpleQuery sql)).2 with
  | error e => rfl
  | ok stream => rfl

/-- A statement that fails alone leaves the database as it was. -/
theorem leaves_single_failed {m : S} {d : D} {code : String}
    (h : srv.run m (srv.begin d) = .error code) : srv.leaves [m] d = d :=
  leaves_failed (runAll_error h [])

theorem leaves_single {m : S} {d : D} {w : W} {ms : List Message}
    (h : srv.run m (srv.begin d) = .ok (w, ms)) :
    srv.leaves [m] d = Server.settled d (srv.commit w) := by
  have hall := runAll_ok h []
  exact leaves_ran hall

def declared (d : D) (w : W) (m : S) (cursorId : Text) (cursor : Option ActiveCursor) :
    Session D W S := ⟨d, some (.live w [(cursorId, m)]), cursor⟩

theorem fetch_error {d : D} {w : W} {m : S} {n : ℕ} {code : String}
    (h : srv.fetch m n w = .error code) (cursorId : Text) (cursor : Option ActiveCursor) :
    srv.answer (declared d w m cursorId cursor) (.fetchForward n cursorId) =
      (⟨d, some .failed, cursor⟩, .error (.server code)) := by
  simp [Server.answer, Server.fetchForward, declared, Session.abort, h]

theorem fetch_ok {d : D} {w w' : W} {m : S} {n : ℕ} {rows : List Row}
    (h : srv.fetch m n w = .ok (w', rows)) (cursorId : Text) (cursor : Option ActiveCursor) :
    srv.answer (declared d w m cursorId cursor) (.fetchForward n cursorId) =
      (declared d w' m cursorId cursor, .ok (rows.map .row ++ [.commandComplete rows.length])) := by
  simp [Server.answer, Server.fetchForward, declared, h]

theorem first_page_fails {d : D} {w : W} {m : S} {n : ℕ} {code : String}
    (h : srv.fetch m n w = .error code) (columns : List ColumnMeta) (cursorId : Text)
    (cursor : Option ActiveCursor) :
    (srv.after (fetchFirstPage columns cursorId n) (declared d w m cursorId cursor)).database = d := by
  rw [fetchFirstPage, after_send, fetch_error h]
  rfl

theorem first_page_full {d : D} {w w' : W} {m : S} {n : ℕ} {rows : List Row}
    (h : srv.fetch m n w = .ok (w', rows)) (hfull : n ≤ rows.length) (columns : List ColumnMeta)
    (cursorId : Text) (cursor : Option ActiveCursor) :
    (srv.after (fetchFirstPage columns cursorId n) (declared d w m cursorId cursor)).database = d := by
  have hpage : ¬(collectRows (rows.map .row ++ [.commandComplete rows.length])
      columns.length).2 < n := by
    rw [collectRows_page]
    omega
  rw [fetchFirstPage, after_send, fetch_ok h]
  simp only [if_neg hpage]
  rfl

theorem first_page_last {d : D} {w w' : W} {m : S} {n : ℕ} {rows : List Row}
    (h : srv.fetch m n w = .ok (w', rows)) (hlast : rows.length < n) (columns : List ColumnMeta)
    (cursorId : Text) (cursor : Option ActiveCursor) :
    (srv.after (fetchFirstPage columns cursorId n) (declared d w m cursorId cursor)).database =
      Server.settled d (srv.commit w') := by
  have hpage : (collectRows (rows.map .row ++ [.commandComplete rows.length])
      columns.length).2 < n := by
    rw [collectRows_page]
    exact hlast
  have hclose : (srv.answer (declared d w' m cursorId cursor) (.closeCommit cursorId .exhausted)).1 =
      ⟨Server.settled d (srv.commit w'), none, cursor⟩ := by
    simp only [Server.answer, Server.closeCommit, declared, List.lookup_cons_self]
    cases srv.commit w' <;> rfl
  rw [fetchFirstPage, after_send, fetch_ok h]
  simp only [if_pos hpage]
  rw [after_send, hclose]
  rfl

/-- The declaration, and what follows its failure. -/
theorem openCursor_refused {d : D} {sql : Sql} {m : S} {cursor : Option ActiveCursor}
    {s' : Session D W S} {code : String} {cursorId : Text}
    (h : srv.answer ⟨d, none, cursor⟩ (.beginDeclare cursorId sql) = (s', .error (.server code)))
    (hs' : s'.database = d) (hparse : srv.parse sql = some [m]) (columns : List ColumnMeta)
    (n : ℕ) : (srv.after (openCursor sql columns cursorId n) ⟨d, none, cursor⟩).database =
      if code = "42601" then srv.leaves [m] d else d := by
  have hrollback : (s'.rollback).block = none := rfl
  have hdatabase : (s'.rollback).database = d := hs'
  rw [openCursor, after_send, h]
  by_cases hcode : code = "42601"
  · subst hcode
    have hbulk := after_runMultiStatement hparse hrollback n
    have hrolled : srv.after (PooledConnection.send .rollback) s' = s'.rollback := rfl
    simp only [if_true, after_bind]
    rw [hrolled, hbulk, hdatabase]
    cases (exec srv.serve (runMultiStatement sql n) s'.rollback fun _ => ()).value <;> rfl
  · have hne : ¬DriverError.server code = .server "42601" := fun h => hcode (DriverError.server.inj h)
    rw [if_neg hcode]
    simp only [if_neg hne]
    exact hdatabase

theorem settled_ran {m : S} {d : D} {w : W} {ms : List Message}
    (h : srv.run m (srv.begin d) = .ok (w, ms)) :
    Server.settled d (srv.commit w) = srv.leaves [m] d := (leaves_single h).symm

/-- What is left when the server refuses the declaration of a statement that takes a cursor. -/
theorem openCursor_undeclared {d : D} {sql : Sql} {m : S} (cursor : Option ActiveCursor)
    (hparse : srv.parse sql = some [m]) {columns : List ColumnMeta}
    (hprepare : srv.prepare m (srv.begin d) = .ok columns) (hcolumns : columns.isEmpty = false)
    (htakes : srv.cursorable m = true) {code : String}
    (hdeclare : srv.declare m (srv.begin d) = .error code) (cursorId : Text) (n : ℕ) :
    (CutShort srv m n d →
      (srv.after (openCursor sql columns cursorId n) ⟨d, none, cursor⟩).database = d) ∧
    (¬CutShort srv m n d →
      (srv.after (openCursor sql columns cursorId n) ⟨d, none, cursor⟩).database =
        srv.leaves [m] d) := by
  have hanswer : srv.answer ⟨d, none, cursor⟩ (.beginDeclare cursorId sql) =
      (⟨d, some .failed, cursor⟩, .error (.server code)) := by
    simp [Server.answer, Server.beginDeclare, hparse, htakes, hdeclare]
  rw [openCursor_refused hanswer rfl hparse columns n]
  by_cases hcode : code = "42601"
  · rw [if_pos hcode]
    constructor
    · rintro ⟨-, -, ⟨code', hcode', hne⟩ | ⟨w, w', rows, hw, -⟩⟩
      · rw [hdeclare] at hcode'
        exact absurd (Except.error.inj hcode' ▸ hcode) hne
      · rw [hdeclare] at hw
        cases hw
    · exact fun _ => rfl
  · rw [if_neg hcode]
    constructor
    · exact fun _ => rfl
    · intro hnot
      exact absurd ⟨⟨columns, hprepare, hcolumns⟩, htakes, Or.inl ⟨code, hdeclare, hcode⟩⟩ hnot

/-- What is left when the cursor is declared: the first page decides. -/
theorem openCursor_declared (hsrv : srv.Lawful) {d : D} {sql : Sql} {m : S}
    (cursor : Option ActiveCursor) (hparse : srv.parse sql = some [m]) {columns : List ColumnMeta}
    (hprepare : srv.prepare m (srv.begin d) = .ok columns) (hcolumns : columns.isEmpty = false)
    (htakes : srv.cursorable m = true) {w : W} (hdeclare : srv.declare m (srv.begin d) = .ok w)
    (cursorId : Text) (n : ℕ) :
    (CutShort srv m n d →
      (srv.after (openCursor sql columns cursorId n) ⟨d, none, cursor⟩).database = d) ∧
    (¬CutShort srv m n d →
      (srv.after (openCursor sql columns cursorId n) ⟨d, none, cursor⟩).database =
        srv.leaves [m] d) := by
  have hanswer : srv.answer ⟨d, none, cursor⟩ (.beginDeclare cursorId sql) =
      (declared d w m cursorId cursor, .ok []) := by
    simp [Server.answer, Server.beginDeclare, hparse, htakes, hdeclare, declared]
  rw [openCursor, after_send, hanswer]
  simp only
  cases hfetch : srv.fetch m n w with
  | error code =>
    obtain ⟨code', hrun⟩ := hsrv.fetch m n _ w code hdeclare hfetch
    rw [first_page_fails hfetch, leaves_single_failed hrun]
    exact ⟨fun _ => rfl, fun _ => rfl⟩
  | ok page =>
    obtain ⟨w', rows⟩ := page
    by_cases hfull : n ≤ rows.length
    · rw [first_page_full hfetch hfull]
      constructor
      · exact fun _ => rfl
      · intro hnot
        exact absurd ⟨⟨columns, hprepare, hcolumns⟩, htakes,
          Or.inr ⟨w, w', rows, hdeclare, hfetch, hfull⟩⟩ hnot
    · obtain ⟨ms, hrun⟩ := hsrv.exhausted m n _ w w' rows hdeclare hfetch (by omega)
      rw [first_page_last hfetch (by omega), settled_ran hrun]
      constructor
      · rintro ⟨-, -, ⟨code, hcode, -⟩ | ⟨v, v', rows', hv, hv', hlen⟩⟩
        · rw [hdeclare] at hcode
          cases hcode
        · rw [hdeclare] at hv
          obtain rfl := Except.ok.inj hv
          rw [hfetch] at hv'
          obtain ⟨-, rfl⟩ := Prod.mk.inj (Except.ok.inj hv')
          exact absurd hlen hfull
      · exact fun _ => rfl

/-- A statement with result columns, through a cursor where one takes it. -/
theorem openCursor_database (hsrv : srv.Lawful) {d : D} {sql : Sql} {m : S}
    (cursor : Option ActiveCursor) (hparse : srv.parse sql = some [m]) {columns : List ColumnMeta}
    (hprepare : srv.prepare m (srv.begin d) = .ok columns) (hcolumns : columns.isEmpty = false)
    (cursorId : Text) (n : ℕ) :
    (CutShort srv m n d →
      (srv.after (openCursor sql columns cursorId n) ⟨d, none, cursor⟩).database = d) ∧
    (¬CutShort srv m n d →
      (srv.after (openCursor sql columns cursorId n) ⟨d, none, cursor⟩).database =
        srv.leaves [m] d) := by
  by_cases htakes : srv.cursorable m = true
  · cases hdeclare : srv.declare m (srv.begin d) with
    | error code =>
      exact openCursor_undeclared cursor hparse hprepare hcolumns htakes hdeclare cursorId n
    | ok w =>
      exact openCursor_declared hsrv cursor hparse hprepare hcolumns htakes hdeclare cursorId n
  · have hanswer : srv.answer ⟨d, none, cursor⟩ (.beginDeclare cursorId sql) =
        (⟨d, none, cursor⟩, .error (.server "42601")) := by
      simp [Server.answer, Server.beginDeclare, hparse, htakes, Session.abort]
    rw [openCursor_refused hanswer rfl hparse columns n, if_pos rfl]
    exact ⟨fun hcut => absurd hcut.2.1 htakes, fun _ => rfl⟩

/-- Outside a block one statement is one transaction, unless it is cut short. -/
theorem openStatement_database (hsrv : srv.Lawful) {sql : Sql} {m : S} {s : Session D W S}
    (hparse : srv.parse sql = some [m]) (hblock : s.block = none) (n : ℕ) (uuid : Text) :
    (CutShort srv m n s.database →
      (srv.after (openStatement sql n uuid) s).database = s.database) ∧
    (¬CutShort srv m n s.database →
      (srv.after (openStatement sql n uuid) s).database = srv.leaves [m] s.database) := by
  obtain ⟨d, block, cursor⟩ := s
  obtain rfl : block = none := hblock
  cases hprepare : srv.prepare m (srv.begin d) with
  | error code =>
    obtain ⟨code', hrun⟩ := hsrv.prepare m _ code hprepare
    have hanswer : srv.answer ⟨d, none, cursor⟩ (.prepare sql) =
        (⟨d, none, cursor⟩, .error (.server code)) := by
      simp [Server.answer, Server.prepared, hparse, hprepare]
    rw [openStatement, after_send, hanswer, leaves_single_failed hrun]
    exact ⟨fun _ => rfl, fun _ => rfl⟩
  | ok columns =>
    have hanswer : srv.answer ⟨d, none, cursor⟩ (.prepare sql) =
        (⟨d, none, cursor⟩, .ok columns) := by
      simp [Server.answer, Server.prepared, hparse, hprepare]
    rw [openStatement, after_send, hanswer]
    simp only
    by_cases hcolumns : columns.isEmpty = true
    · have hcut : ¬CutShort srv m n d := by
        rintro ⟨⟨columns', hcolumns', hne⟩, -⟩
        rw [hprepare] at hcolumns'
        rw [← Except.ok.inj hcolumns', hcolumns] at hne
        cases hne
      have hrun := simpleQuery_outside hparse (s := ⟨d, none, cursor⟩) rfl
      rw [if_pos hcolumns, after_send]
      refine ⟨fun h => absurd h hcut, fun _ => ?_⟩
      have hdatabase : (srv.answer ⟨d, none, cursor⟩ (.simpleQuery sql)).1.database =
          srv.leaves [m] d := congrArg Session.database hrun
      rw [← hdatabase]
      cases (srv.answer ⟨d, none, cursor⟩ (.simpleQuery sql)).2 <;> rfl
    · rw [if_neg hcolumns]
      exact openCursor_database hsrv cursor hparse hprepare (by simpa using hcolumns) _ n

theorem transaction_error {sts : List S} {d : D} {code : String}
    (h : srv.transaction sts d = .error code) : srv.leaves sts d = d := by
  rw [Server.leaves, h]
  rfl

theorem transaction_ok {sts : List S} {d d' : D} {ms : List Message}
    (h : srv.transaction sts d = .ok (d', ms)) : srv.leaves sts d = d' := by
  rw [Server.leaves, h]
  rfl

theorem batch_error {pre : Sql} {sts : List S} {s : Session D W S} {code : String}
    (hpre : srv.parse pre = some sts) (hblock : s.block = none)
    (h : srv.transaction sts s.database = .error code) :
    srv.answer s (.batchExecute pre) = (s, .error (.server code)) := by
  simp only [Server.answer, Server.simpleQuery, hpre, hblock, h]

theorem batch_ok {pre : Sql} {sts : List S} {s : Session D W S} {d : D} {ms : List Message}
    (hpre : srv.parse pre = some sts) (hblock : s.block = none)
    (h : srv.transaction sts s.database = .ok (d, ms)) :
    srv.answer s (.batchExecute pre) =
      ({ s with database := d }, .ok (Wire.emptyResponse sts ++ ms)) := by
  simp only [Server.answer, Server.simpleQuery, hpre, hblock, h]

section Script
variable {sql pre main : Sql} (hsplit : splitAtLastStatement sql = some (some (pre, main)))
variable {sts : List S} {m : S} (hpre : srv.parse pre = some sts) (hmain : srv.parse main = some [m])
include hsplit hpre

/-- The split path stops at a preamble that fails. -/
theorem split_failed {s : Session D W S} (hblock : s.block = none) {code : String}
    (h : srv.transaction sts s.database = .error code) (n : ℕ) (uuid : Text) :
    (srv.after (openScript n uuid (sql.length + 1) sql) s).database = s.database := by
  simp only [openScript, isMultiStatement_split hsplit, hsplit]
  rw [after_send, batch_error hpre hblock h]
  rfl

include hmain

/-- After the preamble the split path runs the last statement by itself. -/
theorem split_database (hsrv : srv.Lawful) {s : Session D W S} (hblock : s.block = none) {d : D}
    {ms : List Message} (h : srv.transaction sts s.database = .ok (d, ms)) (n : ℕ) (uuid : Text) :
    (CutShort srv m n d →
      (srv.after (openScript n uuid (sql.length + 1) sql) s).database = d) ∧
    (¬CutShort srv m n d →
      (srv.after (openScript n uuid (sql.length + 1) sql) s).database = srv.leaves [m] d) := by
  simp only [openScript, isMultiStatement_split hsplit, hsplit]
  rw [after_send, batch_ok hpre hblock h]
  simp only [openScript_main hsplit]
  exact openStatement_database hsrv hmain (s := { s with database := d }) hblock n uuid

end Script

/-- With a semicolon at its end the script is one transaction. -/
theorem bulk_database {sql pre main : Sql} (hsplit : splitAtLastStatement sql = some (some (pre, main)))
    (hend : endState .normal 0 sql = .normal) {sts : List S}
    (hwhole : srv.parse (sql ++ [';']) = some sts) {s : Session D W S} (hblock : s.block = none)
    (n : ℕ) (uuid : Text) (fuel : ℕ) :
    (srv.after (openScript n uuid (fuel + 1) (sql ++ [';'])) s).database =
      srv.leaves sts s.database := by
  obtain ⟨hmulti, hnone⟩ := bulk_route hsplit hend
  have hrun := after_runMultiStatement hwhole hblock n
  simp only [openScript, hmulti, hnone, after_bind]
  rw [hrun]
  cases (exec srv.serve (runMultiStatement (sql ++ [';']) n) s fun _ => ()).value <;> rfl

theorem closeCommit_ok {s : Session D W S} {cursorId : Text} {ms : List Message}
    (h : (srv.closeCommit s cursorId).2 = .ok ms) : (srv.closeCommit s cursorId).1.block = none := by
  cases hblock : s.block with
  | none => simp [Server.closeCommit, hblock] at h
  | some b =>
    cases b with
    | failed => simp [Server.closeCommit, hblock] at h
    | live w cursors =>
      cases hcursor : cursors.lookup cursorId with
      | none => simp [Server.closeCommit, hblock, hcursor] at h
      | some st =>
        cases hcommit : srv.commit w with
        | error code => simp [Server.closeCommit, hblock, hcursor, hcommit] at h
        | ok d => simp [Server.closeCommit, hblock, hcursor, hcommit, Session.rollback]

/-- No block is open once the cursor of the query before is closed. -/
theorem closePrevious_outside {previous : Option ActiveCursor} {s : Session D W S}
    (h : previous = none → s.block = none) : (srv.after (closePrevious previous) s).block = none := by
  cases previous with
  | none => exact h rfl
  | some prev =>
    rw [closePrevious, after_send]
    cases hreply : (srv.answer s (.closeCommit prev.cursorId .superseded)).2 with
    | error e => rfl
    | ok ms => exact closeCommit_ok hreply

/-- Everything the preamble does is in the database it commits: nothing that ends with its
transaction, such as a SET LOCAL or a check put off to its end, is left over. -/
def CarriedOver (srv : Server D W S) (sts : List S) (d : D) : Prop :=
  ∀ w ms, srv.runAll sts (srv.begin d) = .ok (w, ms) →
    ∃ d', srv.commit w = .ok d' ∧ srv.begin d' = w

theorem transaction_of_runAll {sts : List S} {d d' : D} {w : W} {ms : List Message}
    (h : srv.runAll sts (srv.begin d) = .ok (w, ms)) (hcommit : srv.commit w = .ok d') :
    srv.transaction sts d = .ok (d', ms) := by
  rw [Server.transaction, h]
  simp only [bind, Except.bind, hcommit]
  rfl

theorem runAll_of_transaction {sts : List S} {d d' : D} {ms : List Message}
    (h : srv.transaction sts d = .ok (d', ms)) :
    ∃ w, srv.runAll sts (srv.begin d) = .ok (w, ms) ∧ srv.commit w = .ok d' := by
  rw [Server.transaction] at h
  cases hrun : srv.runAll sts (srv.begin d) with
  | error code =>
    rw [hrun] at h
    cases h
  | ok p =>
    obtain ⟨w, ms'⟩ := p
    rw [hrun] at h
    simp only [bind, Except.bind] at h
    cases hcommit : srv.commit w with
    | error code =>
      rw [hcommit] at h
      cases h
    | ok d'' =>
      rw [hcommit] at h
      obtain ⟨rfl, rfl⟩ := Prod.mk.inj (Except.ok.inj h)
      exact ⟨w, rfl, hcommit⟩

/-- Where the preamble is carried over, the script is its transaction and that of the last
statement. -/
theorem leaves_whole {sts : List S} {d d₁ : D} {ms : List Message} (m : S)
    (hcarried : CarriedOver srv sts d) (h : srv.transaction sts d = .ok (d₁, ms)) :
    (∀ code, srv.transaction (sts ++ [m]) d = .error code → srv.leaves [m] d₁ = d₁) ∧
    ∀ d₂ ms', srv.transaction (sts ++ [m]) d = .ok (d₂, ms') → srv.leaves [m] d₁ = d₂ := by
  obtain ⟨w, hrun, hcommit⟩ := runAll_of_transaction h
  obtain ⟨d', hcommit', hbegin⟩ := hcarried w ms hrun
  rw [hcommit] at hcommit'
  obtain rfl := Except.ok.inj hcommit'
  have hlast := runAll_last hrun m
  constructor
  · intro code hwhole
    cases hm : srv.run m w with
    | error code' =>
      rw [← hbegin] at hm
      exact leaves_single_failed hm
    | ok p =>
      obtain ⟨w₂, ms₂⟩ := p
      rw [hm] at hlast
      have hsingle : srv.run m (srv.begin d₁) = .ok (w₂, ms₂) := by rw [hbegin, hm]
      rw [leaves_single hsingle]
      cases hcommit₂ : srv.commit w₂ with
      | error code' => rfl
      | ok d₂ =>
        rw [transaction_of_runAll hlast hcommit₂] at hwhole
        cases hwhole
  · intro d₂ ms' hwhole
    obtain ⟨w₂, hrun₂, hcommit₂⟩ := runAll_of_transaction hwhole
    rw [hlast] at hrun₂
    cases hm : srv.run m w with
    | error code' =>
      rw [hm] at hrun₂
      cases hrun₂
    | ok p =>
      rw [hm] at hrun₂
      obtain ⟨hw₂, -⟩ := Prod.mk.inj (Except.ok.inj hrun₂)
      have hsingle : srv.run m (srv.begin d₁) = .ok (p.1, p.2) := by rw [hbegin, hm]
      rw [leaves_single hsingle, hw₂, hcommit₂]
      rfl

/-- The database when a script starts, the cursor of the query before it closed. -/
def atStart (srv : Server D W S) (previous : Option ActiveCursor) (s : Session D W S) : D :=
  (srv.after (closePrevious previous) s).database

def committed (srv : Server D W S) (previous : Option ActiveCursor) (s : Session D W S) (n : ℕ)
    (uuid : Text) (sql : Sql) : D := (srv.after (openQuery sql n previous uuid) s).database

/-- What the two paths have committed. They differ where the last statement fails or is cut short
after a preamble that has committed by itself. -/
theorem script_commits (hsrv : srv.Lawful) {sql pre main : Sql}
    (hsplit : splitAtLastStatement sql = some (some (pre, main)))
    (hend : endState .normal 0 sql = .normal) {sts : List S} {m : S}
    (hpre : srv.parse pre = some sts) (hmain : srv.parse main = some [m])
    (hwhole : srv.parse (sql ++ [';']) = some (sts ++ [m])) {previous : Option ActiveCursor}
    {s : Session D W S} (hblock : previous = none → s.block = none)
    (hcarried : CarriedOver srv sts (atStart srv previous s)) (n : ℕ) (uuid uuid' : Text) :
    (∀ code, srv.transaction sts (atStart srv previous s) = .error code →
      committed srv previous s n uuid sql = atStart srv previous s ∧
        committed srv previous s n uuid' (sql ++ [';']) = atStart srv previous s) ∧
    ∀ d₁ ms, srv.transaction sts (atStart srv previous s) = .ok (d₁, ms) →
      (CutShort srv m n d₁ → committed srv previous s n uuid sql = d₁) ∧
      (∀ code, srv.transaction (sts ++ [m]) (atStart srv previous s) = .error code →
        committed srv previous s n uuid sql = d₁ ∧
          committed srv previous s n uuid' (sql ++ [';']) = atStart srv previous s) ∧
      ∀ d₂ ms', srv.transaction (sts ++ [m]) (atStart srv previous s) = .ok (d₂, ms') →
        committed srv previous s n uuid' (sql ++ [';']) = d₂ ∧
          (¬CutShort srv m n d₁ → committed srv previous s n uuid sql = d₂) := by
  have houtside : (srv.after (closePrevious previous) s).block = none :=
    closePrevious_outside hblock
  have hsplitRun : committed srv previous s n uuid sql =
      (srv.after (openScript n uuid (sql.length + 1) sql)
        (srv.after (closePrevious previous) s)).database := by
    rw [committed, openQuery, after_bind]
  have hbulk : committed srv previous s n uuid' (sql ++ [';']) =
      srv.leaves (sts ++ [m]) (atStart srv previous s) := by
    rw [committed, openQuery, after_bind]
    exact bulk_database hsplit hend hwhole houtside n uuid' _
  rw [hsplitRun, hbulk]
  constructor
  · intro code h
    refine ⟨split_failed hsplit hpre houtside h n uuid, ?_⟩
    cases hrun : srv.runAll sts (srv.begin (atStart srv previous s)) with
    | error code' => exact leaves_failed (runAll_failed hrun [m])
    | ok p =>
      -- a preamble that is carried over commits
      obtain ⟨d', hcommit, -⟩ := hcarried p.1 p.2 hrun
      rw [transaction_of_runAll hrun hcommit] at h
      cases h
  · intro d₁ ms h
    obtain ⟨hcut, hfull⟩ := split_database hsplit hpre hmain hsrv houtside h n uuid
    obtain ⟨hfails, hcommits⟩ := leaves_whole m hcarried h
    refine ⟨hcut, ?_, ?_⟩
    · intro code hcode
      refine ⟨?_, transaction_error hcode⟩
      by_cases hshort : CutShort srv m n d₁
      · exact hcut hshort
      · rw [hfull hshort, hfails code hcode]
    · intro d₂ ms' hok
      refine ⟨transaction_ok hok, fun hshort => ?_⟩
      rw [hfull hshort, hcommits d₂ ms' hok]

/-- Statements are numbers: 0 divides by zero, any other is written down. -/
def listServer : Server (List ℕ) (List ℕ) ℕ where
  parse sql := [("INSERT INTO t VALUES (1);".toList, [1]), ("SELECT f(2)".toList, [2]),
    ("SELECT 1/0".toList, [0]), ("INSERT INTO t VALUES (1); SELECT f(2);".toList, [1, 2]),
    ("INSERT INTO t VALUES (1); SELECT 1/0;".toList, [1, 0])].lookup sql
  begin d := d
  commit w := .ok w
  prepare _ _ := .ok [⟨"f".toList, 23, "int4".toList⟩]
  cursorable _ := true
  run st w := if st = 0 then .error "22012" else .ok (w ++ [st], [.commandComplete 1])
  declare _ w := .ok w
  fetch st _ w := if st = 0 then .error "22012" else .ok (w ++ [st], [[some "1".toList]])
  extended _ _ w := .ok (w, ⟨[], 0, none⟩)

theorem listServer_lawful : listServer.Lawful where
  prepare st w code h := by cases h
  fetch st n w w' code hdeclare hfetch := by
    obtain rfl : w = w' := Except.ok.inj hdeclare
    by_cases hst : st = 0
    · exact ⟨"22012", by simp [listServer, hst]⟩
    · simp [listServer, hst] at hfetch
  exhausted st n w w' w'' rows hdeclare hfetch _ := by
    obtain rfl : w = w' := Except.ok.inj hdeclare
    by_cases hst : st = 0
    · simp [listServer, hst] at hfetch
    · have hw : w ++ [st] = w'' := by
        simp only [listServer, if_neg hst] at hfetch
        exact (Prod.mk.inj (Except.ok.inj hfetch)).1
      exact ⟨[.commandComplete 1], by simp [listServer, hst, hw]⟩

def emptySession : Session (List ℕ) (List ℕ) ℕ := ⟨[], none, none⟩

theorem script_commits_both :
    committed listServer none emptySession 10 [] "INSERT INTO t VALUES (1); SELECT f(2)".toList =
        [1, 2] ∧
      committed listServer none emptySession 10 []
        ("INSERT INTO t VALUES (1); SELECT f(2)".toList ++ [';']) = [1, 2] := by
  have hsplit : splitAtLastStatement "INSERT INTO t VALUES (1); SELECT f(2)".toList =
      some (some ("INSERT INTO t VALUES (1);".toList, "SELECT f(2)".toList)) := by decide +kernel
  have hend : endState .normal 0 "INSERT INTO t VALUES (1); SELECT f(2)".toList = .normal := by
    decide +kernel
  have hpre : listServer.parse "INSERT INTO t VALUES (1);".toList = some [1] := by decide +kernel
  have hmain : listServer.parse "SELECT f(2)".toList = some [2] := by decide +kernel
  have hwhole : listServer.parse ("INSERT INTO t VALUES (1); SELECT f(2)".toList ++ [';']) =
      some ([1] ++ [2]) := by decide +kernel
  have hcarried : CarriedOver listServer [1] (atStart listServer none emptySession) :=
    fun w ms _ => ⟨w, rfl, rfl⟩
  have h := (script_commits listServer_lawful hsplit hend hpre hmain hwhole
    (s := emptySession) (fun _ => rfl) hcarried 10 [] []).2 [1] _ rfl
  have hshort : ¬CutShort listServer 2 10 [1] := by
    rintro ⟨-, -, ⟨code, hcode, -⟩ | ⟨w, w', rows, hw, hw', hlen⟩⟩
    · cases hcode
    · obtain ⟨-, rfl⟩ := Prod.mk.inj (Except.ok.inj hw')
      simp at hlen
  obtain ⟨hbulk, hsplit'⟩ := h.2.2 [1, 2] _ rfl
  exact ⟨hsplit' hshort, hbulk⟩

/-- The preamble of the split path has committed when the last statement divides by zero. -/
theorem preamble_kept :
    committed listServer none emptySession 10 [] "INSERT INTO t VALUES (1); SELECT 1/0".toList =
        [1] ∧
      committed listServer none emptySession 10 [] "INSERT INTO t VALUES (1); SELECT 1/0;".toList =
        [] := by
  decide +kernel

end SshCommander.ScriptCommits
