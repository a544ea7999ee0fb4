import SshCommander.BulkResults
import SshCommander.CursorBlocks
import SshCommander.SessionCalls

/-!
# Every row of a query, page by page

A cursor gives the rows it still has, a page at a time. The two tests for the end of the result,
of the first page and of a later one, are both against what the server counted.
-/

namespace SshCommander.CursorPaging
open InteractionPrograms RustText SqlStatementSplit PostgresWire PostgresWire.Wire
  PooledConnection QueryExecution SessionCalls CursorBlocks

structure Paging (w : Wire) (c : Text) (columns : List ColumnMeta) (rest : List Row) : Prop where
  up : w.up = true
  block : ∃ b, w.block = some b ∧ b.failed = false ∧ b.owner ≠ none
  cursor : ∃ k, w.findCursor c = some k ∧ k.columns = columns ∧ k.rows = rest

/-- A wire on which the name of a new cursor is not taken. -/
structure Free (c : Text) (w : Wire) : Prop where
  up : w.up = true
  unused : ∀ k ∈ w.cursors, k.name ≠ c

variable {w w' : Wire} {ch : Choice} {c : Text} {columns : List ColumnMeta} {rest rows : List Row}

theorem runOne_calm {o : Origin} {i : ℕ} {st : Stmt} {ms : List Message} (hf : ch.fault = .none)
    (h : w.stmt o (ch.rows i) (ch.affected i) st = .ok (w', ms)) :
    w.runOne o ch i st = (w', .ok ms) := by
  simp [runOne, hf, Fault.codeAt, h]

theorem live_notFailed {o : Origin} {n : ℕ} {st : Stmt} (h : Live w) :
    w.stmt o rows n st = w.stmtOpen o rows n st := by
  unfold stmt
  split
  · rename_i hb
    exact absurd (h _ hb) (by simp)
  · rfl

theorem Free.endBlock (h : Free c w) (e : Ending) : Free c (w.endBlock e) := by
  refine ⟨(endBlock_up w e).trans h.up, fun k hk => ?_⟩
  obtain ⟨k₀, hk₀, hname, -⟩ := mem_endBlock_cursors hk
  exact hname ▸ h.unused k₀ hk₀

theorem Free.enter (h : Free c w) : Free c w.enter :=
  ⟨(enter_up w).trans h.up, fun k hk => h.unused k (enter_cursors w ▸ hk)⟩

theorem Free.abort (h : Free c w) : Free c w.abort := by
  cases hb : w.block with
  | none => exact (abort_none hb).symm ▸ h
  | some b =>
    cases ho : b.owner with
    | none => exact (abort_implicit hb ho).symm ▸ h.endBlock .error
    | some o =>
      rw [abort_explicit hb (by simp [ho])]
      exact ⟨h.up, h.unused⟩

theorem Free.finish (h : Free c w) : Free c w.finish := by
  unfold Wire.finish
  split
  · exact h.endBlock .auto
  · exact h

/-- What ends a block, and CLOSE, declare no cursor. -/
theorem Free.stmt {o : Origin} {n : ℕ} {st : Stmt} {ms : List Message} (h : Free c w)
    (hst : st.endsBlock = true ∨ ∃ name, st = .close name)
    (hs : w.stmt o rows n st = .ok (w', ms)) : Free c w' := by
  have hopen := stmt_ok hs
  rcases hst with hst | ⟨name, rfl⟩
  · cases st with
    | commit =>
      obtain ⟨rfl, -⟩ := Prod.mk.inj (Except.ok.inj hopen)
      exact (h.endBlock _).enter
    | rollback =>
      obtain ⟨rfl, -⟩ := Prod.mk.inj (Except.ok.inj hopen)
      exact (h.endBlock _).enter
    | _ => cases hst
  · simp only [stmtOpen] at hopen
    split at hopen
    · obtain ⟨rfl, -⟩ := Prod.mk.inj (Except.ok.inj hopen)
      exact ⟨h.up, fun k hk => h.unused k (List.mem_filter.mp hk).1⟩
    · cases hopen

theorem Free.runStmts {o : Origin} {sts : List Stmt} {i : ℕ} {out : List Message} (h : Free c w)
    (hf : ch.fault = .none) (hsts : ∀ st ∈ sts, st.endsBlock = true ∨ ∃ name, st = .close name) :
    Free c (runStmts o ch w i sts out).1 := by
  induction sts generalizing w i out with
  | nil => exact h.finish
  | cons st sts ih =>
    simp only [Wire.runStmts]
    rcases runOne_cases w o ch i st with ⟨-, hlost⟩ | ⟨code, hr, -⟩ | ⟨w', ms, hr, -, hs⟩
    · rw [hf] at hlost
      cases hlost
    · rw [hr]
      exact h.abort
    · rw [hr]
      exact ih (h.stmt (hsts st List.mem_cons_self) hs) fun st' hst' =>
        hsts st' (List.mem_cons_of_mem st hst')

theorem Free.simpleQuery {o : Origin} {sts : List Stmt} (h : Free c w) (hf : ch.fault = .none)
    (hsts : ∀ st ∈ sts, st.endsBlock = true ∨ ∃ name, st = .close name) :
    Free c (w.simpleQuery o (some sts) ch).1 := by
  have hup : ¬w.up = false := by simp [h.up]
  rw [Wire.simpleQuery, if_neg hup]
  exact h.enter.runStmts hf hsts

/-- FETCH hands the next rows out. -/
theorem Paging.fetch (h : Paging w c columns rest) (hf : ch.fault = .none) (n : ℕ) :
    ∃ w', w.simpleQuery .pool (some [.fetch n c]) ch =
        (w', .ok (resultMessages columns (rest.take n) 0)) ∧ Paging w' c columns (rest.drop n) := by
  obtain ⟨b, hb, hlive, howner⟩ := h.block
  obtain ⟨k, hfind, rfl, rfl⟩ := h.cursor
  have hup : ¬w.up = false := by simp [h.up]
  let fetched : Cursor → Cursor := fun d =>
    if d.name == c then { d with rows := d.rows.drop n } else d
  have hname : ∀ d, (fetched d).name = d.name := by
    intro d
    simp only [fetched]
    split <;> rfl
  have hk : fetched k = { k with rows := k.rows.drop n } := if_pos (List.find?_some hfind)
  have hstmt : w.stmt .pool (ch.rows 0) (ch.affected 0) (.fetch n c) =
      .ok ({ w with cursors := w.cursors.map fetched },
        resultMessages k.columns (k.rows.take n) 0) := by
    rw [live_notFailed fun b' hb' => Option.some.inj (hb.symm.trans hb') ▸ hlive]
    simp only [stmtOpen, hfind]
    rfl
  refine ⟨{ w with cursors := w.cursors.map fetched }, ?_, h.up, ⟨b, hb, hlive, howner⟩, fetched k,
    ?_, ?_, ?_⟩
  · have hfinish : Wire.finish { w with cursors := w.cursors.map fetched } =
        { w with cursors := w.cursors.map fetched } := finish_explicit hb howner
    rw [Wire.simpleQuery, if_neg hup, enter_some hb, Wire.runStmts, runOne_calm hf hstmt]
    simp only [Wire.runStmts, emptyResponse_cons, List.nil_append, hfinish]
  · have hsame : ((fun d : Cursor => d.name == c) ∘ fetched) = fun d => d.name == c := by
      funext d
      simp only [Function.comp, hname]
    rw [findCursor] at hfind
    simp only [findCursor, List.find?_map, hsame, hfind, Option.map_some]
  · rw [hk]
  · rw [hk]

theorem begin_explicit {b : Block} (o : Origin) (hb : w.block = some b) :
    ∃ b', (w.begin o).block = some b' ∧ b'.owner ≠ none ∧ b'.failed = b.failed := by
  obtain ⟨owner, failed, pending⟩ := b
  unfold Wire.begin
  cases owner with
  | none => exact ⟨⟨some o, failed, pending⟩, by simp only [hb], by simp, rfl⟩
  | some owner => exact ⟨⟨some owner, failed, pending⟩, by simp only [hb], by simp, rfl⟩

@[simp] theorem begin_up (w : Wire) (o : Origin) : (w.begin o).up = w.up := by
  unfold Wire.begin
  split <;> rfl

@[simp] theorem begin_cursors (w : Wire) (o : Origin) : (w.begin o).cursors = w.cursors := by
  unfold Wire.begin
  split <;> rfl

theorem enter_open (w : Wire) (hlive : Live w) :
    ∃ b, w.enter.block = some b ∧ b.failed = false := by
  rcases enter_block w with ⟨hb, -⟩ | ⟨hb, hne⟩
  · exact ⟨_, hb, rfl⟩
  · obtain ⟨b, hb'⟩ := Option.ne_none_iff_exists'.mp hne
    exact ⟨b, hb.trans hb', hlive b hb'⟩

/-- A cursor that was declared has the rows the server had for it. -/
theorem stmt_declare_paging {b : Block} {n : ℕ} {q : Query} {ms : List Message}
    (hup : w.up = true) (hb : w.block = some b) (howner : b.owner ≠ none)
    (hs : w.stmt .pool rows n (.declare c false q) = .ok (w', ms)) :
    Paging w' c q.columns rows := by
  have hlive : b.failed = false := stmt_live hs rfl b hb
  have hopen := stmt_ok hs
  simp only [stmtOpen] at hopen
  split at hopen
  · cases hopen
  · obtain ⟨rfl, -⟩ := Prod.mk.inj (Except.ok.inj hopen)
    have hr := plainStep_record .pool w q.writes
    refine ⟨hr.up.trans hup, ?_, _, List.find?_cons_of_pos (by simp), rfl, rfl⟩
    rcases hr.inside b hb with ⟨hb', -⟩ | ⟨hb', -⟩
    · exact ⟨b, hb', hlive, howner⟩
    · exact ⟨_, hb', hlive, howner⟩

theorem declare_paging {q : Query} {ms : List Message}
    (h : (w.simpleQuery .pool (some [.begin, .declare c false q]) ch).2 = .ok ms) :
    Paging (w.simpleQuery .pool (some [.begin, .declare c false q]) ch).1 c q.columns
      (ch.rows 1) := by
  cases hup : w.up with
  | false => simp [simpleQuery_down hup] at h
  | true =>
    have hdown : ¬w.up = false := by simp [hup]
    simp only [Wire.simpleQuery, if_neg hdown, Wire.runStmts] at h ⊢
    rcases runOne_cases w.enter .pool ch 0 .begin with
      ⟨hr, -⟩ | ⟨code, hr, -⟩ | ⟨w₁, ms₁, hr, -, hs⟩
    · simp [hr] at h
    · simp [hr] at h
    · rw [hr] at h ⊢
      dsimp only at h ⊢
      obtain ⟨rfl, -⟩ := Prod.mk.inj (Except.ok.inj (stmt_ok hs))
      obtain ⟨b, hb⟩ : ∃ b, w.enter.block = some b := by
        rcases enter_block w with ⟨hb, -⟩ | ⟨hb, hne⟩
        · exact ⟨_, hb⟩
        · obtain ⟨b, hb'⟩ := Option.ne_none_iff_exists'.mp hne
          exact ⟨b, hb.trans hb'⟩
      obtain ⟨b', hb', howner, -⟩ := begin_explicit .pool hb
      rcases runOne_cases (w.enter.begin .pool) .pool ch 1 (.declare c false q) with
        ⟨hr₁, -⟩ | ⟨code, hr₁, -⟩ | ⟨w₂, ms₂, hr₁, -, hs₁⟩
      · simp [hr₁] at h
      · simp [hr₁] at h
      · have hpaging := stmt_declare_paging (by simp [hup]) hb' howner hs₁
        obtain ⟨b₂, hb₂, -, howner₂⟩ := hpaging.block
        rw [hr₁]
        simp only [finish_explicit hb₂ howner₂]
        exact hpaging

/-- Outside an aborted block a cursor can be declared under a name that is free. -/
theorem Free.declare {q : Query} (h : Free c w) (hlive : Live w) (hf : ch.fault = .none) :
    ∃ ms, (w.simpleQuery .pool (some [.begin, .declare c false q]) ch).2 = .ok ms := by
  have hdown : ¬w.up = false := by simp [h.up]
  obtain ⟨b, hb, hlive⟩ := enter_open w hlive
  obtain ⟨b', hb', -, hlive'⟩ := begin_explicit .pool hb
  have hfind : (w.enter.begin .pool).findCursor c = none := by
    refine List.find?_eq_none.mpr fun k hk => ?_
    rw [begin_cursors, enter_cursors] at hk
    simpa using h.unused k hk
  have hbegin : w.enter.stmt .pool (ch.rows 0) (ch.affected 0) .begin =
      .ok (w.enter.begin .pool, [.commandComplete 0]) :=
    live_notFailed fun d hd => Option.some.inj (hb.symm.trans hd) ▸ hlive
  have hdeclare : ∃ w₂, (w.enter.begin .pool).stmt .pool (ch.rows 1) (ch.affected 1)
      (.declare c false q) = .ok (w₂, [.commandComplete 0]) := by
    rw [live_notFailed fun d hd => Option.some.inj (hb'.symm.trans hd) ▸ hlive'.trans hlive]
    simp only [stmtOpen, hfind]
    exact ⟨_, rfl⟩
  obtain ⟨w₂, hdeclare⟩ := hdeclare
  rw [Wire.simpleQuery, if_neg hdown, Wire.runStmts, runOne_calm hf hbegin]
  simp only [Wire.runStmts, runOne_calm hf hdeclare]
  exact ⟨_, rfl⟩

def Fit (columns : List ColumnMeta) (rows : List Row) : Prop :=
  ∀ row ∈ rows, row.length = columns.length

theorem Fit.take (h : Fit columns rows) (n : ℕ) : Fit columns (rows.take n) :=
  fun row hrow => h row (List.mem_of_mem_take hrow)

theorem Fit.drop (h : Fit columns rows) (n : ℕ) : Fit columns (rows.drop n) :=
  fun row hrow => h row (List.mem_of_mem_drop hrow)

theorem collectRow_rows (hrows : Fit columns rows) (acc : List Row × ℕ) :
    (rows.map Message.row).foldl (collectRow columns.length) acc = (acc.1 ++ rows, acc.2) := by
  induction rows generalizing acc with
  | nil => rw [List.map_nil, List.foldl_nil, List.append_nil]
  | cons row rows ih =>
    have hcells : cellsOf columns.length row = row := by
      rw [← hrows row List.mem_cons_self, BulkResults.cellsOf_length]
    rw [List.map_cons, List.foldl_cons, ih fun r hr => hrows r (List.mem_cons_of_mem row hr)]
    simp only [collectRow, hcells, List.append_assoc, List.singleton_append]

/-- A page is the rows of the FETCH, and their number. -/
theorem collectRows_result (hne : columns ≠ []) (hrows : Fit columns rows) (n : ℕ) :
    collectRows (resultMessages columns rows n) columns.length = (rows, rows.length) := by
  have hempty : ¬columns.isEmpty = true := by simpa using hne
  rw [resultMessages, if_neg hempty, collectRows, List.cons_append, List.foldl_cons,
    List.foldl_append]
  simp only [collectRow]
  rw [collectRow_rows hrows]
  rfl

/-- The result of a message that is the query's own: that of its DECLARE, or of the text. -/
def resultIndex (sql : Sql) : Request → Option ℕ
  | .send (.beginDeclare _ text) => if text = sql then some 1 else none
  | .send (.simpleQuery text) => if text = sql then some 0 else none
  | _ => none

/-- Nothing goes wrong, and the query has the rows. -/
def Answers (sql : Sql) (rows : List Row) (x : Exchange Conn Request Choice) : Prop :=
  x.choice.fault = .none ∧ ∀ i ∈ resultIndex sql x.asked, x.choice.rows i = rows

instance (sql : Sql) (rows : List Row) (x : Exchange Conn Request Choice) :
    Decidable (Answers sql rows x) := inferInstanceAs (Decidable (_ ∧ _))

def fetchPages (sessionId cursorId : Text) :
    List ℕ → Dialogue (List (Except PgError PageResult))
  | [] => return []
  | count :: counts => do
    let page ← fetchPageOf sessionId cursorId count
    let pages ← fetchPages sessionId cursorId counts
    return page :: pages

/-- The pages are the first of the rows, in order, and all of them once a page says so. -/
structure Shows (pages : List PageResult) (rows : List Row) : Prop where
  inOrder : pages.flatMap (·.rows) <+: rows
  complete : (∃ page ∈ pages, page.hasMore = false) → pages.flatMap (·.rows) = rows

/-- The outcome of a query as a page: there is more where a cursor is left open. -/
def firstPage (out : ExecutionOutcome) : PageResult := ⟨out.rows, out.cursorId.isSome⟩

/-- Under the law of the server the first page, with every sequence of later ones, shows the rows
of the query. -/
def PagesAll (g : Grammar) (conn : Conn) (sql : Sql) (uuid : Text) (q : Query) : Prop :=
  ∀ rows pageSize env, Fit q.columns rows →
    (∀ x ∈ (exec (Conn.serve g) (SessionCalls.execute sql pageSize uuid) conn env).trace,
      Answers sql rows x) →
    ∃ out, (exec (Conn.serve g) (SessionCalls.execute sql pageSize uuid) conn env).value = .ok out ∧
      Shows [firstPage out] rows ∧
      ∀ cursorId, out.cursorId = some cursorId → ∀ sessionId counts env',
        (∀ x ∈ (exec (Conn.serve g) (fetchPages sessionId cursorId counts)
          (exec (Conn.serve g) (SessionCalls.execute sql pageSize uuid) conn env).state env').trace,
          Answers sql rows x) →
        ∃ pages, (exec (Conn.serve g) (fetchPages sessionId cursorId counts)
          (exec (Conn.serve g) (SessionCalls.execute sql pageSize uuid) conn env).state
            env').value = pages.map .ok ∧ Shows (firstPage out :: pages) rows

/-- One query that the server takes as a cursor. -/
structure Cursorable (g : Grammar) (sql : Sql) (q : Query) : Prop where
  parse : g.parse sql = some [.query q]
  cursorable : q.cursorable = true
  columns : q.columns ≠ []

/-- A connection between calls, on which the name for a new cursor is not taken: outside an
aborted block, or in the block of the cursor that is open. -/
structure Ready (conn : Conn) (uuid : Text) : Prop where
  free : Free ("c_".toList ++ uuid) conn.wire
  outside : conn.activeCursor = none → Live conn.wire
  inside : ∀ prev, conn.activeCursor = some prev → ∃ names, PoolBlock conn.wire names

section Lawful

variable (g : Grammar) (sql : Sql) (R : List Row) {α β : Type}

abbrev Lawfully (p : Dialogue α) (conn : Conn) (good : α → Conn → Prop) : Prop :=
  wpUnless (Conn.serve g) ⟨fun x => ¬Answers sql R x, fun _ => False⟩ p conn good fun _ _ => False

variable {g sql R} {conn : Conn} {pageSize n : ℕ} {uuid sessionId : Text} {q : Query}

theorem lawfully_request {req : Request} {f : Reply req → Dialogue α} {good : α → Conn → Prop}
    (h : ∀ ch, Answers sql R ⟨conn, req, ch⟩ →
      Lawfully g sql R (f (Conn.serve g conn req ch).2) (Conn.serve g conn req ch).1 good) :
    Lawfully g sql R (Prog.request req >>= f) conn good :=
  wpUnless_request (fun _ hb => hb) fun ch hex => h ch (not_not.mp hex)

theorem lawfully_bind {p : Dialogue α} {f : α → Dialogue β} {good : β → Conn → Prop}
    (h : Lawfully g sql R p conn fun a conn' => Lawfully g sql R (f a) conn' good) :
    Lawfully g sql R (p >>= f) conn good :=
  wpUnless_bind (wpUnless_mono (fun _ _ h => h) (fun _ _ h => h.elim) h)

theorem fetchPageOf_lawfully (h : Paging conn.wire c columns rest)
    (hactive : conn.activeCursor = some ⟨c, columns.length⟩) (hne : columns ≠ [])
    (hrows : Fit columns rest) :
    Lawfully g sql R (fetchPageOf sessionId c n) conn fun page conn' =>
      page = .ok ⟨rest.take n, (rest.take n).length == n⟩ ∧
        Paging conn'.wire c columns (rest.drop n) ∧
          conn'.activeCursor = some ⟨c, columns.length⟩ := by
  apply lawfully_request
  intro _ _
  simp only [Conn.serve, hactive, if_true]
  apply lawfully_request
  intro ch hch
  obtain ⟨w', hfetch, hpaging⟩ := h.fetch hch.1 n
  have hpage := collectRows_result hne (hrows.take n) 0
  simp only [Conn.serve, Command.send, hfetch, hpage]
  exact wpUnless_ret ⟨rfl, hpaging, hactive⟩

theorem shows_nil (rows : List Row) : Shows [] rows :=
  ⟨List.nil_prefix, fun ⟨_, hpage, _⟩ => absurd hpage List.not_mem_nil⟩

/-- A page of the next rows comes before the pages of those it has left. -/
theorem shows_cons {page : PageResult} {pages : List PageResult} (hpage : page.rows = rest.take n)
    (hlast : page.hasMore = false → rest.length ≤ n) (h : Shows pages (rest.drop n)) :
    Shows (page :: pages) rest := by
  have happend : rest.take n ++ rest.drop n = rest := List.take_append_drop n rest
  refine ⟨?_, ?_⟩
  · obtain ⟨more, hmore⟩ := h.inOrder
    refine ⟨more, ?_⟩
    rw [List.flatMap_cons, hpage, List.append_assoc, hmore, happend]
  · rintro ⟨last, hmem, hdone⟩
    rw [List.flatMap_cons, hpage]
    rcases List.mem_cons.mp hmem with rfl | hmem
    · have hnone : rest.drop n = [] := List.drop_eq_nil_iff.mpr (hlast hdone)
      have hpages := h.inOrder
      rw [hnone, List.prefix_nil] at hpages
      rw [hpages, List.append_nil, List.take_of_length_le (hlast hdone)]
    · rw [h.complete ⟨last, hmem, hdone⟩, happend]

theorem last_of_count (h : ((rest.take n).length == n) = false) : rest.length ≤ n := by
  simp only [List.length_take, beq_eq_false_iff_ne] at h
  omega

/-- By induction on the counts, with the rows that the pages before have left. -/
theorem fetchPages_lawfully (counts : List ℕ) (h : Paging conn.wire c columns rest)
    (hactive : conn.activeCursor = some ⟨c, columns.length⟩) (hne : columns ≠ [])
    (hrows : Fit columns rest) :
    Lawfully g sql R (fetchPages sessionId c counts) conn fun values _ =>
      ∃ pages, values = pages.map .ok ∧ Shows pages rest := by
  induction counts generalizing conn rest with
  | nil =>
    apply wpUnless_ret
    exact ⟨[], rfl, shows_nil rest⟩
  | cons count counts ih =>
    apply lawfully_bind
    apply wpUnless_mono _ (fun _ _ h => h) (fetchPageOf_lawfully h hactive hne hrows)
    rintro page conn' ⟨rfl, hpaging, hactive'⟩
    apply lawfully_bind
    apply wpUnless_mono _ (fun _ _ h => h)
      (ih hpaging hactive' (hrows.drop count))
    rintro values _ ⟨pages, rfl, hpages⟩
    exact wpUnless_ret ⟨_ :: pages, rfl, shows_cons rfl last_of_count hpages⟩

/-- The first rows, with the cursor in its place where they need not be all. -/
def Opening (R : List Row) (columns : List ColumnMeta) (c : Text) (pageSize : ℕ) (r : Opened)
    (conn : Conn) : Prop :=
  ∃ out active, r = .ok (out, active) ∧ out.rows = R.take pageSize ∧
    (out.cursorId = none → R.length ≤ pageSize) ∧
    ∀ id, out.cursorId = some id → id = c ∧ active = some ⟨c, columns.length⟩ ∧
      Paging conn.wire c columns (R.drop pageSize)

theorem fetchFirstPage_lawfully (h : Paging conn.wire c columns R) (hne : columns ≠ [])
    (hrows : Fit columns R) :
    Lawfully g sql R (fetchFirstPage columns c pageSize) conn (Opening R columns c pageSize) := by
  apply lawfully_request
  intro ch hch
  obtain ⟨w', hfetch, hpaging⟩ := h.fetch hch.1 pageSize
  have hpage := collectRows_result hne (hrows.take pageSize) 0
  simp only [Conn.serve, Command.send, hfetch, hpage]
  split
  · rename_i hshort
    apply lawfully_request
    intro _ _
    apply wpUnless_ret
    refine ⟨_, _, rfl, rfl, fun _ => ?_, nofun⟩
    rw [List.length_take] at hshort
    omega
  · apply wpUnless_ret
    refine ⟨_, _, rfl, rfl, nofun, fun id hid => ?_⟩
    obtain rfl := Option.some.inj hid
    exact ⟨rfl, rfl, hpaging⟩

theorem openCursor_lawfully (hq : Cursorable g sql q) (h : Free c conn.wire)
    (hlive : Live conn.wire) (hrows : Fit q.columns R) :
    Lawfully g sql R (openCursor sql q.columns c pageSize) conn
      (Opening R q.columns c pageSize) := by
  have hstmts : Command.declareStmts g c sql = some [.begin, .declare c false q] := by
    simp only [Command.declareStmts, hq.parse, hq.cursorable, if_true]
  apply lawfully_request
  intro ch hch
  obtain ⟨ms, hok⟩ : ∃ ms, (conn.wire.simpleQuery .pool
      (some [.begin, .declare c false q]) ch).2 = .ok ms := h.declare hlive hch.1
  have hpaging := declare_paging hok
  have hresult : ch.rows 1 = R := hch.2 1 (by simp [resultIndex])
  simp only [Conn.serve, Command.send, hstmts, hok]
  rw [hresult] at hpaging
  exact fetchFirstPage_lawfully hpaging hq.columns hrows

theorem prepare_calm {st : Stmt} (hup : w.up = true) (hlive : Live w) (hf : ch.fault = .none) :
    w.prepare (some [st]) ch = (w, .ok (w.describe st)) := by
  have hdown : ¬w.up = false := by simp [hup]
  have hfailed : w.block.any (·.failed) = false := by
    cases hb : w.block with
    | none => rfl
    | some b => exact hlive b hb
  simp [prepare, hdown, hf, hfailed]

theorem openStatement_lawfully (hq : Cursorable g sql q) (h : Free ("c_".toList ++ uuid) conn.wire)
    (hlive : Live conn.wire) (hrows : Fit q.columns R) :
    Lawfully g sql R (openStatement sql pageSize uuid) conn
      (Opening R q.columns ("c_".toList ++ uuid) pageSize) := by
  apply lawfully_request
  intro ch hch
  have hprepare : conn.wire.prepare (some [.query q]) ch = (conn.wire, .ok q.columns) :=
    prepare_calm h.up hlive hch.1
  have hempty : ¬q.columns.isEmpty = true := by simpa using hq.columns
  simp only [Conn.serve, Command.send, hq.parse, hprepare, if_neg hempty]
  exact openCursor_lawfully hq h hlive hrows

/-- The clean-up of the cursor before leaves its block. -/
theorem closePrevious_lawfully {previous : Option ActiveCursor} (h : Free c conn.wire)
    (houtside : previous = none → Live conn.wire)
    (hinside : ∀ prev, previous = some prev → ∃ names, PoolBlock conn.wire names) :
    Lawfully g sql R (closePrevious previous) conn fun _ conn' =>
      Free c conn'.wire ∧ Live conn'.wire := by
  have hidle {w : Wire} (h : Idle w) : Live w := fun b hb => absurd (h.outside.symm.trans hb) nofun
  cases previous with
  | none => exact wpUnless_ret ⟨h, houtside rfl⟩
  | some prev =>
    obtain ⟨names, hblock⟩ := hinside prev rfl
    apply lawfully_request
    intro ch hch
    have hfree : Free c (conn.wire.simpleQuery .pool
        (some [.close prev.cursorId, .commit]) ch).1 :=
      h.simpleQuery hch.1 (by simp [Stmt.endsBlock])
    simp only [Conn.serve, Command.send]
    rcases hblock.closeCommit ch prev.cursorId with ⟨hdone, -⟩ | ⟨w', e, hclose, hblock', -⟩
    · split
      · exact wpUnless_ret ⟨hfree, hidle hdone⟩
      · apply lawfully_request
        intro ch' hch'
        apply wpUnless_ret
        exact ⟨hfree.simpleQuery hch'.1 (by simp [Stmt.endsBlock]),
          hidle (rollback_idle (.inr hdone))⟩
    · rw [hclose] at hfree ⊢
      apply lawfully_request
      intro ch' hch'
      apply wpUnless_ret
      exact ⟨hfree.simpleQuery hch'.1 (by simp [Stmt.endsBlock]),
        hidle (rollback_idle (.inl ⟨_, hblock'⟩))⟩

/-- `execute` keeps the cursor that is left open. -/
theorem execute_lawfully (hq : Cursorable g sql q) (h : Ready conn uuid)
    (hsplit : isMultiStatement sql = some false) (hrows : Fit q.columns R) :
    Lawfully g sql R (SessionCalls.execute sql pageSize uuid) conn fun value conn' =>
      ∃ out, value = .ok out ∧ out.rows = R.take pageSize ∧
        (out.cursorId = none → R.length ≤ pageSize) ∧
        ∀ id, out.cursorId = some id →
          conn'.activeCursor = some ⟨id, q.columns.length⟩ ∧
            Paging conn'.wire id q.columns (R.drop pageSize) := by
  apply lawfully_request
  intro _ _
  have hclose : Lawfully g sql R (closePrevious conn.activeCursor)
      { conn with activeCursor := none } fun _ conn' =>
        Free ("c_".toList ++ uuid) conn'.wire ∧ Live conn'.wire :=
    closePrevious_lawfully h.free h.outside h.inside
  apply lawfully_bind
  apply lawfully_bind
  apply wpUnless_mono _ (fun _ _ h => h) hclose
  rintro _ conn₁ ⟨hfree, hlive⟩
  simp only [openScript, hsplit]
  apply wpUnless_mono _ (fun _ _ h => h) (openStatement_lawfully hq hfree hlive hrows)
  rintro _ conn₂ ⟨out, active, rfl, hfirst, hlast, hmore⟩
  apply lawfully_request
  intro _ _
  apply wpUnless_ret
  refine ⟨out, rfl, hfirst, hlast, fun id hid => ?_⟩
  obtain ⟨rfl, hactive, hpaging⟩ := hmore id hid
  exact ⟨hactive, hpaging⟩

end Lawful

section Misread

variable {g : Grammar} {sql t : Sql} {R : List Row} {conn : Conn} {uuid : Text} {α β : Type}

def Cut (out : ExecutionOutcome) : Prop := out.cursorId = none ∧ out.rows.length ≤ 1

def CutOpened (r : Opened) : Prop := ∀ out active, r = .ok (out, active) → Cut out

/-- What the program returns while every choice is the one, all of it within the law. -/
abbrev Steadily (g : Grammar) (sql : Sql) (R : List Row) (ch : Choice) (p : Dialogue α)
    (conn : Conn) (good : α → Prop) : Prop :=
  wpUnless (Conn.serve g) ⟨fun x => x.choice ≠ ch, fun x => ¬Answers sql R x⟩ p conn
    (fun a _ => good a) fun _ _ => False

theorem steadily_request {req : Request} {f : Reply req → Dialogue α} {good : α → Prop}
    (hlaw : Answers sql R ⟨conn, req, ch⟩)
    (h : Steadily g sql R ch (f (Conn.serve g conn req ch).2) (Conn.serve g conn req ch).1 good) :
    Steadily g sql R ch (Prog.request req >>= f) conn good := by
  apply wpUnless_ask
  · intro e he _
    obtain rfl : e = ch := not_not.mp he
    exact h
  · intro e he hbad
    obtain rfl : e = ch := not_not.mp he
    exact absurd hlaw hbad

theorem steadily_bind {p : Dialogue α} {f : α → Dialogue β} {mid : α → Prop} {good : β → Prop}
    (hp : Steadily g sql R ch p conn mid)
    (hf : ∀ a conn', mid a → Steadily g sql R ch (f a) conn' good) :
    Steadily g sql R ch (p >>= f) conn good :=
  wpUnless_bind (wpUnless_mono hf (fun _ _ h => h.elim) hp)

theorem cut_error (e : PgError) : CutOpened (.error e) := nofun

theorem cut_ok {out : ExecutionOutcome} {active : Option ActiveCursor} (h : Cut out) :
    CutOpened (.ok (out, active)) := by
  intro out' active' heq
  obtain ⟨rfl, -⟩ := Prod.mk.inj (Except.ok.inj heq)
  exact h

theorem bulkStep_length {pageSize : ℕ} {st : BulkState} (h : st.currentRows.length ≤ pageSize)
    (m : Message) : (bulkStep pageSize st m).currentRows.length ≤ pageSize := by
  cases m with
  | rowDescription names => exact Nat.zero_le _
  | row cells =>
    simp only [bulkStep]
    split
    · exact h
    · rename_i hroom
      rw [List.length_append, List.length_singleton]
      omega
  | commandComplete n => exact h
  | other => exact h

/-- The bulk path shows no more than a page, and leaves no cursor. -/
theorem bulkOutcome_length (stream : List Message) (pageSize : ℕ) :
    (bulkOutcome stream pageSize).rows.length ≤ pageSize := by
  have hfold (st : BulkState) (h : st.currentRows.length ≤ pageSize) :
      (stream.foldl (bulkStep pageSize) st).currentRows.length ≤ pageSize := by
    induction stream generalizing st with
    | nil => exact h
    | cons m stream ih => exact ih _ (bulkStep_length h m)
  exact hfold ⟨[], [], none⟩ (Nat.zero_le _)

theorem runMultiStatement_steadily (hlaw : ∀ conn, Answers sql R ⟨conn, .send (.simpleQuery t), ch⟩) :
    Steadily g sql R ch (runMultiStatement t 1) conn fun r => ∀ out, r = .ok out → Cut out := by
  apply steadily_request (hlaw conn)
  split
  · exact wpUnless_ret nofun
  · apply wpUnless_ret
    intro out hout
    obtain rfl := Except.ok.inj hout
    exact ⟨rfl, bulkOutcome_length _ 1⟩

theorem bulk_steadily {f : Except PgError ExecutionOutcome → Dialogue Opened}
    (herr : ∀ e, f (.error e) = pure (.error e))
    (hok : ∀ outcome, f (.ok outcome) = pure (.ok (outcome, none)))
    (hlaw : ∀ conn, Answers sql R ⟨conn, .send (.simpleQuery t), ch⟩) :
    Steadily g sql R ch (runMultiStatement t 1 >>= f) conn CutOpened := by
  refine steadily_bind (runMultiStatement_steadily hlaw) fun r conn' hr => ?_
  cases r with
  | error e =>
    rw [herr]
    exact wpUnless_ret (cut_error e)
  | ok out =>
    rw [hok]
    exact wpUnless_ret (cut_ok (hr out rfl))

/-- The messages of another text are not the query's. -/
theorem answers_other {req : Request} (hf : ch.fault = .none) (h : resultIndex sql req = none) :
    Answers sql R ⟨conn, req, ch⟩ :=
  ⟨hf, fun i hi => by rw [h] at hi; cases hi⟩

/-- A cursor that has no rows is closed with its first page. -/
theorem fetchFirstPage_steadily (hf : ch.fault = .none) (h : Paging conn.wire c columns [])
    (columns' : List ColumnMeta) :
    Steadily g sql R ch (fetchFirstPage columns' c 1) conn CutOpened := by
  obtain ⟨w', hfetch, -⟩ := h.fetch hf 1
  have hpage : collectRows (resultMessages columns [] 0) columns'.length = ([], 0) := by
    unfold resultMessages
    split <;> rfl
  apply steadily_request (answers_other hf rfl)
  simp only [Conn.serve, Command.send, hfetch, List.take_nil, hpage]
  apply steadily_request (answers_other hf rfl)
  exact wpUnless_ret (cut_ok ⟨rfl, Nat.zero_le 1⟩)

theorem openCursor_steadily (hf : ch.fault = .none) (hrows : ch.rows 1 = []) (hne : t ≠ sql) :
    Steadily g sql R ch (openCursor t columns c 1) conn CutOpened := by
  apply steadily_request (answers_other hf (by simp [resultIndex, hne]))
  split
  · rename_i ms hok
    obtain ⟨q, hstmts⟩ : ∃ q, Command.declareStmts g c t = some [.begin, .declare c false q] := by
      rcases Command.declareStmts_cases g c t with hnone | hsome
      · simp only [Conn.serve, Command.send, hnone, Wire.simpleQuery] at hok
        split at hok <;> cases hok
      · exact hsome
    have hpaging : Paging (conn.wire.simpleQuery .pool (Command.declareStmts g c t) ch).1 c
        q.columns (ch.rows 1) := by
      rw [hstmts]
      have hok' : (conn.wire.simpleQuery .pool (Command.declareStmts g c t) ch).2 = .ok ms := hok
      rw [hstmts] at hok'
      exact declare_paging hok'
    rw [hrows] at hpaging
    exact fetchFirstPage_steadily hf hpaging columns
  · apply steadily_request (answers_other hf rfl)
    split
    · exact bulk_steadily (fun _ => rfl) (fun _ => rfl) fun _ =>
        answers_other hf (by simp [resultIndex, hne])
    · exact wpUnless_ret (cut_error _)

theorem openStatement_steadily (hf : ch.fault = .none) (hrows : ch.rows 1 = []) (hne : t ≠ sql) :
    Steadily g sql R ch (openStatement t 1 uuid) conn CutOpened := by
  apply steadily_request (answers_other hf rfl)
  split
  · exact wpUnless_ret (cut_error _)
  · split
    · apply steadily_request (answers_other hf (by simp [resultIndex, hne]))
      split
      · exact wpUnless_ret (cut_error _)
      · exact wpUnless_ret (cut_ok ⟨rfl, Nat.zero_le 1⟩)
    · exact openCursor_steadily hf hrows hne

/-- By induction on the fuel: the texts that a script is split into are shorter. -/
theorem openScript_steadily {fuel : ℕ} (hf : ch.fault = .none) (hrows : ch.rows 1 = [])
    (hlen : t.length < sql.length) :
    Steadily g sql R ch (openScript 1 uuid fuel t) conn CutOpened := by
  induction fuel generalizing t conn with
  | zero => exact wpUnless_ret (cut_error _)
  | succ fuel ih =>
    have hne : t ≠ sql := fun heq => absurd (heq ▸ hlen) (lt_irrefl _)
    simp only [openScript]
    split
    · exact wpUnless_ret (cut_error _)
    · exact openStatement_steadily hf hrows hne
    · split
      · exact wpUnless_ret (cut_error _)
      · rename_i preamble main hsplit
        apply steadily_request (answers_other hf rfl)
        split
        · exact wpUnless_ret (cut_error _)
        · exact ih ((splitAtLastStatement_length hsplit).trans hlen)
      · exact bulk_steadily (fun _ => rfl) (fun _ => rfl) fun _ =>
          answers_other hf (by simp [resultIndex, hne])

theorem closePrevious_steadily (hf : ch.fault = .none) (previous : Option ActiveCursor) :
    Steadily g sql R ch (closePrevious previous) conn fun _ => True := by
  cases previous with
  | none => exact wpUnless_ret trivial
  | some prev =>
    apply steadily_request (answers_other hf rfl)
    split
    · exact wpUnless_ret trivial
    · exact steadily_request (answers_other hf rfl) (wpUnless_ret trivial)

def twoRows (q : Query) : List Row := List.replicate 2 (List.replicate q.columns.length none)

/-- The query has two rows where it is run as a script, and no other text has any. -/
def twoOrNone (sql : Sql) (q : Query) : Choice :=
  { Choice.quiet with rows := fun _ => if splitAtLastStatement sql = some none then twoRows q else [] }

theorem openScript_misread {q : Query} (h : isMultiStatement sql ≠ some false) :
    Steadily g sql (twoRows q) (twoOrNone sql q) (openScript 1 uuid (sql.length + 1) sql) conn
      CutOpened := by
  simp only [openScript]
  split
  · exact wpUnless_ret (cut_error _)
  · rename_i hsingle
    exact absurd hsingle h
  · split
    · exact wpUnless_ret (cut_error _)
    · rename_i preamble main hsplit
      have hrows : (twoOrNone sql q).rows 1 = [] := by simp [twoOrNone, hsplit]
      apply steadily_request (answers_other rfl rfl)
      split
      · exact wpUnless_ret (cut_error _)
      · exact openScript_steadily rfl hrows (splitAtLastStatement_length hsplit)
    · rename_i hsplit
      exact bulk_steadily (fun _ => rfl) (fun _ => rfl) fun _ => ⟨rfl, fun _ _ => if_pos hsplit⟩

theorem execute_misread {q : Query} (h : isMultiStatement sql ≠ some false) :
    Steadily g sql (twoRows q) (twoOrNone sql q) (SessionCalls.execute sql 1 uuid) conn
      fun value => ∀ out, value = .ok out → Cut out := by
  have hopen (conn : Conn) (previous : Option ActiveCursor) : Steadily g sql (twoRows q)
      (twoOrNone sql q) (openQuery sql 1 previous uuid) conn CutOpened :=
    steadily_bind (closePrevious_steadily rfl previous) fun _ _ _ => openScript_misread h
  apply steadily_request (answers_other rfl rfl)
  refine steadily_bind (hopen _ _) fun r conn' hr => ?_
  match r, hr with
  | .error e, _ => exact wpUnless_ret nofun
  | .ok (out, active), hr =>
    apply steadily_request (answers_other rfl rfl)
    apply wpUnless_ret
    intro out' hout
    obtain rfl := Except.ok.inj hout
    exact hr out active rfl

end Misread

variable {g : Grammar} {conn : Conn} {sql : Sql} {uuid : Text} {q : Query}

/-- The pages of a query show all its rows exactly when the splitter takes the query for one
statement. -/
theorem pagesAll_iff (hq : Cursorable g sql q) (hready : Ready conn uuid) :
    PagesAll g conn sql uuid q ↔ isMultiStatement sql = some false := by
  constructor
  · intro hpages
    by_contra hsplit
    have hfit : Fit q.columns (twoRows q) := by simp [Fit, twoRows]
    have hwalk : Steadily g sql (twoRows q) (twoOrNone sql q) (SessionCalls.execute sql 1 uuid)
      conn fun value => ∀ out, value = .ok out → Cut out := execute_misread hsplit
    have hexec := wpUnless_exec hwalk (fun _ => twoOrNone sql q) fun x hx hne => by
      obtain ⟨n, hn⟩ := exec_choice hx
      exact hne hn
    have hlaw (x) (hx : x ∈ (exec (Conn.serve g) (SessionCalls.execute sql 1 uuid) conn
        fun _ => twoOrNone sql q).trace) : Answers sql (twoRows q) x :=
      by_contra fun hbad => hexec.2 ⟨x, hx, hbad⟩
    obtain ⟨out, hout, hshows, -⟩ := hpages _ 1 (fun _ => twoOrNone sql q) hfit hlaw
    obtain ⟨hcursor, hlen⟩ := hexec.1 (fun x hx => not_not.mpr (hlaw x hx)) out hout
    have hrows := hshows.complete ⟨_, List.mem_singleton_self _, by simp [firstPage, hcursor]⟩
    simp only [List.flatMap_singleton, firstPage] at hrows
    rw [hrows] at hlen
    exact absurd hlen (by simp [twoRows])
  · intro hsplit rows pageSize env hfit hlaw
    obtain ⟨out, hout, hfirst, hlast, hmore⟩ :=
      (wpUnless_exec (execute_lawfully hq hready hsplit hfit) env fun x hx hne =>
        hne (hlaw x hx)).1 fun _ _ h => h
    have hdone (h : (firstPage out).hasMore = false) : rows.length ≤ pageSize := by
      apply hlast
      simpa [firstPage] using h
    refine ⟨out, hout, shows_cons hfirst hdone (shows_nil _), ?_⟩
    intro cursorId hid sessionId counts env' hlaw'
    obtain ⟨hactive, hpaging⟩ := hmore cursorId hid
    obtain ⟨pages, hvalue, hshows⟩ :=
      (wpUnless_exec (fetchPages_lawfully counts hpaging hactive hq.columns
        (hfit.drop pageSize)) env' fun x hx hne => hne (hlaw' x hx)).1 fun _ _ h => h
    exact ⟨pages, hvalue, shows_cons hfirst hdone hshows⟩

theorem pagesAll_selectOne :
    PagesAll smallServer .fresh selectOne "u".toList
        ⟨[⟨"c".toList, 25, "text".toList⟩], true, false⟩ ↔
      isMultiStatement selectOne = some false :=
  pagesAll_iff ⟨by decide +kernel, rfl, by simp⟩
    ⟨⟨rfl, by simp [Conn.fresh, Wire.fresh]⟩, fun _ => by simp [Live, Conn.fresh, Wire.fresh], nofun⟩

def commented : Sql := "SELECT 1; /* a /* b */ c */".toList

def nestingServer : Grammar := .ofTexts
  [(commented, [.query ⟨[⟨"c".toList, 25, "text".toList⟩], true, false⟩]),
    ("SELECT 1;".toList, [.query ⟨[⟨"c".toList, 25, "text".toList⟩], true, false⟩]),
    ("/* a /* b */ c */".toList, [])]

def oneRow : Choice := { Choice.quiet with rows := fun _ => [[some ['1']]] }

/-- The query is run as the preamble of the comment, and its row is dropped. -/
theorem commented_loses_row :
    Cursorable nestingServer commented ⟨[⟨"c".toList, 25, "text".toList⟩], true, false⟩ ∧
      (∀ x ∈ (exec (Conn.serve nestingServer) (SessionCalls.execute commented 10 "u".toList)
        .fresh fun _ => oneRow).trace, Answers commented [[some ['1']]] x) ∧
      (exec (Conn.serve nestingServer) (SessionCalls.execute commented 10 "u".toList) .fresh
        fun _ => oneRow).value = .ok ⟨[], [], some 0, none⟩ := by
  refine ⟨⟨?_, rfl, by simp⟩, ?_, ?_⟩ <;> decide +kernel

end SshCommander.CursorPaging
