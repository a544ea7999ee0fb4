import SshCommander.CursorBlocks
import SshCommander.QueryPaths

/-!
# The active cursor mirrors the wire

Between calls `active_cursor` and the wire agree: an active cursor is the only cursor of the
pool there, and without one the wire is outside the pool's block. Every exit of `open_query`
keeps this but one: the result of `CLOSE; COMMIT` after an exhausted first page is discarded,
so a failure of it leaves the pool's block aborted with no cursor to close.
-/

namespace SshCommander.CursorMirror
open InteractionPrograms RustText SqlStatementSplit PostgresWire PostgresWire.Wire
  PooledConnection QueryExecution RowEditing SessionCalls QueryPaths QueryPaths.Discipline
  CursorBlocks

def inPoolBlock (w : Wire) : Bool := w.block.any (·.owner == some .pool)

/-- The pool's cursors on a lost wire are gone with it. -/
structure Mirror (conn : Conn) : Prop where
  active : ∀ c, conn.activeCursor = some c →
    poolCursors conn.wire = if conn.wire.up then [c.cursorId] else []
  inactive : conn.activeCursor = none → inPoolBlock conn.wire = false

/-- The server fails the `CLOSE; COMMIT` that follows an exhausted first page. -/
def CleanupFails (x : Exchange Conn Request Choice) : Prop :=
  (∃ c, x.asked = .send (.closeCommit c .exhausted)) ∧ FailsBefore x.choice 2

/-- No text of the script has a BEGIN, COMMIT or ROLLBACK. -/
def ControlFree (g : Grammar) (sql : Sql) : Prop :=
  ∀ t, Piece sql t → ∀ sts, g.parse t = some sts → ∀ st ∈ sts, st.isControl = false

def ControlFreeCall (g : Grammar) : Call → Prop
  | .execute sql _ _ => ControlFree g sql
  | _ => True

theorem inPoolBlock_of_poolBlock {w : Wire} {names : List Text} (h : PoolBlock w names) :
    inPoolBlock w = true := by
  obtain ⟨b, hb, ho⟩ := h.block
  simp [inPoolBlock, hb, ho]

theorem close_leads {w : Wire} {c : Text} {ch : Choice}
    (h : PoolBlock w [c] ∨ Idle w ∧ w.up = false) :
    Leads Idle (fun w' => (∃ names, PoolBlock w' names) ∨ Idle w')
      (w.simpleQuery .pool (some [.close c, .commit]) ch) := by
  rcases h with h | ⟨h, hdown⟩
  · rcases h.closeCommit ch c with ⟨hidle, -⟩ | ⟨w', e, hq, h', -⟩
    · exact ⟨fun _ _ => hidle, fun _ _ => .inr hidle⟩
    · rw [hq]
      exact leads_error (.inl ⟨_, h'⟩)
  · rw [simpleQuery_down hdown]
    exact leads_error (.inr h)

/-- FETCH on the active cursor leaves its block or loses the wire. -/
theorem fetch_held {w : Wire} {c : Text} (h : PoolBlock w [c] ∨ Idle w ∧ w.up = false) (n : ℕ)
    (ch : Choice) :
    PoolBlock (w.simpleQuery .pool (some [.fetch n c]) ch).1 [c] ∨
      Idle (w.simpleQuery .pool (some [.fetch n c]) ch).1 ∧
        (w.simpleQuery .pool (some [.fetch n c]) ch).1.up = false := by
  rcases h with h | ⟨h, hdown⟩
  · exact (h.fetch ch n c).either (fun _ h' => .inl h'.1) fun _ h' => h'
  · rw [simpleQuery_down hdown]
    exact .inr ⟨h, hdown⟩

/-- With an active cursor its block is open, or the wire is lost; without one the wire is idle. -/
def discipline (g : Grammar) : Discipline g where
  watch := ⟨fun _ => False, CleanupFails⟩
  watched _ hx := hx.1
  allowed sql := ∀ sts, g.parse sql = some sts → ∀ st ∈ sts, st.isControl = false
  ready := Idle
  failed w := (∃ names, PoolBlock w names) ∨ Idle w
  declared c w := PoolBlock w [c]
  fetched c w := PoolBlock w [c] ∧ Live w
  held c w := PoolBlock w [c] ∨ Idle w ∧ w.up = false
  spoilt conn := ¬Mirror conn
  text hc hfree _ h := by
    rcases hc with rfl | rfl
    · exact h.userText hfree
    · exact h.userText hfree
  prepare _ h := h.prepare _
  declare _ h := h.beginDeclare g _ _ _
  fetch h := (h.fetch _ _ _).imp (fun _ h' => h') fun _ h' => h'.imp (fun h' => ⟨_, h'⟩) And.left
  rollback h := rollback_idle h
  keep h := .inl h.1
  exhaust {conn c ch} hb h := by
    rcases h.1.closeCommit ch c with ⟨hidle, -⟩ | ⟨w', e, -, -, hfails⟩
    · exact hidle
    · exact absurd ⟨⟨_, rfl⟩, hfails h.2 (List.mem_singleton.mpr rfl)⟩ hb
  spoil {conn c ch} hb h := by
    intro hm
    rcases h.1.closeCommit ch c with ⟨-, hno⟩ | ⟨w', e, hq, hblock, -⟩
    · exact hno hb.2
    · have hout := hm.inactive rfl
      simp only [Command.send, hq] at hout
      exact absurd (hout.symm.trans (inPoolBlock_of_poolBlock hblock)) (by simp)
  close h := close_leads h

variable {g : Grammar} {conn : Conn}

theorem between_none {w : Wire} : (discipline g).Between ⟨w, none⟩ ↔ Idle w := Iff.rfl

theorem between_some {w : Wire} {c : ActiveCursor} :
    (discipline g).Between ⟨w, some c⟩ ↔
      PoolBlock w [c.cursorId] ∨ Idle w ∧ w.up = false := Iff.rfl

theorem between_mirror (h : (discipline g).Between conn) : Mirror conn := by
  obtain ⟨w, active⟩ := conn
  cases active with
  | none =>
    have hout : w.block = none := (between_none.mp h).outside
    exact { active := by simp, inactive := by simp [inPoolBlock, hout] }
  | some c =>
    refine { active := fun c' hc' => ?_, inactive := by simp }
    obtain rfl := Option.some.inj hc'
    rcases between_some.mp h with h | ⟨h, hdown⟩
    · have hup : w.up = true := h.up
      rw [if_pos hup]
      exact h.names
    · have hdown : ¬w.up = true := by simpa using hdown
      rw [if_neg hdown]
      exact h.poolCursors

theorem extended_between {w : Wire} {active : Option ActiveCursor}
    (h : (discipline g).Between ⟨w, active⟩) (q : Query) (ch : Choice) :
    (discipline g).Between ⟨(w.extended q ch).1, active⟩ := by
  cases active with
  | none => exact (between_none.mp h).extended q
  | some c =>
    rcases between_some.mp h with h | ⟨h, hdown⟩
    · exact h.extended q
    · have hsame : w.extended q ch = (w, .error .closed) := by
        have hdown : w.up = false := hdown
        simp [extended, hdown]
      rw [hsame]
      exact .inr ⟨h, hdown⟩

theorem call_walk (c : Call) (h : (discipline g).Between conn) (hfree : ControlFreeCall g c) :
    (discipline g).Walk c.prog conn (fun _ => (discipline g).Between)
      fun _ conn => ¬Mirror conn := by
  apply prog_walk c _ _ _ h
  · intro sql pageSize uuid hc
    rw [hc] at hfree
    exact hfree
  · intro w n id ch hw
    exact fetch_held hw n ch
  · intro w active q ch hw
    exact extended_between hw q ch

def NoCleanupFails (g : Grammar) (conn : Conn) (x : IssuedCall) : Prop :=
  ∀ y ∈ callTrace g conn x, ¬CleanupFails y

/-- From a fresh connection, after each of the calls the active cursor mirrors the wire exactly
when the server fails none of the clean-ups after an exhausted first page. -/
theorem mirror_iff_no_cleanupFails (g : Grammar) (xs : List IssuedCall)
    (hfree : ∀ x ∈ xs, ControlFreeCall g x.call) :
    (∀ ys zs, xs = ys ++ zs → Mirror (afterCalls g .fresh ys)) ↔
      Each (Conn.serve g) Call.prog (NoCleanupFails g) .fresh xs := by
  have hwalk (s : Conn) (x : IssuedCall) (hx : x ∈ xs) (hs : (discipline g).Between s) :=
    wpUnless_exec (call_walk x.call hs (hfree x hx)) x.env fun _ _ hno => hno
  have hstart : (discipline g).Between .fresh :=
    between_none.mpr ⟨rfl, by simp [Wire.fresh]⟩
  refine prefixes_good_iff (fun _ => between_mirror) hstart ?_ ?_
  · exact fun s x hx hs hc => (hwalk s x hx hs).1 hc
  · intro s x hx hs hc
    simp only [NoCleanupFails, not_forall, not_not] at hc
    obtain ⟨y, hy, hfails⟩ := hc
    exact (hwalk s x hx hs).2 ⟨y, hy, hfails⟩

/-- A cancel hits the clean-up after `SELECT 1` returned its only page, which is empty. -/
def cancelledCleanup : IssuedCall := querying selectOne (faultAt [] 4 (.error 0 "57014"))

theorem selectOne_controlFree : ControlFree smallServer selectOne := by
  have hsplit : splitAtLastStatement selectOne = some none := by decide +kernel
  intro t ht
  cases ht with
  | whole =>
    intro sts hp st hst
    have hparse : smallServer.parse selectOne =
        some [.query ⟨[⟨"c".toList, 25, "text".toList⟩], true, false⟩] := by decide +kernel
    rw [hparse, Option.some.injEq] at hp
    subst hp
    obtain rfl := List.mem_singleton.mp hst
    rfl
  | preamble h => simp [hsplit] at h
  | main h => simp [hsplit] at h

theorem mirror_iff_cancelledCleanup :
    (∀ ys zs, [cancelledCleanup] = ys ++ zs → Mirror (afterCalls smallServer .fresh ys)) ↔
      Each (Conn.serve smallServer) Call.prog (NoCleanupFails smallServer) .fresh
        [cancelledCleanup] :=
  mirror_iff_no_cleanupFails smallServer [cancelledCleanup]
    fun x hx => by
      obtain rfl := List.mem_singleton.mp hx
      exact selectOne_controlFree

/-- The wire stays in the aborted block of the pool, and no cursor is left to end it by. -/
theorem cancelledCleanup_not_mirrored :
    ControlFreeCall smallServer cancelledCleanup.call ∧
      ¬Mirror (afterCall smallServer .fresh cancelledCleanup) := by
  refine ⟨selectOne_controlFree, fun h => ?_⟩
  have hactive : (afterCall smallServer .fresh cancelledCleanup).activeCursor = none := by
    decide +kernel
  have hblock : inPoolBlock (afterCall smallServer .fresh cancelledCleanup).wire = true := by
    decide +kernel
  exact absurd ((h.inactive hactive).symm.trans hblock) (by simp)

end SshCommander.CursorMirror
