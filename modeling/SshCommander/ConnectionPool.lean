import Mathlib.Data.List.AList
import SshCommander.InterleavedTasks
import SshCommander.SessionCalls

/-!
# The connection pool

`PgPool` as tasks over its shared state. Every operation is cut where the source awaits: a step
is one section under `inner` or `secondary_browsers`, one connection attempt, or one request
under a connection's `operation_lock`. Connections are never reused under another number, so a
number stands for an `Arc`.
-/

namespace SshCommander.ConnectionPool
open InterleavedTasks InteractionPrograms RustText SqlStatementSplit PostgresWire PooledConnection
  SessionCalls

abbrev SessionId := Text
abbrev ConnId := ℕ

/-- The fields of `PgConfig` that the pool itself reads. -/
structure PgConfig where
  database : Text
  maxPoolSize : Option ℕ
  idleTimeoutSecs : Option ℕ
  minIdleConnections : Option ℕ
  deriving DecidableEq, Repr

def defaultMaxPoolSize : ℕ := 5
def defaultIdleTimeout : ℕ := 300
def defaultMinIdleConnections : ℕ := 1
def browserSessionId : SessionId := "_browser".toList

namespace PgConfig

/-- `0` falls back to the default. -/
def maxSize (cfg : PgConfig) : ℕ := (cfg.maxPoolSize.filter (0 < ·)).getD defaultMaxPoolSize

def idleTimeout (cfg : PgConfig) : ℕ := cfg.idleTimeoutSecs.getD defaultIdleTimeout

def minIdle (cfg : PgConfig) : ℕ := cfg.minIdleConnections.getD defaultMinIdleConnections

theorem maxSize_pos (cfg : PgConfig) : 0 < cfg.maxSize := by
  unfold maxSize
  cases h : cfg.maxPoolSize.filter (0 < ·) with
  | none => decide
  | some n => simpa using (Option.filter_eq_some_iff.mp h).2

end PgConfig

structure IdleEntry where
  since : ℕ
  conn : ConnId
  deriving DecidableEq, Repr

structure SecondaryBrowserEntry where
  since : ℕ
  conn : ConnId
  deriving DecidableEq, Repr

structure PoolInner where
  idle : List IdleEntry
  leased : AList fun _ : SessionId => ConnId
  total : ℕ

structure PooledConnection where
  conn : Conn
  /-- Whether `operation_lock` is held. -/
  locked : Bool
  /-- The `Arc`s that operations hold, besides the pool's own. -/
  handles : ℕ
  deriving DecidableEq, Repr

structure Pool where
  inner : PoolInner
  secondaryBrowsers : AList fun _ : Text => SecondaryBrowserEntry
  /-- Every connection ever opened, by its number. -/
  conns : List PooledConnection

/-- What the environment decides in one step: the time, the outcome of `open_one`, and the
server's choice for one request. -/
structure Event where
  now : ℕ
  opened : Except PgError Unit
  choice : Choice

namespace Pool

def abort (p : Pool) (k : ConnId) : Pool :=
  { p with conns := p.conns.modify k fun c => { c with conn := { c.conn with wire := c.conn.wire.lose } } }

def isStored (p : Pool) (k : ConnId) : Bool :=
  p.inner.idle.any (·.conn == k) || p.inner.leased.entries.any (·.2 == k) ||
    p.secondaryBrowsers.entries.any (·.2.conn == k)

def handles (p : Pool) (k : ConnId) : ℕ := ((p.conns[k]?).map (·.handles)).getD 0

/-- `Drop for PooledConnection`: the last `Arc` takes the wire with it. -/
def reap (p : Pool) (k : ConnId) : Pool :=
  if p.isStored k || p.handles k != 0 then p else p.abort k

def hold (p : Pool) (k : ConnId) : Pool :=
  { p with conns := p.conns.modify k fun c => { c with handles := c.handles + 1 } }

/-- An `Arc` that moves back into the pool. -/
def unhold (p : Pool) (k : ConnId) : Pool :=
  { p with conns := p.conns.modify k fun c => { c with handles := c.handles - 1 } }

def letGo (p : Pool) (k : ConnId) : Pool := (p.unhold k).reap k

def setLocked (p : Pool) (k : ConnId) (b : Bool) : Pool :=
  { p with conns := p.conns.modify k fun c => { c with locked := b } }

def setConn (p : Pool) (k : ConnId) (conn : Conn) : Pool :=
  { p with conns := p.conns.modify k fun c => { c with conn := conn } }

/-- `open_one`: the new connection is held by the operation that opened it. -/
def add (p : Pool) : Pool × ConnId :=
  ({ p with conns := p.conns ++ [⟨.fresh, false, 1⟩] }, p.conns.length)

def abortAll (p : Pool) (ks : List ConnId) : Pool := ks.foldl (fun p k => (p.abort k).letGo k) p

def holdAll (p : Pool) (ks : List ConnId) : Pool := ks.foldl hold p

def setTotal (p : Pool) (n : ℕ) : Pool := { p with inner := { p.inner with total := n } }

def setIdle (p : Pool) (idle : List IdleEntry) : Pool :=
  { p with inner := { p.inner with idle := idle } }

def setLeased (p : Pool) (leased : AList fun _ : SessionId => ConnId) : Pool :=
  { p with inner := { p.inner with leased := leased } }

def setSecondary (p : Pool) (m : AList fun _ : Text => SecondaryBrowserEntry) : Pool :=
  { p with secondaryBrowsers := m }

def popIdle (p : Pool) : Option (Pool × ConnId) :=
  p.inner.idle.getLast?.map fun e => ((p.setIdle p.inner.idle.dropLast).hold e.conn, e.conn)

/-- `inner.leased.insert`: a lease it replaces is dropped. -/
def assignLease (p : Pool) (s : SessionId) (k : ConnId) : Pool :=
  let p' := p.setLeased (p.inner.leased.insert s k)
  match p.inner.leased.lookup s with
  | none => p'
  | some old => p'.reap old

def reserveConnectionSlot (cfg : PgConfig) (p : Pool) : Except PgError Pool :=
  if cfg.maxSize ≤ p.inner.total then .error (.poolExhausted p.inner.total cfg.maxSize)
  else .ok (p.setTotal (p.inner.total + 1))

/-- `saturating_sub(1)`. -/
def releaseConnectionSlot (p : Pool) : Pool := p.setTotal (p.inner.total - 1)

/-- The loop of `evict_idle` over the idle entries in storage order: what is kept so far and what
is dropped so far. -/
def evictLoop (cfg : PgConfig) (now : ℕ) :
    List IdleEntry → List IdleEntry → List ConnId → List IdleEntry × List ConnId
  | [], keep, drop => (keep, drop)
  | entry :: rest, keep, drop =>
    if ¬cfg.idleTimeout ≤ now - entry.since ∨ keep.length < cfg.minIdle then
      evictLoop cfg now rest (keep ++ [entry]) drop
    else evictLoop cfg now rest keep (drop ++ [entry.conn])

/-- One section: every dropped entry takes one off `total`. -/
def evictIdle (cfg : PgConfig) (p : Pool) (now : ℕ) : Pool × List ConnId :=
  let r := evictLoop cfg now p.inner.idle [] []
  (((p.setIdle r.1).setTotal (p.inner.total - r.2.length)).holdAll r.2, r.2)

/-- The databases whose aged connection only the map holds. -/
def evictableSecondary (cfg : PgConfig) (p : Pool) (now : ℕ) : List (Sigma fun _ : Text => SecondaryBrowserEntry) :=
  p.secondaryBrowsers.entries.filter fun e =>
    decide (cfg.idleTimeout ≤ now - e.2.since) && p.handles e.2.conn == 0

def evictSecondary (cfg : PgConfig) (p : Pool) (now : ℕ) : Pool × List ConnId :=
  let drop := p.evictableSecondary cfg now
  let ks := drop.map (·.2.conn)
  ((p.setSecondary (drop.foldl (fun m e => m.erase e.1) p.secondaryBrowsers)).holdAll ks, ks)

def drainInner (p : Pool) : Pool × List ConnId :=
  let ks := p.inner.idle.map (·.conn) ++ p.inner.leased.entries.map (·.2)
  (({ p with inner := ⟨[], ∅, 0⟩ }).holdAll ks, ks)

def drainSecondary (p : Pool) : Pool × List ConnId :=
  let ks := p.secondaryBrowsers.entries.map (·.2.conn)
  ((p.setSecondary ∅).holdAll ks, ks)

end Pool

/-- What a lease is taken for: a call on the session's connection, or schema browsing. -/
inductive Purpose where
  | call (c : Call)
  | browse

/-- Where an operation stands. A task that holds an `Arc` names its connection. -/
inductive Task where
  | leaseFast (s : SessionId) (use : Purpose)
  | leasePop (s : SessionId) (use : Purpose)
  | leaseCheck (s : SessionId) (use : Purpose)
  | leaseReserve (s : SessionId) (use : Purpose)
  | leaseOpening (s : SessionId) (use : Purpose)
  | leaseAssign (s : SessionId) (use : Purpose) (k : ConnId)
  | lookup (s : SessionId) (c : Call)
  | waiting (s : SessionId) (k : ConnId) (c : Call)
  | running (s : SessionId) (k : ConnId) (c : Call) (prog : Dialogue CallResult)
      (log : List (Exchange Conn Request Choice))
  | cancelLookup (s : SessionId)
  | cancelling (s : SessionId) (k : ConnId)
  | releaseTake (s : SessionId)
  | releaseWaiting (s : SessionId) (k : ConnId)
  | releasing (s : SessionId) (k : ConnId) (prog : Dialogue Unit)
  | returning (s : SessionId) (k : ConnId)
  | browserCached (database : Text)
  | browserReserve (database : Text)
  | browserOpening (database : Text)
  | browserStore (database : Text) (k : ConnId)
  | browserDuplicate (own existing : ConnId)
  | browsing (k : ConnId)
  | slotRollBack (e : PgError)
  | evict
  | evictIdle (now : ℕ)
  | evictAbort (now : ℕ) (ks : List ConnId)
  | evictSecondary (now : ℕ)
  | evictSecondaryTotal (ks : List ConnId)
  | evictSecondaryAbort (ks : List ConnId)
  | shutdownInner
  | shutdownSecondary (ks : List ConnId)
  | shutdownAbort (ks : List ConnId)
  | answered (s : SessionId) (k : ConnId) (c : Call) (r : CallResult)
      (log : List (Exchange Conn Request Choice))
  | failed (e : PgError)
  | finished

def Purpose.next (s : SessionId) (k : ConnId) : Purpose → Task
  | .call c => .waiting s k c
  | .browse => .browsing k

/-- The message of `fetch_page` names its own session. -/
def addressedTo (s : SessionId) : Call → Bool
  | .fetchPage sid _ _ => sid = s
  | _ => true

/-- Where an operation starts. `fetch_page` and `close_query` only look the lease up; every other
call takes one. `browser_connection_for` browses the pool's own database on an ordinary lease. -/
def starts (cfg : PgConfig) : Task → Bool
  | .leaseFast s (.call c) =>
    match c with
    | .fetchPage .. | .closeQuery _ => false
    | _ => addressedTo s c
  | .leaseFast s .browse => s = browserSessionId
  | .lookup s c =>
    match c with
    | .fetchPage .. | .closeQuery _ => addressedTo s c
    | _ => false
  | .browserCached database => database ≠ cfg.database
  | .cancelLookup _ | .releaseTake _ | .evict | .shutdownInner => true
  | _ => false

def Task.done : Task → Bool
  | .answered .. | .failed _ | .finished => true
  | _ => false

/-- One step of one operation; `none` while it waits for an `operation_lock`, and at its end. -/
def step (g : Grammar) (cfg : PgConfig) (p : Pool) (t : Task) (e : Event) : Option (Pool × Task) :=
  match t with
  | .leaseFast s use =>
    match p.inner.leased.lookup s with
    | some k => some (p.hold k, use.next s k)
    | none => some (p, .leasePop s use)
  | .leasePop s use =>
    match p.popIdle with
    | some (p', k) => some (p', .leaseAssign s use k)
    | none => some (p, .leaseCheck s use)
  | .leaseAssign s use k => some (p.assignLease s k, use.next s k)
  | .leaseCheck s use =>
    if cfg.maxSize ≤ p.inner.total then
      some (p, .failed (.poolExhausted p.inner.total cfg.maxSize))
    else some (p, .leaseReserve s use)
  | .leaseReserve s use =>
    match p.reserveConnectionSlot cfg with
    | .ok p' => some (p', .leaseOpening s use)
    | .error err => some (p, .failed err)
  | .leaseOpening s use =>
    match e.opened with
    | .ok () => some (p.add.1, .leaseAssign s use p.add.2)
    | .error err => some (p, .slotRollBack err)
  | .slotRollBack err => some (p.releaseConnectionSlot, .failed err)
  | .lookup s c =>
    match p.inner.leased.lookup s, c with
    | some k, _ => some (p.hold k, .waiting s k c)
    | none, .fetchPage sid _ _ =>
      some (p, .failed (.cursorExpired ("no active session ".toList ++ sid)))
    | none, _ => some (p, .finished)
  | .waiting s k c =>
    match p.conns[k]? with
    | some pc => if pc.locked then none else some (p.setLocked k true, .running s k c c.prog [])
    | none => none
  | .running s k c prog log =>
    match prog, p.conns[k]? with
    | _, none => none
    | .ret r, some _ => some ((p.setLocked k false).letGo k, .answered s k c r log)
    | .ask q f, some pc =>
      let r := Conn.serve g pc.conn q e.choice
      some (p.setConn k r.1, .running s k c (f r.2) (log ++ [⟨pc.conn, q, e.choice⟩]))
  | .cancelLookup s =>
    match p.inner.leased.lookup s with
    | some k => some (p.hold k, .cancelling s k)
    | none => some (p, .finished)
  | .cancelling _ k => some (p.letGo k, .finished)
  | .releaseTake s =>
    match p.inner.leased.lookup s with
    | some k => some ((p.setLeased (p.inner.leased.erase s)).hold k, .releaseWaiting s k)
    | none => some (p, .finished)
  | .releaseWaiting s k =>
    match p.conns[k]? with
    | some pc => if pc.locked then none else some (p.setLocked k true, .releasing s k releaseCleanup)
    | none => none
  | .releasing s k prog =>
    match prog, p.conns[k]? with
    | _, none => none
    | .ret (), some _ => some (p.setLocked k false, .returning s k)
    | .ask q f, some pc =>
      let r := Conn.serve g pc.conn q e.choice
      some (p.setConn k r.1, .releasing s k (f r.2))
  | .returning _ k => some ((p.setIdle (p.inner.idle ++ [⟨e.now, k⟩])).unhold k, .finished)
  | .browserCached database =>
    match p.secondaryBrowsers.lookup database with
    | some entry =>
      some ((p.setSecondary (p.secondaryBrowsers.insert database ⟨e.now, entry.conn⟩)).hold entry.conn,
        .browsing entry.conn)
    | none => some (p, .browserReserve database)
  | .browserReserve database =>
    match p.reserveConnectionSlot cfg with
    | .ok p' => some (p', .browserOpening database)
    | .error err => some (p, .failed err)
  | .browserOpening database =>
    match e.opened with
    | .ok () => some (p.add.1, .browserStore database p.add.2)
    | .error err => some (p, .slotRollBack err)
  | .browserStore database k =>
    match p.secondaryBrowsers.lookup database with
    | some entry =>
      some ((p.setSecondary (p.secondaryBrowsers.insert database ⟨e.now, entry.conn⟩)).hold entry.conn,
        .browserDuplicate k entry.conn)
    | none => some (p.setSecondary (p.secondaryBrowsers.insert database ⟨e.now, k⟩), .browsing k)
  | .browserDuplicate own existing => some (p.releaseConnectionSlot.letGo own, .browsing existing)
  | .browsing k => some (p.letGo k, .finished)
  | .evict => some (p, .evictIdle e.now)
  | .evictIdle now => some ((p.evictIdle cfg now).1, .evictAbort now (p.evictIdle cfg now).2)
  | .evictAbort now ks => some (p.abortAll ks, .evictSecondary now)
  | .evictSecondary now =>
    let r := p.evictSecondary cfg now
    if r.2.isEmpty then some (r.1, .finished) else some (r.1, .evictSecondaryTotal r.2)
  | .evictSecondaryTotal ks =>
    some (p.setTotal (p.inner.total - ks.length), .evictSecondaryAbort ks)
  | .evictSecondaryAbort ks => some (p.abortAll ks, .finished)
  | .shutdownInner => some (p.drainInner.1, .shutdownSecondary p.drainInner.2)
  | .shutdownSecondary ks => some (p.drainSecondary.1, .shutdownAbort (ks ++ p.drainSecondary.2))
  | .shutdownAbort ks => some (p.abortAll ks, .finished)
  | .answered .. | .failed _ | .finished => none

def system (g : Grammar) (cfg : PgConfig) : TaskSystem Pool Task Event := ⟨starts cfg, step g cfg⟩

inductive Transition (g : Grammar) (cfg : PgConfig) (p : Pool) (e : Event) :
    Task → Pool → Task → Prop where
  | leaseHit {s use k} (h : p.inner.leased.lookup s = some k) :
      Transition g cfg p e (.leaseFast s use) (p.hold k) (use.next s k)
  | leaseMiss {s use} (h : p.inner.leased.lookup s = none) :
      Transition g cfg p e (.leaseFast s use) p (.leasePop s use)
  | popped {s use p' k} (h : p.popIdle = some (p', k)) :
      Transition g cfg p e (.leasePop s use) p' (.leaseAssign s use k)
  | noneIdle {s use} (h : p.popIdle = none) :
      Transition g cfg p e (.leasePop s use) p (.leaseCheck s use)
  | assigned {s use k} :
      Transition g cfg p e (.leaseAssign s use k) (p.assignLease s k) (use.next s k)
  | full {s use} : Transition g cfg p e (.leaseCheck s use) p
      (.failed (.poolExhausted p.inner.total cfg.maxSize))
  | room {s use} : Transition g cfg p e (.leaseCheck s use) p (.leaseReserve s use)
  | reserved {s use p'} (h : p.reserveConnectionSlot cfg = .ok p') :
      Transition g cfg p e (.leaseReserve s use) p' (.leaseOpening s use)
  | notReserved {s use err} (h : p.reserveConnectionSlot cfg = .error err) :
      Transition g cfg p e (.leaseReserve s use) p (.failed err)
  | opened {s use} :
      Transition g cfg p e (.leaseOpening s use) p.add.1 (.leaseAssign s use p.add.2)
  | notOpened {s use err} : Transition g cfg p e (.leaseOpening s use) p (.slotRollBack err)
  | rolledBack {err} : Transition g cfg p e (.slotRollBack err) p.releaseConnectionSlot (.failed err)
  | found {s c k} (h : p.inner.leased.lookup s = some k) :
      Transition g cfg p e (.lookup s c) (p.hold k) (.waiting s k c)
  | noSession {s c} (err : PgError) : Transition g cfg p e (.lookup s c) p (.failed err)
  | nothingToClose {s c} : Transition g cfg p e (.lookup s c) p .finished
  | locked {s k c} : Transition g cfg p e (.waiting s k c) (p.setLocked k true)
      (.running s k c c.prog [])
  | served {s k c q f log pc} (h : p.conns[k]? = some pc) :
      Transition g cfg p e (.running s k c (.ask q f) log)
        (p.setConn k (Conn.serve g pc.conn q e.choice).1)
        (.running s k c (f (Conn.serve g pc.conn q e.choice).2) (log ++ [⟨pc.conn, q, e.choice⟩]))
  | returned {s k c r log} : Transition g cfg p e (.running s k c (.ret r) log)
      ((p.setLocked k false).letGo k) (.answered s k c r log)
  | cancelHit {s k} (h : p.inner.leased.lookup s = some k) :
      Transition g cfg p e (.cancelLookup s) (p.hold k) (.cancelling s k)
  | cancelMiss {s} : Transition g cfg p e (.cancelLookup s) p .finished
  | cancelled {s k} : Transition g cfg p e (.cancelling s k) (p.letGo k) .finished
  | taken {s k} (h : p.inner.leased.lookup s = some k) :
      Transition g cfg p e (.releaseTake s) ((p.setLeased (p.inner.leased.erase s)).hold k)
        (.releaseWaiting s k)
  | nothingToTake {s} : Transition g cfg p e (.releaseTake s) p .finished
  | releaseLocked {s k} : Transition g cfg p e (.releaseWaiting s k) (p.setLocked k true)
      (.releasing s k releaseCleanup)
  | cleaned {s k q f pc} (h : p.conns[k]? = some pc) :
      Transition g cfg p e (.releasing s k (.ask q f))
        (p.setConn k (Conn.serve g pc.conn q e.choice).1)
        (.releasing s k (f (Conn.serve g pc.conn q e.choice).2))
  | released {s k u} : Transition g cfg p e (.releasing s k (.ret u)) (p.setLocked k false)
      (.returning s k)
  | pushed {s k} : Transition g cfg p e (.returning s k)
      ((p.setIdle (p.inner.idle ++ [⟨e.now, k⟩])).unhold k) .finished
  | browserHit {database entry} (h : p.secondaryBrowsers.lookup database = some entry) :
      Transition g cfg p e (.browserCached database)
        ((p.setSecondary (p.secondaryBrowsers.insert database ⟨e.now, entry.conn⟩)).hold entry.conn)
        (.browsing entry.conn)
  | browserMiss {database} (h : p.secondaryBrowsers.lookup database = none) :
      Transition g cfg p e (.browserCached database) p (.browserReserve database)
  | browserReserved {database p'} (h : p.reserveConnectionSlot cfg = .ok p') :
      Transition g cfg p e (.browserReserve database) p' (.browserOpening database)
  | browserNotReserved {database err} (h : p.reserveConnectionSlot cfg = .error err) :
      Transition g cfg p e (.browserReserve database) p (.failed err)
  | browserOpened {database} :
      Transition g cfg p e (.browserOpening database) p.add.1 (.browserStore database p.add.2)
  | browserNotOpened {database err} :
      Transition g cfg p e (.browserOpening database) p (.slotRollBack err)
  | raced {database k entry} (h : p.secondaryBrowsers.lookup database = some entry) :
      Transition g cfg p e (.browserStore database k)
        ((p.setSecondary (p.secondaryBrowsers.insert database ⟨e.now, entry.conn⟩)).hold entry.conn)
        (.browserDuplicate k entry.conn)
  | inserted {database k} (h : p.secondaryBrowsers.lookup database = none) :
      Transition g cfg p e (.browserStore database k)
        (p.setSecondary (p.secondaryBrowsers.insert database ⟨e.now, k⟩)) (.browsing k)
  | duplicateDropped {own existing} :
      Transition g cfg p e (.browserDuplicate own existing) (p.releaseConnectionSlot.letGo own)
        (.browsing existing)
  | browsed {k} : Transition g cfg p e (.browsing k) (p.letGo k) .finished
  | clockRead : Transition g cfg p e .evict p (.evictIdle e.now)
  | idleEvicted {now} : Transition g cfg p e (.evictIdle now) (p.evictIdle cfg now).1
      (.evictAbort now (p.evictIdle cfg now).2)
  | idleAborted {now ks} : Transition g cfg p e (.evictAbort now ks) (p.abortAll ks)
      (.evictSecondary now)
  | noSecondary {now} (h : (p.evictSecondary cfg now).2 = []) :
      Transition g cfg p e (.evictSecondary now) (p.evictSecondary cfg now).1 .finished
  | secondaryEvicted {now} (h : (p.evictSecondary cfg now).2 ≠ []) :
      Transition g cfg p e (.evictSecondary now) (p.evictSecondary cfg now).1
        (.evictSecondaryTotal (p.evictSecondary cfg now).2)
  | secondaryCounted {ks} : Transition g cfg p e (.evictSecondaryTotal ks)
      (p.setTotal (p.inner.total - ks.length)) (.evictSecondaryAbort ks)
  | secondaryAborted {ks} : Transition g cfg p e (.evictSecondaryAbort ks) (p.abortAll ks) .finished
  | innerDrained : Transition g cfg p e .shutdownInner p.drainInner.1
      (.shutdownSecondary p.drainInner.2)
  | secondaryDrained {ks} : Transition g cfg p e (.shutdownSecondary ks) p.drainSecondary.1
      (.shutdownAbort (ks ++ p.drainSecondary.2))
  | shutDown {ks} : Transition g cfg p e (.shutdownAbort ks) (p.abortAll ks) .finished

theorem step_transition {g : Grammar} {cfg : PgConfig} {p p' : Pool} {t t' : Task} {e : Event}
    (h : step g cfg p t e = some (p', t')) : Transition g cfg p e t p' t' := by
  cases t with
  | leaseFast s use =>
    simp only [step] at h
    split at h <;> obtain ⟨rfl, rfl⟩ := h
    · exact .leaseHit ‹_›
    · exact .leaseMiss ‹_›
  | leasePop s use =>
    simp only [step] at h
    split at h <;> obtain ⟨rfl, rfl⟩ := h
    · exact .popped ‹_›
    · exact .noneIdle ‹_›
  | leaseAssign s use k => obtain ⟨rfl, rfl⟩ := h; exact .assigned
  | leaseCheck s use =>
    simp only [step] at h
    split at h <;> obtain ⟨rfl, rfl⟩ := h
    · exact .full
    · exact .room
  | leaseReserve s use =>
    simp only [step] at h
    split at h <;> obtain ⟨rfl, rfl⟩ := h
    · exact .reserved ‹_›
    · exact .notReserved ‹_›
  | leaseOpening s use =>
    simp only [step] at h
    split at h <;> obtain ⟨rfl, rfl⟩ := h
    · exact .opened
    · exact .notOpened
  | slotRollBack err => obtain ⟨rfl, rfl⟩ := h; exact .rolledBack
  | lookup s c =>
    simp only [step] at h
    split at h <;> obtain ⟨rfl, rfl⟩ := h
    · exact .found ‹_›
    · exact .noSession _
    · exact .nothingToClose
  | waiting s k c =>
    simp only [step] at h
    split at h
    · split at h
      · cases h
      · obtain ⟨rfl, rfl⟩ := h
        exact .locked
    · cases h
  | running s k c prog log =>
    simp only [step] at h
    split at h
    · cases h
    · obtain ⟨rfl, rfl⟩ := h
      exact .returned
    · obtain ⟨rfl, rfl⟩ := h
      exact .served ‹_›
  | cancelLookup s =>
    simp only [step] at h
    split at h <;> obtain ⟨rfl, rfl⟩ := h
    · exact .cancelHit ‹_›
    · exact .cancelMiss
  | cancelling s k => obtain ⟨rfl, rfl⟩ := h; exact .cancelled
  | releaseTake s =>
    simp only [step] at h
    split at h <;> obtain ⟨rfl, rfl⟩ := h
    · exact .taken ‹_›
    · exact .nothingToTake
  | releaseWaiting s k =>
    simp only [step] at h
    split at h
    · split at h
      · cases h
      · obtain ⟨rfl, rfl⟩ := h
        exact .releaseLocked
    · cases h
  | releasing s k prog =>
    simp only [step] at h
    split at h
    · cases h
    · obtain ⟨rfl, rfl⟩ := h
      exact .released
    · obtain ⟨rfl, rfl⟩ := h
      exact .cleaned ‹_›
  | returning s k => obtain ⟨rfl, rfl⟩ := h; exact .pushed
  | browserCached database =>
    simp only [step] at h
    split at h <;> obtain ⟨rfl, rfl⟩ := h
    · exact .browserHit ‹_›
    · exact .browserMiss ‹_›
  | browserReserve database =>
    simp only [step] at h
    split at h <;> obtain ⟨rfl, rfl⟩ := h
    · exact .browserReserved ‹_›
    · exact .browserNotReserved ‹_›
  | browserOpening database =>
    simp only [step] at h
    split at h <;> obtain ⟨rfl, rfl⟩ := h
    · exact .browserOpened
    · exact .browserNotOpened
  | browserStore database k =>
    simp only [step] at h
    split at h <;> obtain ⟨rfl, rfl⟩ := h
    · exact .raced ‹_›
    · exact .inserted ‹_›
  | browserDuplicate own existing => obtain ⟨rfl, rfl⟩ := h; exact .duplicateDropped
  | browsing k => obtain ⟨rfl, rfl⟩ := h; exact .browsed
  | evict => obtain ⟨rfl, rfl⟩ := h; exact .clockRead
  | evictIdle now => obtain ⟨rfl, rfl⟩ := h; exact .idleEvicted
  | evictAbort now ks => obtain ⟨rfl, rfl⟩ := h; exact .idleAborted
  | evictSecondary now =>
    simp only [step] at h
    split at h <;> obtain ⟨rfl, rfl⟩ := h
    · exact .noSecondary (List.isEmpty_iff.mp ‹_›)
    · exact .secondaryEvicted (List.isEmpty_eq_false_iff.mp (Bool.eq_false_iff.mpr ‹_›))
  | evictSecondaryTotal ks => obtain ⟨rfl, rfl⟩ := h; exact .secondaryCounted
  | evictSecondaryAbort ks => obtain ⟨rfl, rfl⟩ := h; exact .secondaryAborted
  | shutdownInner => obtain ⟨rfl, rfl⟩ := h; exact .innerDrained
  | shutdownSecondary ks => obtain ⟨rfl, rfl⟩ := h; exact .secondaryDrained
  | shutdownAbort ks => obtain ⟨rfl, rfl⟩ := h; exact .shutDown
  | answered | failed | finished => cases h

/-- `PgPool::connect` at time `now`: one idle connection, counted. -/
def connect (now : ℕ) : Config Pool Task :=
  ⟨⟨⟨[⟨now, 0⟩], ∅, 1⟩, ∅, [⟨.fresh, false, 0⟩]⟩, []⟩

def defaultPool : PgConfig := ⟨"postgres".toList, none, none, none⟩

def tick : Event := ⟨0, .ok (), .quiet⟩

def sections (is : List ℕ) : List (Action Task Event) := is.map (.advance · tick)

def pages (is : List ℕ) : List (Action Task Event) :=
  is.map (.advance · { tick with choice := { Choice.quiet with rows := fun _ => [[none]] } })

theorem spawn_notMem_sections {t : Task} {is : List ℕ} : Action.spawn t ∉ sections is := by
  simp [sections]

theorem spawn_notMem_pages {t : Task} {is : List ℕ} : Action.spawn t ∉ pages is := by
  simp [pages]

def browse : Action Task Event := .spawn (.leaseFast browserSessionId .browse)

def selectFor (s : SessionId) : Action Task Event :=
  .spawn (.leaseFast s (.call (.execute selectOne 1 "u".toList)))

end SshCommander.ConnectionPool
