import SshCommander.MapWeights
import SshCommander.PostgresConnects

/-!
# Tunnels and the pools behind them

An open tunnel has one owner at every moment: a call, or the connection that is registered with its
pool. The calls refine those of the manager, so a connection is in one place, and the guard of its
tunnel goes where the connection goes.
-/

namespace SshCommander.TunneledPools
open InterleavedTasks InterleavedTasks.TaskSystem RustText MapWeights
open ConnectionManager DroppedConnections PostgresConnects

def moved (x : Shared) (r : Option Request) (config : Option PgConfig) (guard : Option ℕ)
    (t : ConnectionManager.Task) (m' : Manager) (t' : ConnectionManager.Task) : Shared :=
  { (settle x r config guard t t').1 with manager := m' }

inductive Transition (x : Shared) (e : PostgresConnects.Event) : Call → Shared → Call → Prop where
  | dropped {u} : Transition x e u (x.close (guards x u.stage)) ⟨u.request, .dropped u.task⟩
  | unresolved {r message} : Transition x e ⟨some r, .resolving⟩ x ⟨some r, .refused message⟩
  | direct {r config} (h : resolvePgCredentials r.config e.keychain = .ok config)
      (ht : r.tunnel = none) : Transition x e ⟨some r, .resolving⟩ x
        ⟨some r, .within (.create r.connectionId .postgres) (some config) none⟩
  | tunneled {r config t} (h : resolvePgCredentials r.config e.keychain = .ok config)
      (ht : r.tunnel = some t) :
      Transition x e ⟨some r, .resolving⟩ x ⟨some r, .lookingUp config t⟩
  | sourceMissing {r config t message} :
      Transition x e ⟨r, .lookingUp config t⟩ x ⟨r, .refused message⟩
  | source {r config t source} (h : x.manager.getConnection t.sshConnectionId = some source) :
      Transition x e ⟨r, .lookingUp config t⟩ x ⟨r, .binding config t source⟩
  | unbound {r config t source message} :
      Transition x e ⟨some r, .binding config t source⟩ x ⟨some r, .refused message⟩
  | bound {r config t source localPort} : Transition x e ⟨some r, .binding config t source⟩
      { x with tunnels := x.tunnels ++ [⟨source, t.remoteHost, t.remotePort, localPort, false⟩] }
      ⟨some r, .within (.create r.connectionId .postgres)
        (some { config with host := "127.0.0.1".toList, port := localPort }) x.tunnels.length⟩
  | moved {r t config guard ev m' t'} (h : ConnectionManager.step x.manager t ev = some (m', t')) :
      Transition x e ⟨r, .within t config guard⟩
        (moved x r config guard t m' t')
        ⟨r, .within t' (settle x r config guard t t').2.1 (settle x r config guard t t').2.2⟩

variable {c c' d : Config Shared Call} {a : Action Call PostgresConnects.Event}
  {as : List (Action Call PostgresConnects.Event)} {x x' : Shared} {u u' : Call}
  {e : PostgresConnects.Event} {t t' : ConnectionManager.Task} {i k : ℕ} {id : Text}
  {conn : ManagedConnection} {ks : List ℕ} {p : Pool} {y : Text × ManagedConnection}

theorem step_transition (h : PostgresConnects.step x u e = some (x', u')) :
    TunneledPools.Transition x e u x' u' := by
  obtain ⟨r, stage⟩ := u
  unfold PostgresConnects.step at h
  split at h
  · cases h
  split at h
  · obtain ⟨rfl, rfl⟩ := Prod.mk.inj (Option.some.inj h)
    exact .dropped
  cases stage with
  | resolving =>
    obtain ⟨r, rfl, h⟩ := Option.bind_eq_some_iff.mp h
    split at h
    · obtain ⟨rfl, rfl⟩ := Prod.mk.inj (Option.some.inj h)
      exact .unresolved
    · split at h <;> obtain ⟨rfl, rfl⟩ := Prod.mk.inj (Option.some.inj h)
      · exact .direct ‹_› ‹_›
      · exact .tunneled ‹_› ‹_›
  | lookingUp config t =>
    dsimp only at h
    split at h <;> obtain ⟨rfl, rfl⟩ := Prod.mk.inj (Option.some.inj h)
    · exact .sourceMissing
    · exact .source ‹_›
  | binding config t source =>
    obtain ⟨r, rfl, h⟩ := Option.bind_eq_some_iff.mp h
    split at h <;> obtain ⟨rfl, rfl⟩ := Prod.mk.inj (Option.some.inj h)
    · exact .unbound
    · exact .bound
  | within t config guard =>
    obtain ⟨⟨m', t'⟩, hstep, h⟩ := Option.map_eq_some_iff.mp h
    obtain ⟨rfl, rfl⟩ := Prod.mk.inj h
    exact .moved hstep
  | refused => cases h
  | dropped => cases h

def project (c : Config Shared Call) : Config Manager ConnectionManager.Task :=
  ⟨c.shared.manager, c.tasks.map Call.task⟩

@[simp] theorem settle_manager (r : Option Request) (config : Option PgConfig) (guard : Option ℕ)
    (t t' : ConnectionManager.Task) : (settle x r config guard t t').1.manager = x.manager := by
  unfold settle
  split <;> try rfl
  split <;> rfl

theorem task_starts (h : PostgresConnects.starts u = true) : ConnectionManager.starts u.task = true := by
  obtain ⟨r, stage⟩ := u
  unfold PostgresConnects.starts at h
  split at h
  · rename_i hs
    obtain rfl : stage = .resolving := hs
    rfl
  · rename_i hs
    obtain rfl := hs
    rfl
  · rename_i hs
    obtain rfl := hs
    exact h
  · cases h

/-- A call that does not move within the manager leaves it as it is. -/
theorem project_stutter (hi : c.tasks[i]? = some u) (hm : x'.manager = c.shared.manager)
    (ht : u'.task = u.task) : project ⟨x', c.tasks.set i u'⟩ = project c := by
  rw [project, project, hm, map_set_eq Call.task hi ht]

theorem act_project (hact : connects.act c a = some c') :
    project c' = project c ∨ ∃ b, manager.act (project c) b = some (project c') := by
  obtain ⟨u, rfl, hs, rfl⟩ | ⟨i, e, u, x', u', rfl, hi, hs, rfl⟩ := act_cases hact
  · refine .inr ⟨.spawn u.task, ?_⟩
    have hstart : manager.starts u.task = true := task_starts hs
    simp [TaskSystem.act, hstart, project]
  · cases step_transition hs with
    | @moved r t config guard ev m' t' h =>
      refine .inr ⟨.advance i ev, ?_⟩
      have htask : (project c).tasks[i]? = some t := by
        rw [project, List.getElem?_map, hi]
        rfl
      have hstep : manager.step (project c).shared t ev = some (m', t') := h
      simp only [TaskSystem.act, htask, hstep, Option.map_some]
      simp [project, moved, List.map_set, Call.task]
    | _ => exact .inl (project_stutter hi rfl rfl)

/-- What holds of every run of the manager holds of the calls. -/
theorem run_refines (hr : connects.run ⟨.new, []⟩ as = some d) :
    ∃ bs, manager.run ⟨.new, []⟩ bs = some (project d) :=
  run_simulated project (fun _ _ _ hact => act_project hact) hr

theorem custody_project (h : Custody (project c)) (hact : connects.act c a = some c') :
    Custody (project c') := by
  rcases act_project hact with hsame | ⟨b, hb⟩
  · rwa [hsame]
  · exact (custody_act h hb).1

theorem Custody.below_handed {c : Config Manager ConnectionManager.Task} (h : Custody c)
    (hy : y ∈ c.shared.handed) : y.2.number < c.shared.opened :=
  h.numbered.below _ (List.mem_append_left _ (List.mem_map_of_mem (f := (·.2.number)) hy))

theorem Custody.registered {c : Config Manager ConnectionManager.Task} (h : Custody c)
    (hl : c.shared.connections.lookup id = some conn) : (id, conn) ∈ c.shared.handed :=
  h.known (id, conn) (Nat.add_pos_left (inMap_pos.mpr hl) _)

theorem Custody.below_owned {c : Config Manager ConnectionManager.Task} (h : Custody c)
    (ht : t ∈ c.tasks) (hy : y ∈ owned t) : y.2.number < c.shared.opened := by
  have hheld (hy : y ∈ held t) : y.2.number < c.shared.opened := by
    have hle : (held t).count y ≤ (c.tasks.map fun t => (held t).count y).sum :=
      List.single_le_sum (by simp) _ (List.mem_map_of_mem (f := fun t => (held t).count y) ht)
    have hpos := List.count_pos_iff.mpr hy
    exact Custody.below_handed h (h.known y (by simp only [places]; omega))
  cases t with
  | clearing id token result =>
    cases result with
    | error => cases hy
    | ok conn =>
      obtain rfl := List.mem_singleton.mp hy
      exact h.numbered.below _ (List.mem_append_right _ (List.mem_filterMap.mpr ⟨_, ht, rfl⟩))
  | _ => exact hheld hy

def isOpen (x : Shared) (k : ℕ) : Bool := x.tunnels[k]?.any fun tun => !tun.cancelled

/-- How often the tunnel goes with a connection of the map. -/
def stored (x : Shared) (k : ℕ) : ℕ :=
  weigh (fun conn => (x.tunnelOf conn).toList.count k) x.manager.connections

/-- How often the tunnel is somewhere: with the map, and with the calls. -/
def owners (c : Config Shared Call) (k : ℕ) : ℕ :=
  stored c.shared k + (c.tasks.map fun u => (guards c.shared u.stage).count k).sum

/-- An open tunnel has one owner, a closed one has none. -/
def Owned (c : Config Shared Call) : Prop := ∀ k, owners c k = (isOpen c.shared k).toNat

theorem isOpen_close : isOpen (x.close ks) k = (isOpen x k && decide (k ∉ ks)) := by
  simp only [isOpen, Shared.close, List.getElem?_mapIdx]
  cases x.tunnels[k]? with
  | none => rfl
  | some tun => by_cases hk : k ∈ ks <;> simp [hk]

theorem tunnelOf_congr (h : x'.pools = x.pools) : x'.tunnelOf = x.tunnelOf := by
  funext conn
  rw [Shared.tunnelOf, Shared.tunnelOf, h]

theorem guards_congr (h : x'.pools = x.pools) : guards x' = guards x := by
  funext stage
  cases stage <;> simp only [guards, tunnelOf_congr h]

theorem stored_congr (h : x'.pools = x.pools)
    (hm : x'.manager.connections = x.manager.connections) (k : ℕ) : stored x' k = stored x k := by
  rw [stored, stored, tunnelOf_congr h, hm]

/-- A step that closes the tunnels which nobody has after it. -/
theorem Owned.release (h : Owned c) (hi : c.tasks[i]? = some u) (ks : List ℕ)
    (hp : x'.pools = c.shared.pools) (ht : x'.tunnels = (c.shared.close ks).tunnels)
    (hbal : ∀ k, stored x' k + (guards c.shared u'.stage).count k + ks.count k =
      stored c.shared k + (guards c.shared u.stage).count k) : Owned ⟨x', c.tasks.set i u'⟩ := by
  intro k
  have hsum := sum_map_set (fun u => (guards c.shared u.stage).count k) hi u'
  have hle := le_sum_map (fun u => (guards c.shared u.stage).count k) hi
  have hk := h k
  have hb := hbal k
  have hopen : isOpen x' k = (isOpen c.shared k && decide (k ∉ ks)) := by
    rw [← isOpen_close, isOpen, isOpen, ht]
  rw [owners, guards_congr hp, hopen]
  rw [owners] at hk
  dsimp only at hle hb hsum ⊢
  by_cases hmem : k ∈ ks
  · have hpos := List.count_pos_iff.mpr hmem
    have hone := Bool.toNat_le (isOpen c.shared k)
    simp only [hmem, not_true_eq_false, decide_false, Bool.and_false, Bool.toNat_false]
    omega
  · have hzero := List.count_eq_zero.mpr hmem
    simp only [hmem, not_false_eq_true, decide_true, Bool.and_true]
    omega

theorem close_nil (x : Shared) : x.close [] = x := by
  have hsame : (x.tunnels.mapIdx fun _ tun => tun) = x.tunnels :=
    List.ext_getElem? fun k => by simp
  simp [Shared.close, hsame]

/-- A step that moves the guards about. -/
theorem Owned.move (h : Owned c) (hi : c.tasks[i]? = some u) (hp : x'.pools = c.shared.pools)
    (ht : x'.tunnels = c.shared.tunnels)
    (hbal : ∀ k, stored x' k + (guards c.shared u'.stage).count k =
      stored c.shared k + (guards c.shared u.stage).count k) : Owned ⟨x', c.tasks.set i u'⟩ :=
  h.release hi [] hp (ht.trans (by rw [close_nil])) hbal

/-- A step that leaves them where they are. -/
theorem Owned.stay (h : Owned c) (hi : c.tasks[i]? = some u) (hp : x'.pools = c.shared.pools)
    (ht : x'.tunnels = c.shared.tunnels)
    (hm : x'.manager.connections = c.shared.manager.connections)
    (hg : guards c.shared u'.stage = guards c.shared u.stage) : Owned ⟨x', c.tasks.set i u'⟩ :=
  h.move hi hp ht fun k => by rw [stored_congr hp hm, hg]

/-- A tunnel is opened by the call that has its guard. -/
theorem Owned.bind (h : Owned c) (hi : c.tasks[i]? = some u) {tun : Tunnel}
    (hopen : tun.cancelled = false) (hg : guards c.shared u.stage = [])
    (hg' : guards c.shared u'.stage = [c.shared.tunnels.length]) :
    Owned ⟨{ c.shared with tunnels := c.shared.tunnels ++ [tun] }, c.tasks.set i u'⟩ := by
  intro k
  have hsum := sum_map_set (fun u => (guards c.shared u.stage).count k) hi u'
  have hk := h k
  have hown : owners ⟨{ c.shared with tunnels := c.shared.tunnels ++ [tun] }, c.tasks.set i u'⟩ k =
      stored c.shared k +
        ((c.tasks.set i u').map fun u => (guards c.shared u.stage).count k).sum := rfl
  rw [hown]
  rw [owners] at hk
  dsimp only at hsum ⊢
  rw [hg, hg', List.count_nil] at hsum
  rcases Nat.lt_trichotomy k c.shared.tunnels.length with hlt | rfl | hgt
  · have hsame : isOpen { c.shared with tunnels := c.shared.tunnels ++ [tun] } k =
        isOpen c.shared k := by simp [isOpen, List.getElem?_append_left hlt]
    have hne : [c.shared.tunnels.length].count k = 0 := List.count_eq_zero.mpr (by simp; omega)
    rw [hsame]
    omega
  · have hold : isOpen c.shared c.shared.tunnels.length = false := by simp [isOpen]
    have hnew : isOpen { c.shared with tunnels := c.shared.tunnels ++ [tun] }
        c.shared.tunnels.length = true := by simp [isOpen, hopen]
    rw [hold, Bool.toNat_false] at hk
    rw [List.count_singleton_self] at hsum
    rw [hnew, Bool.toNat_true]
    omega
  · have hold : isOpen c.shared k = false := by simp [isOpen, hgt.le]
    have hnone : (c.shared.tunnels ++ [tun])[k]? = none :=
      List.getElem?_eq_none (by rw [List.length_append, List.length_singleton]; omega)
    have hnew : isOpen { c.shared with tunnels := c.shared.tunnels ++ [tun] } k = false := by
      rw [isOpen, hnone]
      rfl
    have hne : [c.shared.tunnels.length].count k = 0 := List.count_eq_zero.mpr (by simp; omega)
    rw [hold] at hk
    rw [hnew]
    omega

def Resolved (r : Request) (config : PgConfig) : Prop :=
  ∃ password, (r.config.auth = .password password ∨ ∃ account, r.config.auth = .keychain account) ∧
    config = { r.config with auth := .password password }

/-- The pool has what its request asked for and a password, and dials the host of the request, or
the local end of the one tunnel that was opened for it. -/
structure Dials (x : Shared) (p : Pool) : Prop where
  resolved : ∃ config, Resolved p.request config ∧
    p.config = { config with host := p.config.host, port := p.config.port }
  direct : p.request.tunnel = none → p.tunnel = none ∧ p.config.host = p.request.config.host ∧
    p.config.port = p.request.config.port
  through : ∀ r, p.request.tunnel = some r → ∃ k tun, p.tunnel = some k ∧ x.tunnels[k]? = some tun ∧
    (tun.remoteHost = r.remoteHost ∧ tun.remotePort = r.remotePort) ∧
      (p.config.host = "127.0.0.1".toList ∧ p.config.port = tun.localPort) ∧
        tun.source.kind = .ssh ∧ (r.sshConnectionId, tun.source) ∈ x.manager.handed

/-- A Postgres connection under an id has the pool that was asked for under this id. -/
def Placed (x : Shared) (y : Text × ManagedConnection) : Prop :=
  y.2.kind = .postgres → ∃ p, x.pools.lookup y.2 = some p ∧ p.request.connectionId = y.1 ∧ Dials x p

def Waits (x : Shared) (request : Option Request) (id : Text) (kind : ProtocolKind)
    (config : Option PgConfig) (guard : Option ℕ) : Prop :=
  if kind = .postgres then ∃ r cfg, request = some r ∧ config = some cfg ∧ r.connectionId = id ∧
    Dials x ⟨r, cfg, guard⟩
  else guard = none

theorem waits_postgres {r : Request} {cfg : PgConfig} {guard : Option ℕ}
    (h : Dials x ⟨r, cfg, guard⟩) : Waits x (some r) r.connectionId .postgres (some cfg) guard :=
  (if_pos rfl).mpr ⟨r, cfg, rfl, rfl, rfl, h⟩

def Prepared (x : Shared) (request : Option Request) : Stage → Prop
  | .resolving | .refused _ | .dropped _ => True
  | .lookingUp config t => ∃ r, request = some r ∧ r.tunnel = some t ∧ Resolved r config
  | .binding config t source => ∃ r, request = some r ∧ r.tunnel = some t ∧ Resolved r config ∧
    source.kind = .ssh ∧ (t.sshConnectionId, source) ∈ x.manager.handed
  | .within (.create id kind) config guard | .within (.selecting id kind _) config guard =>
    Waits x request id kind config guard
  | .within (.opening _ kind) _ guard => kind ≠ .postgres ∧ guard = none
  | .within (.clearing _ _ (.error _)) _ _ => True
  | .within (.publishing id next) _ _ => ∀ conn ∈ next, Placed x (id, conn)
  | .within t _ guard => guard = none ∧ ∀ y ∈ owned t, Placed x y

/-- Nothing is forgotten but that a tunnel was open. -/
structure Extends (x x' : Shared) : Prop where
  tunnels : ∀ (k : ℕ) (tun : Tunnel), x.tunnels[k]? = some tun →
    ∃ b, x'.tunnels[k]? = some { tun with cancelled := b }
  handed : x.manager.handed ⊆ x'.manager.handed
  pools : ∀ conn p, x.pools.lookup conn = some p → x'.pools.lookup conn = some p

theorem Dials.mono (h : Dials x p) (hx : Extends x x') : Dials x' p := by
  refine ⟨h.resolved, h.direct, fun r hr => ?_⟩
  obtain ⟨k, tun, hk, htun, hremote, hdial, hkind, hmem⟩ := h.through r hr
  obtain ⟨b, htun'⟩ := hx.tunnels k tun htun
  exact ⟨k, _, hk, htun', hremote, hdial, hkind, hx.handed hmem⟩

theorem Placed.mono (h : Placed x y) (hx : Extends x x') : Placed x' y := by
  intro hkind
  obtain ⟨p, hp, hid, hdials⟩ := h hkind
  exact ⟨p, hx.pools _ p hp, hid, hdials.mono hx⟩

theorem Waits.mono {r : Option Request} {kind : ProtocolKind} {config : Option PgConfig}
    {guard : Option ℕ} (h : Waits x r id kind config guard) (hx : Extends x x') :
    Waits x' r id kind config guard := by
  unfold Waits at h ⊢
  split
  · rw [if_pos ‹_›] at h
    obtain ⟨r, cfg, hr, hcfg, hid, hdials⟩ := h
    exact ⟨r, cfg, hr, hcfg, hid, hdials.mono hx⟩
  · rwa [if_neg ‹_›] at h

theorem Prepared.mono {r : Option Request} {stage : Stage} (h : Prepared x r stage)
    (hx : Extends x x') : Prepared x' r stage := by
  cases stage with
  | resolving | refused | dropped => trivial
  | lookingUp => exact h
  | binding =>
    obtain ⟨r, hr, ht, hc, hkind, hmem⟩ := h
    exact ⟨r, hr, ht, hc, hkind, hx.handed hmem⟩
  | within t =>
    cases t with
    | create | selecting => exact Waits.mono h hx
    | opening => exact h
    | publishing => exact fun conn hconn => (h conn hconn).mono hx
    | clearing id token result =>
      cases result with
      | error => trivial
      | ok conn => exact ⟨h.1, fun y hy => (h.2 y hy).mono hx⟩
    | _ => exact ⟨h.1, fun y hy => (h.2 y hy).mono hx⟩

theorem resolved_of_ok {r : Request} {config : PgConfig} {answer : KeychainAnswer}
    (h : resolvePgCredentials r.config answer = .ok config) : Resolved r config := by
  unfold resolvePgCredentials at h
  split at h
  · rename_i password hauth
    exact ⟨password, .inl hauth, by rw [← hauth, ← Except.ok.inj h]⟩
  · rename_i account hauth
    split at h
    · cases h
    · cases h
    · cases h
    · exact ⟨_, .inr ⟨account, hauth⟩, (Except.ok.inj h).symm⟩

variable {r : Option Request} {config : Option PgConfig} {guard : Option ℕ} {m' : Manager}
  {ev : ConnectionManager.Event}

theorem settle_tunnels (x : Shared) (r : Option Request) (config : Option PgConfig)
    (guard : Option ℕ) (t t' : ConnectionManager.Task) :
    ∃ ks, (settle x r config guard t t').1.tunnels = (x.close ks).tunnels := by
  have hkeep : ∃ ks, x.tunnels = (x.close ks).tunnels := ⟨[], by rw [close_nil]⟩
  unfold settle
  split
  · exact hkeep
  · exact hkeep
  · split <;> exact hkeep
  · exact ⟨_, rfl⟩
  · exact hkeep
  · exact ⟨_, rfl⟩
  · exact ⟨_, rfl⟩
  · exact ⟨_, rfl⟩
  · exact hkeep

/-- A pool is noted where a Postgres connect succeeds. -/
theorem settle_pools (r : Option Request) (config : Option PgConfig) (guard : Option ℕ)
    (h : ConnectionManager.Transition x.manager ev t m' t') :
    (settle x r config guard t t').1.pools = x.pools ∨ ∃ id token r' cfg,
      t = .selecting id .postgres token ∧ r = some r' ∧ config = some cfg ∧
        t' = .clearing id token (.ok ⟨.postgres, x.manager.opened⟩) ∧
          m' = (x.manager.openConnection .postgres).1 ∧ settle x r config guard t t' =
            ({ x with pools := (⟨.postgres, x.manager.opened⟩, ⟨r', cfg, guard⟩) :: x.pools },
              none, none) := by
  cases h with
  | @connected id kind token =>
    cases kind with
    | postgres =>
      cases r with
      | none => exact .inl rfl
      | some r =>
        cases config with
        | none => exact .inl rfl
        | some cfg => exact .inr ⟨id, token, r, cfg, rfl, rfl, rfl, rfl, rfl, rfl⟩
    | _ => exact .inl rfl
  | _ => exact .inl rfl

theorem handed_grows {m : Manager} (h : ConnectionManager.Transition m ev t m' t') :
    m.handed ⊆ m'.handed := by
  cases h with
  | cleared | opened => exact List.subset_cons_self _ _
  | answered => rw [Manager.cancelPendingConnection_handed]; exact List.Subset.refl _
  | _ => exact List.Subset.refl _

theorem opened_grows {m : Manager} (h : ConnectionManager.Transition m ev t m' t') :
    m.opened ≤ m'.opened := by
  cases h with
  | connected | opened => exact Nat.le_succ _
  | answered => rw [Manager.cancelPendingConnection_opened]
  | _ => exact Nat.le_refl _

theorem Extends.of_close (ht : x'.tunnels = (x.close ks).tunnels)
    (hm : x.manager.handed ⊆ x'.manager.handed)
    (hp : ∀ conn p, x.pools.lookup conn = some p → x'.pools.lookup conn = some p) :
    Extends x x' := by
  refine ⟨fun k tun hk => ?_, hm, hp⟩
  rw [ht, Shared.close, List.getElem?_mapIdx, hk]
  by_cases hmem : k ∈ ks
  · exact ⟨true, by simp [hmem]⟩
  · exact ⟨tun.cancelled, by simp [hmem]⟩

/-- No pool is noted yet of a connection that the manager has not opened. -/
theorem lookup_unopened (h : ∀ y ∈ x.pools, y.1.number < x.manager.opened)
    (hconn : x.manager.opened ≤ conn.number) : x.pools.lookup conn = none := by
  rw [List.lookup_eq_none_iff]
  intro y hy
  have hlt := h y hy
  simp only [bne_iff_ne, ne_eq]
  rintro rfl
  omega

theorem extends_moved (r : Option Request) (config : Option PgConfig) (guard : Option ℕ)
    (hbelow : ∀ y ∈ x.pools, y.1.number < x.manager.opened)
    (h : ConnectionManager.Transition x.manager ev t m' t') :
    Extends x (moved x r config guard t m' t') := by
  obtain ⟨ks, hks⟩ := settle_tunnels x r config guard t t'
  refine .of_close hks (handed_grows h) fun conn p hp => ?_
  rcases settle_pools r config guard h with hsame | hnew
  · exact (congrArg (List.lookup conn) hsame).trans hp
  · obtain ⟨id, token, r', cfg, rfl, rfl, rfl, rfl, rfl, hsettle⟩ := hnew
    have hne : (conn == ⟨.postgres, x.manager.opened⟩) = false := by
      rw [beq_eq_false_iff_ne]
      rintro rfl
      rw [lookup_unopened hbelow le_rfl] at hp
      cases hp
    simp only [moved, hsettle, List.lookup_cons, hne]
    exact hp

theorem prepared_disconnect {old : ManagedConnection} {next : Option ManagedConnection}
    (hg : guard = none) (h : ∀ y ∈ (id, old) :: next.toList.map (id, ·), Placed x y) :
    Prepared x r (.within (disconnectManagedConnection id old next) config guard) := by
  unfold disconnectManagedConnection
  split <;> exact ⟨hg, h⟩

theorem prepared_connected {token : Token} {kind : ProtocolKind}
    (hbelow : ∀ y ∈ x.pools, y.1.number < x.manager.opened)
    (h : Waits x r id kind config guard)
    (hs : ConnectionManager.Transition x.manager ev (.selecting id kind token)
      (x.manager.openConnection kind).1 (.clearing id token (.ok ⟨kind, x.manager.opened⟩))) :
    Prepared (moved x r config guard (.selecting id kind token) (x.manager.openConnection kind).1
        (.clearing id token (.ok ⟨kind, x.manager.opened⟩))) r
      (.within (.clearing id token (.ok ⟨kind, x.manager.opened⟩))
        (settle x r config guard (.selecting id kind token)
          (.clearing id token (.ok ⟨kind, x.manager.opened⟩))).2.1
        (settle x r config guard (.selecting id kind token)
          (.clearing id token (.ok ⟨kind, x.manager.opened⟩))).2.2) := by
  have hx := extends_moved r config guard hbelow hs
  cases kind with
  | postgres =>
    obtain ⟨r, cfg, rfl, rfl, rfl, hdials⟩ := h
    refine ⟨rfl, fun y hy _ => ?_⟩
    obtain rfl := List.mem_singleton.mp hy
    exact ⟨_, List.lookup_cons_self, rfl, hdials.mono hx⟩
  | _ =>
    refine ⟨h, fun y hy hkind => ?_⟩
    obtain rfl := List.mem_singleton.mp hy
    cases hkind

theorem prepared_moved (hbelow : ∀ y ∈ x.pools, y.1.number < x.manager.opened)
    (hreg : ∀ id conn, x.manager.connections.lookup id = some conn → Placed x (id, conn))
    (h : Prepared x r (.within t config guard))
    (hs : ConnectionManager.Transition x.manager ev t m' t') :
    Prepared (moved x r config guard t m' t') r
      (.within t' (settle x r config guard t t').2.1 (settle x r config guard t t').2.2) := by
  have hx := extends_moved r config guard hbelow hs
  have hkept {ys : List (Text × ManagedConnection)} (h : ∀ y ∈ ys, Placed x y) :
      ∀ y ∈ ys, Placed (moved x r config guard t m' t') y := fun y hy => (h y hy).mono hx
  cases hs with
  | registered => exact Waits.mono h hx
  | @notCancellable id kind hkind =>
    have hne : kind ≠ .postgres := by
      rintro rfl
      cases hkind
    exact ⟨hne, (if_neg hne).mp h⟩
  | sawCancel | connectFailed => trivial
  | connected hc he => exact prepared_connected hbelow h (.connected hc he)
  | clearedFailure | disconnectFailed | closed | inserted => exact ⟨rfl, nofun⟩
  | cleared | nothingToReplace | purgedSession | purgedGeneration => exact ⟨h.1, hkept h.2⟩
  | openFailed => exact ⟨h.2, nofun⟩
  | opened =>
    refine ⟨h.2, fun y hy hkind => ?_⟩
    obtain rfl := List.mem_singleton.mp hy
    exact absurd hkind h.1
  | @removedPrevious id conn old hl =>
    refine prepared_disconnect h.1 (hkept (List.forall_mem_cons.mpr ⟨hreg id old hl, ?_⟩))
    exact h.2
  | @taken id expected old hl =>
    exact prepared_disconnect h.1 (hkept (List.forall_mem_cons.mpr ⟨hreg id old hl, nofun⟩))
  | @disconnected id old next =>
    intro conn hconn
    refine (h.2 (id, conn) (List.mem_cons_of_mem _ ?_)).mono hx
    exact List.mem_map_of_mem (Option.mem_toList.mpr hconn)
  | @previousClosed id conn =>
    refine ⟨rfl, hkept fun y hy => ?_⟩
    obtain rfl := List.mem_singleton.mp hy
    exact h conn rfl
  | _ => exact ⟨h.1, nofun⟩

/-- What is in the map was there, or is being inserted. -/
theorem registered_cases {m : Manager} (h : ConnectionManager.Transition m ev t m' t')
    (hl : m'.connections.lookup id = some conn) :
    m.connections.lookup id = some conn ∨ t = .inserting id conn := by
  cases h with
  | removedPrevious | taken => exact .inl (lookup_of_erase hl).2
  | @inserted id' conn' =>
    by_cases hid : id = id'
    · subst hid
      rw [Manager.insertConnection, AList.lookup_insert] at hl
      exact .inr (by rw [Option.some.inj hl])
    · exact .inl ((AList.lookup_insert_ne hid).symm.trans hl)
  | answered => exact .inl (by rwa [Manager.cancelPendingConnection_connections] at hl)
  | _ => exact .inl hl

theorem stored_remove {old : ManagedConnection} (hl : x.manager.connections.lookup id = some old)
    (k : ℕ) : stored { x with manager := x.manager.removeConnection id } k +
      (x.tunnelOf old).toList.count k = stored x k := by
  rw [stored, tunnelOf_congr rfl]
  exact weigh_erase hl

theorem guards_connections (t : ConnectionManager.Task) (hg : guard = none) :
    guards x (.within t config guard) = (owned t).filterMap fun y => x.tunnelOf y.2 := by
  rw [hg]
  rfl

theorem filterMap_tunnelOf (ys : List ManagedConnection) :
    (ys.map (id, ·)).filterMap (fun y => x.tunnelOf y.2) = ys.filterMap x.tunnelOf := by
  rw [List.filterMap_map]
  rfl

theorem count_filterMap_cons {α : Type} (f : α → Option ℕ) (a : α) (l : List α) (k : ℕ) :
    ((a :: l).filterMap f).count k = (f a).toList.count k + (l.filterMap f).count k := by
  cases h : f a with
  | none => simp [h]
  | some b => simp [h, List.count_cons, Nat.add_comm]

theorem owned_disconnect {old : ManagedConnection} {next : Option ManagedConnection} :
    owned (disconnectManagedConnection id old next) = (id, old) :: next.toList.map (id, ·) := by
  rw [← held_disconnect]
  unfold disconnectManagedConnection
  split <;> rfl

/-- A call takes a connection out of the map. -/
theorem Owned.take {old : ManagedConnection} {next : Option ManagedConnection} (h : Owned c)
    (hi : c.tasks[i]? = some ⟨r, .within t config none⟩)
    (hl : c.shared.manager.connections.lookup id = some old)
    (ht : owned t = next.toList.map (id, ·)) :
    Owned ⟨{ c.shared with manager := c.shared.manager.removeConnection id },
      c.tasks.set i ⟨r, .within (disconnectManagedConnection id old next) config none⟩⟩ := by
  refine h.move hi rfl rfl fun k => ?_
  have hstored := stored_remove hl k
  rw [guards_connections _ rfl, guards_connections _ rfl, owned_disconnect, count_filterMap_cons, ht]
  dsimp only at hstored ⊢
  omega

/-- `insert` puts a connection into the map, and closes the tunnel of the one it drops. -/
theorem Owned.insert (h : Owned c) (hi : c.tasks[i]? = some ⟨r, .within (.inserting id conn) config none⟩) :
    Owned ⟨moved c.shared r config none (.inserting id conn)
        (c.shared.manager.insertConnection id conn) (.announcing id),
      c.tasks.set i ⟨r, .within (.announcing id) none none⟩⟩ := by
  refine h.release hi _ rfl rfl fun k => ?_
  have hown : (guards c.shared (.within (.inserting id conn) config none)).count k =
      (c.shared.tunnelOf conn).toList.count k := by
    have hone : owned (.inserting id conn) = [(id, conn)] := rfl
    rw [guards_connections _ rfl, hone, count_filterMap_cons]
    rfl
  have hnone : (guards c.shared (.within (.announcing id) none none)).count k = 0 := rfl
  have hstored : stored (moved c.shared r config none (.inserting id conn)
      (c.shared.manager.insertConnection id conn) (.announcing id)) k =
      weigh (fun conn => (c.shared.tunnelOf conn).toList.count k)
        (c.shared.manager.connections.insert id conn) := rfl
  rw [hown, hnone, hstored]
  cases hl : c.shared.manager.connections.lookup id with
  | none =>
    have hw := weigh_insert_none (w := fun conn => (c.shared.tunnelOf conn).toList.count k) hl conn
    simp only [Option.toList_none, List.filterMap_nil, List.count_nil, stored]
    omega
  | some old =>
    have hw := weigh_insert_some (w := fun conn => (c.shared.tunnelOf conn).toList.count k) hl conn
    simp only [Option.toList_some, count_filterMap_cons, List.filterMap_nil, List.count_nil, stored]
    omega

theorem lookup_unregistered {c : Config Manager ConnectionManager.Task} (h : Custody c)
    (hl : c.shared.connections.lookup id = some conn) : conn.number < c.shared.opened :=
  Custody.below_handed h (Custody.registered h hl)

/-- A pool is noted with the guard of its tunnel. -/
theorem Owned.attach {token : Token} {r : Request} {cfg : PgConfig} (h : Owned c)
    (hcustody : Custody (project c))
    (hi : c.tasks[i]? = some ⟨some r, .within (.selecting id .postgres token) (some cfg) guard⟩) :
    Owned ⟨{ c.shared with
        pools := (⟨.postgres, c.shared.manager.opened⟩, ⟨r, cfg, guard⟩) :: c.shared.pools
        manager := (c.shared.manager.openConnection .postgres).1 },
      c.tasks.set i ⟨some r, .within
        (.clearing id token (.ok ⟨.postgres, c.shared.manager.opened⟩)) none none⟩⟩ := by
  set x' : Shared := { c.shared with
    pools := (⟨.postgres, c.shared.manager.opened⟩, ⟨r, cfg, guard⟩) :: c.shared.pools
    manager := (c.shared.manager.openConnection .postgres).1 } with hx'
  have htunnel (conn : ManagedConnection) (hlt : conn.number < c.shared.manager.opened) :
      x'.tunnelOf conn = c.shared.tunnelOf conn := by
    have hne : (conn == ⟨.postgres, c.shared.manager.opened⟩) = false := by
      rw [beq_eq_false_iff_ne]
      rintro rfl
      exact Nat.lt_irrefl _ hlt
    simp only [Shared.tunnelOf, hx', List.lookup_cons, hne]
  have hstored (k : ℕ) : stored x' k = stored c.shared k := by
    refine congrArg List.sum (List.map_congr_left fun y hy => ?_)
    dsimp only
    rw [htunnel y.2 (lookup_unregistered hcustody (lookup_of_mem hy))]
  have hguards (u : Call) (hu : u ∈ c.tasks) : guards x' u.stage = guards c.shared u.stage := by
    obtain ⟨q, stage⟩ := u
    cases stage with
    | within t config guard =>
      refine congrArg (guard.toList ++ ·) (List.filterMap_congr fun y hy => htunnel y.2 ?_)
      exact Custody.below_owned hcustody (List.mem_map_of_mem (f := Call.task) hu) hy
    | _ => rfl
  intro k
  have hnew : guards x' (.within (.clearing id token (.ok ⟨.postgres, c.shared.manager.opened⟩))
      none none) = guard.toList := by
    cases guard <;> simp [guards, owned, Shared.tunnelOf, hx']
  have hold : guards x' (.within (.selecting id .postgres token) (some cfg) guard) = guard.toList := by
    simp [guards, owned, held]
  have hsum := sum_map_set (fun u : Call => (guards x' u.stage).count k) hi
    ⟨some r, .within (.clearing id token (.ok ⟨.postgres, c.shared.manager.opened⟩)) none none⟩
  have hsame : (c.tasks.map fun u => (guards x' u.stage).count k).sum =
      (c.tasks.map fun u => (guards c.shared u.stage).count k).sum :=
    congrArg List.sum (List.map_congr_left fun u hu => by rw [hguards u hu])
  have hk := h k
  rw [owners] at hk ⊢
  dsimp only at hsum ⊢
  rw [hnew, hold, hsame] at hsum
  rw [hstored]
  have hopen : isOpen x' k = isOpen c.shared k := rfl
  rw [hopen]
  omega

/-- A call drops its guard. -/
theorem Owned.letGo (h : Owned c) (hi : c.tasks[i]? = some ⟨r, .within t config guard⟩)
    (ho : owned t' = owned t) (hp : x'.pools = c.shared.pools)
    (ht : x'.tunnels = (c.shared.close guard.toList).tunnels)
    (hm : x'.manager.connections = c.shared.manager.connections) :
    Owned ⟨x', c.tasks.set i ⟨r, .within t' none none⟩⟩ := by
  refine h.release hi guard.toList hp ht fun k => ?_
  have hbefore : (guards c.shared (.within t config guard)).count k = guard.toList.count k +
      ((owned t).filterMap fun y => c.shared.tunnelOf y.2).count k := List.count_append
  rw [stored_congr hp hm, hbefore, guards_connections t' rfl, ho]
  omega

/-- A connection is disconnected; its guard stays with the call to the end of the function. -/
theorem Owned.disconnect {old : ManagedConnection} {next : Option ManagedConnection} (h : Owned c)
    (hi : c.tasks[i]? = some ⟨r, .within (.disconnecting id old next) config none⟩) :
    Owned ⟨moved c.shared r config none (.disconnecting id old next)
        (c.shared.manager.disconnect old) (.publishing id next),
      c.tasks.set i ⟨r, .within (.publishing id next) none (c.shared.tunnelOf old)⟩⟩ := by
  refine h.move hi rfl rfl fun k => ?_
  have hafter : (guards c.shared (.within (.publishing id next) none (c.shared.tunnelOf old))).count k =
      (c.shared.tunnelOf old).toList.count k +
        ((next.toList.map (id, ·)).filterMap fun y => c.shared.tunnelOf y.2).count k :=
    List.count_append
  have hbefore : (guards c.shared (.within (.disconnecting id old next) config none)).count k =
      (c.shared.tunnelOf old).toList.count k +
        ((next.toList.map (id, ·)).filterMap fun y => c.shared.tunnelOf y.2).count k :=
    count_filterMap_cons (fun y : Text × ManagedConnection => c.shared.tunnelOf y.2) (id, old) _ k
  rw [hafter, hbefore]
  rfl

/-- A disconnect fails, and both connections of the call are dropped. -/
theorem Owned.disconnectFailed {old : ManagedConnection} {next : Option ManagedConnection}
    {message : Text} (h : Owned c)
    (hi : c.tasks[i]? = some ⟨r, .within (.disconnecting id old next) config none⟩) :
    Owned ⟨moved c.shared r config none (.disconnecting id old next)
        (c.shared.manager.disconnect old) (.failed message),
      c.tasks.set i ⟨r, .within (.failed message) none none⟩⟩ := by
  refine h.release hi ((old :: next.toList).filterMap c.shared.tunnelOf) rfl rfl fun k => ?_
  have hafter : (guards c.shared (.within (.failed message) none none)).count k = 0 := rfl
  have hbefore : (guards c.shared (.within (.disconnecting id old next) config none)).count k =
      ((old :: next.toList).filterMap c.shared.tunnelOf).count k := by
    have howned : owned (.disconnecting id old next) = (old :: next.toList).map (id, ·) := rfl
    rw [guards_connections _ rfl, howned, filterMap_tunnelOf]
  rw [hafter, hbefore]
  rfl

/-- No tunnel goes with a connection that was opened just now. -/
theorem tunnelOf_unopened (h : ∀ y ∈ x.pools, y.1.number < x.manager.opened) (kind : ProtocolKind) :
    x.tunnelOf ⟨kind, x.manager.opened⟩ = none := by
  rw [Shared.tunnelOf, lookup_unopened h le_rfl]
  rfl

theorem Owned.advance (h : Owned c) (hcustody : Custody (project c))
    (hbelow : ∀ y ∈ c.shared.pools, y.1.number < c.shared.manager.opened)
    (hi : c.tasks[i]? = some ⟨r, .within t config guard⟩)
    (hp : Prepared c.shared r (.within t config guard))
    (hs : ConnectionManager.Transition c.shared.manager ev t m' t') :
    Owned ⟨moved c.shared r config guard t m' t', c.tasks.set i ⟨r, .within t'
      (settle c.shared r config guard t t').2.1 (settle c.shared r config guard t t').2.2⟩⟩ := by
  have hone (y : Text × ManagedConnection) (hy : c.shared.tunnelOf y.2 = none) :
      [y].filterMap (fun y => c.shared.tunnelOf y.2) = [] := by simp [hy]
  cases hs with
  | @connected id kind token =>
    cases kind with
    | postgres =>
      obtain ⟨r, cfg, rfl, rfl, -, -⟩ := hp
      exact h.attach hcustody hi
    | _ =>
      refine h.stay hi rfl rfl rfl (congrArg (guard.toList ++ ·) ?_)
      exact hone (_, _) (tunnelOf_unopened hbelow _)
  | opened =>
    refine h.stay hi rfl rfl rfl (congrArg (guard.toList ++ ·) ?_)
    exact hone (_, _) (tunnelOf_unopened hbelow _)
  | clearedFailure | closed | previousClosed => exact h.letGo hi rfl rfl rfl rfl
  | removedPrevious hl | taken hl =>
    obtain ⟨rfl, -⟩ := hp
    exact h.take hi hl rfl
  | disconnected =>
    obtain ⟨rfl, -⟩ := hp
    exact h.disconnect hi
  | disconnectFailed =>
    obtain ⟨rfl, -⟩ := hp
    exact h.disconnectFailed hi
  | inserted =>
    obtain ⟨rfl, -⟩ := hp
    exact h.insert hi
  | answered => exact h.stay hi rfl rfl (by simp [moved]) rfl
  | _ => exact h.stay hi rfl rfl rfl rfl

structure Sound (c : Config Shared Call) : Prop where
  custody : Custody (project c)
  owned : Owned c
  prepared : ∀ u ∈ c.tasks, Prepared c.shared u.request u.stage
  registered : ∀ id conn, c.shared.manager.connections.lookup id = some conn →
    Placed c.shared (id, conn)
  below : ∀ y ∈ c.shared.pools, y.1.number < c.shared.manager.opened
  asked : ∀ y ∈ c.shared.pools, ∃ u ∈ c.tasks, u.request = some y.2.request

theorem sound_new : Sound ⟨.new, []⟩ where
  custody := custody_new
  owned k := by simp [owners, stored, isOpen, Shared.new, Manager.new]
  prepared _ hu := absurd hu List.not_mem_nil
  registered id conn hl := by simp [Shared.new, Manager.new] at hl
  below _ hy := absurd hy List.not_mem_nil
  asked _ hy := absurd hy List.not_mem_nil

theorem Sound.spawn (h : Sound c) (hact : connects.act c (.spawn u) = some ⟨c.shared, c.tasks ++ [u]⟩)
    (hs : PostgresConnects.starts u = true) : Sound ⟨c.shared, c.tasks ++ [u]⟩ := by
  obtain ⟨r, stage⟩ := u
  have hstart : Prepared c.shared r stage ∧ guards c.shared stage = [] := by
    unfold PostgresConnects.starts at hs
    split at hs
    · rename_i heq
      obtain rfl := heq
      exact ⟨trivial, rfl⟩
    · rename_i heq
      obtain rfl := heq
      have hne := bne_iff_ne.mp hs
      exact ⟨(if_neg hne).mpr rfl, rfl⟩
    · rename_i t hcreate hreq heq
      obtain rfl := heq
      cases t with
      | create id kind => exact absurd rfl (hcreate id kind)
      | close | startPty | closePty | cancelPending => exact ⟨⟨rfl, nofun⟩, rfl⟩
      | _ => cases hs
    · cases hs
  refine ⟨custody_project h.custody hact, fun k => ?_, fun v hv => ?_, h.registered, h.below,
    fun y hy => ?_⟩
  · have hk := h.owned k
    simp only [owners, List.map_append, List.sum_append, List.map_singleton, List.sum_singleton,
      hstart.2, List.count_nil, Nat.add_zero] at hk ⊢
    exact hk
  · rcases List.mem_append.mp hv with hv | hv
    · exact h.prepared v hv
    · obtain rfl := List.mem_singleton.mp hv
      exact hstart.1
  · obtain ⟨v, hv, hr⟩ := h.asked y hy
    exact ⟨v, List.mem_append_left _ hv, hr⟩

/-- A step that leaves the manager and the pools. -/
theorem Sound.step_outside (h : Sound c) (hi : c.tasks[i]? = some u)
    (hcustody : Custody (project ⟨x', c.tasks.set i u'⟩)) (howned : Owned ⟨x', c.tasks.set i u'⟩)
    (hx : Extends c.shared x') (hm : x'.manager = c.shared.manager)
    (hp : x'.pools = c.shared.pools) (hr : u'.request = u.request)
    (hu : Prepared x' u'.request u'.stage) : Sound ⟨x', c.tasks.set i u'⟩ := by
  refine ⟨hcustody, howned, fun v hv => ?_, fun id conn hl => ?_, fun y hy => ?_, fun y hy => ?_⟩
  · rcases List.mem_or_eq_of_mem_set hv with hv | rfl
    · exact (h.prepared v hv).mono hx
    · exact hu
  · rw [hm] at hl
    exact (h.registered id conn hl).mono hx
  · rw [hm]
    exact h.below y (hp ▸ hy)
  · obtain ⟨v, hv, hreq⟩ := h.asked y (hp ▸ hy)
    rcases mem_set_or_eq hi hv u' with hv | rfl
    · exact ⟨v, hv, hreq⟩
    · exact ⟨u', mem_set_self hi u', hr.trans hreq⟩

theorem Sound.moved (h : Sound c) (hi : c.tasks[i]? = some ⟨r, .within t config guard⟩)
    (hcustody : Custody (project ⟨moved c.shared r config guard t m' t', c.tasks.set i ⟨r, .within t'
      (settle c.shared r config guard t t').2.1 (settle c.shared r config guard t t').2.2⟩⟩))
    (hs : ConnectionManager.Transition c.shared.manager ev t m' t') :
    Sound ⟨moved c.shared r config guard t m' t', c.tasks.set i ⟨r, .within t'
      (settle c.shared r config guard t t').2.1 (settle c.shared r config guard t t').2.2⟩⟩ := by
  have hp := h.prepared _ (List.mem_of_getElem? hi)
  have hx := extends_moved r config guard h.below hs
  have hkeeps (v : Call) (hv : v ∈ c.tasks) : ∃ w ∈ c.tasks.set i ⟨r, .within t'
      (settle c.shared r config guard t t').2.1 (settle c.shared r config guard t t').2.2⟩,
      w.request = v.request := by
    rcases mem_set_or_eq hi hv _ with hv | rfl
    · exact ⟨v, hv, rfl⟩
    · exact ⟨_, mem_set_self hi _, rfl⟩
  refine ⟨hcustody, h.owned.advance h.custody h.below hi hp hs, fun v hv => ?_, fun id conn hl => ?_,
    fun y hy => ?_, fun y hy => ?_⟩
  · rcases List.mem_or_eq_of_mem_set hv with hv | rfl
    · exact (h.prepared v hv).mono hx
    · exact prepared_moved h.below h.registered hp hs
  · rcases registered_cases hs hl with hl | rfl
    · exact (h.registered id conn hl).mono hx
    · exact (hp.2 (id, conn) (List.mem_singleton_self _)).mono hx
  · rcases settle_pools r config guard hs with hsame | hnew
    · exact (h.below y (hsame ▸ hy)).trans_le (opened_grows hs)
    · obtain ⟨id, token, r', cfg, rfl, rfl, rfl, rfl, rfl, hsettle⟩ := hnew
      simp only [TunneledPools.moved, hsettle] at hy
      rcases List.mem_cons.mp hy with rfl | hy
      · exact Nat.lt_succ_self _
      · exact (h.below y hy).trans (Nat.lt_succ_self _)
  · rcases settle_pools r config guard hs with hsame | hnew
    · obtain ⟨v, hv, hr⟩ := h.asked y (hsame ▸ hy)
      obtain ⟨w, hw, hreq⟩ := hkeeps v hv
      exact ⟨w, hw, hreq.trans hr⟩
    · obtain ⟨id, token, r', cfg, rfl, rfl, rfl, rfl, rfl, hsettle⟩ := hnew
      simp only [TunneledPools.moved, hsettle] at hy
      rcases List.mem_cons.mp hy with rfl | hy
      · exact ⟨_, mem_set_self hi _, rfl⟩
      · obtain ⟨v, hv, hr⟩ := h.asked y hy
        obtain ⟨w, hw, hreq⟩ := hkeeps v hv
        exact ⟨w, hw, hreq.trans hr⟩

theorem Sound.act (h : Sound c) (hact : connects.act c a = some c') : Sound c' := by
  have hcustody := custody_project h.custody hact
  obtain ⟨u, rfl, hs, rfl⟩ | ⟨i, e, u, x', u', rfl, hi, hs, rfl⟩ := act_cases hact
  · exact h.spawn hact hs
  · have hp := h.prepared u (List.mem_of_getElem? hi)
    have hrefl : Extends c.shared c.shared :=
      .of_close (by rw [close_nil]) (List.Subset.refl _) fun _ _ hp => hp
    have hstays (hg : guards c.shared u'.stage = guards c.shared u.stage) :
        Owned ⟨c.shared, c.tasks.set i u'⟩ := h.owned.stay hi rfl rfl rfl hg
    cases step_transition hs with
    | dropped =>
      refine h.step_outside hi hcustody ?_ (.of_close rfl (List.Subset.refl _) fun _ _ hp => hp)
        rfl rfl rfl trivial
      exact h.owned.release hi _ rfl rfl fun k => rfl
    | unresolved => exact h.step_outside hi hcustody (hstays rfl) hrefl rfl rfl rfl trivial
    | @direct r config hc ht =>
      refine h.step_outside hi hcustody (hstays rfl) hrefl rfl rfl rfl ?_
      refine waits_postgres ⟨⟨config, resolved_of_ok hc, rfl⟩, ?_, ?_⟩
      · obtain ⟨password, -, rfl⟩ := resolved_of_ok hc
        exact fun _ => ⟨rfl, rfl, rfl⟩
      · intro r' hr'
        cases ht.symm.trans hr'
    | @tunneled r config t hc ht =>
      refine h.step_outside hi hcustody (hstays rfl) hrefl rfl rfl rfl ?_
      exact ⟨r, rfl, ht, resolved_of_ok hc⟩
    | sourceMissing => exact h.step_outside hi hcustody (hstays rfl) hrefl rfl rfl rfl trivial
    | @source r config t source hsource =>
      refine h.step_outside hi hcustody (hstays rfl) hrefl rfl rfl rfl ?_
      obtain ⟨r, rfl, ht, hc⟩ := hp
      obtain ⟨hl, hkind⟩ := Option.filter_eq_some_iff.mp hsource
      exact ⟨r, rfl, ht, hc, of_decide_eq_true hkind, Custody.registered h.custody hl⟩
    | unbound => exact h.step_outside hi hcustody (hstays rfl) hrefl rfl rfl rfl trivial
    | @bound r config t source localPort =>
      obtain ⟨r', hr', ht, hc, hkind, hmem⟩ := hp
      obtain rfl := Option.some.inj hr'
      have hx : Extends c.shared { c.shared with
          tunnels := c.shared.tunnels ++ [⟨source, t.remoteHost, t.remotePort, localPort, false⟩] } := by
        refine ⟨fun k tun hk => ⟨tun.cancelled, ?_⟩, List.Subset.refl _, fun _ _ hp => hp⟩
        rw [List.getElem?_append_left (List.getElem?_eq_some_iff.mp hk).1]
        exact hk
      refine h.step_outside hi hcustody (h.owned.bind hi rfl rfl rfl) hx rfl rfl rfl ?_
      refine waits_postgres ⟨⟨config, hc, rfl⟩, fun hno => ?_, fun q hq => ?_⟩
      · cases ht.symm.trans hno
      · obtain rfl := Option.some.inj (ht.symm.trans hq)
        exact ⟨_, _, rfl, List.getElem?_concat_length, ⟨rfl, rfl⟩, ⟨rfl, rfl⟩, hkind, hmem⟩
    | moved hstep => exact h.moved hi hcustody (ConnectionManager.step_transition hstep)

theorem run_sound (hr : connects.run ⟨.new, []⟩ as = some d) : Sound d :=
  run_always Sound (fun _ _ _ h hact => h.act hact) sound_new hr

/-- When no call is left, nobody has a guard but the map. -/
theorem guards_done (hp : Prepared x u.request u.stage) (hdone : u.done = true) :
    guards x u.stage = [] := by
  obtain ⟨r, stage⟩ := u
  cases stage with
  | within t config guard =>
    cases t with
    | started | answered | finished | failed =>
      obtain ⟨rfl, -⟩ := hp
      rfl
    | _ => cases hdone
  | _ => rfl

/-- A registered connection is an owner of its tunnel. -/
theorem stored_pos (hl : x.manager.connections.lookup id = some conn) (hk : x.tunnelOf conn = some k) :
    0 < stored x k := by
  have hle := le_weigh (w := fun conn => (x.tunnelOf conn).toList.count k) hl
  have hone : (x.tunnelOf conn).toList.count k = 1 := by simp [hk]
  exact Nat.lt_of_lt_of_le (by simp only [hone]; exact Nat.one_pos) hle

/-- What the map has of a tunnel is a registered connection. -/
theorem exists_of_stored (h : 0 < stored x k) :
    ∃ id conn, x.manager.connections.lookup id = some conn ∧ x.tunnelOf conn = some k := by
  by_contra hno
  have hzero : stored x k = 0 := by
    refine List.sum_eq_zero fun n hn => ?_
    obtain ⟨y, hy, rfl⟩ := List.mem_map.mp hn
    refine List.count_eq_zero.mpr fun hmem => hno ⟨y.1, y.2, lookup_of_mem hy, ?_⟩
    exact Option.mem_toList.mp hmem
  omega

/-- However the calls and what they wait for interleave, and wherever calls are dropped: the pool
of a registered Postgres connection was asked for under its id, has a password, and dials its host
or the open tunnel that was opened for it and for no other connection; and when no call is left,
the open tunnels are those of registered connections. -/
theorem tunnels_owned (hr : connects.run ⟨.new, []⟩ as = some d) :
    (∀ id conn, d.shared.manager.connections.lookup id = some conn → conn.kind = .postgres →
      ∃ p, d.shared.pools.lookup conn = some p ∧ p.request.connectionId = id ∧
        (∃ u ∈ d.tasks, u.request = some p.request) ∧ Dials d.shared p ∧
          ∀ k, p.tunnel = some k → isOpen d.shared k = true) ∧
    (∀ id conn id' conn' k, d.shared.manager.connections.lookup id = some conn →
      d.shared.manager.connections.lookup id' = some conn' → d.shared.tunnelOf conn = some k →
        d.shared.tunnelOf conn' = some k → id = id') ∧
    ((∀ u ∈ d.tasks, u.done = true) → ∀ k, isOpen d.shared k = true →
      ∃ id conn, d.shared.manager.connections.lookup id = some conn ∧
        d.shared.tunnelOf conn = some k) := by
  have h := run_sound hr
  refine ⟨fun id conn hl hkind => ?_, fun id conn id' conn' k hl hl' hk hk' => ?_, fun hdone k hk => ?_⟩
  · obtain ⟨p, hp, hid, hdials⟩ := h.registered id conn hl hkind
    have hmem : (conn, p) ∈ d.shared.pools := by
      obtain ⟨l₁, l₂, heq, -⟩ := List.lookup_eq_some_iff.mp hp
      rw [heq]
      exact List.mem_append_right _ List.mem_cons_self
    refine ⟨p, hp, hid, h.asked _ hmem, hdials, fun k hk => ?_⟩
    have htunnel : d.shared.tunnelOf conn = some k := by
      rw [Shared.tunnelOf, hp]
      exact hk
    have hpos := stored_pos hl htunnel
    have hown := h.owned k
    rw [owners] at hown
    by_contra hclosed
    rw [Bool.eq_false_of_not_eq_true hclosed, Bool.toNat_false] at hown
    omega
  · by_contra hne
    have htwo := add_le_weigh (w := fun conn => (d.shared.tunnelOf conn).toList.count k) hl hl' hne
    have hone : (some k).toList.count k = 1 := by simp
    have hown := h.owned k
    have hle := Bool.toNat_le (isOpen d.shared k)
    rw [owners, stored] at hown
    simp only [hk, hk', hone] at htwo
    omega
  · refine exists_of_stored ?_
    have hown := h.owned k
    have hnone : (d.tasks.map fun u => (guards d.shared u.stage).count k).sum = 0 :=
      sum_map_eq_zero _ fun u hu => by rw [guards_done (h.prepared u hu) (hdone u hu), List.count_nil]
    rw [owners, hnone, hk, Bool.toNat_true] at hown
    omega

def profile : Request :=
  ⟨['p'], ⟨['d', 'b'], 5432, ['d'], ['u'], .keychain ['a'], .prefer, none, none, none, none, none⟩,
    some ⟨['s'], ['d', 'b'], 5432⟩⟩

def granted : PostgresConnects.Event := ⟨.fine, .ok (), .ok (.ok (some ['k'])), .ok 40000, false⟩

def gateway : List (Action Call PostgresConnects.Event) :=
  .spawn ⟨none, .within (.create ['s'] .ssh) none none⟩ :: List.replicate 6 (.advance 0 granted) ++
    .spawn ⟨some profile, .resolving⟩ :: List.replicate 9 (.advance 1 granted)

theorem tunnels_owned_gateway : ∃ d, connects.run ⟨.new, []⟩ gateway = some d ∧
    ∃ p, d.shared.pools.lookup ⟨.postgres, 1⟩ = some p ∧ p.tunnel = some 0 ∧ Dials d.shared p ∧
      isOpen d.shared 0 = true := by
  have hrun : ∃ d, connects.run ⟨.new, []⟩ gateway = some d ∧
      d.shared.manager.connections.lookup ['p'] = some ⟨.postgres, 1⟩ ∧
        (d.shared.pools.lookup ⟨.postgres, 1⟩).all (·.tunnel = some 0) = true :=
    run_decided (by decide +kernel)
  obtain ⟨d, hr, hl, hall⟩ := hrun
  obtain ⟨p, hp, -, -, hdials, hopen⟩ := (tunnels_owned hr).1 ['p'] ⟨.postgres, 1⟩ hl rfl
  have htunnel : p.tunnel = some 0 := by
    rw [hp] at hall
    exact of_decide_eq_true hall
  exact ⟨d, hr, p, hp, htunnel, hdials, hopen 0 htunnel⟩

end SshCommander.TunneledPools
