import SshCommander.CaptureReports

/-!
# Starting and stopping captures

The map of the registry has the token of a capture from the moment it is registered until it is
stopped or over, so that a capture can be stopped once and none is left in the map.
-/

namespace SshCommander.CaptureStops
open InterleavedTasks InterleavedTasks.TaskSystem PacketCaptures CaptureReports

/-- The capture that a stop has taken out of the map. -/
def stopOf : Task → Option UInt64
  | .cancelling id _ | .stopped id => some id
  | _ => none

def launched : Task → Option (UInt64 × ℕ)
  | .forwarding k id | .forgetting k id | .ended k id => some (id, k)
  | _ => none

def Running (c : Config Captures Task) (k : ℕ) (id : UInt64) : Prop :=
  .forwarding k id ∈ c.tasks ∨ .forgetting k id ∈ c.tasks

/-- The stop has set the token of the stream, or is about to. -/
def Aims (x : Captures) (t : Task) (id : UInt64) (k : ℕ) : Prop :=
  t = .cancelling id k ∨ t = .stopped id ∧ ∃ s, x.streams[k]? = some s ∧ s.cancelled = true

structure Stops (c : Config Captures Task) : Prop where
  listed : ∀ id k, c.shared.captures.lookup id = some k →
    Running c k id ∧ id ∉ c.tasks.filterMap stopOf
  aimed : ∀ t ∈ c.tasks, ∀ id, stopOf t = some id →
    ∃ u ∈ c.tasks, ∃ k, launched u = some (id, k) ∧ Aims c.shared t id k
  once : (c.tasks.filterMap stopOf).Nodup
  running : ∀ k id, .forwarding k id ∈ c.tasks →
    c.shared.captures.lookup id = some k ∨ id ∈ c.tasks.filterMap stopOf

variable {x x' : Captures} {t t' u : Task} {c c' d : Config Captures Task} {a : Action Task Event}
  {as : List (Action Task Event)} {i j k : ℕ} {id : UInt64} {s s' : Stream}

theorem capture_of_launched (h : launched t = some (id, k)) : capture t = some (id, k) := by
  cases t <;> simp_all [launched, capture]

theorem Running.launched (h : Running c k id) :
    ∃ u ∈ c.tasks, CaptureStops.launched u = some (id, k) := by
  rcases h with h | h
  · exact ⟨_, h, rfl⟩
  · exact ⟨_, h, rfl⟩

theorem transition_cancelled (h : Transition x t x' t') (hk : x.streams[k]? = some s)
    (hc : s.cancelled = true) : ∃ s', x'.streams[k]? = some s' ∧ s'.cancelled = true := by
  obtain ⟨s', hs', hchange⟩ := transition_change h hk
  refine ⟨s', hs', ?_⟩
  cases hchange with
  | kept | received | dropped => exact hc
  | cancelled => rfl
  | stepped hs =>
    cases hs with
    | @took msg =>
      cases msg with
      | none => exact hc
      | some m => cases m <;> exact hc
    | @sent b => cases b <;> exact hc
    | refused => rfl
    | stopped | drained | sentLast | refusedLast | finished => exact hc

theorem Aims.transition {v : Task} (h : Aims x v id k) (htrans : Transition x t x' t') :
    Aims x' v id k :=
  h.imp_right fun ⟨hv, _, hk, hc⟩ => ⟨hv, transition_cancelled htrans hk hc⟩

/-- A capture that was registered stays so. -/
theorem transition_launched (h : Transition x t x' t') (ht : launched t = some (id, k)) :
    launched t' = some (id, k) := by
  cases h <;> first | exact ht | cases ht

theorem launched_set (h : Transition x t x' t') (hi : c.tasks[j]? = some t) (hu : u ∈ c.tasks)
    (hl : launched u = some (id, k)) : ∃ u' ∈ c.tasks.set j t', launched u' = some (id, k) := by
  rcases mem_set_or_eq hi hu t' with hu | rfl
  · exact ⟨u, hu, hl⟩
  · exact ⟨t', mem_set_self hi t', transition_launched h hl⟩

theorem transition_stopOf (h : Transition x t x' t') :
    stopOf t' = stopOf t ∨ ∃ id k, t = .stop id ∧ t' = .cancelling id k ∧
      x.captures.lookup id = some k ∧ x'.captures = x.captures.erase id := by
  cases h with
  | stops hl => exact .inr ⟨_, _, rfl, rfl, hl, rfl⟩
  | _ => exact .inl rfl

/-- Which ids were stopped after a step. -/
theorem mem_stopped_set (h : Transition x t x' t') (hi : c.tasks[j]? = some t) :
    id ∈ (c.tasks.set j t').filterMap stopOf ↔
      id ∈ c.tasks.filterMap stopOf ∨ (t = .stop id ∧ ∃ k, t' = .cancelling id k) := by
  obtain heq | ⟨id', k, rfl, rfl, -, -⟩ := transition_stopOf h
  · have hset : (c.tasks.set j t').filterMap stopOf = c.tasks.filterMap stopOf :=
      filterMap_set_eq stopOf hi heq
    rw [hset]
    constructor
    · exact .inl
    · rintro (hin | ⟨rfl, k, rfl⟩)
      · exact hin
      · cases heq
  · have hset : ((c.tasks.set j (.cancelling id' k)).filterMap stopOf).Perm
        (c.tasks.filterMap stopOf ++ [id']) := filterMap_set_perm stopOf hi rfl rfl
    rw [hset.mem_iff, List.mem_append, List.mem_singleton]
    constructor
    · rintro (hin | rfl)
      · exact .inl hin
      · exact .inr ⟨rfl, k, rfl⟩
    · rintro (hin | ⟨h, -⟩)
      · exact .inl hin
      · exact .inr (Task.stop.inj h).symm

theorem Stops.aimed_advance (h : Stops c) (hi : c.tasks[j]? = some t)
    (htrans : Transition c.shared t x' t') (hu : u ∈ c.tasks.set j t')
    (hstop : stopOf u = some id) :
    ∃ v ∈ c.tasks.set j t', ∃ k, launched v = some (id, k) ∧ Aims x' u id k := by
  have hkeep (w : Task) (hw : w ∈ c.tasks) (hwstop : stopOf w = some id) :
      ∃ v ∈ c.tasks.set j t', ∃ k, launched v = some (id, k) ∧ Aims c.shared w id k := by
    obtain ⟨v, hv, k, hl, haims⟩ := h.aimed w hw id hwstop
    obtain ⟨v', hv', hl'⟩ := launched_set htrans hi hv hl
    exact ⟨v', hv', k, hl', haims⟩
  rcases List.mem_or_eq_of_mem_set hu with hold | rfl
  · obtain ⟨v, hv, k, hl, haims⟩ := hkeep u hold hstop
    exact ⟨v, hv, k, hl, haims.transition htrans⟩
  · cases htrans with
    | @stops id' k hlookup =>
      obtain rfl : id' = id := Option.some.inj hstop
      obtain ⟨v, hv, hl⟩ := (h.listed id' k hlookup).1.launched
      obtain ⟨v', hv', hl'⟩ := launched_set (.stops hlookup) hi hv hl
      exact ⟨v', hv', k, hl', .inl rfl⟩
    | @stopped id' k s hk =>
      obtain rfl : id' = id := Option.some.inj hstop
      obtain ⟨v, hv, k', hl, haims⟩ := hkeep _ (List.mem_of_getElem? hi) rfl
      obtain heq | ⟨heq, -⟩ := haims
      · obtain rfl := (Task.cancelling.inj heq).2
        refine ⟨v, hv, k, hl, .inr ⟨rfl, { s with cancelled := true }, ?_, rfl⟩⟩
        rw [Captures.setStream, List.getElem?_set_self', hk]
        rfl
      · cases heq
    | _ => cases hstop

theorem Stops.once_advance (h : Stops c) (hi : c.tasks[j]? = some t)
    (htrans : Transition c.shared t x' t') : ((c.tasks.set j t').filterMap stopOf).Nodup := by
  obtain heq | ⟨id, k, rfl, rfl, hlookup, -⟩ := transition_stopOf htrans
  · have hset : (c.tasks.set j t').filterMap stopOf = c.tasks.filterMap stopOf :=
      filterMap_set_eq stopOf hi heq
    rw [hset]
    exact h.once
  · have hset : ((c.tasks.set j (.cancelling id k)).filterMap stopOf).Perm
        (c.tasks.filterMap stopOf ++ [id]) := filterMap_set_perm stopOf hi rfl rfl
    refine hset.nodup_iff.mpr (List.nodup_append.mpr ⟨h.once, List.nodup_singleton id, ?_⟩)
    intro id' hin id'' hin' heq
    obtain rfl := List.mem_singleton.mp hin'
    exact (h.listed id'' k hlookup).2 (heq ▸ hin)

/-- A capture that is forwarded is not the one that another task has. -/
theorem ident_ne (hnodup : (c.tasks.filterMap ident).Nodup) (hi : c.tasks[j]? = some t)
    (ht : ident t = some id) (hu : u ∈ c.tasks) (hut : u ≠ t) : ident u ≠ some id := by
  intro heq
  obtain ⟨i, hiu⟩ := List.getElem?_of_mem hu
  have hij := index_unique hnodup hiu hi heq ht
  rw [hij, hi] at hiu
  exact hut (Option.some.inj hiu).symm

theorem Stops.running_advance (h : Stops c) (hnodup : (c.tasks.filterMap ident).Nodup)
    (hi : c.tasks[j]? = some t) (htrans : Transition c.shared t x' t')
    (hu : .forwarding k id ∈ c.tasks.set j t') :
    x'.captures.lookup id = some k ∨ id ∈ (c.tasks.set j t').filterMap stopOf := by
  rw [mem_stopped_set htrans hi]
  rcases List.mem_or_eq_of_mem_set hu with hold | heq
  · rcases h.running k id hold with hlookup | hstopped
    · cases htrans with
      | @registered k' id' =>
        have hne : id ≠ id' := fun heq => ident_ne hnodup hi rfl hold nofun (by rw [heq]; rfl)
        exact .inl (by rw [AList.lookup_insert_ne hne]; exact hlookup)
      | @forgot k' id' s =>
        have hne : id ≠ id' := fun heq => ident_ne hnodup hi rfl hold nofun (by rw [heq]; rfl)
        exact .inl (by rw [Captures.setStream, AList.lookup_erase_ne hne]; exact hlookup)
      | @stops id' k' hl =>
        by_cases hid : id = id'
        · exact .inr (.inr ⟨by rw [hid], k', by rw [hid]⟩)
        · exact .inl (by rw [AList.lookup_erase_ne hid]; exact hlookup)
      | _ => exact .inl hlookup
    · exact .inr (.inl hstopped)
  · cases htrans with
    | registered =>
      obtain ⟨rfl, rfl⟩ := Task.forwarding.inj heq
      exact .inl (AList.lookup_insert _)
    | forwarded =>
      obtain ⟨rfl, rfl⟩ := Task.forwarding.inj heq
      exact (h.running _ _ (List.mem_of_getElem? hi)).imp_right .inl
    | _ => cases heq

/-- A capture that is running is running after a step, unless the step ends it. -/
theorem Running.set (h : Running c k id) (hi : c.tasks[j]? = some t)
    (htrans : Transition c.shared t x' t') (hne : t ≠ .forgetting k id) :
    Running ⟨x', c.tasks.set j t'⟩ k id := by
  rcases h with h | h
  · rcases mem_set_or_eq hi h t' with h | rfl
    · exact .inl h
    · cases htrans with
      | forwarded => exact .inl (mem_set_self hi _)
      | closed => exact .inr (mem_set_self hi _)
  · rcases mem_set_or_eq hi h t' with h | heq
    · exact .inr h
    · exact absurd heq.symm hne

theorem Stops.listed_advance (h : Stops c) (hnodup : (c.tasks.filterMap ident).Nodup)
    (hi : c.tasks[j]? = some t) (htrans : Transition c.shared t x' t')
    (hlookup : x'.captures.lookup id = some k) :
    Running ⟨x', c.tasks.set j t'⟩ k id ∧ id ∉ (c.tasks.set j t').filterMap stopOf := by
  rw [mem_stopped_set htrans hi]
  have hkeep (hold : c.shared.captures.lookup id = some k) (hforget : t ≠ .forgetting k id)
      (hstop : t ≠ .stop id) : Running ⟨x', c.tasks.set j t'⟩ k id ∧
        ¬(id ∈ c.tasks.filterMap stopOf ∨ (t = .stop id ∧ ∃ k, t' = .cancelling id k)) := by
    have hlisted := h.listed id k hold
    exact ⟨hlisted.1.set hi htrans hforget, by
      rintro (hin | ⟨heq, -⟩)
      · exact hlisted.2 hin
      · exact hstop heq⟩
  cases htrans with
  | @registered k' id' =>
    by_cases hid : id = id'
    · subst hid
      obtain rfl := Option.some.inj ((AList.lookup_insert _).symm.trans hlookup)
      refine ⟨.inl (mem_set_self hi _), ?_⟩
      rintro (hin | ⟨heq, -⟩)
      · obtain ⟨v, hv, hstop⟩ := List.mem_filterMap.mp hin
        obtain ⟨u, hu, k, hl, -⟩ := h.aimed v hv id hstop
        exact ident_ne hnodup hi rfl hu (by rintro rfl; cases hl)
          (ident_of_capture (capture_of_launched hl))
      · cases heq
    · refine hkeep (by rwa [AList.lookup_insert_ne hid] at hlookup) ?_ ?_ <;> rintro ⟨⟩
  | @forgot k' id' s hk =>
    by_cases hid : id = id'
    · subst hid
      rw [Captures.setStream, AList.lookup_erase] at hlookup
      cases hlookup
    · refine hkeep (by rwa [Captures.setStream, AList.lookup_erase_ne hid] at hlookup) ?_ ?_
      · exact fun heq => hid (Task.forgetting.inj heq).2.symm
      · rintro ⟨⟩
  | @stops id' k' hl =>
    by_cases hid : id = id'
    · subst hid
      rw [AList.lookup_erase] at hlookup
      cases hlookup
    · refine hkeep (by rwa [AList.lookup_erase_ne hid] at hlookup) ?_ ?_
      · rintro ⟨⟩
      · exact fun heq => hid (Task.stop.inj heq).symm
  | notFound hnone =>
    refine hkeep hlookup ?_ ?_
    · rintro ⟨⟩
    · intro heq
      rw [(Task.stop.inj heq), hlookup] at hnone
      cases hnone
  | _ => refine hkeep hlookup ?_ ?_ <;> rintro ⟨⟩

theorem Stops.act (h : Stops c) (hnodup : (c.tasks.filterMap ident).Nodup)
    (hact : tcpdump.act c a = some c') : Stops c' := by
  obtain ⟨t, rfl, hs, rfl⟩ | ⟨j, e, t, x', t', rfl, hi, hs, rfl⟩ := act_cases hact
  · have hstart : starts t = true := hs
    have hnone : stopOf t = none := by cases t <;> first | rfl | cases hstart
    have hstopped : (c.tasks ++ [t]).filterMap stopOf = c.tasks.filterMap stopOf := by
      simp [hnone]
    refine ⟨fun id k hlookup => ?_, fun u hu id hstop => ?_, ?_, fun k id hu => ?_⟩
    · simp only [hstopped]
      exact (h.listed id k hlookup).imp_left
        (Or.imp (List.mem_append_left _) (List.mem_append_left _))
    · rcases List.mem_append.mp hu with hu | hu
      · obtain ⟨v, hv, k, hl, haims⟩ := h.aimed u hu id hstop
        exact ⟨v, List.mem_append_left _ hv, k, hl, haims⟩
      · rw [List.mem_singleton.mp hu, hnone] at hstop
        cases hstop
    · simp only [hstopped]
      exact h.once
    · simp only [hstopped]
      rcases List.mem_append.mp hu with hu | hu
      · exact h.running k id hu
      · rw [← List.mem_singleton.mp hu] at hstart
        cases hstart
  · have htrans := step_transition hs
    exact ⟨fun _ _ => h.listed_advance hnodup hi htrans, fun _ hu _ => h.aimed_advance hi htrans hu,
      h.once_advance hi htrans, fun _ _ => h.running_advance hnodup hi htrans⟩

theorem run_stops (hr : tcpdump.run idle as = some d) :
    Sound d ∧ (d.tasks.length ≤ UInt64.size → Stops d) := by
  have hstart : Stops idle := by
    refine ⟨fun id k hlookup => ?_, fun t ht id hstop => ?_, .nil, fun k id ht => ?_⟩
    · cases hlookup
    · rw [List.mem_singleton.mp ht] at hstop
      cases hstop
    · cases List.mem_singleton.mp ht
  have hnone : tcpdump.run idle [] = some idle := rfl
  refine run_always (fun c => Sound c ∧ (c.tasks.length ≤ UInt64.size → Stops c))
    (fun c a c' hc hact => ⟨hc.1.act hact, fun hcalls => ?_⟩) ⟨run_sound hnone, fun _ => hstart⟩ hr
  have hcalls' := (act_length hact).trans hcalls
  exact (hc.2 hcalls').act (hc.1.numbering.nodup hcalls') hact

/-- However the calls interleave, no identifier is given out twice; of all stops of a capture one
succeeds at most, and that one has set the token of this capture's stream; a capture that runs is
in the map or was stopped, and none that is over is in the map. -/
theorem stop_once (hr : tcpdump.run idle as = some d) (hcalls : d.tasks.length ≤ UInt64.size) :
    (d.tasks.filterMap ident).Nodup ∧ (d.tasks.filterMap stopOf).Nodup ∧
      (∀ k id, .forwarding k id ∈ d.tasks →
        d.shared.captures.lookup id = some k ∨ id ∈ d.tasks.filterMap stopOf) ∧
      (∀ id k, d.shared.captures.lookup id = some k → Running d k id) ∧
      ∀ id, .stopped id ∈ d.tasks → ∃ u ∈ d.tasks, ∃ k s, launched u = some (id, k) ∧
        d.shared.streams[k]? = some s ∧ s.cancelled = true := by
  obtain ⟨hsound, hstops⟩ := run_stops hr
  have hstops := hstops hcalls
  refine ⟨hsound.numbering.nodup hcalls, hstops.once, hstops.running,
    fun id k hlookup => (hstops.listed id k hlookup).1, fun id hid => ?_⟩
  obtain ⟨u, hu, k, hl, haims⟩ := hstops.aimed _ hid id rfl
  obtain heq | ⟨-, s, hk, hc⟩ := haims
  · cases heq
  · exact ⟨u, hu, k, s, hl, hk, hc⟩

theorem stop_once_twoCaptures : ∃ d, tcpdump.run idle twoCaptures = some d ∧
    .stopped 2 ∈ d.tasks ∧ .forwarding 1 1 ∈ d.tasks ∧
      (d.shared.captures.lookup 1 = some 1 ∨ 1 ∈ d.tasks.filterMap stopOf) := by
  have hrun : ∃ d, tcpdump.run idle twoCaptures = some d ∧ .stopped 2 ∈ d.tasks ∧
      .forwarding 1 1 ∈ d.tasks ∧ d.tasks.length ≤ UInt64.size := run_decided (by decide +kernel)
  obtain ⟨d, hd, hstopped, hrunning, hcalls⟩ := hrun
  exact ⟨d, hd, hstopped, hrunning, (stop_once hd hcalls).2.2.1 1 1 hrunning⟩

end SshCommander.CaptureStops
