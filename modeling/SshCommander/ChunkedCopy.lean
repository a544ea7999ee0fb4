import Mathlib.Data.List.DropRight

/-!
# Copying through one buffer

A source is read into a buffer, whatever a read delivers is written to a destination, and the
total is reported. The buffer is used again for each read, so a short read leaves the end of an
earlier one behind it. A destination may take a piece and write it in the background, and then only
the next write or a flush waits for it.
-/

namespace ChunkedCopy
variable {α ε : Type} {cap : ℕ}

def Buffer (α : Type) (cap : ℕ) := { bytes : List α // bytes.length = cap }

namespace Buffer

def fill (buf : Buffer α cap) (data : List α) (h : data.length ≤ cap) : Buffer α cap :=
  ⟨data ++ buf.1.drop data.length, by rw [List.length_append, List.length_drop, buf.2]; omega⟩

def slice (buf : Buffer α cap) (n : ℕ) : List α := buf.1.take n

@[simp] theorem slice_fill (buf : Buffer α cap) (data : List α) (h : data.length ≤ cap) :
    (buf.fill data h).slice data.length = data := List.take_left

end Buffer

/-- How many elements a read asks for, or gets at most: not none, and no more than fit. -/
def ReadSize (cap : ℕ) := { n : ℕ // 0 < n ∧ n ≤ cap }

/-- What happens in one turn of the loop. A write that fails says what it leaves of the
destination. -/
structure Turn (α ε : Type) (cap : ℕ) where
  cancelled : Bool
  read : Except ε (ReadSize cap)
  write : Except (ε × List α) Unit

/-- A read in front of `source`: what it delivers, which is nothing only at the end. -/
def delivered (size : ReadSize cap) (source : List α) : List α := source.take size.1

theorem length_delivered_le (size : ReadSize cap) (source : List α) :
    (delivered size source).length ≤ cap :=
  (List.length_take_le _ _).trans size.2.2

theorem delivered_eq_nil {size : ReadSize cap} {source : List α} :
    delivered size source = [] ↔ source = [] := by
  have hpos : size.1 ≠ 0 := Nat.pos_iff_ne_zero.mp size.2.1
  simp only [delivered, List.take_eq_nil_iff, hpos, false_or]

theorem delivered_append_drop (size : ReadSize cap) (source : List α) :
    delivered size source ++ source.drop (delivered size source).length = source := by
  rw [delivered, List.length_take, ← List.drop_eq_drop_min]
  exact List.take_append_drop _ _

/-- A call of the progress function, and what was accepted by that time. -/
structure Report (α : Type) where
  total : ℕ
  held : List α

/-- `dest` is in place, `pending` was accepted after it. -/
structure Copy (α : Type) where
  dest : List α
  pending : List α
  total : ℕ
  progress : List (Report α)

inductive Ending (ε : Type) where
  | finished
  | cancelled
  | readFailed (e : ε)
  | writeFailed (e : ε)

namespace Copy

def start : Copy α := ⟨[], [], 0, []⟩

def accepted (c : Copy α) : List α := c.dest ++ c.pending

def settled (c : Copy α) (landed : ℕ) : List α := c.dest ++ c.pending.take landed

/-- One write that succeeds, with its report. It has waited for the piece before. -/
def write (c : Copy α) (data : List α) : Copy α :=
  ⟨c.accepted, data, c.total + data.length,
    c.progress ++ [⟨c.total + data.length, c.accepted ++ data⟩]⟩

end Copy

/-- The loop from turn `i` on, with what is left of the source. -/
def copyLoop (turns : ℕ → Turn α ε cap) (i : ℕ) (buf : Buffer α cap) (source : List α)
    (c : Copy α) : Copy α × Ending ε :=
  if (turns i).cancelled then (c, .cancelled)
  else
    match (turns i).read with
    | .error e => (c, .readFailed e)
    | .ok size =>
      let n := (delivered size source).length
      if _hn : n = 0 then (c, .finished)
      else
        let buf := buf.fill (delivered size source) (length_delivered_le size source)
        match (turns i).write with
        | .error (e, left) => ({ c with dest := left, pending := [] }, .writeFailed e)
        | .ok () => copyLoop turns (i + 1) buf (source.drop n) (c.write (buf.slice n))
  termination_by source.length
  decreasing_by
    have hle : n ≤ source.length := List.length_take_le' _ _
    rw [List.length_drop]
    omega

def readLoop (turns : ℕ → Except ε (ReadSize cap)) (i : ℕ) (buf : Buffer α cap) (source : List α)
    (buffer : List α) : Except ε (List α) :=
  match turns i with
  | .error e => .error e
  | .ok size =>
    let n := (delivered size source).length
    if _hn : n = 0 then .ok buffer
    else
      let buf := buf.fill (delivered size source) (length_delivered_le size source)
      readLoop turns (i + 1) buf (source.drop n) (buffer ++ buf.slice n)
  termination_by source.length
  decreasing_by
    have hle : n ≤ source.length := List.length_take_le' _ _
    rw [List.length_drop]
    omega

/-- A list cut into pieces of `n`, which is not 0; the last one may be shorter. -/
def chunks (n : ℕ) : List α → List (List α)
  | [] => []
  | a :: data => (a :: data.take (n - 1)) :: chunks n (data.drop (n - 1))
  termination_by data => data.length
  decreasing_by
    rw [List.length_drop, List.length_cons]
    omega

def writeLoop (writes : ℕ → Except (ε × List α) Unit) (i : ℕ) (dest : List α) :
    List (List α) → List α × Except ε Unit
  | [] => (dest, .ok ())
  | chunk :: chunks =>
    match writes i with
    | .error (e, left) => (left, .error e)
    | .ok () => writeLoop writes (i + 1) (dest ++ chunk) chunks

def lastTotal (progress : List (Report α)) : ℕ := (progress.getLast?.map (·.total)).getD 0

/-- The reports are the lengths of what was then copied, each more than the one before. -/
structure Reported (content : List α) (progress : List (Report α)) : Prop where
  total : ∀ r ∈ progress, r.total = r.held.length
  held : ∀ r ∈ progress, r.held <+: content
  increasing : (progress.map (·.total)).Pairwise (· < ·)

/-- What was accepted and what is left of the source make up the content, and the totals agree. -/
structure InStep (content source : List α) (c : Copy α) : Prop where
  whole : c.accepted ++ source = content
  total : c.total = c.accepted.length
  last : lastTotal c.progress = c.total
  below : ∀ r ∈ c.progress, r.total ≤ c.total
  reported : Reported content c.progress

variable {content source dest : List α} {c : Copy α} {turns : ℕ → Turn α ε cap} {i : ℕ}
  {buf : Buffer α cap}

theorem inStep_start (content : List α) : InStep content content .start :=
  ⟨rfl, rfl, rfl, nofun, nofun, nofun, .nil⟩

@[simp] theorem accepted_write (c : Copy α) (data : List α) :
    (c.write data).accepted = c.accepted ++ data := rfl

/-- One turn that writes keeps the copy in step. -/
theorem InStep.write (h : InStep content source c) {data rest : List α} (hd : data ≠ [])
    (hs : source = data ++ rest) : InStep content rest (c.write data) := by
  have hpos : 0 < data.length := List.length_pos_iff.mpr hd
  have hwhole : (c.accepted ++ data) ++ rest = content := by
    rw [List.append_assoc, ← hs, h.whole]
  have htotal : c.total + data.length = (c.accepted ++ data).length := by
    rw [List.length_append, h.total]
  refine ⟨hwhole, htotal, ?_, ?_, ?_, ?_, ?_⟩
  · simp [lastTotal, Copy.write]
  · intro r hr
    rcases List.mem_append.mp hr with hr | hr
    · exact (h.below r hr).trans (Nat.le_add_right _ _)
    · rw [List.mem_singleton.mp hr]
      rfl
  · intro r hr
    rcases List.mem_append.mp hr with hr | hr
    · exact h.reported.total r hr
    · rw [List.mem_singleton.mp hr]
      exact htotal
  · intro r hr
    rcases List.mem_append.mp hr with hr | hr
    · exact h.reported.held r hr
    · rw [List.mem_singleton.mp hr]
      exact ⟨rest, hwhole⟩
  · have hbelow : ∀ n ∈ c.progress.map (·.total), n < c.total + data.length := by
      intro n hn
      obtain ⟨r, hr, rfl⟩ := List.mem_map.mp hn
      exact lt_of_le_of_lt (h.below r hr) (Nat.lt_add_of_pos_right hpos)
    simp only [Copy.write, List.map_append, List.map_singleton]
    exact List.pairwise_append.mpr ⟨h.reported.increasing, List.pairwise_singleton _ _,
      fun n hn m hm => List.mem_singleton.mp hm ▸ hbelow n hn⟩

structure Exact (content : List α) (r : Copy α × Ending ε) : Prop where
  finished : r.2 = .finished → r.1.accepted = content ∧ r.1.total = content.length
  cancelled : r.2 = .cancelled →
    r.1.accepted <+: content ∧ r.1.accepted.length = lastTotal r.1.progress
  reported : Reported content r.1.progress

theorem InStep.exact_cancelled (h : InStep content source c) :
    Exact content (c, (.cancelled : Ending ε)) :=
  ⟨by simp, fun _ => ⟨⟨source, h.whole⟩, (h.last.trans h.total).symm⟩, h.reported⟩

theorem copyLoop_exact (h : InStep content source c) :
    Exact content (copyLoop turns i buf source c) := by
  fun_induction copyLoop turns i buf source c with
  | case1 => exact h.exact_cancelled
  | case2 i buf source c hc e hr => exact ⟨by simp, by simp, h.reported⟩
  | case3 i buf source c hc size hr n hn =>
    have hs : source = [] := delivered_eq_nil.mp (List.length_eq_zero_iff.mp hn)
    have haccepted : c.accepted = content := by simpa [hs] using h.whole
    exact ⟨fun _ => ⟨haccepted, h.total.trans (congrArg _ haccepted)⟩, by simp, h.reported⟩
  | case4 i buf source c hc size hr n hn e left hw => exact ⟨by simp, by simp, h.reported⟩
  | case5 i buf source c hc size hr n hn buf' hw ih =>
    have hslice : buf'.slice n = delivered size source := Buffer.slice_fill _ _ _
    refine ih ?_
    rw [hslice]
    exact h.write (fun hd => hn (List.length_eq_zero_iff.mpr hd))
      (delivered_append_drop size source).symm

/-- The first `i` turns copy, the last of them `piece`, and leave `source`. -/
inductive Copied (turns : ℕ → Turn α ε cap) (content : List α) : ℕ → List α → List α → Prop where
  | start : Copied turns content 0 content []
  | turn {i : ℕ} {source piece : List α} {size : ReadSize cap}
      (h : Copied turns content i source piece) (live : (turns i).cancelled = false)
      (read : (turns i).read = .ok size) (more : source ≠ []) (write : (turns i).write = .ok ()) :
      Copied turns content (i + 1) (source.drop (delivered size source).length)
        (delivered size source)

/-- A copy that is cancelled is cancelled after some turns that copy. -/
theorem copied_of_cancelled (h : Copied turns content i source c.pending)
    (hend : (copyLoop turns i buf source c).2 = .cancelled) :
    ∃ j rest, Copied turns content j rest (copyLoop turns i buf source c).1.pending ∧
      (turns j).cancelled = true := by
  fun_induction copyLoop turns i buf source c with
  | case1 i buf source c hc => exact ⟨i, source, h, hc⟩
  | case2 | case3 | case4 => cases hend
  | case5 i buf source c hc size hr n hn buf' hw ih =>
    have hslice : buf'.slice n = delivered size source := Buffer.slice_fill _ _ _
    have hmore : source ≠ [] := fun hs =>
      hn (List.length_eq_zero_iff.mpr (delivered_eq_nil.mpr hs))
    refine ih ?_ hend
    rw [hslice]
    exact h.turn (Bool.eq_false_iff.mpr hc) hr hmore hw

/-- The loop goes through the turns that copy. -/
theorem Copied.copyLoop_eq {piece : List α} (h : Copied turns content i source piece)
    (buf : Buffer α cap) : ∃ buf' c, c.pending = piece ∧ InStep content source c ∧
      copyLoop turns 0 buf content .start = copyLoop turns i buf' source c := by
  induction h with
  | start => exact ⟨buf, .start, rfl, inStep_start content, rfl⟩
  | @turn i source piece size _ live read more write ih =>
    obtain ⟨buf', c, -, hstep, heq⟩ := ih
    have hsome : delivered size source ≠ [] := fun hnil => more (delivered_eq_nil.mp hnil)
    have hlen : (delivered size source).length ≠ 0 := fun hzero =>
      hsome (List.length_eq_zero_iff.mp hzero)
    refine ⟨buf'.fill _ (length_delivered_le size source), c.write (delivered size source), rfl,
      hstep.write hsome (delivered_append_drop size source).symm, ?_⟩
    rw [heq, copyLoop.eq_def turns i]
    simp only [live, read, write, Bool.false_eq_true, if_false, dif_neg hlen, Buffer.slice_fill]

/-- Wherever the copy is cancelled, the piece accepted last is in place. -/
def LandsAll (turns : ℕ → Turn α ε cap) (content : List α) (landed : ℕ) : Prop :=
  ∀ i source piece, Copied turns content i source piece → (turns i).cancelled = true →
    piece.length ≤ landed

theorem settled_eq {landed : ℕ} (h : c.pending.length ≤ landed) : c.settled landed = c.accepted := by
  rw [Copy.settled, List.take_of_length_le h, Copy.accepted]

theorem pending_le {landed : ℕ} (h : c.accepted.length ≤ (c.settled landed).length) :
    c.pending.length ≤ landed := by
  simp only [Copy.settled, Copy.accepted, List.length_append, List.length_take] at h
  omega

theorem landsAll_iff (buf : Buffer α cap) (landed : ℕ) :
    LandsAll turns content landed ↔ ((copyLoop turns 0 buf content .start).2 = .cancelled →
      (copyLoop turns 0 buf content .start).1.pending.length ≤ landed) := by
  constructor
  · intro h hend
    obtain ⟨i, rest, hcopied, hcancelled⟩ := copied_of_cancelled .start hend
    exact h i rest _ hcopied hcancelled
  · intro h i rest piece hcopied hcancelled
    obtain ⟨buf', c, rfl, -, heq⟩ := hcopied.copyLoop_eq buf
    rw [copyLoop.eq_def turns i, if_pos hcancelled] at heq
    rw [heq] at h
    exact h rfl

theorem readLoop_ok {reads : ℕ → Except ε (ReadSize cap)} {buffer data : List α}
    (h : readLoop reads i buf source buffer = .ok data) : data = buffer ++ source := by
  fun_induction readLoop reads i buf source buffer with
  | case1 => cases h
  | case2 i buf source buffer size hr n hn =>
    have hs : source = [] := delivered_eq_nil.mp (List.length_eq_zero_iff.mp hn)
    rw [hs, List.append_nil]
    exact (Except.ok.inj h).symm
  | case3 i buf source buffer size hr n hn buf' ih =>
    have hslice : buf'.slice n = delivered size source := Buffer.slice_fill _ _ _
    rw [ih h, hslice, List.append_assoc, delivered_append_drop]

theorem writeLoop_ok {writes : ℕ → Except (ε × List α) Unit} {pieces : List (List α)}
    (h : (writeLoop writes i dest pieces).2 = .ok ()) :
    (writeLoop writes i dest pieces).1 = dest ++ pieces.flatten := by
  induction pieces generalizing i dest with
  | nil => simp [writeLoop]
  | cons chunk pieces ih =>
    unfold writeLoop at h ⊢
    cases hw : writes i with
    | error e => simp [hw] at h
    | ok u =>
      simp only [hw] at h ⊢
      rw [ih h, List.flatten_cons, List.append_assoc]

theorem flatten_chunks (n : ℕ) (data : List α) : (chunks n data).flatten = data := by
  fun_induction chunks n data with
  | case1 => rfl
  | case2 a data ih => rw [List.flatten_cons, ih, List.cons_append, List.take_append_drop]

end ChunkedCopy
