import SshCommander.ShellWords
import SshCommander.TextSplitting

/-!
# Process ids and signals for a shell command

`validate_pid` and `validate_signal` leave the grammar of their arguments to `str::parse` and
`trim_start_matches`, which let a plus in front of a number and more than one `SIG` pass. What they
accept is one word of a command all the same.
-/

namespace SshCommander.ShellValidators
open RustText ShellWords

def names : List Text :=
  ["HUP".toList, "INT".toList, "QUIT".toList, "ILL".toList, "TRAP".toList, "ABRT".toList,
    "BUS".toList, "FPE".toList, "KILL".toList, "USR1".toList, "SEGV".toList, "USR2".toList,
    "PIPE".toList, "ALRM".toList, "TERM".toList, "STKFLT".toList, "CHLD".toList, "CONT".toList,
    "STOP".toList, "TSTP".toList, "TTIN".toList, "TTOU".toList, "URG".toList, "XCPU".toList,
    "XFSZ".toList, "VTALRM".toList, "PROF".toList, "WINCH".toList, "IO".toList, "PWR".toList,
    "SYS".toList]

def toAsciiUppercase (s : Text) : Text := s.map Char.toUpper

def sig : Text := "SIG".toList

-- how the error messages write a text
variable (debug : Text → Text)

def validatePid (s : Text) : Except Text Text :=
  let trimmed := trim s
  match parseUnsigned UInt32.size trimmed with
  -- the trimmed text, where the doc says the original one
  | some n => if 1 ≤ n then .ok trimmed else .error ("Invalid PID: ".toList ++ debug s)
  | none => .error ("Invalid PID: ".toList ++ debug s)

def validateSignal (s : Text) : Except Text Text :=
  let trimmed := trimStartMatches sig (toAsciiUppercase (trim s))
  match parseUnsigned UInt32.size trimmed with
  | some n =>
    if 1 ≤ n ∧ n ≤ 64 then .ok (decimal n)
    else .error ("Signal out of range: ".toList ++ decimal n)
  | none =>
    if names.contains trimmed then .ok trimmed else .error ("Unknown signal: ".toList ++ debug s)

def u32Max : ℕ := UInt32.size - 1

def value (digits : Text) : ℕ := Nat.ofDigitChars 10 digits 0

/-- Decimal digits with a value from one on. -/
structure Numeral (max : ℕ) (t : Text) : Prop where
  nonempty : t ≠ []
  digits : ∀ c ∈ t, c.isDigit = true
  positive : 1 ≤ value t
  bounded : value t ≤ max

/-- A signal in upper case without its `SIG`, and its canonical form. -/
inductive Signal : Text → Text → Prop where
  | name {name : Text} (listed : name ∈ names) : Signal name name
  | number {digits : Text} (numeral : Numeral 64 digits) : Signal digits (decimal (value digits))

/-- The text is the signal in any letter case, with one `SIG` at most in front of it. -/
def Spells (t canonical : Text) : Prop :=
  ∃ body, (toAsciiUppercase t = body ∨ toAsciiUppercase t = sig ++ body) ∧ Signal body canonical

/-- Accepted is exactly what the grammar has, and everything else is an error. -/
structure Exact (s : Text) : Prop where
  pid : ∀ r, validatePid debug s = .ok r ↔ r = trim s ∧ Numeral u32Max (trim s)
  signal : ∀ r, validateSignal debug s = .ok r ↔ Spells (trim s) r

def Signed (max : ℕ) (t : Text) : Prop := ∃ digits, t = '+' :: digits ∧ Numeral max digits

/-- A signal after more than one `SIG`, or a signed number after any number of them. -/
def Overspelled (t : Text) : Prop :=
  ∃ k body, toAsciiUppercase t = (List.replicate k sig).flatten ++ body ∧
    ((2 ≤ k ∧ ∃ r, Signal body r) ∨ Signed 64 body)

variable {s t body r : Text} {max bound k : ℕ}

/-- A number is parsed with and without a plus. -/
theorem Numeral.parse {digits : Text} (h : Numeral max digits) (hmax : max < bound)
    (hbody : body = digits ∨ body = '+' :: digits) :
    parseUnsigned bound body = some (value digits) :=
  parseUnsigned_eq_some_iff.mpr
    ⟨digits, hbody, h.nonempty, h.digits, rfl, h.bounded.trans_lt hmax⟩

theorem Numeral.of_parse {n : ℕ} (h : parseUnsigned bound body = some n) (hpos : 1 ≤ n)
    (hmax : n ≤ max) :
    ∃ digits, (body = digits ∨ body = '+' :: digits) ∧ Numeral max digits ∧ value digits = n := by
  obtain ⟨digits, hbody, hne, hdigits, hvalue, -⟩ := parseUnsigned_eq_some_iff.mp h
  have hvalue : value digits = n := hvalue
  exact ⟨digits, hbody, ⟨hne, hdigits, by omega, by omega⟩, hvalue⟩

/-- A process id is accepted where it is a number, signed or not. -/
theorem validatePid_iff (s : Text) :
    validatePid debug s = .ok r ↔
      r = trim s ∧ (Numeral u32Max (trim s) ∨ Signed u32Max (trim s)) := by
  have hmax : u32Max < UInt32.size := by decide
  constructor
  · intro h
    rw [validatePid] at h
    split at h
    · rename_i n hn
      split at h
      · rename_i hpos
        obtain ⟨digits, -, -, -, -, hlt⟩ := parseUnsigned_eq_some_iff.mp hn
        obtain ⟨digits, hbody, hdigits, -⟩ :=
          Numeral.of_parse hn hpos (Nat.le_sub_one_of_lt hlt : n ≤ u32Max)
        refine ⟨(Except.ok.inj h).symm, ?_⟩
        obtain hbody | hbody := hbody
        · exact .inl (hbody ▸ hdigits)
        · exact .inr ⟨digits, hbody, hdigits⟩
      · cases h
    · cases h
  · rintro ⟨rfl, h⟩
    obtain ⟨digits, hbody, hdigits⟩ : ∃ digits, (trim s = digits ∨ trim s = '+' :: digits) ∧
        Numeral u32Max digits := by
      obtain h | ⟨digits, hs, h⟩ := h
      · exact ⟨_, .inl rfl, h⟩
      · exact ⟨digits, .inr hs, h⟩
    rw [validatePid, hdigits.parse hmax hbody]
    exact if_pos hdigits.positive

theorem sig_ne_nil : sig ≠ [] := by decide

def Accepted (body r : Text) : Prop :=
  Signal body r ∨ ∃ digits, body = '+' :: digits ∧ Numeral 64 digits ∧ r = decimal (value digits)

/-- No signal starts with another `SIG`. -/
theorem Accepted.plain (h : Accepted body r) : ¬sig <+: body := by
  have hnames : names.all (fun name => !sig.isPrefixOf name) = true := by decide
  obtain ⟨⟨hlisted⟩ | ⟨hdigits⟩⟩ | ⟨digits, rfl, -, -⟩ := h
  · intro hpre
    have hno := List.all_eq_true.mp hnames _ hlisted
    rw [List.isPrefixOf_iff_prefix.mpr hpre] at hno
    cases hno
  · intro hpre
    have hdigit := hdigits.digits 'S' (hpre.subset (by decide))
    revert hdigit
    decide
  · exact fun hpre => absurd (List.cons_prefix_cons.mp hpre).1 (by decide)

theorem validateSignal_iff (s : Text) :
    validateSignal debug s = .ok r ↔
      Accepted (trimStartMatches sig (toAsciiUppercase (trim s))) r := by
  have hmax : 64 < UInt32.size := by decide
  have hnames : names.all (fun name => (parseUnsigned UInt32.size name).isNone) = true := by decide
  simp only [validateSignal]
  generalize trimStartMatches sig (toAsciiUppercase (trim s)) = body
  constructor
  · intro h
    split at h
    · rename_i n hn
      split at h
      · rename_i hrange
        obtain ⟨digits, hbody, hdigits, rfl⟩ := Numeral.of_parse hn hrange.1 hrange.2
        obtain rfl : decimal (value digits) = r := Except.ok.inj h
        obtain rfl | rfl := hbody
        · exact .inl (.number hdigits)
        · exact .inr ⟨digits, rfl, hdigits, rfl⟩
      · cases h
    · split at h
      · rename_i hlisted
        obtain rfl : body = r := Except.ok.inj h
        exact .inl (.name (List.contains_iff_mem.mp hlisted))
      · cases h
  · have hnumber {digits : Text} (hdigits : Numeral 64 digits)
        (hbody : body = digits ∨ body = '+' :: digits) :
        parseUnsigned UInt32.size body = some (value digits) ∧ 1 ≤ value digits ∧ value digits ≤ 64 :=
      ⟨hdigits.parse hmax hbody, hdigits.positive, hdigits.bounded⟩
    rintro (⟨⟨hlisted⟩ | ⟨hdigits⟩⟩ | ⟨digits, hbody, hdigits, rfl⟩)
    · have hnone := Option.isNone_iff_eq_none.mp (List.all_eq_true.mp hnames _ hlisted)
      simp only [hnone, List.contains_iff_mem.mpr hlisted, if_true]
    · obtain ⟨hparse, hrange⟩ := hnumber hdigits (.inl rfl)
      simp only [hparse, if_pos hrange]
    · obtain ⟨hparse, hrange⟩ := hnumber hdigits (.inr hbody)
      simp only [hparse, if_pos hrange]

/-- The `SIG`s in front of what is accepted can be counted. -/
theorem validateSignal_copies (s : Text) :
    validateSignal debug s = .ok r ↔
      ∃ k body, toAsciiUppercase (trim s) = (List.replicate k sig).flatten ++ body ∧
        Accepted body r := by
  rw [validateSignal_iff]
  constructor
  · intro h
    obtain ⟨k, hk, -⟩ := exists_copies sig_ne_nil (toAsciiUppercase (trim s))
    exact ⟨k, _, hk, h⟩
  · rintro ⟨k, body, hk, h⟩
    rw [hk, trimStartMatches_copies sig_ne_nil h.plain]
    exact h

theorem pid_iff (s : Text) :
    (∀ r, validatePid debug s = .ok r ↔ r = trim s ∧ Numeral u32Max (trim s)) ↔
      ¬Signed u32Max (trim s) := by
  constructor
  · rintro h ⟨digits, hs, hdigits⟩
    have haccepted := (validatePid_iff debug s).mpr ⟨rfl, .inr ⟨digits, hs, hdigits⟩⟩
    have hplus := ((h (trim s)).mp haccepted).2.digits '+' (by simp [hs])
    revert hplus
    decide
  · intro h r
    rw [validatePid_iff, or_iff_left h]

/-- The same text is not two signals behind different numbers of `SIG`. -/
theorem copies_unique {k' : ℕ} {body' r' : Text}
    (hk : t = (List.replicate k sig).flatten ++ body) (h : Accepted body r)
    (hk' : t = (List.replicate k' sig).flatten ++ body') (h' : Accepted body' r') :
    k = k' ∧ body = body' := by
  have hbody : body = body' := by
    rw [← trimStartMatches_copies sig_ne_nil h.plain k, ← hk, hk',
      trimStartMatches_copies sig_ne_nil h'.plain]
  refine ⟨?_, hbody⟩
  have hlength := congrArg List.length (hk.symm.trans hk')
  have hthree : sig.length = 3 := rfl
  simp only [List.length_append, List.length_flatten, List.map_replicate, List.sum_replicate_nat,
    hthree, hbody] at hlength
  omega

theorem spells_iff : Spells t r ↔
    ∃ k body, toAsciiUppercase t = (List.replicate k sig).flatten ++ body ∧ k ≤ 1 ∧
      Signal body r := by
  constructor
  · rintro ⟨body, ht | ht, h⟩
    · exact ⟨0, body, ht, Nat.zero_le 1, h⟩
    · exact ⟨1, body, ht, le_rfl, h⟩
  · rintro ⟨k, body, ht, hk, h⟩
    obtain rfl | rfl := Nat.le_one_iff_eq_zero_or_eq_one.mp hk
    · exact ⟨body, .inl ht, h⟩
    · exact ⟨body, .inr ht, h⟩

theorem not_signal_plus (digits : Text) : ¬Signal ('+' :: digits) r := by
  have hnames : names.all (fun name => name.head? != some '+') = true := by decide
  intro h
  generalize hbody : '+' :: digits = body at h
  cases h with
  | name hlisted =>
    have hno := List.all_eq_true.mp hnames _ hlisted
    rw [← hbody] at hno
    simp at hno
  | number hdigits =>
    have hplus := hdigits.digits '+' (by simp [← hbody])
    revert hplus
    decide

theorem signal_iff (s : Text) :
    (∀ r, validateSignal debug s = .ok r ↔ Spells (trim s) r) ↔ ¬Overspelled (trim s) := by
  constructor
  · rintro h ⟨k, body, hk, hover⟩
    have hspelled (r : Text) (hr : Accepted body r) : k ≤ 1 ∧ Signal body r := by
      have haccepted := (validateSignal_copies debug s).mpr ⟨k, body, hk, hr⟩
      obtain ⟨k', body', hk', hle, hsignal⟩ := spells_iff.mp ((h r).mp haccepted)
      obtain ⟨rfl, rfl⟩ := copies_unique hk hr hk' (.inl hsignal)
      exact ⟨hle, hsignal⟩
    obtain ⟨htwo, r, hr⟩ | ⟨digits, rfl, hdigits⟩ := hover
    · have hle := (hspelled r (.inl hr)).1
      omega
    · exact not_signal_plus digits (hspelled _ (.inr ⟨digits, rfl, hdigits, rfl⟩)).2
  · intro h r
    rw [validateSignal_copies, spells_iff]
    constructor
    · rintro ⟨k, body, hk, hsignal | ⟨digits, hbody, hdigits, -⟩⟩
      · refine ⟨k, body, hk, ?_, hsignal⟩
        by_contra hlt
        exact h ⟨k, body, hk, .inl ⟨by omega, r, hsignal⟩⟩
      · exact absurd ⟨k, body, hk, .inr ⟨digits, hbody, hdigits⟩⟩ h
    · rintro ⟨k, body, hk, -, hsignal⟩
      exact ⟨k, body, hk, .inl hsignal⟩

/-- The validators accept exactly their grammar where the text is neither a signed process id nor a
signal with more in front of it than one `SIG`. -/
theorem validators_exact_iff (s : Text) :
    Exact debug s ↔ ¬Signed u32Max (trim s) ∧ ¬Overspelled (trim s) := by
  rw [← pid_iff debug s, ← signal_iff debug s]
  exact ⟨fun h => ⟨h.pid, h.signal⟩, fun h => ⟨h.1, h.2⟩⟩

/-- The plus goes into the command line, and a second `SIG` is lost. -/
theorem signed_pid_accepted :
    validatePid id "+5".toList = .ok "+5".toList ∧ ¬Exact id "+5".toList ∧
      validateSignal id "SIGSIGTERM".toList = .ok "TERM".toList ∧
      ¬Exact id "SIGSIGTERM".toList := by
  have hpid : validatePid id "+5".toList = .ok "+5".toList := by decide
  have hsignal : validateSignal id "SIGSIGTERM".toList = .ok "TERM".toList := by decide
  refine ⟨hpid, fun h => ?_, hsignal, fun h => ?_⟩
  · have hplus := ((h.pid _).mp hpid).2.digits '+' (by decide)
    revert hplus
    decide
  · have hover : Overspelled (trim "SIGSIGTERM".toList) :=
      ⟨2, "TERM".toList, by decide, .inl ⟨le_rfl, _, .name (by decide)⟩⟩
    exact (signal_iff id _).mp h.signal hover

theorem Signal.alphanum (h : Signal body r) : ∀ c ∈ r, c.isAlphanum = true := by
  have hnames : names.all (fun name => name.all (·.isAlphanum)) = true := by decide +kernel
  cases h with
  | name hlisted => exact List.all_eq_true.mp (List.all_eq_true.mp hnames _ hlisted)
  | number hdigits =>
    intro c hc
    rw [Char.isAlphanum, isDigit_decimal hc, Bool.or_true]

theorem Accepted.alphanum (h : Accepted body r) : ∀ c ∈ r, c.isAlphanum = true := by
  obtain h | ⟨digits, -, hdigits, rfl⟩ := h
  · exact h.alphanum
  · exact (Signal.number hdigits).alphanum

theorem Accepted.nonempty (h : Accepted body r) : r ≠ [] := by
  have hnames : names.all (! ·.isEmpty) = true := by decide
  obtain ⟨⟨hlisted⟩ | _⟩ | ⟨digits, -, -, rfl⟩ := h
  · intro hempty
    have hno := List.all_eq_true.mp hnames _ hlisted
    rw [hempty] at hno
    cases hno
  · exact decimal_ne_nil _
  · exact decimal_ne_nil _

theorem validatePid_word (h : validatePid debug s = .ok r) : tokenize r = some [.word r] := by
  have hdigit {c : Char} (hc : c.isDigit = true) : isOrdinary c = true :=
    isOrdinary_of_isAlphanum (by rw [Char.isAlphanum, hc, Bool.or_true])
  obtain ⟨rfl, hs | ⟨digits, hs, hdigits⟩⟩ := (validatePid_iff debug s).mp h
  · exact tokenize_ordinary hs.nonempty fun c hc => hdigit (hs.digits c hc)
  · refine tokenize_ordinary (by simp [hs]) ?_
    rw [hs, List.forall_mem_cons]
    exact ⟨by decide +kernel, fun c hc => hdigit (hdigits.digits c hc)⟩

theorem validateSignal_word (h : validateSignal debug s = .ok r) :
    tokenize r = some [.word r] := by
  have haccepted := (validateSignal_iff debug s).mp h
  exact tokenize_ordinary haccepted.nonempty fun c hc =>
    isOrdinary_of_isAlphanum (haccepted.alphanum c hc)

end SshCommander.ShellValidators
