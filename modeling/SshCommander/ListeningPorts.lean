import SshCommander.TextSplitting

/-!
# Ports that are listened on

`ports::parse` finds the columns of `ss -tunlp` and `netstat -tunlp` by what they look like. The
name of a process can have blanks in it, and what `ss` writes around a name or an address can be
written in it too.
-/

namespace SshCommander.ListeningPorts
open RustText

structure ListeningPort where
  protocol : Text
  localAddr : Text
  port : UInt16
  process : Option Text
  pid : Option UInt32
  deriving DecidableEq, Repr

def usersPrefix : Text := "users:((".toList

def parsePort (s : Text) : Option UInt16 := (parseUnsigned UInt16.size s).map UInt16.ofNat

def parsePid (s : Text) : Option UInt32 := (parseUnsigned UInt32.size s).map UInt32.ofNat

def readPart (pid : Option UInt32) (part : Text) : Option UInt32 :=
  match (trim part).dropPrefix? "pid=".toList with
  | some rest => parsePid rest
  | none => pid

/-- The name and the process id in a column such as `users:(("sshd",pid=1234,fd=3))`. -/
def readUsers (usersTok : Text) : Option Text × Option UInt32 :=
  let inner := trimEndMatches "))".toList (trimStartMatches usersPrefix usersTok)
  match (splitFirst "),(".toList inner).splitOnP (· == ',') with
  | [] => (none, none)
  | name :: parts => (some (trimMatches (· == '"') name), parts.foldl readPart none)

/-- The name and the process id of a line. `netstat` puts them in the last column, as
`1234/sshd`. -/
def readProcess (cols : List Text) : Option Text × Option UInt32 :=
  match cols.find? usersPrefix.isPrefixOf with
  | some usersTok => readUsers usersTok
  | none =>
    match cols.getLast?.bind (splitOnce '/') with
    | some (p, name) => (some name, parsePid p)
    | none => (none, none)

/-- A column with a colon and a number behind the last one. -/
def isLocal (t : Text) : Bool :=
  t.contains ':' && (rsplitOnce ':' t).any fun r => (parsePort r.2).isSome

def isBracket (c : Char) : Bool := c == '[' || c == ']'

def parseLine (lower : Lowercase) (line : Text) : Option ListeningPort :=
  match splitWhitespace line with
  | [] => none
  | first :: others => do
    let protoToken := lower.toLowercase first
    if !("tcp".toList.isPrefixOf protoToken || "udp".toList.isPrefixOf protoToken) then none
    else
      let localTok ← (first :: others).find? isLocal
      let (localAddr, portStr) ← rsplitOnce ':' localTok
      let port ← parsePort portStr
      let (process, pid) := readProcess (first :: others)
      some ⟨protoToken, trimMatches isBracket localAddr, port, process, pid⟩

def isHeader (line : Text) : Bool :=
  "Netid".toList.isPrefixOf line || "Active".toList.isPrefixOf line ||
    "Proto".toList.isPrefixOf line

def readLine (lower : Lowercase) (rawLine : Text) : Option ListeningPort :=
  let line := trim rawLine
  if line.isEmpty || isHeader line then none else parseLine lower line

def parse (lower : Lowercase) (stdout : Text) : List ListeningPort :=
  (lines stdout).filterMap (readLine lower)

inductive Format where
  | ss
  | netstat
  deriving DecidableEq, Repr

inductive Protocol where
  | tcp
  | udp
  | tcp6
  | udp6
  deriving DecidableEq, Repr

def Protocol.text : Protocol → Text
  | .tcp => "tcp".toList
  | .udp => "udp".toList
  | .tcp6 => "tcp6".toList
  | .udp6 => "udp6".toList

def Protocol.isTcp : Protocol → Bool
  | .tcp | .tcp6 => true
  | .udp | .udp6 => false

def isAddressChar (c : Char) : Bool := !(isWhitespace c || isBracket c || c == '(')

/-- A local address, with the interface it is bound to. `ss` writes brackets around some hosts. -/
structure Address where
  host : Text
  zone : Option Text
  brackets : Bool
  host_nonempty : host ≠ []
  host_chars : ∀ c ∈ host, isAddressChar c = true
  zone_chars : ∀ z ∈ zone, ∀ c ∈ z, isAddressChar c = true

def Address.scope (a : Address) : Text := a.zone.elim [] ('%' :: ·)

def Address.unbracketed (a : Address) : Text := a.host ++ a.scope

def Address.bracketed (a : Address) : Text := '[' :: (a.host ++ [']']) ++ a.scope

def Address.written (a : Address) : Format → Text
  | .ss => if a.brackets then a.bracketed else a.unbracketed
  | .netstat => a.unbracketed

/-- The control characters of Unicode. -/
def isControl (c : Char) : Bool := c.toNat < 32 || (127 ≤ c.toNat && c.toNat < 160)

/-- A socket with the process that owns it, and the blanks its line is padded with. -/
structure Socket where
  protocol : Protocol
  recvQ : ℕ
  sendQ : ℕ
  address : Address
  port : UInt16
  peer : Text
  name : Text
  pid : UInt32
  fd : ℕ
  padding : ℕ → ℕ
  peer_word : Word peer
  peer_plain : '(' ∉ peer
  name_printable : ∀ c ∈ name, isControl c = false ∧ c ≠ '"'

def Socket.localColumn (s : Socket) (f : Format) : Text :=
  s.address.written f ++ ':' :: decimal s.port.toNat

def Socket.columns (s : Socket) : Format → List Text
  | .ss =>
    [s.protocol.text, if s.protocol.isTcp then "LISTEN".toList else "UNCONN".toList,
      decimal s.recvQ, decimal s.sendQ, s.localColumn .ss, s.peer]
  | .netstat =>
    [s.protocol.text, decimal s.recvQ, decimal s.sendQ, s.localColumn .netstat, s.peer] ++
      if s.protocol.isTcp then ["LISTEN".toList] else []

def Socket.quotedName (s : Socket) : Text := '"' :: (s.name ++ ['"'])

def Socket.user (s : Socket) : Text :=
  s.quotedName ++ ',' :: ("pid=".toList ++ decimal s.pid.toNat ++
    ',' :: ("fd=".toList ++ decimal s.fd))

/-- The column for the process; blanks in the name are blanks in it. -/
def Socket.process (s : Socket) : Format → Text
  | .ss => usersPrefix ++ (s.user ++ "))".toList)
  | .netstat => decimal s.pid.toNat ++ '/' :: s.name

def Socket.line (s : Socket) (f : Format) : Text :=
  joinColumns s.padding (s.columns f ++ [s.process f])

structure Header where
  line : Text
  isLine : Line line
  start : isHeader line = true

def render (f : Format) (headers : List Header) (sockets : List Socket) : Text :=
  headers.flatMap (fun h => h.line ++ ['\n']) ++ sockets.flatMap (fun s => s.line f ++ ['\n'])

def Socket.listening (s : Socket) : ListeningPort :=
  ⟨s.protocol.text, s.address.unbracketed, s.port, some s.name, some s.pid⟩

/-- The name has no blank; for `ss` it has no comma either, and no interface follows a bracket. -/
def Socket.Legible (s : Socket) : Format → Prop
  | .ss => (∀ c ∈ s.name, isWhitespace c = false ∧ c ≠ ',') ∧
      (s.address.brackets = true → s.address.zone = none)
  | .netstat => ∀ c ∈ s.name, isWhitespace c = false

variable {lower : Lowercase} {f : Format} {s : Socket} {cols : List Text} {tok name line : Text}
  {c : Char}

/-- The name of the users column is a part of it in front of a comma. -/
theorem readUsers_name (h : (readUsers tok).1 = some name) (hc : c ∈ name) : c ∈ tok ∧ c ≠ ',' := by
  rw [readUsers] at h
  split at h
  · cases h
  · rename_i part parts hsplit
    rw [← Option.some.inj h] at hc
    obtain ⟨hcomma, hmem⟩ := mem_splitOnP (hsplit ▸ List.mem_cons_self) (mem_of_mem_trimMatches hc)
    have htok := mem_of_mem_trimEndMatches ((prefix_splitFirst _ _).subset hmem)
    exact ⟨mem_of_mem_trimStartMatches htok, by simpa using hcomma⟩

/-- A name is a part of a column. -/
theorem readProcess_solid (hcols : ∀ t ∈ cols, Word t) (h : (readProcess cols).1 = some name)
    (hc : c ∈ name) : isWhitespace c = false := by
  rw [readProcess] at h
  split at h
  · rename_i users hfind
    exact (hcols users (List.mem_of_find?_eq_some hfind)).solid c (readUsers_name h hc).1
  · split at h
    · rename_i p name' hlast
      obtain ⟨last, hlast, hsplit⟩ := Option.bind_eq_some_iff.mp hlast
      rw [← Option.some.inj h] at hc
      exact (hcols last (List.mem_of_getLast? hlast)).solid c (mem_of_splitOnce hsplit hc)
    · cases h

theorem Protocol.toLowercase_text (lower : Lowercase) (p : Protocol) :
    lower.toLowercase p.text = p.text := by
  have hascii : (p.text.all fun c => decide (c.toNat < 128)) = true := by cases p <;> rfl
  rw [lower.ascii _ fun c hc => by simpa using List.all_eq_true.mp hascii c hc]
  cases p <;> rfl

/-- What holds of the characters of an address and of a percent sign holds of all of it. -/
theorem Address.forall_mem_unbracketed (a : Address) {P : Char → Prop}
    (hchar : ∀ c, isAddressChar c = true → P c) (hpercent : P '%') : ∀ c ∈ a.unbracketed, P c := by
  intro c hc
  obtain hc | hc := List.mem_append.mp hc
  · exact hchar c (a.host_chars c hc)
  cases hz : a.zone with
  | none =>
    rw [scope, hz] at hc
    cases hc
  | some z =>
    rw [scope, hz] at hc
    obtain rfl | hc := List.mem_cons.mp hc
    · exact hpercent
    · exact hchar c (a.zone_chars z hz c hc)

theorem Address.written_solid (a : Address) (f : Format) :
    ∀ c ∈ a.written f, isWhitespace c = false ∧ c ≠ '(' := by
  have hunbracketed : ∀ c ∈ a.unbracketed, isWhitespace c = false ∧ c ≠ '(' := by
    refine a.forall_mem_unbracketed (fun c h => ?_) ⟨rfl, by decide⟩
    simp only [isAddressChar, Bool.not_eq_true', Bool.or_eq_false_iff, beq_eq_false_iff_ne] at h
    exact ⟨h.1.1, h.2⟩
  have hbracketed : ∀ c ∈ a.bracketed, isWhitespace c = false ∧ c ≠ '(' := by
    have hopen : isWhitespace '[' = false ∧ '[' ≠ '(' := ⟨rfl, by decide⟩
    have hclose : isWhitespace ']' = false ∧ ']' ≠ '(' := ⟨rfl, by decide⟩
    obtain ⟨hhost, hscope⟩ := List.forall_mem_append.mp hunbracketed
    simp only [Address.bracketed, List.forall_mem_append, List.forall_mem_cons]
    exact ⟨⟨hopen, hhost, hclose, by simp⟩, hscope⟩
  cases f with
  | netstat => exact hunbracketed
  | ss =>
    rw [written]
    split
    · exact hbracketed
    · exact hunbracketed

/-- A column that is one word and not the users column. -/
structure Column (t : Text) : Prop where
  word : Word t
  plain : '(' ∉ t

theorem column_of_all {t : Text} (hne : t ≠ [])
    (h : (t.all fun c => !isWhitespace c && c != '(') = true) : Column t := by
  have hall := List.all_eq_true.mp h
  refine ⟨⟨hne, fun c hc => ?_⟩, fun hc => ?_⟩
  · have := hall c hc
    simp only [Bool.and_eq_true, Bool.not_eq_true'] at this
    exact this.1
  · have := hall _ hc
    simp at this

theorem column_decimal (n : ℕ) : Column (decimal n) := ⟨word_decimal n, notMem_decimal rfl n⟩

theorem column_text (p : Protocol) : Column p.text := by
  cases p <;> exact column_of_all (by decide) rfl

theorem column_local (s : Socket) (f : Format) : Column (s.localColumn f) := by
  have haddress := s.address.written_solid f
  have hword : Word (':' :: decimal s.port.toNat) :=
    Word.append (a := [':']) (by simp [isWhitespace]) (word_decimal _)
  refine ⟨Word.append (fun c hc => (haddress c hc).1) hword, fun hc => ?_⟩
  obtain hc | hc := List.mem_append.mp hc
  · exact (haddress _ hc).2 rfl
  · obtain hc | hc := List.mem_cons.mp hc
    · exact absurd hc (by decide)
    · exact notMem_decimal rfl _ hc

theorem columns_column (s : Socket) (f : Format) : ∀ t ∈ s.columns f, Column t := by
  have hpeer : Column s.peer := ⟨s.peer_word, s.peer_plain⟩
  have hlisten : Column "LISTEN".toList := column_of_all (by decide) rfl
  have hunconn : Column "UNCONN".toList := column_of_all (by decide) rfl
  cases f with
  | ss =>
    have hstate : Column (if s.protocol.isTcp then "LISTEN".toList else "UNCONN".toList) := by
      split
      · exact hlisten
      · exact hunconn
    simp only [Socket.columns, List.forall_mem_cons]
    exact ⟨column_text _, hstate, column_decimal _, column_decimal _, column_local s _, hpeer,
      by simp⟩
  | netstat =>
    have hstate : ∀ t ∈ (if s.protocol.isTcp then ["LISTEN".toList] else []), Column t := by
      split
      · simpa using hlisten
      · simp
    simp only [Socket.columns, List.forall_mem_append, List.forall_mem_cons]
    exact ⟨⟨column_text _, column_decimal _, column_decimal _, column_local s _, hpeer, by simp⟩,
      hstate⟩

/-- The local address is the first column with a colon. -/
theorem columns_eq (s : Socket) (f : Format) :
    ∃ front back, s.columns f = s.protocol.text :: (front ++ s.localColumn f :: back) ∧
      ∀ t ∈ s.protocol.text :: front, ':' ∉ t := by
  have hprotocol : ':' ∉ s.protocol.text := by cases s.protocol <;> decide
  have hdecimal (n : ℕ) : ':' ∉ decimal n := notMem_decimal rfl n
  cases f with
  | ss =>
    have hstate : ':' ∉ (if s.protocol.isTcp then "LISTEN".toList else "UNCONN".toList) := by
      split <;> decide
    refine ⟨[_, decimal s.recvQ, decimal s.sendQ], [s.peer], rfl, ?_⟩
    simp only [List.forall_mem_cons]
    exact ⟨hprotocol, hstate, hdecimal _, hdecimal _, by simp⟩
  | netstat =>
    refine ⟨[decimal s.recvQ, decimal s.sendQ], s.peer :: _, rfl, ?_⟩
    simp only [List.forall_mem_cons]
    exact ⟨hprotocol, hdecimal _, hdecimal _, by simp⟩

theorem parsePort_decimal (n : UInt16) : parsePort (decimal n.toNat) = some n := by
  rw [parsePort, parseUnsigned_decimal n.toNat_lt, Option.map_some, UInt16.ofNat_toNat]

theorem parsePid_decimal (n : UInt32) : parsePid (decimal n.toNat) = some n := by
  rw [parsePid, parseUnsigned_decimal n.toNat_lt, Option.map_some, UInt32.ofNat_toNat]

theorem rsplitOnce_local (s : Socket) (f : Format) :
    rsplitOnce ':' (s.localColumn f) = some (s.address.written f, decimal s.port.toNat) :=
  rsplitOnce_cons (notMem_decimal rfl _) _

theorem isLocal_local (s : Socket) (f : Format) : isLocal (s.localColumn f) = true := by
  rw [isLocal, rsplitOnce_local, Option.any_some, parsePort_decimal]
  simp [Socket.localColumn]

theorem isLocal_plain (h : ':' ∉ tok) : isLocal tok = false := by
  simp [isLocal, h]

theorem splitWhitespace_line (s : Socket) (f : Format) :
    splitWhitespace (trim (s.line f)) = s.columns f ++ splitWhitespace (s.process f) := by
  have hcolumns : (s.columns f).flatMap splitWhitespace = s.columns f := by
    have hword : ∀ t ∈ s.columns f, splitWhitespace t = [t] := fun t ht =>
      splitWhitespace_word (columns_column s f t ht).word
    rw [List.flatMap_congr hword, List.flatMap_singleton']
  rw [splitWhitespace_trim, Socket.line, splitWhitespace_joinColumns, List.flatMap_append,
    hcolumns, List.flatMap_singleton]

def Socket.read (s : Socket) (f : Format) : ListeningPort :=
  let process := readProcess (s.columns f ++ splitWhitespace (s.process f))
  ⟨s.protocol.text, trimMatches isBracket (s.address.written f), s.port, process.1, process.2⟩

theorem parseLine_line (lower : Lowercase) (s : Socket) (f : Format) :
    parseLine lower (trim (s.line f)) = some (s.read f) := by
  obtain ⟨front, back, hcolumns, hfront⟩ := columns_eq s f
  have hprotocol : (!("tcp".toList.isPrefixOf s.protocol.text ||
      "udp".toList.isPrefixOf s.protocol.text)) = false := by
    cases s.protocol <;> rfl
  have hfind (rest : List Text) :
      (s.protocol.text :: (front ++ s.localColumn f :: rest)).find? isLocal =
        some (s.localColumn f) := by
    rw [← List.cons_append]
    exact List.find?_eq_some_iff_append.mpr ⟨isLocal_local s f, _, rest, rfl, fun t ht => by
      simp [isLocal_plain (hfront t ht)]⟩
  rw [parseLine, splitWhitespace_line, Socket.read, hcolumns]
  simp only [List.cons_append, List.append_assoc, s.protocol.toLowercase_text, hprotocol, hfind,
    Option.bind_eq_bind, Option.bind_some, rsplitOnce_local, parsePort_decimal, Bool.false_eq_true,
    if_false]

theorem readLine_line (lower : Lowercase) (s : Socket) (f : Format) :
    readLine lower (s.line f) = some (s.read f) := by
  obtain ⟨front, back, hcolumns, -⟩ := columns_eq s f
  have hstart : s.protocol.text <+: trim (s.line f) := by
    obtain ⟨t, ht⟩ := prefix_joinColumns s.padding s.protocol.text
      (front ++ s.localColumn f :: back ++ [s.process f])
    rw [Socket.line, hcolumns, List.cons_append, ← ht]
    exact (column_text s.protocol).word.trimmed.prefix_trim t
  have hheader : ((trim (s.line f)).isEmpty || isHeader (trim (s.line f))) = false := by
    obtain ⟨t, ht⟩ := hstart
    rw [← ht]
    cases s.protocol <;> rfl
  rw [readLine, hheader]
  exact parseLine_line lower s f

theorem readLine_header (lower : Lowercase) (h : Header) : readLine lower h.line = none := by
  have hkeep {word : Text} (hword : Word word) (hpre : word.isPrefixOf h.line = true) :
      word.isPrefixOf (trim h.line) = true := by
    obtain ⟨t, ht⟩ := List.isPrefixOf_iff_prefix.mp hpre
    exact List.isPrefixOf_iff_prefix.mpr (ht ▸ hword.trimmed.prefix_trim t)
  have hskip : isHeader (trim h.line) = true := by
    have hstart := h.start
    rw [isHeader, Bool.or_eq_true, Bool.or_eq_true] at hstart ⊢
    obtain (hpre | hpre) | hpre := hstart
    · exact .inl (.inl (hkeep (word_of_all (by decide) rfl) hpre))
    · exact .inl (.inr (hkeep (word_of_all (by decide) rfl) hpre))
    · exact .inr (hkeep (word_of_all (by decide) rfl) hpre)
  rw [readLine, hskip, Bool.or_true]
  rfl

/-- The only blanks in the last column are those of the name. -/
theorem process_solid (s : Socket) (f : Format) :
    ∀ c ∈ s.process f, isWhitespace c = false ∨ c ∈ s.name := by
  have hliteral {t : Text} (h : t.all (! isWhitespace ·) = true) :
      ∀ c ∈ t, isWhitespace c = false ∨ c ∈ s.name := fun c hc =>
    .inl (by simpa using List.all_eq_true.mp h c hc)
  have hdecimal (n : ℕ) : ∀ c ∈ decimal n, isWhitespace c = false ∨ c ∈ s.name := fun c hc =>
    .inl ((word_decimal n).solid c hc)
  have hname : ∀ c ∈ s.name, isWhitespace c = false ∨ c ∈ s.name := fun c hc => .inr hc
  cases f with
  | ss =>
    rw [Socket.process, Socket.user, Socket.quotedName]
    simp only [List.forall_mem_append, List.forall_mem_cons]
    exact ⟨hliteral rfl, ⟨⟨.inl rfl, hname, .inl rfl, by simp⟩, .inl rfl,
      ⟨hliteral rfl, hdecimal _⟩, .inl rfl, hliteral rfl, hdecimal _⟩, hliteral rfl⟩
  | netstat =>
    rw [Socket.process]
    simp only [List.forall_mem_append, List.forall_mem_cons]
    exact ⟨hdecimal _, .inl rfl, hname⟩

theorem isLine_line (s : Socket) (f : Format) : Line (s.line f) := by
  have hsolid {c : Char} (h : isWhitespace c = false) : c ≠ '\n' ∧ c ≠ '\r' := by
    refine ⟨?_, ?_⟩ <;>
    · rintro rfl
      cases h
  have hcontrol {c : Char} (h : isControl c = false) : c ≠ '\n' ∧ c ≠ '\r' := by
    refine ⟨?_, ?_⟩ <;>
    · rintro rfl
      cases h
  have hline : ∀ c ∈ s.line f, c ≠ '\n' ∧ c ≠ '\r' := by
    intro c hc
    obtain rfl | ⟨t, ht, hc⟩ := mem_joinColumns hc
    · decide
    obtain ht | ht := List.mem_append.mp ht
    · exact hsolid ((columns_column s f t ht).word.solid c hc)
    · rw [List.mem_singleton.mp ht] at hc
      obtain hc | hc := process_solid s f c hc
      · exact hsolid hc
      · exact hcontrol (s.name_printable c hc).1
  exact ⟨fun h => (hline _ h).1 rfl, fun h => (hline _ (List.mem_of_getLast? h)).2 rfl⟩

theorem parse_render (lower : Lowercase) (f : Format) (headers : List Header)
    (sockets : List Socket) :
    parse lower (render f headers sockets) = sockets.map (·.read f) := by
  have hlines : lines (render f headers sockets) =
      headers.map (·.line) ++ sockets.map (·.line f) := by
    have hsockets := lines_flatMap (·.line f) sockets (fun s _ => isLine_line s f) []
    rw [List.append_nil, lines, List.append_nil] at hsockets
    rw [render, lines_flatMap (·.line) headers (fun h _ => h.isLine), hsockets]
  have hheaders : (headers.map (·.line)).filterMap (readLine lower) = [] := by
    rw [List.filterMap_map, List.filterMap_eq_nil_iff]
    exact fun h _ => readLine_header lower h
  have hsockets : (sockets.map (·.line f)).filterMap (readLine lower) =
      sockets.map (·.read f) := by
    have hread : readLine lower ∘ (·.line f) = fun s : Socket => some (s.read f) :=
      funext fun s => readLine_line lower s f
    rw [List.filterMap_map, hread, ← List.filterMap_eq_map]
    rfl
  rw [parse, hlines, List.filterMap_append, hheaders, hsockets, List.nil_append]

theorem not_usersPrefix (h : Column tok) : usersPrefix.isPrefixOf tok = false := by
  have hmem : '(' ∈ usersPrefix := by decide
  rw [← Bool.not_eq_true, List.isPrefixOf_iff_prefix]
  exact fun hpre => h.plain (hpre.subset hmem)

theorem word_process (h : ∀ c ∈ s.name, isWhitespace c = false) (f : Format) :
    Word (s.process f) := by
  refine ⟨?_, fun c hc => ?_⟩
  · cases f with
    | ss => exact List.cons_ne_nil _ _
    | netstat => exact List.append_ne_nil_of_left_ne_nil (decimal_ne_nil _) _
  · obtain hc | hc := process_solid s f c hc
    · exact hc
    · exact h c hc

theorem readProcess_ss (s : Socket) :
    readProcess (s.columns .ss ++ [s.process .ss]) = readUsers (s.process .ss) := by
  have hfind : (s.columns .ss ++ [s.process .ss]).find? usersPrefix.isPrefixOf =
      some (s.process .ss) := by
    have husers : usersPrefix.isPrefixOf (s.process .ss) = true :=
      List.isPrefixOf_iff_prefix.mpr (List.prefix_append _ _)
    exact List.find?_eq_some_iff_append.mpr ⟨husers, _, [], rfl, fun t ht => by
      rw [not_usersPrefix (columns_column s .ss t ht)]
      rfl⟩
  rw [readProcess, hfind]

theorem readProcess_netstat (s : Socket) :
    readProcess (s.columns .netstat ++ [s.process .netstat]) = (some s.name, some s.pid) := by
  have hprocess : usersPrefix.isPrefixOf (s.process .netstat) = false := by
    rw [← Bool.not_eq_true, List.isPrefixOf_iff_prefix]
    intro hpre
    obtain ⟨d, ds, hd⟩ := List.exists_cons_of_ne_nil (decimal_ne_nil s.pid.toNat)
    rw [Socket.process, hd] at hpre
    have hu : 'u' = d := (List.cons_prefix_cons.mp hpre).1
    have hmem : 'u' ∈ decimal s.pid.toNat := by
      rw [hd, hu]
      exact List.mem_cons_self
    exact notMem_decimal rfl _ hmem
  have hfind : (s.columns .netstat ++ [s.process .netstat]).find? usersPrefix.isPrefixOf =
      none := by
    rw [List.find?_eq_none]
    intro t ht
    obtain ht | ht := List.mem_append.mp ht
    · simp [not_usersPrefix (columns_column s .netstat t ht)]
    · rw [List.mem_singleton.mp ht, hprocess]
      exact Bool.false_ne_true
  have hsplit : splitOnce '/' (s.process .netstat) = some (decimal s.pid.toNat, s.name) :=
    splitOnce_cons (notMem_decimal rfl _) _
  rw [readProcess, hfind, List.getLast?_concat]
  simp only [Option.bind_some, hsplit, parsePid_decimal]

theorem quotedName_plain (h : ∀ c ∈ s.name, c ≠ ',') : ',' ∉ s.quotedName := by
  intro hc
  obtain hc | hc := List.mem_cons.mp hc
  · exact absurd hc (by decide)
  obtain hc | hc := List.mem_append.mp hc
  · exact h _ hc rfl
  · exact absurd (List.mem_singleton.mp hc) (by decide)

theorem part_plain {key : Text} (h : ',' ∉ key) (n : ℕ) : ',' ∉ key ++ decimal n := by
  intro hc
  obtain hc | hc := List.mem_append.mp hc
  · exact h hc
  · exact notMem_decimal rfl _ hc

/-- The commas of the users column are those between its parts. -/
theorem splitFirst_user (h : ∀ c ∈ s.name, c ≠ ',') : splitFirst "),(".toList s.user = s.user := by
  have hpid : ',' ∉ "pid=".toList ++ decimal s.pid.toNat := part_plain (by decide) _
  have hinfix : ¬[',', '('] <:+: s.user := by
    intro hsep
    have hbehind := infix_pair hpid (by simp) (infix_pair (quotedName_plain h) (by simp) hsep)
    exact part_plain (by decide) s.fd (hbehind.subset List.mem_cons_self)
  exact splitFirst_self fun hsep => hinfix ((List.suffix_cons ')' [',', '(']).isInfix.trans hsep)

theorem readPart_pid (pid : Option UInt32) (n : UInt32) :
    readPart pid ("pid=".toList ++ decimal n.toNat) = some n := by
  have hword : Word ("pid=".toList ++ decimal n.toNat) :=
    Word.append (word_of_all (by decide) rfl).solid (word_decimal _)
  rw [readPart, hword.trimmed.trim, dropPrefix?_self]
  exact parsePid_decimal n

theorem readPart_fd (pid : Option UInt32) (n : ℕ) :
    readPart pid ("fd=".toList ++ decimal n) = pid := by
  have hword : Word ("fd=".toList ++ decimal n) :=
    Word.append (word_of_all (by decide) rfl).solid (word_decimal _)
  have hnone : ("fd=".toList ++ decimal n).dropPrefix? "pid=".toList = none := rfl
  rw [readPart, hword.trimmed.trim, hnone]

theorem inner_process (s : Socket) :
    trimEndMatches "))".toList (trimStartMatches usersPrefix (s.process .ss)) = s.user := by
  have hstart : ¬usersPrefix <+: s.user ++ "))".toList := fun hpre =>
    absurd (List.cons_prefix_cons.mp hpre).1 (by decide)
  have hstop : ¬"))".toList <:+ s.user := by
    rintro ⟨t, ht⟩
    have hfd : s.user = s.quotedName ++ ',' :: ("pid=".toList ++ decimal s.pid.toNat ++
        ',' :: "fd=".toList) ++ decimal s.fd := by
      simp [Socket.user]
    have hlast : (t ++ "))".toList).getLast? = (decimal s.fd).getLast? := by
      rw [ht, hfd, List.getLast?_append_of_ne_nil _ (decimal_ne_nil _)]
    rw [List.getLast?_append_of_ne_nil _ (by decide)] at hlast
    exact notMem_decimal (c := ')') rfl s.fd (List.mem_of_getLast? hlast.symm)
  rw [Socket.process, trimStartMatches_one (by decide) hstart,
    trimEndMatches_one (by decide) hstop]

theorem readUsers_process (h : ∀ c ∈ s.name, c ≠ ',') :
    readUsers (s.process .ss) = (some s.name, some s.pid) := by
  have hplain {t : Text} (ht : ',' ∉ t) : t.splitOnP (· == ',') = [t] :=
    List.splitOnP_eq_singleton fun c hc => beq_eq_false_iff_ne.mpr fun he => ht (he ▸ hc)
  have hparts : s.user.splitOnP (· == ',') =
      [s.quotedName, "pid=".toList ++ decimal s.pid.toNat, "fd=".toList ++ decimal s.fd] := by
    rw [Socket.user, List.splitOnP_append_cons _ _ (by rfl), hplain (quotedName_plain h),
      List.splitOnP_append_cons _ _ (by rfl), hplain (part_plain (by decide) _),
      hplain (part_plain (by decide) _)]
    rfl
  have hname : trimMatches (· == '"') s.quotedName = s.name :=
    trimMatches_around rfl rfl fun c hc => beq_eq_false_iff_ne.mpr (s.name_printable c hc).2
  rw [readUsers, inner_process, splitFirst_user h, hparts]
  simp only [hname, List.foldl_cons, List.foldl_nil, readPart_pid, readPart_fd]

theorem Address.unbracketed_plain (a : Address) : ∀ c ∈ a.unbracketed, isBracket c = false := by
  refine a.forall_mem_unbracketed (fun c h => ?_) rfl
  simp only [isAddressChar, Bool.not_eq_true', Bool.or_eq_false_iff] at h
  exact h.1.2

/-- With an interface behind it, the closing bracket is not at the end. -/
theorem Address.trim_bracketed (a : Address) :
    trimMatches isBracket a.bracketed = a.unbracketed ↔ a.zone = none := by
  have hplain := a.unbracketed_plain
  have hhost : ∀ c ∈ a.host, isBracket c = false := fun c hc =>
    hplain c (List.mem_append_left _ hc)
  cases hz : a.zone with
  | none =>
    have hscope : a.scope = [] := by rw [scope, hz]; rfl
    rw [bracketed, unbracketed, hscope, List.append_nil, List.append_nil]
    exact iff_of_true (trimMatches_around rfl rfl hhost) rfl
  | some z =>
    have hscope : a.scope = '%' :: z := by rw [scope, hz]; rfl
    have hstart : a.bracketed.dropWhile isBracket = a.host ++ (']' :: a.scope) := by
      have hbracketed : a.bracketed = '[' :: (a.host ++ (']' :: a.scope)) := by simp [bracketed]
      rw [hbracketed, List.dropWhile_cons_of_pos (by rfl)]
      obtain ⟨c, cs, hc⟩ := List.exists_cons_of_ne_nil a.host_nonempty
      have hopen := hhost c (by simp [hc])
      rw [hc, List.cons_append, List.dropWhile_cons_of_neg (by simp [hopen])]
    have hstop : (a.host ++ (']' :: a.scope)).rdropWhile isBracket = a.host ++ (']' :: a.scope) := by
      refine List.rdropWhile_eq_self_iff.mpr fun hne => ?_
      have hscope : a.scope ≠ [] := by simp [hscope]
      have hlast : (a.host ++ (']' :: a.scope)).getLast hne = a.scope.getLast hscope := by
        rw [List.getLast_append_of_ne_nil _ (by simp), List.getLast_cons hscope]
      rw [hlast, hplain _ (List.mem_append_right _ (List.getLast_mem hscope))]
      exact Bool.false_ne_true
    refine iff_of_false ?_ (by simp)
    rw [trimMatches, hstart, hstop, unbracketed, List.append_cancel_left_eq, hscope]
    intro h
    exact absurd (List.cons.inj h).1 (by decide)

theorem Address.trim_written (a : Address) (f : Format) :
    trimMatches isBracket (a.written f) = a.unbracketed ↔
      (f = .ss → a.brackets = true → a.zone = none) := by
  have hunbracketed : trimMatches isBracket a.unbracketed = a.unbracketed :=
    trimMatches_self a.unbracketed_plain
  cases f with
  | netstat => exact iff_of_true hunbracketed (by simp)
  | ss =>
    rw [written]
    split
    · rename_i hbrackets
      simpa [hbrackets] using a.trim_bracketed
    · rename_i hbrackets
      exact iff_of_true hunbracketed fun _ h => absurd h hbrackets

/-- A socket is read as it is exactly where its line is legible. -/
theorem read_iff (s : Socket) (f : Format) : s.read f = s.listening ↔ s.Legible f := by
  have hread : s.read f = s.listening ↔
      (f = .ss → s.address.brackets = true → s.address.zone = none) ∧
      readProcess (s.columns f ++ splitWhitespace (s.process f)) = (some s.name, some s.pid) := by
    rw [← s.address.trim_written f]
    simp [Socket.read, Socket.listening, Prod.ext_iff]
  have hsolid (h : readProcess (s.columns f ++ splitWhitespace (s.process f)) =
      (some s.name, some s.pid)) : ∀ c ∈ s.name, isWhitespace c = false := by
    have hwords : ∀ t ∈ s.columns f ++ splitWhitespace (s.process f), Word t := by
      intro t ht
      obtain ht | ht := List.mem_append.mp ht
      · exact (columns_column s f t ht).word
      · exact word_of_mem_splitWhitespace ht
    exact fun c hc => readProcess_solid hwords (congrArg Prod.fst h) hc
  rw [hread]
  cases f with
  | netstat =>
    constructor
    · rintro ⟨-, hprocess⟩
      exact hsolid hprocess
    · intro h
      rw [splitWhitespace_word (word_process h .netstat), readProcess_netstat]
      exact ⟨by simp, rfl⟩
  | ss =>
    have hprocess_ss (h : ∀ c ∈ s.name, isWhitespace c = false) :
        readProcess (s.columns .ss ++ splitWhitespace (s.process .ss)) =
          readUsers (s.process .ss) := by
      rw [splitWhitespace_word (word_process h .ss), readProcess_ss]
    constructor
    · rintro ⟨haddress, hprocess⟩
      have hname := hsolid hprocess
      rw [hprocess_ss hname] at hprocess
      exact ⟨fun c hc => ⟨hname c hc, (readUsers_name (congrArg Prod.fst hprocess) hc).2⟩,
        haddress rfl⟩
    · rintro ⟨hname, haddress⟩
      rw [hprocess_ss fun c hc => (hname c hc).1, readUsers_process fun c hc => (hname c hc).2]
      exact ⟨fun _ => haddress, rfl⟩

/-- The listing is that of the sockets exactly where every line is legible. -/
theorem parse_listening_iff (lower : Lowercase) (f : Format) (headers : List Header)
    (sockets : List Socket) :
    parse lower (render f headers sockets) = sockets.map Socket.listening ↔
      ∀ s ∈ sockets, s.Legible f := by
  rw [parse_render, List.map_inj_left]
  exact forall₂_congr fun s _ => read_iff s f

def loopback : Address where
  host := "127.0.0.1".toList
  zone := none
  brackets := false
  host_nonempty := by decide
  host_chars := List.all_eq_true.mp rfl
  zone_chars := by simp

def webContent : Socket where
  protocol := .tcp
  recvQ := 0
  sendQ := 128
  address := loopback
  port := 9222
  peer := "0.0.0.0:*".toList
  name := "Web Content".toList
  pid := 4242
  fd := 30
  padding := fun _ => 0
  peer_word := word_of_all (by decide) rfl
  peer_plain := by decide
  name_printable := by
    have hall : ("Web Content".toList.all fun c => !isControl c && c != '"') = true := rfl
    intro c hc
    simpa using List.all_eq_true.mp hall c hc

/-- The listing has the first word of the name and no process id. -/
theorem webContent_misread :
    parse asciiLowercase (render .ss [] [webContent]) =
        [⟨"tcp".toList, "127.0.0.1".toList, 9222, some "Web".toList, none⟩] ∧
      parse asciiLowercase (render .ss [] [webContent]) ≠ [webContent].map Socket.listening := by
  have hread : parse asciiLowercase (render .ss [] [webContent]) =
      [⟨"tcp".toList, "127.0.0.1".toList, 9222, some "Web".toList, none⟩] := by decide
  refine ⟨hread, ?_⟩
  rw [hread]
  decide

end SshCommander.ListeningPorts
