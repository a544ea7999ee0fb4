import SshCommander.RustTextLaws
import SshCommander.ShellWords
import SshCommander.Tcpdump

/-!
# Names that are looked up

`dns_resolve_remote` and `dns_resolve_local` leave characters out of a name before they hand it to
`dig`, and report the answers under the name as it was.
-/

namespace SshCommander.DnsPerspectives
open RustText ShellWords Utf8Lossy RemoteCommands

inductive DnsRecordType where
  | A
  | AAAA
  | CNAME
  | MX
  | TXT
  | NS
  deriving DecidableEq, Repr

def DnsRecordType.digArg : DnsRecordType → Text
  | .A => "A".toList
  | .AAAA => "AAAA".toList
  | .CNAME => "CNAME".toList
  | .MX => "MX".toList
  | .TXT => "TXT".toList
  | .NS => "NS".toList

structure DnsQuery where
  name : Text
  recordType : DnsRecordType
  deriving DecidableEq, Repr

structure DnsAnswer where
  perspective : Text
  query : Text
  recordType : DnsRecordType
  answers : List Text
  error : Option Text
  deriving DecidableEq, Repr

def isShellSafe (c : Char) : Bool := c.isAlphanum || c == '.' || c == '-' || c == '_'

def shellSafe (name : Text) : Text := name.filter isShellSafe

def digCommand (query : DnsQuery) : Text :=
  "dig +short ".toList ++ shellSafe query.name ++ ' ' :: query.recordType.digArg

def parseDigLines (out : Text) : List Text :=
  ((lines out).map trim).filter fun l => !l.isEmpty && l.head? != some ';'

def DnsQuery.answer (query : DnsQuery) (perspective : Text) (answers : List Text)
    (error : Option Text) : DnsAnswer :=
  ⟨perspective, query.name, query.recordType, answers, error⟩

def digError (answers : List Text) (out : CommandOutput) : Option Text :=
  if answers.isEmpty && !(trim out.stderr).isEmpty then some (trim out.stderr)
  else if answers.isEmpty && out.exitCode.getD 0 != 0 then
    some ("dig exited ".toList ++
      ((out.exitCode.map fun c => (toString c.toNat).toList).getD "?".toList))
  else none

def dnsResolveRemote (client : SshClient) (perspectiveLabel : Text) (query : DnsQuery) :
    DnsAnswer :=
  match client.executeCommandFull (digCommand query) with
  | .ok out =>
    let answers := parseDigLines out.stdout
    if out.isSuccess then query.answer perspectiveLabel answers none
    else query.answer perspectiveLabel answers (digError answers out)
  | .error e => query.answer perspectiveLabel [] (some (Tcpdump.errorText e))

/-- A local process that has ended. -/
structure Output where
  success : Bool
  stdout : List UInt8
  stderr : List UInt8

structure SocketAddr where
  ip : Text
  isIpv6 : Bool

structure LocalMachine where
  lookupHost : Text → Except Text (List SocketAddr)
  sh : Text → Except Text Output

/-- The address types. -/
def dnsLookupLocal (machine : LocalMachine) (query : DnsQuery) : DnsAnswer :=
  match machine.lookupHost (query.name ++ ":0".toList) with
  | .ok addrs =>
    query.answer "local".toList
      ((addrs.filter fun sa => sa.isIpv6 == decide (query.recordType = .AAAA)).map (·.ip)) none
  | .error e => query.answer "local".toList [] (some e)

/-- The other types. -/
def dnsDigLocal (machine : LocalMachine) (query : DnsQuery) : DnsAnswer :=
  match machine.sh (digCommand query) with
  | .ok out =>
    if out.success then
      query.answer "local".toList (parseDigLines (fromUtf8Lossy out.stdout)) none
    else query.answer "local".toList [] (some (fromUtf8Lossy out.stderr))
  | .error e => query.answer "local".toList [] (some e)

def dnsResolveLocal (machine : LocalMachine) (query : DnsQuery) : DnsAnswer :=
  match query.recordType with
  | .A | .AAAA => dnsLookupLocal machine query
  | _ => dnsDigLocal machine query

def isDigOption (word : Text) : Bool := word.head? == some '-' || word.head? == some '+'

/-- The name and the type that a command makes `dig` look up: its two operands, in this order. The
real `dig` takes a first operand such as `any`, `mx` or `in` for a type or a class; here it is a
name like any other. -/
def digLookup (cmd : Text) : Option (Text × Text) :=
  match wordsOf cmd with
  | some (name :: args) =>
    if name ≠ "dig".toList then none
    else
      match args.filter (! isDigOption ·) with
      | [name, recordType] => some (name, recordType)
      | _ => none
  | _ => none

/-- The answer is about the query, and without an error its name and type were looked up. -/
structure Faithful (query : DnsQuery) (answer : DnsAnswer) : Prop where
  asked : answer.query = query.name
  typed : answer.recordType = query.recordType
  lookup : answer.error = none →
    digLookup (digCommand query) = some (query.name, query.recordType.digArg)

/-- A name of which nothing is left out and that `dig` does not read as an option. Names that are
also a type or a class are among these. -/
def Plain (name : Text) : Prop :=
  name ≠ [] ∧ (∀ c ∈ name, isShellSafe c = true) ∧ name.head? ≠ some '-'

variable {query : DnsQuery} {c : Char} {name : Text}

theorem isOrdinary_of_isShellSafe (h : isShellSafe c = true) : isOrdinary c = true := by
  simp only [isShellSafe, Bool.or_eq_true, beq_iff_eq, or_assoc] at h
  obtain halnum | hsign := h
  · exact isOrdinary_of_isAlphanum halnum
  · refine isOrdinary_of_not_mem ?_
    obtain rfl | rfl | rfl := hsign <;> decide

theorem run_shellSafe (name : Text) (h : shellSafe name ≠ []) :
    run .between (shellSafe name) = (.word (shellSafe name) false, []) :=
  run_word h fun _ hc => isOrdinary_of_isShellSafe (List.mem_filter.mp hc).2

theorem tokenize_digArg (recordType : DnsRecordType) :
    tokenize recordType.digArg = some [.word recordType.digArg] := by
  cases recordType <;> decide +kernel

/-- The command with an ordinary word, or with nothing, in the place of the name. -/
theorem tokenize_dig {name : Text} (h : name ≠ [] → run .between name = (.word name false, [])) :
    tokenize ("dig +short ".toList ++ name) =
      some ([.word "dig".toList, .word "+short".toList] ++
        if name = [] then [] else [.word name]) := by
  have hstart : run .between "dig +short ".toList =
      (.between, [.word "dig".toList, .word "+short".toList]) := by decide +kernel
  rw [tokenize, tokensFrom, run_append, hstart]
  cases name with
  | nil => rfl
  | cons c cs =>
    rw [h (by simp)]
    rfl

/-- The words of the command with a type. -/
theorem tokenize_dig_type {name recordType : Text}
    (h : name ≠ [] → run .between name = (.word name false, []))
    (ht : tokenize recordType = some [.word recordType]) :
    tokenize ("dig +short ".toList ++ name ++ ' ' :: recordType) =
      some ((["dig".toList, "+short".toList] ++
        ((if name = [] then [] else [name]) ++ [recordType])).map .word) := by
  rw [tokenize_blank rfl (tokenize_dig h), ht]
  split <;> rfl

/-- A name of which nothing is left is no word. -/
theorem wordsOf_digCommand (query : DnsQuery) :
    wordsOf (digCommand query) =
      some (["dig".toList, "+short".toList] ++
        ((if shellSafe query.name = [] then [] else [shellSafe query.name]) ++
          [query.recordType.digArg])) :=
  wordsOf_words (tokenize_dig_type (run_shellSafe query.name) (tokenize_digArg query.recordType))

theorem isDigOption_digArg (recordType : DnsRecordType) : isDigOption recordType.digArg = false := by
  cases recordType <;> decide

/-- Letters, digits, dots and underscores start an operand. -/
theorem isDigOption_shellSafe (name : Text) :
    isDigOption (shellSafe name) = true ↔ (shellSafe name).head? = some '-' := by
  have hplus : (shellSafe name).head? ≠ some '+' := by
    intro h
    have hmem := (List.mem_filter.mp (List.mem_of_head? h)).2
    revert hmem
    decide
  simp [isDigOption, hplus]

/-- A name is left as it is where nothing in it is left out. -/
theorem shellSafe_eq_self : shellSafe name = name ↔ ∀ c ∈ name, isShellSafe c = true :=
  List.filter_eq_self

/-- The word for the name is looked up, unless it is none or an option. -/
theorem digLookup_words {cmd word recordType : Text}
    (hw : wordsOf cmd = some (["dig".toList, "+short".toList] ++
      ((if word = [] then [] else [word]) ++ [recordType])))
    (ht : isDigOption recordType = false) :
    digLookup cmd = some (name, recordType) ↔
      word = name ∧ word ≠ [] ∧ isDigOption word = false := by
  have hshort : isDigOption "+short".toList = true := by decide
  simp only [digLookup, hw, List.cons_append, List.nil_append, ne_eq, not_true_eq_false, if_false,
    List.filter_cons, List.filter_append, hshort, ht, Bool.not_true, Bool.not_false]
  by_cases hne : word = []
  · simp [hne]
  · by_cases ho : isDigOption word = true
    · simp [hne, ho]
    · simp [hne, ho]

theorem digLookup_iff (query : DnsQuery) :
    digLookup (digCommand query) = some (query.name, query.recordType.digArg) ↔
      Plain query.name := by
  rw [digLookup_words (wordsOf_digCommand query) (isDigOption_digArg query.recordType),
    ← Bool.not_eq_true, isDigOption_shellSafe, Plain, ← shellSafe_eq_self]
  constructor
  · rintro ⟨hname, hne, hdash⟩
    rw [hname] at hne hdash
    exact ⟨hne, hname, hdash⟩
  · rintro ⟨hne, hname, hdash⟩
    rw [hname]
    exact ⟨rfl, hne, hdash⟩

def silent : SshClient := ⟨some ⟨.ok (), fun _ => .ok [.exitStatus 0, .eof]⟩⟩

theorem faithful_of_plain (h : Plain query.name) (perspective : Text) (answers : List Text)
    (error : Option Text) : Faithful query (query.answer perspective answers error) :=
  ⟨rfl, rfl, fun _ => (digLookup_iff query).mpr h⟩

/-- The perspectives are faithful to a query, however `dig` ends, exactly when its name is plain. -/
theorem dns_faithful_iff (query : DnsQuery) :
    ((∀ client perspectiveLabel,
        Faithful query (dnsResolveRemote client perspectiveLabel query)) ∧
      (query.recordType ≠ .A → query.recordType ≠ .AAAA →
        ∀ machine, Faithful query (dnsResolveLocal machine query))) ↔
      Plain query.name := by
  constructor
  · rintro ⟨hremote, -⟩
    exact (digLookup_iff query).mp ((hremote silent []).lookup rfl)
  · intro h
    refine ⟨fun client perspectiveLabel => ?_, fun hA hAAAA machine => ?_⟩
    · unfold dnsResolveRemote
      split
      · dsimp only
        split <;> exact faithful_of_plain h _ _ _
      · exact faithful_of_plain h _ _ _
    · have hdig : dnsResolveLocal machine query = dnsDigLocal machine query := by
        unfold dnsResolveLocal
        split <;> simp_all
      rw [hdig]
      unfold dnsDigLocal
      split
      · split <;> exact faithful_of_plain h _ _ _
      · exact faithful_of_plain h _ _ _

/-- The answers for one name are reported under another. -/
theorem other_name_reported :
    digLookup (digCommand ⟨"ex ample.com".toList, .MX⟩) = some ("example.com".toList, "MX".toList) ∧
      (dnsResolveRemote silent [] ⟨"ex ample.com".toList, .MX⟩).query = "ex ample.com".toList ∧
      ¬Faithful ⟨"ex ample.com".toList, .MX⟩
        (dnsResolveRemote silent [] ⟨"ex ample.com".toList, .MX⟩) := by
  refine ⟨by decide +kernel, rfl, fun h => ?_⟩
  have hlookup := h.lookup rfl
  revert hlookup
  decide +kernel

end SshCommander.DnsPerspectives
