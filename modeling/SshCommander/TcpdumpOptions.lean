import SshCommander.Getopt
import SshCommander.ShellWords
import SshCommander.Tcpdump

/-!
# The command line of a capture

What the shell, `sudo` and `tcpdump` make of the command of `TcpdumpRegistry::start`. The filter is
quoted for the shell, but one that starts with a dash is options to `tcpdump`.
-/

namespace SshCommander.TcpdumpOptions
open RustText ShellWords Tcpdump
open Getopt (Spec Parsed parse)

/-- The options that the command uses, as `sudo` and `tcpdump` document them. -/
structure Utilities where
  outer : Spec
  inner : Spec
  outer_n : outer 'n' = some false
  inner_l : inner 'l' = some false
  inner_n : inner 'n' = some false
  inner_s : inner 's' = some true
  inner_i : inner 'i' = some true

/-- The options of `sudo`, then what `tcpdump` reads of its own words. -/
def readCapture (u : Utilities) (cmd : Text) : Option (List (Char × Option Text) × Parsed) :=
  match wordsOf cmd with
  | some (name :: words) =>
    if name ≠ "sudo".toList then none
    else
      match parse u.outer none words with
      | some ⟨options, name :: args⟩ =>
        if name ≠ "tcpdump".toList then none else (parse u.inner none args).map (options, ·)
      | _ => none
  | _ => none

def snapText (snaplen : Option UInt32) : Text := (toString (snaplen.getD 96).toNat).toList

def captureOptions (interface : Text) (snaplen : Option UInt32) : List (Char × Option Text) :=
  [('l', none), ('n', none), ('n', none), ('s', some (snapText snaplen)), ('i', some interface)]

def captureOperands (filter : Text) : List Text := if (trim filter).isEmpty then [] else [filter]

variable {interface filter : Text} {snaplen : Option UInt32} {u : Utilities}

theorem interface_ordinary (h : validateInterface interface = .ok ()) :
    interface ≠ [] ∧ ∀ c ∈ interface, isOrdinary c = true := by
  unfold validateInterface at h
  split at h
  · cases h
  · rename_i hok
    simp only [Bool.or_eq_true, Bool.not_eq_true', List.isEmpty_iff, decide_eq_true_eq,
      not_or, Bool.not_eq_false, List.all_eq_true, beq_iff_eq, or_assoc] at hok
    refine ⟨hok.1, fun c hc => ?_⟩
    obtain halnum | hsign := hok.2.2 c hc
    · exact isOrdinary_of_isAlphanum halnum
    · refine isOrdinary_of_not_mem ?_
      obtain rfl | rfl | rfl | rfl := hsign <;> decide

theorem snapText_ordinary (snaplen : Option UInt32) :
    snapText snaplen ≠ [] ∧ ∀ c ∈ snapText snaplen, isOrdinary c = true := by
  have hdigits : snapText snaplen = Nat.toDigits 10 (snaplen.getD 96).toNat := by simp [snapText]
  rw [hdigits]
  refine ⟨Nat.toDigits_ne_nil, fun c hc => isOrdinary_of_isAlphanum ?_⟩
  have hdigit : c.isDigit = true := Nat.isDigit_of_mem_toDigits (b := 10) (by decide) (by decide) hc
  simp [Char.isAlphanum, hdigit]

def bareCommand (interface : Text) (snaplen : Option UInt32) : Text :=
  "sudo -n tcpdump -lnn -s ".toList ++ snapText snaplen ++ " -i ".toList ++ interface

def bareWords (interface : Text) (snaplen : Option UInt32) : List Text :=
  ["sudo".toList, "-n".toList, "tcpdump".toList, "-lnn".toList, "-s".toList, snapText snaplen,
    "-i".toList, interface]

/-- The command with any two ordinary words. -/
theorem tokenize_bare {snap : Text} (hsnap : run .between snap = (.word snap false, []))
    (hinterface : run .between interface = (.word interface false, [])) :
    tokenize ("sudo -n tcpdump -lnn -s ".toList ++ snap ++ " -i ".toList ++ interface) =
      some [.word "sudo".toList, .word "-n".toList, .word "tcpdump".toList, .word "-lnn".toList,
        .word "-s".toList, .word snap, .word "-i".toList, .word interface] := by
  have hstart : run .between "sudo -n tcpdump -lnn -s ".toList =
      (.between, [.word "sudo".toList, .word "-n".toList, .word "tcpdump".toList,
        .word "-lnn".toList, .word "-s".toList]) := by decide +kernel
  have hmiddle : run (.word snap false) " -i ".toList =
      (.between, [.word snap, .word "-i".toList]) := rfl
  rw [tokenize, tokensFrom, run_append, run_append, run_append, hstart, hsnap, hmiddle, hinterface]
  rfl

theorem tokenize_bareCommand (h : validateInterface interface = .ok ()) (snaplen : Option UInt32) :
    tokenize (bareCommand interface snaplen) =
      some ((bareWords interface snaplen).map .word) :=
  tokenize_bare (run_word (snapText_ordinary snaplen).1 (snapText_ordinary snaplen).2)
    (run_word (interface_ordinary h).1 (interface_ordinary h).2)

theorem tcpdumpCommand_eq (interface filter : Text) (snaplen : Option UInt32) :
    tcpdumpCommand interface filter snaplen =
      if (trim filter).isEmpty then bareCommand interface snaplen
      else bareCommand interface snaplen ++ ' ' :: ('\'' :: filter ++ ['\'']) := by
  have hquoted : bareCommand interface snaplen ++ " '".toList ++ filter ++ "'".toList =
      bareCommand interface snaplen ++ ' ' :: ('\'' :: filter ++ ['\'']) := by
    rw [List.append_assoc, List.append_assoc]
    rfl
  rw [← hquoted]
  rfl

/-- The shell reads the words that are meant, the filter as one of them. -/
theorem wordsOf_command (hi : validateInterface interface = .ok ())
    (hf : validateFilter filter = .ok ()) :
    wordsOf (tcpdumpCommand interface filter snaplen) =
      some (bareWords interface snaplen ++ captureOperands filter) := by
  have hbare := tokenize_bareCommand hi snaplen
  rw [tcpdumpCommand_eq, captureOperands]
  split
  · rw [List.append_nil]
    exact wordsOf_words hbare
  · refine wordsOf_words ?_
    have hquote : '\'' ∉ filter := by
      intro hmem
      rw [validateFilter, if_pos (by simpa using hmem)] at hf
      cases hf
    rw [tokenize_blank rfl hbare, tokenize_single hquote, List.map_append]
    rfl

theorem parse_outer (u : Utilities) (args : List Text) :
    parse u.outer none ("-n".toList :: "tcpdump".toList :: args) =
      some ⟨[('n', none)], "tcpdump".toList :: args⟩ := by
  have hn : "-n".toList = '-' :: ['n'] := by decide
  have htcpdump : "tcpdump".toList.head? ≠ some '-' := by decide
  rw [hn, Getopt.parse_flags (by simpa using u.outer_n) (by simp) (by simp),
    Getopt.parse_operand (.inl htcpdump)]
  rfl

theorem parse_inner (u : Utilities) (snap interface : Text) (operands : List Text) :
    parse u.inner none ("-lnn".toList :: "-s".toList :: snap :: "-i".toList :: interface ::
        operands) =
      (parse u.inner none operands).map (.prepend
        [('l', none), ('n', none), ('n', none), ('s', some snap), ('i', some interface)]) := by
  have hl : "-lnn".toList = '-' :: ['l', 'n', 'n'] := by decide
  have hs : "-s".toList = ['-', 's'] := by decide
  have hi : "-i".toList = ['-', 'i'] := by decide
  have hflags : ∀ c ∈ ['l', 'n', 'n'], u.inner c = some false := by
    simp [u.inner_l, u.inner_n]
  rw [hl, hs, hi, Getopt.parse_flags hflags (by simp) (by simp),
    Getopt.parse_argument u.inner_s (by decide), Getopt.parse_argument u.inner_i (by decide)]
  cases parse u.inner none operands with
  | none => rfl
  | some p => rfl

/-- Everything up to the filter is read as it is meant. -/
theorem readCapture_command (u : Utilities) (hi : validateInterface interface = .ok ())
    (hf : validateFilter filter = .ok ()) :
    readCapture u (tcpdumpCommand interface filter snaplen) =
      (parse u.inner none (captureOperands filter)).map fun p =>
        ([('n', none)], p.prepend (captureOptions interface snaplen)) := by
  rw [readCapture, wordsOf_command hi hf]
  simp only [bareWords, List.cons_append, List.nil_append, parse_outer, parse_inner, ne_eq,
    not_true_eq_false, if_false, Option.map_map]
  rfl

/-- A filter is read as the one operand, or a blank one as none, exactly when it does not start
with a dash that more text follows. -/
theorem filter_operand_iff (u : Utilities) (interface filter : Text) (snaplen : Option UInt32)
    (hi : validateInterface interface = .ok ()) (hf : validateFilter filter = .ok ()) :
    readCapture u (tcpdumpCommand interface filter snaplen) =
        some ([('n', none)], ⟨captureOptions interface snaplen, captureOperands filter⟩) ↔
      (trim filter).isEmpty ∨ filter = ['-'] ∨ filter.head? ≠ some '-' := by
  rw [readCapture_command u hi hf]
  by_cases hblank : (trim filter).isEmpty
  · have hnone : captureOperands filter = [] := if_pos hblank
    simp only [hnone, hblank, true_or, iff_true]
    rfl
  · have hone : captureOperands filter = [filter] := if_neg hblank
    rw [hone]
    by_cases hoperand : filter = ['-'] ∨ filter.head? ≠ some '-'
    · refine iff_of_true ?_ (.inr hoperand)
      rw [Getopt.parse_operand hoperand.symm]
      rfl
    · refine iff_of_false (fun h => ?_) (by tauto)
      obtain ⟨p, hp, hread⟩ := Option.map_eq_some_iff.mp h
      have hdash : filter.head? = some '-' := by tauto
      have hoperands : p.operands = [filter] :=
        congrArg (fun r : List (Char × Option Text) × Parsed => r.2.operands) hread
      rw [Getopt.parse_dash hdash (by tauto) hp] at hoperands
      cases hoperands

def utilities : Utilities where
  outer c := if c = 'n' then some false else if c = 'u' then some true else none
  inner c :=
    if c ∈ ['l', 'n', 'v'] then some false else if c ∈ ['s', 'i', 'w', 'z'] then some true else none
  outer_n := rfl
  inner_l := rfl
  inner_n := rfl
  inner_s := rfl
  inner_i := rfl

/-- A filter that makes `tcpdump` write a file. -/
theorem filter_writes_file :
    validateInterface "any".toList = .ok () ∧ validateFilter "-w/tmp/x".toList = .ok () ∧
      readCapture utilities (tcpdumpCommand "any".toList "-w/tmp/x".toList none) =
        some ([('n', none)], ⟨captureOptions "any".toList none ++ [('w', some "/tmp/x".toList)], []⟩) ∧
      readCapture utilities (tcpdumpCommand "any".toList "-w/tmp/x".toList none) ≠
        some ([('n', none)],
          ⟨captureOptions "any".toList none, captureOperands "-w/tmp/x".toList⟩) := by
  decide +kernel

/-- An interface with a dash in front is the value of its option, and the filter is the operand. -/
theorem filter_operand_port :
    readCapture utilities (tcpdumpCommand "-i".toList "port 80".toList (some 0)) =
      some ([('n', none)],
        ⟨captureOptions "-i".toList (some 0), captureOperands "port 80".toList⟩) :=
  (filter_operand_iff utilities "-i".toList "port 80".toList (some 0) (by decide +kernel)
    (by decide +kernel)).mpr (.inr (.inr (by decide)))

end SshCommander.TcpdumpOptions
