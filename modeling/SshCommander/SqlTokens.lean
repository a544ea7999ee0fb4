import SshCommander.RustText

/-!
# SQL read as tokens

PostgreSQL's rule for quoted identifiers: from one double quote to the next that is not doubled,
whatever is between. Over the tokens, what stands inside which brackets.
-/

namespace SshCommander.SqlTokens
open RustText

inductive Token where
  /-- A keyword, an unquoted name, a number or a placeholder. -/
  | word (text : Text)
  | quoted (name : Text)
  | symbol (c : Char)
  | unterminated (text : Text)
  deriving DecidableEq, Repr

/-- What may stand in an unquoted name, a number or a placeholder. -/
def wordChar (c : Char) : Bool :=
  ('a' ≤ c && c ≤ 'z') || ('A' ≤ c && c ≤ 'Z') || ('0' ≤ c && c ≤ '9') || c == '_' || c == '$' ||
    128 ≤ c.toNat

/-- The token that is being read; `closing` is after a quote that ends the name unless it is
doubled. -/
inductive Reading where
  | idle
  | word (text : Text)
  | quoted (name : Text)
  | closing (name : Text)
  deriving DecidableEq, Repr

def start (c : Char) : List Token × Reading :=
  if c = '"' then ([], .quoted [])
  else if wordChar c then ([], .word [c])
  else if isWhitespace c then ([], .idle)
  else ([.symbol c], .idle)

def flush : Reading → List Token
  | .idle => []
  | .word text => [.word text]
  | .quoted name => [.unterminated name]
  | .closing name => [.quoted name]

/-- One character: the tokens it completes, and what is being read after it. -/
def scanChar (r : Reading) (c : Char) : List Token × Reading :=
  match r with
  | .idle => start c
  | .word text =>
    if wordChar c then ([], .word (text ++ [c])) else (.word text :: (start c).1, (start c).2)
  | .quoted name => if c = '"' then ([], .closing name) else ([], .quoted (name ++ [c]))
  | .closing name =>
    if c = '"' then ([], .quoted (name ++ ['"'])) else (.quoted name :: (start c).1, (start c).2)

def scan (r : Reading) : Text → List Token × Reading
  | [] => ([], r)
  | c :: cs =>
    let next := scan (scanChar r c).2 cs
    ((scanChar r c).1 ++ next.1, next.2)

def tokenise (s : Text) : List Token := (scan .idle s).1 ++ flush (scan .idle s).2

theorem scan_append (r : Reading) (a b : Text) :
    scan r (a ++ b) = ((scan r a).1 ++ (scan (scan r a).2 b).1, (scan (scan r a).2 b).2) := by
  induction a generalizing r with
  | nil => rfl
  | cons c cs ih =>
    rw [List.cons_append, scan, scan, ih]
    simp only [List.append_assoc]

/-- A text read in two parts. -/
theorem tokenise_append (a b : Text) {ts : List Token} {r : Reading} (h : scan .idle a = (ts, r)) :
    tokenise (a ++ b) = ts ++ ((scan r b).1 ++ flush (scan r b).2) := by
  rw [tokenise, scan_append, h, List.append_assoc]

/-- The open brackets after a token; `none` where it closes none that is open. -/
def push (t : Token) (stack : List Char) : Option (List Char) :=
  match t with
  | .symbol '(' => some ('(' :: stack)
  | .symbol '[' => some ('[' :: stack)
  | .symbol ')' => if stack.head? = some '(' then some stack.tail else none
  | .symbol ']' => if stack.head? = some '[' then some stack.tail else none
  | _ => some stack

def nest : List Char → List Token → Option (List Char)
  | stack, [] => some stack
  | stack, t :: ts => (push t stack).bind fun stack' => nest stack' ts

def BracketsClosed (ts : List Token) : Prop := nest [] ts = some []

instance (ts : List Token) : Decidable (BracketsClosed ts) := inferInstanceAs (Decidable (_ = _))

def topTokens : List Char → List Token → List Token
  | _, [] => []
  | stack, t :: ts =>
    (if stack = [] then [t] else []) ++ topTokens ((push t stack).getD stack) ts

/-- The tokens up to the first at the top that stops them, and those after it. -/
def upTo (stop : Token → Bool) : List Char → List Token → Option (List Token × List Token)
  | _, [] => none
  | stack, t :: ts =>
    if stack = [] ∧ stop t = true then some ([], ts)
    else (push t stack).bind fun stack' =>
      (upTo stop stack' ts).map fun p => (t :: p.1, p.2)

def commaParts : List Char → List Token → List (List Token)
  | _, [] => [[]]
  | stack, t :: ts =>
    let parts := commaParts ((push t stack).getD stack) ts
    if stack = [] ∧ t = .symbol ',' then [] :: parts
    else (t :: parts.headD []) :: parts.tail

theorem nest_append (stack : List Char) (a b : List Token) :
    nest stack (a ++ b) = (nest stack a).bind fun stack' => nest stack' b := by
  induction a generalizing stack with
  | nil => rfl
  | cons t ts ih =>
    rw [List.cons_append, nest, nest]
    cases push t stack with
    | none => rfl
    | some stack' => exact ih stack'

theorem topTokens_append {stack stack' : List Char} {a : List Token} (h : nest stack a = some stack')
    (b : List Token) : topTokens stack (a ++ b) = topTokens stack a ++ topTokens stack' b := by
  induction a generalizing stack with
  | nil =>
    obtain rfl : stack = stack' := Option.some.inj h
    rfl
  | cons t ts ih =>
    rw [nest] at h
    obtain ⟨next, hpush, hnest⟩ := Option.bind_eq_some_iff.mp h
    rw [List.cons_append, topTokens, topTokens, hpush, Option.getD_some, ih hnest,
      List.append_assoc]

theorem commaParts_ne_nil (stack : List Char) (ts : List Token) : commaParts stack ts ≠ [] := by
  cases ts with
  | nil => simp [commaParts]
  | cons t ts =>
    rw [commaParts]
    split_ifs <;> simp

/-- There is one part more than there are commas at the top. -/
theorem length_commaParts (stack : List Char) (ts : List Token) :
    (commaParts stack ts).length = (topTokens stack ts).count (.symbol ',') + 1 := by
  induction ts generalizing stack with
  | nil => rfl
  | cons t ts ih =>
    have hne := commaParts_ne_nil ((push t stack).getD stack) ts
    have hlen := ih ((push t stack).getD stack)
    rw [commaParts, topTokens, List.count_append]
    by_cases hcomma : stack = [] ∧ t = .symbol ','
    · obtain ⟨rfl, rfl⟩ := hcomma
      simp only [and_self, if_true, List.length_cons, hlen, List.count_singleton_self]
      omega
    · have htail : ((commaParts ((push t stack).getD stack) ts).tail).length + 1 =
          (commaParts ((push t stack).getD stack) ts).length := by
        rw [List.length_tail]
        have := List.length_pos_of_ne_nil hne
        omega
      have hcount : (if stack = [] then [t] else []).count (.symbol ',') = 0 := by
        apply List.count_eq_zero.mpr
        intro hm
        apply hcomma
        by_cases hstack : stack = []
        · rw [if_pos hstack] at hm
          exact ⟨hstack, (List.mem_singleton.mp hm).symm⟩
        · rw [if_neg hstack] at hm
          cases hm
      simp only [if_neg hcomma, List.length_cons, htail, hlen, hcount, Nat.zero_add]

theorem commaParts_of_top {stack : List Char} {ts : List Token}
    (h : .symbol ',' ∉ topTokens stack ts) : commaParts stack ts = [ts] := by
  induction ts generalizing stack with
  | nil => rfl
  | cons t ts ih =>
    rw [topTokens, List.mem_append, not_or] at h
    have hcomma : ¬(stack = [] ∧ t = .symbol ',') := by
      rintro ⟨rfl, rfl⟩
      simp at h
    rw [commaParts, ih h.2]
    simp [hcomma]

/-- A part without a comma of its own, up to the comma that ends it. -/
theorem commaParts_cons {stack : List Char} {a : List Token} (ha : nest stack a = some [])
    (htop : .symbol ',' ∉ topTokens stack a) (b : List Token) :
    commaParts stack (a ++ .symbol ',' :: b) = a :: commaParts [] b := by
  induction a generalizing stack with
  | nil =>
    obtain rfl : stack = [] := Option.some.inj ha
    rw [List.nil_append, commaParts]
    simp [push]
  | cons t ts ih =>
    rw [nest] at ha
    obtain ⟨next, hpush, hnest⟩ := Option.bind_eq_some_iff.mp ha
    rw [topTokens, List.mem_append, not_or, hpush, Option.getD_some] at htop
    have hcomma : ¬(stack = [] ∧ t = .symbol ',') := by
      rintro ⟨rfl, rfl⟩
      simp at htop
    rw [List.cons_append, commaParts, hpush, Option.getD_some, ih hnest htop.2]
    simp [hcomma]

/-- Nothing in the part stops the scan. -/
theorem upTo_append {stop : Token → Bool} {stack stack' : List Char} {a : List Token}
    (ha : nest stack a = some stack') (htop : ∀ t ∈ topTokens stack a, stop t = false)
    (b : List Token) :
    upTo stop stack (a ++ b) = (upTo stop stack' b).map fun p => (a ++ p.1, p.2) := by
  induction a generalizing stack with
  | nil =>
    obtain rfl : stack = stack' := Option.some.inj ha
    simp
  | cons t ts ih =>
    rw [nest] at ha
    obtain ⟨next, hpush, hnest⟩ := Option.bind_eq_some_iff.mp ha
    rw [topTokens, hpush, Option.getD_some] at htop
    have hstop : ¬(stack = [] ∧ stop t = true) := by
      rintro ⟨rfl, ht⟩
      rw [htop t (by simp)] at ht
      cases ht
    rw [List.cons_append, upTo, if_neg hstop, hpush, Option.bind_some,
      ih hnest fun t' ht' => htop t' (List.mem_append_right _ ht'), Option.map_map]
    rfl

/-- The scan stops at the first token at the top that stops it. -/
theorem upTo_stop {stop : Token → Bool} {a : List Token} (ha : BracketsClosed a)
    (htop : ∀ t ∈ topTokens [] a, stop t = false) {t : Token} (ht : stop t = true)
    (b : List Token) : upTo stop [] (a ++ t :: b) = some (a, b) := by
  rw [upTo_append ha htop, upTo]
  simp [ht]

/-- A part with a stopping token at the top stops the scan early. -/
theorem upTo_inside {stop : Token → Bool} {stack stack' : List Char} {a : List Token}
    (ha : nest stack a = some stack') (htop : ∃ t ∈ topTokens stack a, stop t = true)
    (b : List Token) :
    ∃ before t after, a = before ++ t :: after ∧
      upTo stop stack (a ++ b) = some (before, after ++ b) := by
  induction a generalizing stack with
  | nil =>
    obtain ⟨t, ht, -⟩ := htop
    cases ht
  | cons t ts ih =>
    rw [nest] at ha
    obtain ⟨next, hpush, hnest⟩ := Option.bind_eq_some_iff.mp ha
    rw [List.cons_append, upTo]
    by_cases hstop : stack = [] ∧ stop t = true
    · exact ⟨[], t, ts, rfl, by rw [if_pos hstop]⟩
    · rw [topTokens, hpush, Option.getD_some] at htop
      have hlater : ∃ t' ∈ topTokens next ts, stop t' = true := by
        obtain ⟨t', ht', hstop'⟩ := htop
        rcases List.mem_append.mp ht' with hm | hm
        · exfalso
          apply hstop
          by_cases hstack : stack = []
          · rw [if_pos hstack] at hm
            exact ⟨hstack, List.mem_singleton.mp hm ▸ hstop'⟩
          · rw [if_neg hstack] at hm
            cases hm
        · exact ⟨t', hm, hstop'⟩
      obtain ⟨before, t', after, rfl, hup⟩ := ih hnest hlater
      refine ⟨t :: before, t', after, rfl, ?_⟩
      rw [if_neg hstop, hpush, Option.bind_some, hup]
      rfl

end SshCommander.SqlTokens
