import SshCommander.FtpOperations

/-!
# The FTP control channel in step

A transfer that fails after its data stream is open returns before it takes the completion reply.
The next operation takes that reply for its own first request, and from there every reply is one
behind.
-/

namespace SshCommander.FtpControl
open RustText ControlChannel FtpOperations

variable {ftp : Suppaftp} {server : Server} {ch : Channel} {client : FtpClient} {α : Type}
  {op : Operation} {ops : List Operation} {copied : Except Text ℕ}
  {openFailed finalizeFailed failed : Text}

def AllOwn (client : FtpClient) : Prop := ∀ ch ∈ client.stream, ch.AllOwn

instance : Decidable (AllOwn client) := inferInstanceAs (Decidable (∀ ch ∈ client.stream, _))

/-- The transfer fails after its data stream is open, and before it is finalized: at the local
file, at the data stream, or at the flush. -/
def strands (ftp : Suppaftp) (server : Server) (client : FtpClient) : Operation → Bool
  | .downloadFile remotePath localPath io => client.stream.any fun ch =>
    ((ftp.retrAsStream remotePath).run server ch).2.isOk && !(receiveFile localPath io).isOk
  | .uploadFile localPath remotePath io => client.stream.any fun ch =>
    ((ftp.putWithStream remotePath).run server ch).2.isOk && !(sendFile localPath io).isOk
  | _ => false

/-- No operation follows on a transfer that fails so. -/
def NoneStranded (ftp : Suppaftp) (server : Server) : FtpClient → List Operation → Prop
  | _, [] => True
  | client, op :: ops =>
    (strands ftp server client op = true → ops = []) ∧
      NoneStranded ftp server (perform ftp server client op) ops

theorem call_of_ok {t : Talk (Except Text α)} {a : α} (h : (t.run server ch).2 = .ok a) :
    call server t failed ch = ((t.run server ch).1, .ok a) := by
  unfold call
  rw [← Prod.eta (t.run server ch), h]

theorem call_of_error {t : Talk (Except Text α)} {e : Text} (h : (t.run server ch).2 = .error e) :
    call server t failed ch = ((t.run server ch).1, .error (.operation (failed ++ e))) := by
  unfold call
  rw [← Prod.eta (t.run server ch), h]

theorem call_fst (t : Talk (Except Text α)) : (call server t failed ch).1 = (t.run server ch).1 := by
  cases h : (t.run server ch).2 with
  | error e => rw [call_of_error h]
  | ok a => rw [call_of_ok h]

variable {opening finalizing : Talk (Except Text Unit)}

theorem transfer_refused {e : Text} (h : (opening.run server ch).2 = .error e) :
    (transfer server opening finalizing openFailed finalizeFailed copied ch).1 =
      (opening.run server ch).1 := by
  simp only [transfer, call_of_error h]

theorem transfer_stranded {message : Text} (h : (opening.run server ch).2 = .ok ()) :
    (transfer server opening finalizing openFailed finalizeFailed (.error message) ch).1 =
      (opening.run server ch).1 := by
  simp only [transfer, call_of_ok h]

theorem transfer_finalized {total : ℕ} (h : (opening.run server ch).2 = .ok ()) :
    (transfer server opening finalizing openFailed finalizeFailed (.ok total) ch).1 =
      (finalizing.run server (opening.run server ch).1).1 := by
  simp only [transfer, call_of_ok h]
  cases hf : (finalizing.run server (opening.run server ch).1).2 with
  | error e => simp only [call_of_error hf]
  | ok u => simp only [call_of_ok hf]

/-- A transfer whose stream is not opened, or that is finalized, takes all its replies. One that
is stranded leaves its completion reply. -/
theorem transfer_spec (hopen : TakesPreliminary opening) (hfin : TakesCompletion finalizing)
    (hs : Conforms server) (h : ch.InStep) :
    if (opening.run server ch).2.isOk && !copied.isOk then
      (transfer server opening finalizing openFailed finalizeFailed copied ch).1.Owed
    else (transfer server opening finalizing openFailed finalizeFailed copied ch).1.InStep := by
  cases hr : (opening.run server ch).2 with
  | error e =>
    rw [transfer_refused hr]
    exact hopen.refused server ch e hs h hr
  | ok u =>
    have howed := hopen.opened server ch hs h hr
    cases copied with
    | error message =>
      rw [transfer_stranded hr]
      exact howed
    | ok total =>
      rw [transfer_finalized hr]
      exact hfin server _ howed

theorem transfer_asks (hopen : opening.Asks) (h : ch.Owed) :
    ¬(transfer server opening finalizing openFailed finalizeFailed copied ch).1.AllOwn := by
  have hnot : ¬(opening.run server ch).1.AllOwn := Talk.not_allOwn_of_owed hopen h
  cases hr : (opening.run server ch).2 with
  | error e => rwa [transfer_refused hr]
  | ok u =>
    cases copied with
    | error message => rwa [transfer_stranded hr]
    | ok total =>
      rw [transfer_finalized hr]
      exact fun hown => hnot (Talk.allOwn_of_suffix (Talk.reads_run finalizing _) hown)

/-- An operation in step goes on in step, unless it strands. -/
theorem perform_inStep (hl : ftp.Lawful) (hs : Conforms server) (h : ch.InStep) :
    ∃ ch', perform ftp server ⟨some ch⟩ op = ⟨some ch'⟩ ∧
      if strands ftp server ⟨some ch⟩ op then ch'.Owed else ch'.InStep := by
  cases op with
  | listDir path lines =>
    exact ⟨_, rfl, (call_fst _).symm ▸ (hl.list path lines).inStep server ch hs h⟩
  | downloadFile remotePath localPath io =>
    exact ⟨_, rfl, transfer_spec (hl.retrAsStream remotePath) hl.finalizeRetrStream hs h⟩
  | uploadFile localPath remotePath io =>
    exact ⟨_, rfl, transfer_spec (hl.putWithStream remotePath) hl.finalizePutStream hs h⟩
  | createDir path => exact ⟨_, rfl, (call_fst _).symm ▸ (hl.mkdir path).inStep server ch hs h⟩
  | rename oldPath newPath =>
    exact ⟨_, rfl, (call_fst _).symm ▸ (hl.rename oldPath newPath).inStep server ch hs h⟩
  | deleteFile path => exact ⟨_, rfl, (call_fst _).symm ▸ (hl.rm path).inStep server ch hs h⟩
  | deleteDir path => exact ⟨_, rfl, (call_fst _).symm ▸ (hl.rmdir path).inStep server ch hs h⟩

/-- An operation takes the reply that a stranded one left. -/
theorem perform_owed (hl : ftp.Lawful) (h : ch.Owed) :
    ∃ ch', perform ftp server ⟨some ch⟩ op = ⟨some ch'⟩ ∧ ¬ch'.AllOwn := by
  have hcall {β : Type} {t : Talk (Except Text β)} {failed : Text} (ht : t.Asks) :
      ¬(call server t failed ch).1.AllOwn := by
    rw [call_fst]
    exact Talk.not_allOwn_of_owed ht h
  cases op with
  | listDir path lines => exact ⟨_, rfl, hcall (hl.list path lines).asks⟩
  | downloadFile remotePath localPath io =>
    exact ⟨_, rfl, transfer_asks (hl.retrAsStream remotePath).asks h⟩
  | uploadFile localPath remotePath io =>
    exact ⟨_, rfl, transfer_asks (hl.putWithStream remotePath).asks h⟩
  | createDir path => exact ⟨_, rfl, hcall (hl.mkdir path).asks⟩
  | rename oldPath newPath => exact ⟨_, rfl, hcall (hl.rename oldPath newPath).asks⟩
  | deleteFile path => exact ⟨_, rfl, hcall (hl.rm path).asks⟩
  | deleteDir path => exact ⟨_, rfl, hcall (hl.rmdir path).asks⟩

theorem reads_transfer : ch.reads <:+
    (transfer server opening finalizing openFailed finalizeFailed copied ch).1.reads := by
  cases hr : (opening.run server ch).2 with
  | error e =>
    rw [transfer_refused hr]
    exact Talk.reads_run opening ch
  | ok u =>
    cases copied with
    | error message =>
      rw [transfer_stranded hr]
      exact Talk.reads_run opening ch
    | ok total =>
      rw [transfer_finalized hr]
      exact (Talk.reads_run opening ch).trans (Talk.reads_run finalizing _)

/-- No operation mends what was taken wrongly. -/
theorem perform_not_allOwn (h : ¬ch.AllOwn) :
    ∃ ch', perform ftp server ⟨some ch⟩ op = ⟨some ch'⟩ ∧ ¬ch'.AllOwn := by
  have hcall {β : Type} (t : Talk (Except Text β)) (failed : Text) :
      ¬(call server t failed ch).1.AllOwn := by
    rw [call_fst]
    exact fun hown => h (Talk.allOwn_of_suffix (Talk.reads_run t ch) hown)
  cases op with
  | downloadFile | uploadFile =>
    exact ⟨_, rfl, fun hown => h (Talk.allOwn_of_suffix reads_transfer hown)⟩
  | listDir | createDir | rename | deleteFile | deleteDir => exact ⟨_, rfl, hcall _ _⟩

theorem performAll_not_allOwn (h : ¬ch.AllOwn) : ¬AllOwn (performAll ftp server ⟨some ch⟩ ops) := by
  induction ops generalizing ch with
  | nil => exact fun hown => h (hown ch rfl)
  | cons op ops ih =>
    obtain ⟨ch', hnext, hnot⟩ := perform_not_allOwn h
    rw [performAll, List.foldl_cons, hnext]
    exact ih hnot

/-- Every operation of a sequence takes the replies to its own requests, exactly when none follows
on a transfer that failed after its data stream was open and before it was finalized. -/
theorem own_replies_iff (hl : ftp.Lawful) (hs : Conforms server) (h : ch.InStep)
    (ops : List Operation) :
    AllOwn (performAll ftp server ⟨some ch⟩ ops) ↔ NoneStranded ftp server ⟨some ch⟩ ops := by
  induction ops generalizing ch with
  | nil =>
    refine iff_of_true ?_ trivial
    rintro _ ⟨⟩
    exact h.own
  | cons op ops ih =>
    obtain ⟨ch', hnext, hspec⟩ := perform_inStep hl hs h
    rw [performAll, List.foldl_cons, NoneStranded, hnext]
    cases hstrand : strands ftp server ⟨some ch⟩ op with
    | false =>
      rw [hstrand] at hspec
      simpa [performAll] using ih hspec
    | true =>
      rw [hstrand] at hspec
      cases ops with
      | nil =>
        refine iff_of_true ?_ ⟨fun _ => rfl, trivial⟩
        rintro _ ⟨⟩
        exact hspec.own
      | cons next ops =>
        obtain ⟨ch'', hnext', hnot⟩ := perform_owed hl hspec
        refine iff_of_false ?_ fun hnone => ?_
        · rw [List.foldl_cons, hnext']
          exact performAll_not_allOwn hnot
        · cases hnone.1 rfl

def take (expected : List ℕ) : Talk (Except Text Unit) :=
  .reply fun
  | none => .done (.error "connection closed".toList)
  | some reply =>
    .done (if reply.code ∈ expected then .ok () else .error "unexpected reply".toList)

def exchange (line : Text) (expected : List ℕ) : Talk (Except Text Unit) :=
  .request line (take expected)

def andThen (first second : Talk (Except Text Unit)) : Talk (Except Text Unit) :=
  first.bind fun
  | .error e => .done (.error e)
  | .ok () => second

def openData (line : Text) : Talk (Except Text Unit) :=
  andThen (exchange "PASV".toList [227]) (exchange line [125, 150])

/-- The exchanges of each method, as the library documents them. -/
def documented : Suppaftp where
  list path lines := (openData ("LIST ".toList ++ path)).bind fun
    | .error e => .done (.error e)
    | .ok () => (take [226, 250]).bind fun
      | .error e => .done (.error e)
      | .ok () => .done lines
  retrAsStream path := openData ("RETR ".toList ++ path)
  finalizeRetrStream := take [226, 250]
  putWithStream path := openData ("STOR ".toList ++ path)
  finalizePutStream := take [226, 250]
  mkdir path := exchange ("MKD ".toList ++ path) [257]
  rename oldPath newPath := andThen (exchange ("RNFR ".toList ++ oldPath) [350])
    (exchange ("RNTO ".toList ++ newPath) [250])
  rm path := exchange ("DELE ".toList ++ path) [250]
  rmdir path := exchange ("RMD ".toList ++ path) [250]

theorem take_run {expected : List ℕ} {reply : Reply} {rest : List Reply}
    (h : ch.unread = reply :: rest) : (take expected).run server ch = (ch.receive.1,
      if reply.code ∈ expected then .ok () else .error "unexpected reply".toList) := by
  rw [take, Talk.run_reply h]
  rfl

theorem takesCompletion_take (expected : List ℕ) : TakesCompletion (take expected) := by
  intro server ch h
  obtain ⟨reply, hunread, hsent⟩ := h.unread
  rw [take_run hunread]
  exact ⟨h.own.receive hunread hsent, by rw [Channel.receive_cons hunread]⟩

/-- A request that opens no transfer gets one reply. -/
theorem owed_send {line : Text} (hline : isTransfer line = false) (hs : Conforms server)
    (h : ch.InStep) : (ch.send server line).Owed := by
  obtain ⟨code, -, hone⟩ | ⟨htransfer, -⟩ := hs ch.sent line
  · exact ⟨h.own, ⟨ch.sent, code⟩, by simp [Channel.send, h.unread, hone], rfl⟩
  · cases hline.symm.trans htransfer

theorem takesAll_exchange {line : Text} (hline : isTransfer line = false) (expected : List ℕ) :
    TakesAll (exchange line expected) where
  asks := ⟨line, _, rfl⟩
  inStep server ch hs h :=
    takesCompletion_take expected server (ch.send server line) (owed_send hline hs h)

theorem andThen_run (first second : Talk (Except Text Unit)) :
    (andThen first second).run server ch =
      match (first.run server ch).2 with
      | .error e => ((first.run server ch).1, .error e)
      | .ok () => second.run server (first.run server ch).1 := by
  rw [andThen, Talk.run_bind]
  cases (first.run server ch).2 <;> rfl

theorem asks_andThen {first second : Talk (Except Text Unit)} (h : first.Asks) :
    (andThen first second).Asks := by
  obtain ⟨line, next, rfl⟩ := h
  exact ⟨line, _, rfl⟩

theorem takesAll_andThen {first second : Talk (Except Text Unit)} (h : TakesAll first)
    (h' : TakesAll second) : TakesAll (andThen first second) where
  asks := asks_andThen h.asks
  inStep server ch hs hin := by
    have hfirst := h.inStep server ch hs hin
    rw [andThen_run]
    cases (first.run server ch).2 with
    | error e => exact hfirst
    | ok u => exact h'.inStep server _ hs hfirst

/-- A transfer is opened with its preliminary reply, or refused with its only one. -/
theorem exchange_transfer (line : Text) (hs : Conforms server) (h : ch.InStep) :
    (((exchange line [125, 150]).run server ch).2 = .ok () ∧
        ((exchange line [125, 150]).run server ch).1.Owed) ∨
      ((exchange line [125, 150]).run server ch).2 = .error "unexpected reply".toList ∧
        ((exchange line [125, 150]).run server ch).1.InStep := by
  have hrun : (exchange line [125, 150]).run server ch =
      (take [125, 150]).run server (ch.send server line) := rfl
  have hown : (ch.send server line).AllOwn := h.own
  rw [hrun]
  obtain ⟨code, hcode, hone⟩ | ⟨-, opening, code, hopening, -, htwo⟩ := hs ch.sent line
  · have hunread : (ch.send server line).unread = [⟨ch.sent, code⟩] := by
      simp [Channel.send, h.unread, hone]
    have hnot : code ∉ [125, 150] := by
      simp only [List.mem_cons, List.not_mem_nil, or_false]
      omega
    rw [take_run hunread, if_neg hnot]
    exact .inr ⟨rfl, hown.receive hunread rfl, by rw [Channel.receive_cons hunread]⟩
  · have hunread : (ch.send server line).unread = [⟨ch.sent, opening⟩, ⟨ch.sent, code⟩] := by
      simp [Channel.send, h.unread, htwo]
    have hmem : opening ∈ [125, 150] := by simpa using hopening
    rw [take_run hunread, if_pos hmem]
    refine .inl ⟨rfl, hown.receive hunread rfl, ⟨ch.sent, code⟩, ?_⟩
    rw [Channel.receive_cons hunread]
    exact ⟨rfl, rfl⟩

theorem takesPreliminary_exchange (line : Text) : TakesPreliminary (exchange line [125, 150]) := by
  refine ⟨⟨line, _, rfl⟩, fun server ch hs h hok => ?_, fun server ch e hs h herr => ?_⟩
  · obtain ⟨-, howed⟩ | ⟨herr, -⟩ := exchange_transfer line hs h
    · exact howed
    · cases hok.symm.trans herr
  · obtain ⟨hok, -⟩ | ⟨-, hin⟩ := exchange_transfer line hs h
    · cases hok.symm.trans herr
    · exact hin

theorem andThen_ok {first second : Talk (Except Text Unit)} (h : (first.run server ch).2 = .ok ()) :
    (andThen first second).run server ch = second.run server (first.run server ch).1 := by
  rw [andThen_run, h]

theorem andThen_error {first second : Talk (Except Text Unit)} {e : Text}
    (h : (first.run server ch).2 = .error e) :
    (andThen first second).run server ch = ((first.run server ch).1, .error e) := by
  rw [andThen_run, h]

theorem takesPreliminary_openData (line : Text) : TakesPreliminary (openData line) := by
  have hpasv : TakesAll (exchange "PASV".toList [227]) := takesAll_exchange rfl [227]
  have hdata := takesPreliminary_exchange line
  refine ⟨asks_andThen hpasv.asks, fun server ch hs h hok => ?_, fun server ch e hs h herr => ?_⟩
  · cases hr : ((exchange "PASV".toList [227]).run server ch).2 with
    | error e =>
      rw [openData, andThen_error hr] at hok
      cases hok
    | ok u =>
      rw [openData, andThen_ok hr] at hok ⊢
      exact hdata.opened server _ hs (hpasv.inStep server ch hs h) hok
  · cases hr : ((exchange "PASV".toList [227]).run server ch).2 with
    | error e' =>
      rw [openData, andThen_error hr]
      exact hpasv.inStep server ch hs h
    | ok u =>
      rw [openData, andThen_ok hr] at herr ⊢
      exact hdata.refused server _ e hs (hpasv.inStep server ch hs h) herr

theorem documented_lawful : documented.Lawful where
  list path lines := by
    have hopen := takesPreliminary_openData ("LIST ".toList ++ path)
    refine ⟨⟨"PASV".toList, _, rfl⟩, fun server ch hs h => ?_⟩
    simp only [documented, Talk.run_bind]
    cases hr : ((openData ("LIST ".toList ++ path)).run server ch).2 with
    | error e => exact hopen.refused server ch e hs h hr
    | ok u =>
      have hdone := takesCompletion_take [226, 250] server _ (hopen.opened server ch hs h hr)
      simp only [Talk.run_bind]
      cases ((take [226, 250]).run server ((openData ("LIST ".toList ++ path)).run server ch).1).2 <;>
        exact hdone
  retrAsStream path := takesPreliminary_openData _
  finalizeRetrStream := takesCompletion_take _
  putWithStream path := takesPreliminary_openData _
  finalizePutStream := takesCompletion_take _
  mkdir path := takesAll_exchange rfl _
  rename oldPath newPath := takesAll_andThen (takesAll_exchange rfl _) (takesAll_exchange rfl _)
  rm path := takesAll_exchange rfl _
  rmdir path := takesAll_exchange rfl _

def accepting : Server := fun _ line =>
  if isTransfer line then [150, 226]
  else if line = "PASV".toList then [227]
  else if "MKD".toList.isPrefixOf line then [257]
  else if "RNFR".toList.isPrefixOf line then [350]
  else [250]

theorem accepting_conforms : Conforms accepting := by
  intro n line
  unfold accepting
  split
  · exact .inr ⟨‹_›, 150, 226, .inr rfl, by decide, rfl⟩
  · refine .inl ?_
    split
    · exact ⟨227, by decide, rfl⟩
    · split
      · exact ⟨257, by decide, rfl⟩
      · split
        · exact ⟨350, by decide, rfl⟩
        · exact ⟨250, by decide, rfl⟩

/-- A download whose local disk is full, after an upload. -/
def stoppedDownload : List Operation :=
  [.uploadFile "l".toList "r".toList ⟨.ok (), [.ok 5], [], .ok ()⟩,
    .downloadFile "r".toList "l".toList ⟨.ok (), [.ok 5], [.error "disk full".toList], .ok ()⟩]

theorem own_replies_stoppedDownload :
    AllOwn (performAll documented accepting ⟨some .new⟩ stoppedDownload) :=
  (own_replies_iff documented_lawful accepting_conforms ⟨by decide, rfl⟩ stoppedDownload).mpr
    ⟨by decide, fun _ => rfl, trivial⟩

/-- A download whose local file cannot be created, and a new directory after it. -/
def createAfterDownload : List Operation :=
  [.downloadFile "r".toList "l".toList ⟨.error "denied".toList, [], [], .ok ()⟩,
    .createDir "d".toList]

/-- The reply that the download left is taken for the request to create the directory. -/
theorem createAfterDownload_shifted :
    (performAll documented accepting ⟨some .new⟩ createAfterDownload).stream.map (·.reads.head?) =
        some (some ⟨2, ⟨1, 226⟩⟩) ∧
      ¬AllOwn (performAll documented accepting ⟨some .new⟩ createAfterDownload) := by
  decide +kernel

end SshCommander.FtpControl
