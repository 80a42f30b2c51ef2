import TrustOnboard.ExecSimulation
import TrustOnboard.ModemLink
import TrustOnboard.SerialModel

/-! The driver on a port with a modem at its other end. Calls of `read` and `write` that move a part of the data, or nothing
for some time, make no difference: every byte goes over the cable once and in order, and the driver does what it does where
`recv` delivers the bytes of the replies one after the other. -/

namespace TrustOnboard

open Exec SEInterface ATInterface

/-- What is behind a port: a modem, the part of a command that has come to it, and what it has sent that was not read. -/
structure Cable (μ : Type) where
  modem : μ
  unsent : List UInt8
  unread : List UInt8

namespace Cable

variable {μ : Type} (modem : Modem μ)

/-- A byte comes to the modem. The end of a line is the end of a command. -/
def feed (cable : Cable μ) (byte : UInt8) : Cable μ :=
  if byte = newline then
    { modem := (modem cable.modem (cable.unsent ++ [byte])).2
      unsent := []
      unread := cable.unread ++ (modem cable.modem (cable.unsent ++ [byte])).1 }
  else { cable with unsent := cable.unsent ++ [byte] }

theorem feed_body {body : List UInt8} (hbody : newline ∉ body) (cable : Cable μ) :
    body.foldl (feed modem) cable = { cable with unsent := cable.unsent ++ body } := by
  induction body generalizing cable with
  | nil =>
      rw [List.append_nil]
      rfl
  | cons byte body ih =>
      rw [List.mem_cons, not_or] at hbody
      rw [List.foldl_cons, ih hbody.2, feed, if_neg (Ne.symm hbody.1), List.append_assoc, List.singleton_append]

/-- A command in one line. -/
theorem feed_line {body : List UInt8} (hbody : newline ∉ body) {cable : Cable μ} (hunsent : cable.unsent = []) :
    (body ++ [newline]).foldl (feed modem) cable =
      ⟨(modem cable.modem (body ++ [newline])).2, [], cable.unread ++ (modem cable.modem (body ++ [newline])).1⟩ := by
  rw [List.foldl_append, feed_body modem hbody, hunsent, List.nil_append, List.foldl_cons, List.foldl_nil, feed, if_pos rfl]

end Cable

/-- A modem at a port. What `read` gives comes from the cable, and what `write` takes goes to it; a call that moves nothing
brings the next one that does nearer. -/
structure Posix.Attaches {ε μ : Type} (posix : Posix ε) (fd : Nat) (modem : Modem μ) (cable : ε → Cable μ) (lag : ε → Nat) :
    Prop where
  reads : ∀ env n, 0 < n → (cable env).unread ≠ [] → ∃ bytes env', posix.read fd n env = (some bytes, env') ∧
    bytes.length ≤ n ∧ cable env = { cable env' with unread := bytes ++ (cable env').unread } ∧
      (bytes = [] → lag env' < lag env)
  writes : ∀ env data, data ≠ [] → ∃ count env', posix.write fd data env = (some count, env') ∧ count ≤ data.length ∧
    cable env' = (data.take count).foldl (Cable.feed modem) (cable env) ∧ (count = 0 → lag env' < lag env)

/-! ### The port -/

namespace LSerial

section Attached

variable {ε μ : Type} {posix : Posix ε} {fd : Nat} {modem : Modem μ} {cable : ε → Cable μ} {lag : ε → Nat} {s : LSerial ε}

/-- Only the operating system has moved. -/
def Kept (s s' : LSerial ε) : Prop := s' = { s with env := s'.env }

variable (cable) in
/-- The data have come from the cable. -/
def Taken (s : LSerial ε) (data : List UInt8) (s' : LSerial ε) : Prop :=
  Kept s s' ∧ cable s.env = { cable s'.env with unread := data ++ (cable s'.env).unread }

variable (modem cable) in
/-- The data have gone to the cable. -/
def Given (s : LSerial ε) (data : List UInt8) (s' : LSerial ε) : Prop :=
  Kept s s' ∧ cable s'.env = data.foldl (Cable.feed modem) (cable s.env)

theorem Kept.env {s' : LSerial ε} (h : Kept s s') (env : ε) : Kept s { s' with env := env } := by
  rw [Kept, h]

theorem syscall_evals {α : Type} {call : ε → α × ε} {value : α} {env : ε} (h : call s.env = (value, env)) :
    Evals (syscall call) s value { s with env := env } := by
  refine .of_eq fun fuel => ?_
  show (Outcome.done (call s.env).1, ({ s with env := (call s.env).2 } : LSerial ε)) = _
  rw [h]

/-- A turn of `recv` takes bytes, or the lag gets smaller. -/
theorem recvTurn_advances (h : posix.Attaches fd modem cable lag) {n : Nat} (hn : n ≤ (cable s.env).unread.length)
    {data : List UInt8} {s₁ : LSerial ε} (hdata : data.length ≤ n) (htaken : Taken cable s data s₁) :
    Attains (recvTurn posix fd n data) s₁ (Advances (fun data s' => data.length ≤ n ∧ Taken cable s data s')
      (fun data => n - data.length) (fun s' => lag s'.env)
      (fun received s' => received.1 = true ∧ received.2.length = n ∧ Taken cable s received.2 s') data s₁) := by
  obtain ⟨hkept, hcable⟩ := htaken
  unfold recvTurn
  by_cases hmore : data.length < n
  · have hunread : (cable s₁.env).unread ≠ [] := by
      intro hnil
      have hlength : (cable s.env).unread.length = data.length := by
        rw [hcable, hnil, List.append_nil]
      omega
    obtain ⟨bytes, env, hread, hle, hmoved, hlag⟩ := h.reads s₁.env (n - data.length) (by omega) hunread
    have htaken : Taken cable s (data ++ bytes) { s₁ with env := env } := by
      refine ⟨hkept.env env, ?_⟩
      rw [hcable, hmoved, List.append_assoc]
    rw [if_pos hmore]
    have hlength : (data ++ bytes).length = data.length + bytes.length := List.length_append
    refine ⟨_, _, (syscall_evals hread).bind .pure, ⟨by omega, htaken⟩, ?_⟩
    cases bytes with
    | nil => exact .inr ⟨by dsimp only; rw [List.append_nil], hlag rfl⟩
    | cons byte bytes =>
        rw [List.length_cons] at hlength
        exact .inl (by dsimp only; omega)
  · rw [if_neg hmore]
    exact .pure ⟨rfl, Nat.le_antisymm hdata (Nat.le_of_not_lt hmore), hkept, hcable⟩

/-- **`recv` delivers what was sent**, in order, each byte once, in however many parts it comes. -/
theorem recv_attains (h : posix.Attaches fd modem cable lag) (hport : s.m_uart = some fd) {n : Nat}
    (hn : n ≤ (cable s.env).unread.length) :
    Attains (recv posix n) s fun received s' => received.1 = true ∧ received.2.length = n ∧
      Taken cable s received.2 s' := by
  have hnone : ([] : List UInt8).length ≤ n ∧ Taken cable s [] s := ⟨Nat.zero_le n, rfl, rfl⟩
  have hloop := Attains.loop_waiting (fun data s₁ hinv => recvTurn_advances h hn hinv.1 hinv.2) hnone
  apply Attains.gets_bind
  rw [hport]
  exact hloop

/-- A turn of `send` gives bytes, or the lag gets smaller. -/
theorem sendTurn_advances (h : posix.Attaches fd modem cable lag) {data : List UInt8} {i : Nat} {s₁ : LSerial ε}
    (hi : i ≤ data.length) (hgiven : Given modem cable s (data.take i) s₁) :
    Attains (sendTurn posix fd data i) s₁ (Advances (fun i s' => i ≤ data.length ∧ Given modem cable s (data.take i) s')
      (fun i => data.length - i) (fun s' => lag s'.env)
      (fun sent s' => sent = true ∧ Given modem cable s data s') i s₁) := by
  obtain ⟨hkept, hcable⟩ := hgiven
  unfold sendTurn
  by_cases hmore : i < data.length
  · have hrest : data.drop i ≠ [] := by
      rw [ne_eq, List.drop_eq_nil_iff]
      omega
    obtain ⟨count, env, hwrite, hle, hmoved, hlag⟩ := h.writes s₁.env (data.drop i) hrest
    rw [List.length_drop] at hle
    have hgiven : Given modem cable s (data.take (i + count)) { s₁ with env := env } := by
      refine ⟨hkept.env env, ?_⟩
      rw [hmoved, hcable, ← List.foldl_append, List.take_add]
    rw [if_pos hmore]
    refine ⟨_, _, (syscall_evals hwrite).bind .pure, ⟨by omega, hgiven⟩, ?_⟩
    cases count with
    | zero => exact .inr ⟨rfl, hlag rfl⟩
    | succ count => exact .inl (by dsimp only; omega)
  · obtain rfl : i = data.length := by omega
    rw [if_neg hmore]
    rw [List.take_length] at hcable
    exact .pure ⟨rfl, hkept, hcable⟩

/-- **`send` sends the data**, in order, each byte once, in however many parts it goes. -/
theorem send_attains (h : posix.Attaches fd modem cable lag) (hport : s.m_uart = some fd) (data : List UInt8) :
    Attains (send posix data) s fun sent s' => sent = true ∧ Given modem cable s data s' := by
  have hnone : 0 ≤ data.length ∧ Given modem cable s (data.take 0) s := ⟨Nat.zero_le _, rfl, rfl⟩
  have hloop := Attains.loop_waiting (fun i s₁ hinv => sendTurn_advances h hinv.1 hinv.2) hnone
  apply Attains.gets_bind
  rw [hport]
  exact hloop

end Attached

end LSerial

/-! ### The driver -/

namespace SerialModem

/-- Lines that differ in what is ahead only; the second has nothing. -/
def SameLine (ahead : List (Option UInt8)) (s line : ATInterface) : Prop :=
  line.input = [] ∧ line.hangup = false ∧ s = { line with input := ahead }

section SameLine

variable {ahead : List (Option UInt8)} {charSigned : Bool}

theorem gets_simulates {α : Type} {read : ATInterface → α}
    (h : ∀ line : ATInterface, read { line with input := ahead } = read line) :
    Simulates (SameLine ahead) (fun _ => SameLine ahead) (gets read) (gets read) := by
  apply Simulates.gets
  rintro s line ⟨hinput, hhangup, rfl⟩
  exact ⟨h line, hinput, hhangup, rfl⟩

theorem hexString_simulates (off hexstrLen : Nat) : Simulates (SameLine ahead) (fun _ => SameLine ahead)
    (ATInterface.hexString2BytesArray off hexstrLen) (ATInterface.hexString2BytesArray off hexstrLen) := by
  have hdigit : ∀ i, Simulates (SameLine ahead) (fun _ => SameLine ahead) (digitAt off i) (digitAt off i) := fun i =>
    (Simulates.check _).bind fun _ => gets_simulates fun _ => rfl
  have hstore : ∀ k byte, Simulates (SameLine ahead) (fun _ => SameLine ahead) (storeByte k byte) (storeByte k byte) := by
    intro k byte
    refine (Simulates.check _).bind fun _ => Simulates.modify ?_
    rintro s line ⟨hinput, hhangup, rfl⟩
    exact ⟨hinput, hhangup, rfl⟩
  apply Simulates.loop
  intro x
  unfold hexTurn
  apply Simulates.ite
  · apply Simulates.ite
    · refine (hdigit x.1).bind fun high => (hdigit (x.1 + 1)).bind fun low => ?_
      exact (hstore x.2 (hexByte high low)).bind fun _ => .pure fun _ _ hsame => hsame
    · exact (hstore x.2 0).bind fun _ => .pure fun _ _ hsame => hsame
  · exact .pure fun _ _ hsame => hsame

/-- The reading of a response line does not look at what is ahead. -/
theorem readResponse_simulates : Simulates (SameLine ahead) (fun _ => SameLine ahead) (readResponse charSigned)
    (readResponse charSigned) := by
  have hlength : ∀ x, Simulates (SameLine ahead) (Simulates.OfTurn (SameLine ahead) fun _ => SameLine ahead)
      (lengthTurn charSigned x) (lengthTurn charSigned x) := by
    intro x
    refine (Simulates.check _).bind fun _ => (gets_simulates fun _ => rfl).bind fun c => ?_
    exact .ite (.pure fun _ _ hsame => hsame) (.pure fun _ _ hsame => hsame)
  have hdigit : ∀ off, Simulates (SameLine ahead) (Simulates.OfTurn (SameLine ahead) fun _ => SameLine ahead)
      (digitTurn off) (digitTurn off) := by
    intro off
    refine (Simulates.check _).bind fun _ => (gets_simulates fun _ => rfl).bind fun c => ?_
    exact .ite (.pure fun _ _ hsame => hsame) (.pure fun _ _ hsame => hsame)
  refine (Simulates.loop hlength (7, 0)).bind fun declared => (Simulates.loop hdigit declared.1).bind fun off => ?_
  exact hexString_simulates off declared.2

end SameLine

section Attached

variable {ε μ : Type} {posix : Posix ε} {fd : Nat} {modem : Modem μ} {cable : ε → Cable μ} {lag : ε → Nat} {m : μ}
  {charSigned : Bool}

/-- The port shows the line: what is unread on the cable is what is ahead on the line. -/
structure Shows (cable : ε → Cable μ) (fd : Nat) (m : μ) (s : ATInterface) (c : SerialModem ε) : Prop where
  port : c.serial.m_uart = some fd
  modem_eq : (cable c.serial.env).modem = m
  unsent_nil : (cable c.serial.env).unsent = []
  same : SameLine ((cable c.serial.env).unread.map some) s c.line

theorem recv_shows (h : posix.Attaches fd modem cable lag) {s : ATInterface} {c : SerialModem ε}
    (hshows : Shows cable fd m s c) {byte : UInt8} {rest : List UInt8}
    (hunread : (cable c.serial.env).unread = byte :: rest) :
    Yields (zoom serialLens (LSerial.recv posix 1)) c (true, [byte]) fun c' =>
      Shows cable fd m { s with input := rest.map some } c' ∧ c'.line = c.line := by
  have hone : 1 ≤ (cable c.serial.env).unread.length := by
    rw [hunread]
    exact Nat.le_add_left 1 _
  obtain ⟨⟨ok, bytes⟩, serial, hrun, hok, hlength, hkept, hcable⟩ := LSerial.recv_attains h hshows.port hone
  obtain ⟨taken, rfl⟩ := List.length_eq_one_iff.mp hlength
  have hcons : byte :: rest = taken :: (cable serial.env).unread := by
    rw [← hunread, hcable]
    rfl
  obtain ⟨rfl, hrest⟩ := List.cons_eq_cons.mp hcons
  dsimp only at hok
  subst hok
  refine ⟨_, .zoom hrun, ⟨?_, ?_, ?_, ?_⟩, rfl⟩
  · show serial.m_uart = _
    rw [hkept]
    exact hshows.port
  · rw [← hshows.modem_eq, hcable]
    rfl
  · rw [← hshows.unsent_nil, hcable]
    rfl
  · obtain ⟨hinput, hhangup, rfl⟩ := hshows.same
    refine ⟨hinput, hhangup, ?_⟩
    rw [hrest]
    rfl

/-- One byte of a line: `recv` delivers the one that is ahead, and does not return where there is none. -/
theorem readTurn_simulates (h : posix.Attaches fd modem cable lag) (off : Nat) :
    Simulates (Shows cable fd m) (Simulates.OfTurn (Shows cable fd m) fun _ => Shows cable fd m) (ATInterface.readTurn off)
      (readTurn posix off) := by
  intro fuel s c turn s' hshows hrun
  obtain ⟨received, s₁, hrecv, hrest⟩ := bind_eq_done hrun
  have hsame := hshows.same.2.2
  cases hunread : (cable c.serial.env).unread with
  | nil =>
      rw [hunread] at hsame
      rw [hsame, ATInterface.recv] at hrecv
      simp only [List.map_nil, hshows.same.2.1, Bool.false_eq_true, if_false] at hrecv
      cases hrecv
  | cons byte rest =>
      have hinput : s.input = some byte :: rest.map some := by
        rw [hsame, hunread]
        rfl
      rw [ATInterface.recv, hinput] at hrecv
      cases hrecv
      obtain ⟨_, s₂, hcheck, hstore⟩ := bind_eq_done hrest
      obtain ⟨hoff, rfl⟩ := check_eq_done hcheck
      refine (recv_shows h hshows hunread).bind ?_
      rintro c₁ ⟨hshows₁, hline⟩
      have hstored : Yields (zoom lineLens (storeBytes off [byte])) c₁ () fun c₂ =>
          Shows cable fd m { s with input := rest.map some, buf := s.buf.write off [byte] } c₂ ∧
            c₂.line.buf off = byte := by
        have hevals : Evals (storeBytes off [byte]) c₁.line ()
            { c₁.line with buf := c₁.line.buf.write off [byte] } := (Evals.check hoff).bind .modify
        refine ⟨_, .zoom hevals, ⟨hshows₁.port, hshows₁.modem_eq, hshows₁.unsent_nil, ?_⟩, ?_⟩
        · obtain ⟨hinput₁, hhangup₁, heq⟩ := hshows₁.same
          refine ⟨hinput₁, hhangup₁, ?_⟩
          have hbuf := congrArg ATInterface.buf heq
          dsimp only at hbuf
          rw [hbuf]
          exact congrArg (fun line : ATInterface => { line with buf := c₁.line.buf.write off [byte] }) heq
        · show (c₁.line.buf.write off [byte]) off = byte
          rw [Mem.write_of_mem (Nat.le_refl off) (by rw [List.length_singleton]; exact Nat.lt_succ_self off), Nat.sub_self]
          rfl
      rw [if_pos rfl]
      refine hstored.bind ?_
      rintro c₂ ⟨hshows₂, hbyte⟩
      apply Yields.gets_bind
      rw [hbyte]
      split at hstore
      · cases hstore
        rw [if_pos ‹_›]
        exact .pure hshows₂
      · cases hstore
        rw [if_neg ‹_›]
        exact .pure hshows₂

theorem lineTurn_simulates (h : posix.Attaches fd modem cable lag) {α : Type} (verdict : Mem → Option α) (u : Unit) :
    Simulates (Shows cable fd m) (Simulates.OfTurn (Shows cable fd m) fun _ => Shows cable fd m)
      (ATInterface.lineTurn verdict u) (lineTurn posix verdict u) := by
  have hbuf : Simulates (Shows cable fd m) (fun _ => Shows cable fd m) (gets fun s : ATInterface => s.buf)
      (gets fun c : SerialModem ε => c.line.buf) := by
    apply Simulates.gets
    intro s c hshows
    obtain ⟨_, _, rfl⟩ := hshows.same
    exact ⟨rfl, hshows⟩
  refine (Simulates.loop (readTurn_simulates h) 0).bind fun _ => hbuf.bind fun buf => ?_
  cases verdict buf with
  | none => exact .pure fun _ _ hshows => hshows
  | some value => exact .pure fun _ _ hshows => hshows

/-- What `sendATCSIM` does behind the command. -/
theorem replies_simulates (h : posix.Attaches fd modem cable lag) : Simulates (Shows cable fd m) (fun _ => Shows cable fd m)
    (loop (ATInterface.lineTurn responseVerdict) () >>= fun ok =>
      if ok = true then
        readResponse charSigned >>= fun len => loop (ATInterface.lineTurn okVerdict) () >>= fun _ => pure (some len)
      else pure none)
    (loop (lineTurn posix responseVerdict) () >>= fun ok =>
      if ok = true then
        zoom lineLens (readResponse charSigned) >>= fun len => loop (lineTurn posix okVerdict) () >>= fun _ =>
          pure (some len)
      else pure none) := by
  have hresponse : Simulates (Shows cable fd m) (fun _ => Shows cable fd m) (readResponse charSigned)
      (zoom lineLens (readResponse charSigned)) := by
    have hline : ∀ ahead, Simulates (SameLine ahead) (fun _ => SameLine ahead) (readResponse charSigned)
        (readResponse charSigned) := fun _ => readResponse_simulates
    apply Simulates.zoom hline
    intro s c hshows
    exact ⟨_, hshows.same, fun _ s' line hsame => ⟨hshows.port, hshows.modem_eq, hshows.unsent_nil, hsame⟩⟩
  refine (Simulates.loop (lineTurn_simulates h responseVerdict) ()).bind fun ok => .ite ?_ (.pure fun _ _ hshows => hshows)
  refine hresponse.bind fun len => (Simulates.loop (lineTurn_simulates h okVerdict) ()).bind fun _ => ?_
  exact .pure fun _ _ hshows => hshows

/-- Nothing is on the cable, in either direction. -/
structure Idle (cable : ε → Cable μ) (fd : Nat) (c : SerialModem ε) : Prop where
  port : c.serial.m_uart = some fd
  unsent_nil : (cable c.serial.env).unsent = []
  unread_nil : (cable c.serial.env).unread = []
  input_nil : c.line.input = []
  hangup : c.line.hangup = false

/-- The modem, and the line without the port. -/
def link (cable : ε → Cable μ) (c : SerialModem ε) : ModemLink μ := ⟨(cable c.serial.env).modem, c.line⟩

theorem csimCommand_line (apdu : List UInt8) : ∃ body, csimCommand apdu = body ++ [newline] ∧ newline ∉ body := by
  refine ⟨cstr "AT+CSIM=" ++ decimal (apdu.length * 2) ++ cstr ",\"" ++ hexUpper apdu ++ cstr "\"\r", ?_, ?_⟩
  · rw [csimCommand, show cstr "\"\r\n" = cstr "\"\r" ++ [newline] from rfl]
    simp only [List.append_assoc]
  · have hdecimal : newline ∉ decimal (apdu.length * 2) := by
      intro hmem
      obtain ⟨digit, hdigit, hcode⟩ := List.mem_map.mp hmem
      obtain ⟨_, hlow, hhigh⟩ := charCode_digit true (Nat.isDigit_of_mem_toDigits (by decide) (by decide) hdigit)
      have hnat := congrArg UInt8.toNat hcode
      rw [UInt8.toNat_ofNat', show newline.toNat = 10 from rfl] at hnat
      omega
    have hhex : newline ∉ hexUpper apdu := fun hmem =>
      absurd ((Modem.hexUpper_hexText apdu).digits _ hmem) (by decide)
    simp only [List.mem_append, not_or]
    exact ⟨⟨⟨⟨by decide, hdecimal⟩, by decide⟩, hhex⟩, by decide⟩

variable (posix fd cable) in
/-- A port that was opened, with nothing on the cable. -/
theorem start_idle (c : SerialModem ε) {env : ε} {speed : Nat}
    (hopen : posix.openPort c.serial.device c.serial.env = (some fd, env))
    (hspeed : LSerial.speeds.lookup c.serial.baudrate = some speed)
    (hunsent : (cable (posix.configure fd speed env)).unsent = [])
    (hunread : (cable (posix.configure fd speed env)).unread = [])
    (hinput : c.line.input = []) (hhangup : c.line.hangup = false) :
    ∃ c', Evals (zoom serialLens (LSerial.start posix)) c true c' ∧ Idle cable fd c' ∧
      link cable c' = ⟨(cable (posix.configure fd speed env)).modem, c.line⟩ := by
  let s₁ : LSerial ε := { c.serial with env := env, m_uart := some fd }
  have hopened : Evals (LSerial.syscall (posix.openPort c.serial.device)) c.serial (some fd) { c.serial with env := env } :=
    LSerial.syscall_evals hopen
  have hset : Evals (modify fun s : LSerial ε => { s with m_uart := some fd }) { c.serial with env := env } () s₁ := .modify
  have hconfigured : Evals (LSerial.syscall fun env => ((), posix.configure fd speed env)) s₁ ()
      { s₁ with env := posix.configure fd speed env } := LSerial.syscall_evals rfl
  have hstart : Evals (LSerial.start posix) c.serial true { s₁ with env := posix.configure fd speed env } := by
    refine Evals.gets.bind (hopened.bind (hset.bind (Evals.gets.bind ?_)))
    rw [hspeed]
    exact hconfigured.bind .pure
  exact ⟨_, .zoom hstart, ⟨rfl, hunsent, hunread, hinput, hhangup⟩, rfl⟩

/-- **One command over the port** ends as it ends where `recv` delivers the reply at once. -/
theorem exchange (h : posix.Attaches fd modem cable lag) {c : SerialModem ε} (hidle : Idle cable fd c) {apdu : List UInt8}
    {answer : Option (List UInt8)} {line : ATInterface}
    (hrun : Evals (GenericModem.transmitApdu charSigned apdu) ((link cable c).told modem apdu).line answer line)
    (hempty : line.input = []) :
    ∃ c', Evals (transmitApdu posix charSigned apdu) c answer c' ∧ Idle cable fd c' ∧
      link cable c' = ⟨((link cable c).told modem apdu).modem, line⟩ := by
  obtain ⟨body, hcommand, hbody⟩ := csimCommand_line apdu
  obtain ⟨sent, serial, hsend, _, hkept, hcable⟩ := LSerial.send_attains h hidle.port (csimCommand apdu)
  rw [hcommand, Cable.feed_line modem hbody hidle.unsent_nil, hidle.unread_nil, List.nil_append, ← hcommand] at hcable
  let c₁ : SerialModem ε := ⟨serial, { c.line with sent := c.line.sent ++ [csimCommand apdu], buf := Mem.zero }⟩
  have hshows : Shows cable fd ((link cable c).told modem apdu).modem
      (listening apdu ((link cable c).told modem apdu).line) c₁ := by
    refine ⟨?_, ?_, ?_, hidle.input_nil, hidle.hangup, ?_⟩
    · show serial.m_uart = _
      rw [hkept]
      exact hidle.port
    · show (cable serial.env).modem = _
      rw [hcable]
      rfl
    · show (cable serial.env).unsent = _
      rw [hcable]
    · show listening apdu { c.line with input := c.line.input ++ _ } =
        { c₁.line with input := (cable serial.env).unread.map some }
      rw [hcable, hidle.input_nil, List.nil_append]
      rfl
  obtain ⟨fuel, hreached⟩ := hrun.reached
  obtain ⟨result, s₁, hsends, hdelivers⟩ := bind_eq_done hreached
  rw [sendATCSIM_eq] at hsends
  obtain ⟨_, s₂, hcheck, hlistens⟩ := bind_eq_done hsends
  obtain ⟨hfits, rfl⟩ := check_eq_done hcheck
  have hreplies := replies_simulates h fuel _ c₁ result s₁ hshows hlistens
  have hmodify : Evals (modify fun s : SerialModem ε =>
      { s with line := { s.line with sent := s.line.sent ++ [csimCommand apdu], buf := Mem.zero } })
      ⟨serial, c.line⟩ () c₁ := .modify
  obtain ⟨c', hrest, hshows'⟩ := hreplies
  have hsendATCSIM : Evals (sendATCSIM posix charSigned apdu) c result c' :=
    (Evals.check hfits).bind ((Evals.zoom hsend).bind (hmodify.bind hrest))
  have hdelivered : Evals (transmitApdu posix charSigned apdu) c answer c' ∧ line = s₁ := by
    cases result with
    | none =>
        cases hdelivers
        exact ⟨hsendATCSIM.bind .pure, rfl⟩
    | some len =>
        cases hdelivers
        have hresponse := congrArg ATInterface.response hshows'.same.2.2
        dsimp only at hresponse ⊢
        rw [hresponse]
        exact ⟨hsendATCSIM.bind .gets, rfl⟩
  obtain ⟨hends, rfl⟩ := hdelivered
  obtain ⟨hinput, hhangup, hsame⟩ := hshows'.same
  have hunread : (cable c'.serial.env).unread = [] := by
    rw [hsame] at hempty
    exact List.map_eq_nil_iff.mp hempty
  refine ⟨c', hends, ⟨hshows'.port, hshows'.unsent_nil, hunread, hinput, hhangup⟩, ?_⟩
  rw [link, hshows'.modem_eq, hsame, hunread, List.map_nil, ← hinput]

/-- A command that does not fit the line buffer is not sent. -/
theorem transmitApdu_overruns {c : SerialModem ε} {apdu : List UInt8} (hlong : 260 < apdu.length) :
    Faults (transmitApdu posix charSigned apdu) c := by
  apply Faults.bind
  apply Faults.bind
  exact Faults.check fun hfits => absurd ((csimCommand_fits apdu).mp hfits) (by omega)

/-! ### The transport -/

variable {σ : Type} {T : Transport σ} {card : μ → σ}

theorem transmits_idle (h : posix.Attaches fd modem cable lag) (hfronts : modem.Fronts T card) (charSigned : Bool)
    (c : SerialModem ε) (apdu : List UInt8) (hidle : Idle cable fd c) :
    Idle cable fd (Transport.ofProgram (transmitApdu posix charSigned) c apdu).2 ∧
      (Transport.ofProgram (transmitApdu posix charSigned) c apdu).1 =
        (ModemLink.transmits charSigned modem (link cable c) apdu).1 ∧
      link cable (Transport.ofProgram (transmitApdu posix charSigned) c apdu).2 =
        (ModemLink.transmits charSigned modem (link cable c) apdu).2 := by
  by_cases hlong : 260 < apdu.length
  · rw [Transport.ofProgram_faults (transmitApdu_overruns hlong), ModemLink.transmits_long hlong]
    exact ⟨hidle, rfl, rfl⟩
  · have hstep : (link cable c).InStep := hidle.input_nil
    obtain ⟨answer, line, hrun, hempty, _⟩ := ModemLink.told_evals hfronts charSigned hstep (Nat.le_of_not_lt hlong)
    obtain ⟨c', hends, hidle', hlink⟩ := exchange h hidle hrun hempty
    rw [Transport.ofProgram_evals hends, ModemLink.transmits_eq hrun]
    exact ⟨hidle', rfl, hlink⟩

/-- The transport on ports that are idle between the commands. -/
noncomputable def transport (h : posix.Attaches fd modem cable lag) (hfronts : modem.Fronts T card) (charSigned : Bool) :
    Transport {c : SerialModem ε // Idle cable fd c} :=
  Transport.within (Transport.ofProgram (transmitApdu posix charSigned)) fun c apdu hidle =>
    (transmits_idle h hfronts charSigned c apdu hidle).1

/-- The line that an idle port shows. -/
def shown (c : {c : SerialModem ε // Idle cable fd c}) : {link : ModemLink μ // link.InStep} :=
  ⟨link cable c.1, c.2.input_nil⟩

/-- **The port is a transport of the line.** -/
theorem transport_conveys (h : posix.Attaches fd modem cable lag) (hfronts : modem.Fronts T card) (charSigned : Bool) :
    Conveys (transport h hfronts charSigned) (ModemLink.transport hfronts charSigned) shown 260 where
  conveys := by
    rintro ⟨c, hidle⟩ apdu _ _
    obtain ⟨_, hanswer, hmoved⟩ := transmits_idle h hfronts charSigned c apdu hidle
    exact ⟨hanswer, Subtype.ext hmoved⟩
  moves := by
    rintro ⟨c, hidle⟩ apdu
    obtain ⟨_, _, hmoved⟩ := transmits_idle h hfronts charSigned c apdu hidle
    exact .inl (Subtype.ext hmoved)

end Attached

end SerialModem

end TrustOnboard
