import S3Rdma.Http.Receipt
import S3Rdma.Http.Request
import S3Rdma.Http.Sockets

/-!
# What the exchange does with its sockets

The exchange of `Http/Sockets.lean`, in every environment. A call is made only on a socket that is
open, and `connect`, `send` and `recv`, which can block, only directly after the clock was read
before the deadline and the socket's timeouts were set to no more than what was left (`Allowed`); one
connection is made at most, and every socket is closed. The receipt is one of the exchange as
`Common/RawHttp.lean` has it, on some network (`exchange_refines`), so what is shown of all networks
holds of it.

There is one lemma for each function, which says all of this about it. The fuel of a loop is used up
only by turns that have each read the clock before the deadline (`Spent`).
-/

namespace S3Rdma.Socket

/-! ## What a log says -/

/-- The open sockets after a call. -/
def Sys.track (fds : List ℤ) : Sys → List ℤ
  | .socket _ fd => if 0 ≤ fd then fd :: fds else fds
  | .close fd => fds.erase fd
  | _ => fds

/-- The open sockets after some calls. -/
def openFds (log : List Sys) : List ℤ := log.foldl Sys.track []

/-- The clock is read. -/
def Sys.isNow : Sys → Bool
  | .now _ => true
  | _ => false

/-- How often the clock was read. -/
def readings (log : List Sys) : ℕ := log.countP Sys.isNow

/-- The bytes that were accepted by `send`. -/
def sentBytes (log : List Sys) : Bytes :=
  log.flatMap fun
    | .send _ bytes n _ => bytes.take n.toNat
    | _ => []

/-- The bytes that `recv` has returned. -/
def arrivedBytes (log : List Sys) : Bytes :=
  log.flatMap fun
    | .recv _ (.ok bytes) => bytes
    | _ => []

/-- The socket was connected. -/
def Connected (fd : ℤ) (log : List Sys) : Prop := ∃ a, .connect fd a none ∈ log

/-- Some socket was connected. -/
def Established (log : List Sys) : Prop := ∃ fd, Connected fd log

/-- A `timeval` in microseconds. -/
def Timeval.micros (tv : Timeval) : ℤ := tv.tv_sec * 1000000 + tv.tv_usec

/-- A `timeval` that `setsockopt` takes, and that is not the one for "no timeout". -/
def Timeval.Valid (tv : Timeval) : Prop :=
  0 ≤ tv.tv_sec ∧ 0 ≤ tv.tv_usec ∧ tv.tv_usec < 1000000 ∧ 0 < tv.micros

/-- The clock has just been read, and the timeouts of the socket were set to no more than what was
left before the deadline. -/
def Armed (deadline fd : ℤ) (log : List Sys) : Prop :=
  ∃ before t tv, log = before ++ [.now t] ++ [.setsockopt fd .receive tv none] ++
      [.setsockopt fd .send tv none] ∧ t + 1000 * tv.micros ≤ deadline

/-- What may be called next. -/
def Allowed (deadline : ℤ) (before : List Sys) : Sys → Prop
  | .socket _ _ => ¬ Established before
  | .setsockopt fd _ tv _ => fd ∈ openFds before ∧ tv.Valid
  | .connect fd _ _ => fd ∈ openFds before ∧ Armed deadline fd before ∧ ¬ Established before
  | .send fd _ _ _ => fd ∈ openFds before ∧ Armed deadline fd before ∧ Connected fd before
  | .recv fd _ => fd ∈ openFds before ∧ Armed deadline fd before ∧ Connected fd before
  | .close fd => fd ∈ openFds before
  | _ => True

/-- Every call was allowed when it was made. -/
def Safe (deadline : ℤ) (log : List Sys) : Prop := (Monitor.history (Allowed deadline)).Accepts [] log

/-- The call is of the clock, of the resolver or of the options of a socket. -/
def Sys.isIdle : Sys → Bool
  | .now _ | .numericHost _ | .thread _ | .resolved _ | .setsockopt _ _ _ _ => true
  | _ => false

/-- Nothing was called between two logs but the clock, the resolver and the options of sockets. -/
def Idle (log log' : List Sys) : Prop := ∃ es, log' = log ++ es ∧ ∀ e ∈ es, Sys.isIdle e = true

section Logs

variable {deadline fd : ℤ} {log log' log'' : List Sys} {e : Sys}

/-- An allowed call keeps the log safe. -/
theorem Safe.note (h : Safe deadline log) (he : Allowed deadline log e) : Safe deadline (log ++ [e]) :=
  Monitor.history_accepts_concat.mpr ⟨h, he⟩

/-- The sockets that are open after one more call. -/
theorem openFds_concat (log : List Sys) (e : Sys) :
    openFds (log ++ [e]) = Sys.track (openFds log) e := by
  simp [openFds]

/-- The bytes that were accepted after one more call. -/
theorem sentBytes_concat (log : List Sys) (e : Sys) :
    sentBytes (log ++ [e]) = sentBytes log ++ sentBytes [e] := by
  simp [sentBytes]

/-- The bytes that have come after one more call. -/
theorem arrivedBytes_concat (log : List Sys) (e : Sys) :
    arrivedBytes (log ++ [e]) = arrivedBytes log ++ arrivedBytes [e] := by
  simp [arrivedBytes]

/-- The connections after one more call. -/
theorem connected_concat : Connected fd (log ++ [e]) ↔
    Connected fd log ∨ ∃ a, e = .connect fd a none := by
  simp [Connected, exists_or, eq_comm]

/-- One more call does not lower the number of readings of the clock. -/
theorem readings_le_concat (log : List Sys) (e : Sys) : readings log ≤ readings (log ++ [e]) := by
  simp [readings]

/-- Without a call the log is idle. -/
theorem Idle.refl (log : List Sys) : Idle log log := ⟨[], by simp, by simp⟩

/-- One idle call is idle. -/
theorem Idle.note (he : e.isIdle = true) : Idle log (log ++ [e]) := ⟨[e], rfl, by simp [he]⟩

/-- Idle calls after idle calls are idle. -/
theorem Idle.trans (h : Idle log log') (h' : Idle log' log'') : Idle log log'' := by
  obtain ⟨es, rfl, hes⟩ := h
  obtain ⟨es', rfl, hes'⟩ := h'
  refine ⟨es ++ es', by rw [List.append_assoc], fun e he => ?_⟩
  exact (List.mem_append.mp he).elim (hes e) (hes' e)

/-- Idle calls open, close and connect no socket and transfer no byte. -/
theorem Idle.unchanged (h : Idle log log') : openFds log' = openFds log ∧
    sentBytes log' = sentBytes log ∧ arrivedBytes log' = arrivedBytes log ∧
    ∀ fd, Connected fd log' ↔ Connected fd log := by
  obtain ⟨es, rfl, hes⟩ := h
  induction es using List.reverseRecOn with
  | nil => simp
  | append_singleton es e ih =>
    obtain ⟨hopen, hsent, harrived, hconnected⟩ := ih fun e he =>
      hes e (List.mem_append_left _ he)
    have he := hes e (List.mem_append_right _ (List.mem_singleton_self e))
    rw [← List.append_assoc, openFds_concat, sentBytes_concat, arrivedBytes_concat, hopen, hsent,
      harrived]
    refine ⟨?_, ?_, ?_, fun fd => ?_⟩
    · cases e <;> cases he <;> rfl
    · cases e <;> cases he <;> exact List.append_nil _
    · cases e <;> cases he <;> exact List.append_nil _
    · rw [connected_concat, hconnected]
      cases e <;> cases he <;> simp

/-- Idle calls do not lower the number of readings of the clock. -/
theorem Idle.readings_le (h : Idle log log') : readings log ≤ readings log' := by
  obtain ⟨es, rfl, -⟩ := h
  simp [readings]

end Logs

/-! ## The budget -/

/-- A system call, and what follows it. -/
theorem syscall_bind {α β : Type} {answer : List Sys → α} {event : α → Sys} {f : α → Exchange β}
    {log : List Sys} {Q : β → List Sys → Prop} {E : Halt → List Sys → Prop}
    (h : Ensures (f (answer log)) (log ++ [event (answer log)]) Q E) :
    Ensures (syscall answer event >>= f) log Q E :=
  Ensures.run_bind rfl h

/-- A system call appends its event to the log. -/
theorem syscall_spec {α : Type} (answer : List Sys → α) (event : α → Sys) (log : List Sys)
    {E : Halt → List Sys → Prop} :
    Ensures (syscall answer event) log (fun a log' => log' = log ++ [event a]) E := rfl

/-- A positive quotient is one of a positive number. -/
theorem tdiv_pos {a b : ℤ} (hb : 0 < b) (h : 0 < a.tdiv b) : b * a.tdiv b ≤ a := by
  have ha : 0 ≤ a := by
    by_contra hneg
    have hle : 0 ≤ (-a).tdiv b := Int.tdiv_nonneg (by omega) hb.le
    rw [Int.neg_tdiv] at hle
    omega
  rw [Int.tdiv_eq_ediv_of_nonneg ha]
  exact Int.mul_ediv_self_le hb.ne'

/-- The timeout is the time that is left, to the microsecond. -/
theorem remaining_spec {left : ℤ} (h : 0 < left) :
    (remaining left).Valid ∧ (remaining left).micros = left := by
  have hsec : left.tdiv 1000000 = left / 1000000 := Int.tdiv_eq_ediv_of_nonneg h.le
  have husec : left.tmod 1000000 = left % 1000000 := Int.tmod_eq_emod_of_nonneg h.le
  have hne : ¬ (left / 1000000 = 0 ∧ left % 1000000 = 0) := by omega
  simp only [remaining, hsec, husec, if_neg hne, Timeval.Valid, Timeval.micros]
  omega

/-- The clock has passed the deadline by the `n`-th reading. -/
def Kernel.Reaches (K : Kernel) (deadline : ℤ) (n : ℕ) : Prop :=
  ∀ log, n ≤ readings log → deadline ≤ K.now log

section Calls

variable {K : Kernel} {deadline fd : ℤ} {log log' : List Sys}

/-- What `arm_remaining_timeout` has done. -/
structure ArmDone (K : Kernel) (deadline fd : ℤ) (log : List Sys) (b : Budget) (log' : List Sys) :
    Prop where
  safe : Safe deadline log'
  idle : Idle log log'
  armed : b = .ready → Armed deadline fd log'
  readings : readings log < readings log'
  inTime : b = .ready → K.now log < deadline

/-- `arm_remaining_timeout` of an open socket. -/
theorem armRemainingTimeout_spec (hsafe : Safe deadline log) (hfd : fd ∈ openFds log) :
    Ensures (armRemainingTimeout K fd deadline) log (ArmDone K deadline fd log) fun _ _ => False := by
  refine syscall_bind ?_
  have hclock : ∀ b : Budget, b ≠ .ready → ArmDone K deadline fd log b (log ++ [.now (K.now log)]) :=
    fun b hb => ⟨hsafe.note trivial, .note rfl, fun h => absurd h hb, by simp [readings, Sys.isNow],
      fun h => absurd h hb⟩
  refine Ensures.ite (fun _ => hclock _ nofun) fun hleft => ?_
  have hpos : 0 < (deadline - K.now log).tdiv 1000 := not_le.mp hleft
  have hle := tdiv_pos (by decide) hpos
  obtain ⟨hvalid, hmicros⟩ := remaining_spec hpos
  generalize remaining ((deadline - K.now log).tdiv 1000) = tv at hvalid hmicros
  -- Setting an option, which may fail, changes nothing but the log.
  have hset : ∀ {log₁ o x} {b : Budget}, b ≠ .ready →
      (∀ b : Budget, b ≠ .ready → ArmDone K deadline fd log b log₁) →
      ArmDone K deadline fd log b (log₁ ++ [.setsockopt fd o tv x]) := by
    intro log₁ o x b hb h
    have h := h b hb
    refine ⟨h.safe.note ⟨h.idle.unchanged.1 ▸ hfd, hvalid⟩, h.idle.trans (.note rfl),
      fun h => absurd h hb, ?_, fun h => absurd h hb⟩
    simpa [Socket.readings, Sys.isNow] using h.readings
  refine Ensures.bind (syscall_spec _ _ _) ?_
  rintro (_ | err) _ rfl
  · refine Ensures.bind (syscall_spec _ _ _) ?_
    rintro (_ | err) _ rfl
    · have h := hset (o := .send) (x := none) (b := .expired) nofun fun b hb =>
        hset (o := .receive) (x := none) hb hclock
      exact ⟨h.safe, h.idle, fun _ => ⟨log, _, tv, rfl, by omega⟩, h.readings, fun _ => by omega⟩
    · exact hset nofun fun b hb => hset hb hclock
  · exact hset nofun hclock

/-- The text of an error of a call is one of a fault, and at most the clock is read for it. -/
theorem ioError_spec (op phase : Bytes) (err : ℤ) (hsafe : Safe deadline log) :
    Ensures (ioError K op phase err deadline) log
      (fun text log' => (∃ f : Fault, text = f.error op phase) ∧ Idle log log' ∧ Safe deadline log')
      fun _ _ => False := by
  refine Ensures.ite (fun _ => ?_) fun _ =>
    ⟨⟨.io false (K.strerror err), rfl⟩, .refl log, hsafe⟩
  refine syscall_bind (Ensures.ite (fun _ => ?_) fun _ => ?_)
  · exact ⟨⟨.io true (K.strerror err), rfl⟩, .note rfl, hsafe.note trivial⟩
  · exact ⟨⟨.io false (K.strerror err), rfl⟩, .note rfl, hsafe.note trivial⟩

/-- The text of a budget that is not ready is that of a fault. -/
theorem budgetError_fault (op phase : Bytes) {b : Budget} (hb : b ≠ .ready) :
    ∃ f : Fault, budgetError K b phase = f.error op phase := by
  cases b with
  | ready => exact absurd rfl hb
  | expired => exact ⟨.expired, rfl⟩
  | optionError err => exact ⟨.optionError (K.strerror err), rfl⟩

/-! ## The connection -/

/-- No socket was connected so far, nothing was transferred, and the sockets `fds` are open. -/
structure Unconnected (deadline : ℤ) (fds : List ℤ) (log : List Sys) : Prop where
  safe : Safe deadline log
  opened : openFds log = fds
  none : ¬ Established log
  sent : sentBytes log = []
  arrived : arrivedBytes log = []

/-- The socket `fd` is open and connected, and no other one is open. -/
structure Online (deadline fd : ℤ) (log : List Sys) : Prop where
  safe : Safe deadline log
  opened : openFds log = [fd]
  connected : Connected fd log

/-- Calls that change nothing keep the connection. -/
theorem Online.idle (h : Online deadline fd log) (hidle : Idle log log') (hsafe : Safe deadline log') :
    Online deadline fd log' :=
  ⟨hsafe, hidle.unchanged.1.trans h.opened, (hidle.unchanged.2.2.2 fd).mpr h.connected⟩

section Unconnected

variable {fds : List ℤ} {e : Sys}

/-- Calls that change nothing make no connection. -/
theorem Unconnected.idle (h : Unconnected deadline fds log) (hidle : Idle log log')
    (hsafe : Safe deadline log') : Unconnected deadline fds log' := by
  obtain ⟨hopen, hsent, harrived, hconnected⟩ := hidle.unchanged
  refine ⟨hsafe, hopen.trans h.opened, ?_, hsent.trans h.sent, harrived.trans h.arrived⟩
  rintro ⟨fd, hfd⟩
  exact h.none ⟨fd, (hconnected fd).mp hfd⟩

/-- A call that connects nothing and transfers no bytes. -/
theorem Unconnected.note (h : Unconnected deadline fds log) (he : Allowed deadline log e)
    (hconnect : ∀ fd a, e ≠ .connect fd a .none) (hsent : sentBytes [e] = [])
    (harrived : arrivedBytes [e] = []) : Unconnected deadline (Sys.track fds e) (log ++ [e]) := by
  refine ⟨h.safe.note he, by rw [openFds_concat, h.opened], ?_, ?_, ?_⟩
  · rintro ⟨fd, hfd⟩
    exact h.none ⟨fd, (connected_concat.mp hfd).resolve_right fun ⟨a, ha⟩ => hconnect fd a ha⟩
  · rw [sentBytes_concat, h.sent, hsent]
    rfl
  · rw [arrivedBytes_concat, h.arrived, harrived]
    rfl

/-- After a candidate socket is closed, no socket is open. -/
theorem Unconnected.close (h : Unconnected deadline [fd] log) :
    Unconnected deadline [] (log ++ [.close fd]) := by
  have hmem : fd ∈ openFds log := by
    rw [h.opened]
    exact List.mem_singleton_self fd
  have hclosed := h.note (e := .close fd) hmem nofun rfl rfl
  rwa [Sys.track, List.erase_cons_head] at hclosed

end Unconnected

/-- The result of the loop over the addresses: no socket, or a connected one. -/
def ConnectDone (deadline : ℤ) (out : ℤ × Bytes) (log : List Sys) : Prop :=
  out.1 < 0 ∧ Unconnected deadline [] log ∨
    0 ≤ out.1 ∧ Online deadline out.1 log ∧ sentBytes log = [] ∧ arrivedBytes log = []

/-- The loop over the addresses returns a connected socket, or none with all candidates closed. -/
theorem connectLoop_spec (addrs : List Address) (error : Bytes) (h : Unconnected deadline [] log) :
    Ensures (connectLoop K deadline addrs error) log (ConnectDone deadline) fun _ _ => False := by
  induction addrs generalizing error log with
  | nil => exact .inl ⟨show (-1 : ℤ) < 0 by decide, h⟩
  | cons a as ih =>
    refine Ensures.bind (syscall_spec _ _ _) ?_
    rintro cand _ rfl
    have h₁ := h.note (e := .socket a cand) h.none nofun rfl rfl
    refine Ensures.ite (fun hneg => ?_) fun hnonneg => ?_
    · rw [Sys.track, if_neg (not_le.mpr hneg)] at h₁
      exact ih error h₁
    rw [Sys.track, if_pos (not_lt.mp hnonneg)] at h₁
    have hmem : cand ∈ openFds (log ++ [.socket a cand]) := by
      rw [h₁.opened]
      exact List.mem_singleton_self cand
    refine Ensures.bind (armRemainingTimeout_spec h₁.safe hmem) fun b log₂ harm => ?_
    have h₂ := h₁.idle harm.idle harm.safe
    cases b with
    | ready =>
      refine Ensures.bind (syscall_spec _ _ _) ?_
      have hallowed : ∀ errno, Allowed deadline log₂ (.connect cand a errno) := fun _ =>
        ⟨harm.idle.unchanged.1 ▸ hmem, harm.armed rfl, h₂.none⟩
      rintro (_ | errno) _ rfl
      · refine .inr ⟨not_lt.mp hnonneg, ⟨h₂.safe.note (hallowed _), ?_, ?_⟩, ?_, ?_⟩
        · rw [openFds_concat, h₂.opened]
          rfl
        · exact connected_concat.mpr (.inr ⟨a, rfl⟩)
        · rw [sentBytes_concat, h₂.sent]
          rfl
        · rw [arrivedBytes_concat, h₂.arrived]
          rfl
      · have h₃ := h₂.note (e := .connect cand a (some errno)) (hallowed _) nofun rfl rfl
        exact syscall_bind (ih _ h₃.close)
    | expired => exact syscall_bind (.inl ⟨show (-1 : ℤ) < 0 by decide, h₂.close⟩)
    | optionError err => exact syscall_bind (.inl ⟨show (-1 : ℤ) < 0 by decide, h₂.close⟩)

/-! ## The loops -/

/-- The fuel of a loop was used up by turns that have read the clock before the deadline, and no call
was made that was not allowed. -/
structure Spent (K : Kernel) (deadline : ℤ) (fuel : ℕ) (log : List Sys) (stop : Halt)
    (log' : List Sys) : Prop where
  stop_eq : stop = .fuel
  safe : Safe deadline log'
  turns : ∀ n, K.Reaches deadline n → fuel = 0 ∨ fuel + readings log < n + 2

/-- A loop without fuel stops where it is. -/
theorem Spent.zero (h : Safe deadline log) : Spent K deadline 0 log .fuel log :=
  ⟨rfl, h, fun _ _ => .inl rfl⟩

/-- One more turn before the fuel is used up. -/
theorem Spent.succ {fuel : ℕ} {stop : Halt} {log₁ : List Sys}
    (h : Spent K deadline fuel log₁ stop log') (hnow : K.now log < deadline)
    (hread : readings log < readings log₁) : Spent K deadline (fuel + 1) log stop log' := by
  refine ⟨h.stop_eq, h.safe, fun n hn => .inr ?_⟩
  have hlt : readings log < n := by
    by_contra hle
    exact absurd (hn log (not_lt.mp hle)) (not_le.mpr hnow)
  rcases h.turns n hn with hzero | hmore
  · omega
  · omega

/-- A call on the connection that is armed. -/
theorem Online.note {e : Sys} (h : Online deadline fd log) (he : Allowed deadline log e)
    (htrack : Sys.track [fd] e = [fd]) : Online deadline fd (log ++ [e]) where
  safe := h.safe.note he
  opened := by rw [openFds_concat, h.opened, htrack]
  connected := connected_concat.mpr (.inl h.connected)

/-- The socket of a connection is open. -/
theorem Online.mem (h : Online deadline fd log) : fd ∈ openFds log := by
  rw [h.opened]
  exact List.mem_singleton_self fd

/-- No byte was transferred. -/
def NoBytes (log log' : List Sys) : Prop :=
  sentBytes log' = sentBytes log ∧ arrivedBytes log' = arrivedBytes log

/-- Nothing is transferred by calls that change nothing. -/
theorem Idle.noBytes (h : Idle log log') : NoBytes log log' := ⟨h.unchanged.2.1, h.unchanged.2.2.1⟩

/-- Calls without a transfer, after others without one, transfer nothing. -/
theorem NoBytes.trans {log'' : List Sys} (h : NoBytes log log') (h' : NoBytes log' log'') :
    NoBytes log log'' :=
  ⟨h'.1.trans h.1, h'.2.trans h.2⟩

/-- What the send loop has done from `off` on: the socket has accepted as many bytes as it says, in
their order, and it has ended as on a network. -/
structure SendDone (deadline fd : ℤ) (req : Bytes) (off : ℕ) (log : List Sys)
    (out : ℕ × Option Bytes) (log' : List Sys) : Prop where
  online : Online deadline fd log'
  arrived : arrivedBytes log' = arrivedBytes log
  le : off ≤ out.1
  sent : sentBytes log' = sentBytes log ++ (req.drop off).take (out.1 - off)
  network : ∃ evs, S3Rdma.sendLoop req.length evs off = out

section Send

variable {req : Bytes} {off : ℕ} {out : ℕ × Option Bytes} {log₁ : List Sys}

/-- The send loop gives up at `off`. -/
theorem SendDone.fault (h : Online deadline fd log') (hno : NoBytes log log') (hlt : off < req.length)
    {text : Bytes} (htext : ∃ f : Fault, text = f.error (ascii "send") (ascii "send")) :
    SendDone deadline fd req off log (off, some text) log' := by
  obtain ⟨f, rfl⟩ := htext
  refine ⟨h, hno.2, le_rfl, by simp [hno.1], [.fault f], ?_⟩
  rw [S3Rdma.sendLoop, if_pos hlt]

/-- The send loop goes on after a call that was interrupted. -/
theorem SendDone.again (hno : NoBytes log log₁) (hlt : off < req.length)
    (h : SendDone deadline fd req off log₁ out log') : SendDone deadline fd req off log out log' := by
  obtain ⟨evs, hevs⟩ := h.network
  refine ⟨h.online, h.arrived.trans hno.2, h.le, hno.1 ▸ h.sent, .eintr :: evs, ?_⟩
  rw [S3Rdma.sendLoop, if_pos hlt]
  exact hevs

/-- The send loop goes on after the socket has accepted some bytes. -/
theorem SendDone.accepted {n : ℕ} (hpos : 0 < n) (hn : n ≤ (req.drop off).length)
    (hsent : sentBytes log₁ = sentBytes log ++ (req.drop off).take n)
    (harrived : arrivedBytes log₁ = arrivedBytes log)
    (h : SendDone deadline fd req (off + n) log₁ out log') :
    SendDone deadline fd req off log out log' := by
  have hlen : n ≤ req.length - off := List.length_drop ▸ hn
  have hle := h.le
  obtain ⟨evs, hevs⟩ := h.network
  refine ⟨h.online, h.arrived.trans harrived, by omega, ?_, .accepted n hpos :: evs, ?_⟩
  · rw [h.sent, hsent, List.append_assoc, ← List.drop_drop]
    have hsplit : out.1 - off = n + (out.1 - (off + n)) := by omega
    rw [hsplit, List.take_add]
  · rw [S3Rdma.sendLoop, if_pos (by omega)]
    rw [Nat.min_eq_left hlen, hevs]

/-- The send loop ends as on a network, or its fuel is spent. -/
theorem sendLoop_spec (fuel : ℕ) (h : Online deadline fd log) :
    Ensures (sendLoop K fd deadline req fuel off) log (SendDone deadline fd req off log)
      (Spent K deadline fuel log) := by
  induction fuel generalizing off log with
  | zero => exact Spent.zero h.safe
  | succ fuel ih =>
    refine Ensures.ite (fun hlt => ?_) fun hend => ?_
    · refine Ensures.bind (armRemainingTimeout_spec h.safe h.mem).returns
        fun b log₁ harm => ?_
      have h₁ := h.idle harm.idle harm.safe
      have hfault (hb : b ≠ .ready) : SendDone deadline fd req off log
          (off, some (budgetError K b (ascii "send"))) log₁ :=
        SendDone.fault h₁ harm.idle.noBytes hlt
          (budgetError_fault (ascii "send") (ascii "send") hb)
      cases b with
      | ready =>
        refine syscall_bind ?_
        have hle := K.send_le log₁ (req.drop off)
        generalize K.send log₁ (req.drop off) = res at hle
        obtain ⟨n, errno⟩ := res
        have h₂ : Online deadline fd (log₁ ++ [.send fd (req.drop off) n errno]) :=
          h₁.note ⟨h₁.mem, harm.armed rfl, h₁.connected⟩ rfl
        have hread := harm.readings.trans_le
          (readings_le_concat log₁ (.send fd (req.drop off) n errno))
        have hnone : n ≤ 0 → NoBytes log (log₁ ++ [.send fd (req.drop off) n errno]) := by
          intro hn
          refine harm.idle.noBytes.trans ⟨?_, ?_⟩
          · rw [sentBytes_concat]
            simp [sentBytes, Int.toNat_of_nonpos hn]
          · rw [arrivedBytes_concat]
            exact List.append_nil _
        refine Ensures.ite (fun hintr => ?_) fun _ => Ensures.ite (fun hn => ?_) fun hn => ?_
        · exact (ih h₂).mono (fun _ _ h => h.again (hnone hintr.1.le) hlt) fun _ _ h =>
            h.succ (harm.inTime rfl) hread
        · refine Ensures.bind (ioError_spec _ _ _ h₂.safe).returns ?_
          rintro text log₃ ⟨htext, hidle, hsafe⟩
          exact SendDone.fault (h₂.idle hidle hsafe) ((hnone hn).trans hidle.noBytes) hlt htext
        · have hpos : 0 < n := not_le.mp hn
          refine (ih h₂).mono (fun _ _ h => h.accepted (by omega) (by omega) ?_ ?_) fun _ _ h =>
            h.succ (harm.inTime rfl) hread
          · rw [sentBytes_concat, harm.idle.noBytes.1]
            simp [sentBytes]
          · rw [arrivedBytes_concat, harm.idle.noBytes.2]
            exact List.append_nil _
      | expired => exact hfault nofun
      | optionError err => exact hfault nofun
    · exact ⟨h, rfl, le_rfl, by simp, [], by rw [S3Rdma.sendLoop, if_neg hend]⟩

end Send

/-- What the receive loops have done in some turns. -/
structure ReadDone (deadline fd : ℤ) (log : List Sys) (evs : List RecvEvent) (log' : List Sys) :
    Prop where
  online : Online deadline fd log'
  sent : sentBytes log' = sentBytes log
  arrived : arrivedBytes log' = arrivedBytes log ++ receivedBytes evs

/-- A loop that receives does nothing in no turn. -/
theorem ReadDone.refl (h : Online deadline fd log) : ReadDone deadline fd log [] log :=
  ⟨h, rfl, (List.append_nil _).symm⟩

/-- The turns of a loop that receives add up. -/
theorem ReadDone.trans {log'' : List Sys} {evs evs' : List RecvEvent}
    (h : ReadDone deadline fd log evs log') (h' : ReadDone deadline fd log' evs' log'') :
    ReadDone deadline fd log (evs ++ evs') log'' where
  online := h'.online
  sent := h'.sent.trans h.sent
  arrived := by
    rw [h'.arrived, h.arrived, List.append_assoc, receivedBytes, receivedBytes, receivedBytes,
      List.flatMap_append]

/-- The turn is that of a network. -/
inductive TurnIs (phase : Bytes) : Turn → RecvEvent → Prop where
  | again : TurnIs phase .again .eintr
  | came (bytes : Bytes) : TurnIs phase (.came bytes) (.recv bytes)
  | failed (f : Fault) : TurnIs phase (.failed (f.error (ascii "recv") phase)) (.fault f)

/-- What one turn of a receive loop has done. -/
structure TurnDone (K : Kernel) (deadline fd : ℤ) (phase : Bytes) (log : List Sys) (t : Turn)
    (log' : List Sys) : Prop where
  event : ∃ ev, TurnIs phase t ev ∧ ReadDone deadline fd log [ev] log'
  readings : readings log < readings log'
  inTime : (∀ error, t ≠ .failed error) → K.now log < deadline

/-- One turn of a receive loop receives bytes, ends the stream, or is a fault. -/
theorem recvTurn_spec (phase : Bytes) (h : Online deadline fd log) :
    Ensures (recvTurn K fd deadline phase) log (TurnDone K deadline fd phase log) fun _ _ => False := by
  refine Ensures.bind (armRemainingTimeout_spec h.safe h.mem) fun b log₁ harm => ?_
  have h₁ := h.idle harm.idle harm.safe
  -- A turn that fails, after calls that brought nothing.
  have hfailed : ∀ {text log'}, (∃ f : Fault, text = f.error (ascii "recv") phase) →
      Online deadline fd log' → NoBytes log log' → Socket.readings log < Socket.readings log' →
      TurnDone K deadline fd phase log (.failed text) log' := by
    rintro _ log' ⟨f, rfl⟩ honline hno hread
    refine ⟨⟨.fault f, .failed f, honline, hno.1, ?_⟩, hread, fun hnot => absurd rfl (hnot _)⟩
    exact hno.2.trans (List.append_nil _).symm
  have hbudget := fun hb => hfailed (budgetError_fault (K := K) (b := b) (ascii "recv") phase hb) h₁
    harm.idle.noBytes harm.readings
  cases b with
  | ready =>
    refine Ensures.bind (syscall_spec _ _ _) ?_
    rintro res _ rfl
    have h₂ : Online deadline fd (log₁ ++ [.recv fd res]) :=
      h₁.note ⟨h₁.mem, harm.armed rfl, h₁.connected⟩ rfl
    have hread := harm.readings.trans_le (readings_le_concat log₁ (.recv fd res))
    have hsent : sentBytes (log₁ ++ [.recv fd res]) = sentBytes log := by
      rw [sentBytes_concat, harm.idle.noBytes.1]
      exact List.append_nil _
    have harrived : arrivedBytes (log₁ ++ [.recv fd res]) =
        arrivedBytes log ++ arrivedBytes [.recv fd res] := by
      rw [arrivedBytes_concat, harm.idle.noBytes.2]
    cases res with
    | error errno =>
      refine Ensures.ite (fun _ => ?_) fun _ => ?_
      · exact ⟨⟨.eintr, .again, h₂, hsent, harrived⟩, hread, fun _ => harm.inTime rfl⟩
      · refine Ensures.bind (ioError_spec _ _ _ h₂.safe) ?_
        rintro text log₃ ⟨htext, hidle, hsafe⟩
        have hno : NoBytes log (log₁ ++ [.recv fd (.error errno)]) :=
          ⟨hsent, harrived.trans (List.append_nil _)⟩
        exact hfailed htext (h₂.idle hidle hsafe) (hno.trans hidle.noBytes)
          (hread.trans_le hidle.readings_le)
    | ok bytes =>
      exact ⟨⟨.recv bytes, .came bytes, h₂, hsent, harrived⟩, hread, fun _ => harm.inTime rfl⟩
  | expired => exact hbudget nofun
  | optionError err => exact hbudget nofun

/-- The loop for the head is over when a head was found. -/
theorem recvHeadLoop_found {max_head : ℕ} {buf : Bytes} (h : Online deadline fd log)
    (hbuf : findSub CRLFCRLF buf ≠ none) (fuel : ℕ) :
    Ensures (recvHeadLoop K fd deadline max_head fuel buf) log
      (fun out log' => log' = log ∧ out = { bytes := buf })
      (Spent K deadline fuel log) := by
  cases fuel with
  | zero => exact Spent.zero h.safe
  | succ fuel => exact Ensures.ite (fun h => absurd h.1 hbuf) fun _ => ⟨rfl, rfl⟩

/-- The loop for the head ends as on a network, or its fuel is spent. -/
theorem recvHeadLoop_spec {max_head : ℕ} {buf : Bytes} (fuel : ℕ) (h : Online deadline fd log)
    (hbuf : findSub CRLFCRLF buf = none) :
    Ensures (recvHeadLoop K fd deadline max_head fuel buf) log
      (fun out log' => (out.eof = true → findSub CRLFCRLF out.bytes = none) ∧
        ∃ evs, ReadDone deadline fd log evs log' ∧
          ∀ more, recvHead max_head (evs ++ more) buf = ⟨out.bytes, out.eof, out.error, more⟩)
      (Spent K deadline fuel log) := by
  induction fuel generalizing buf log with
  | zero => exact Spent.zero h.safe
  | succ fuel ih =>
    refine Ensures.ite (fun hgo => ?_) fun hend => ?_
    · refine Ensures.bind (recvTurn_spec _ h).returns fun t log₁ ht => ?_
      obtain ⟨ev, his, hturn⟩ := ht.event
      cases his with
      | again =>
        refine (ih hturn.online hbuf).mono ?_ fun _ _ h => h.succ (ht.inTime (by simp)) ht.readings
        rintro out log' ⟨heof, evs, hread, hevs⟩
        refine ⟨heof, _, hturn.trans hread, fun more => ?_⟩
        rw [List.cons_append, List.cons_append, recvHead, if_pos hgo.2]
        exact hevs more
      | failed f =>
        refine ⟨by simp, _, hturn, fun more => ?_⟩
        rw [List.cons_append, recvHead, if_pos hgo.2]
        rfl
      | came bytes =>
        refine Ensures.ite (fun hnil => ?_) fun hne => ?_
        · refine ⟨fun _ => hbuf, _, hturn, fun more => ?_⟩
          rw [List.cons_append, recvHead, if_pos hgo.2]
          exact if_pos hnil
        -- The test of the next turn looks for a head in what there is now.
        cases hfind : findSub CRLFCRLF (buf ++ bytes) with
        | some i =>
          refine (recvHeadLoop_found hturn.online (by rw [hfind]; exact Option.some_ne_none i)
            fuel).mono ?_
            fun _ _ h => h.succ (ht.inTime (by simp)) ht.readings
          rintro _ _ ⟨rfl, rfl⟩
          refine ⟨by simp, _, hturn, fun more => ?_⟩
          rw [List.cons_append, recvHead, if_pos hgo.2]
          simp only [if_neg hne, hfind]
          rfl
        | none =>
          refine (ih hturn.online hfind).mono ?_ fun _ _ h => h.succ (ht.inTime (by simp)) ht.readings
          rintro out log' ⟨heof, evs, hread, hevs⟩
          refine ⟨heof, _, hturn.trans hread, fun more => ?_⟩
          rw [List.cons_append, List.cons_append, recvHead, if_pos hgo.2]
          simp only [if_neg hne, hfind]
          exact hevs more
    · have hcap : ¬ buf.length < max_head := fun hlt => hend ⟨hbuf, hlt⟩
      refine ⟨by simp, [], .refl h, fun more => ?_⟩
      cases more with
      | nil => exact if_neg hcap
      | cons ev more => exact if_neg hcap

/-- A body that was cut is longer than the cap. -/
theorem capBody_snd (max_body : ℕ) (body : Bytes) :
    (capBody max_body body).2 = decide (max_body < body.length) := by
  unfold capBody
  split_ifs with h <;> simp [h]

/-- A body is kept up to its cap. -/
theorem length_capBody (max_body : ℕ) (body : Bytes) :
    (capBody max_body body).1.length = min body.length max_body := by
  unfold capBody
  split_ifs with h
  · rw [List.length_take, Nat.min_comm]
  · exact (Nat.min_eq_left (not_lt.mp h)).symm

/-- The loop for the body: it keeps what the loop of the network reads, up to the cap. -/
theorem recvBodyLoop_spec {r : RawResponse} {max_body : ℕ} {body : Bytes} (fuel : ℕ)
    (h : Online deadline fd log) :
    Ensures (recvBodyLoop K fd deadline r max_body fuel (capBody max_body body)) log
      (fun out log' => ∃ evs whole, ReadDone deadline fd log evs log' ∧
        capBody max_body whole = (out.bytes, out.truncated) ∧
        ∀ more, recvBody r.bodyDone max_body (evs ++ more) body =
          ⟨whole, out.eof, out.error, more⟩)
      (Spent K deadline fuel log) := by
  induction fuel generalizing body log with
  | zero => exact Spent.zero h.safe
  | succ fuel ih =>
    -- The loop ends without another turn when the body was cut, and when it is complete.
    have hstop : max_body < body.length ∨ r.bodyDone body.length = true → ∀ more,
        recvBody r.bodyDone max_body ([] ++ more) body = ⟨body, false, none, more⟩ := by
      intro hdone more
      cases more with
      | nil => exact if_pos hdone
      | cons ev more => exact if_pos hdone
    by_cases hcut : max_body < body.length
    · have hcap : capBody max_body body = (body.take max_body, true) := if_pos hcut
      rw [hcap]
      exact ⟨[], body, .refl h, hcap, hstop (.inl hcut)⟩
    have hcap : capBody max_body body = (body, false) := if_neg hcut
    rw [hcap]
    refine Ensures.ite (absurd · Bool.false_ne_true) fun _ => Ensures.ite (fun hdone => ?_) fun hmore => ?_
    · exact ⟨[], body, .refl h, hcap, hstop (.inr hdone)⟩
    have hgo : ¬ (max_body < body.length ∨ r.bodyDone body.length = true) := by
      rintro (hlt | hdone)
      · exact hcut hlt
      · exact hmore hdone
    refine Ensures.bind (recvTurn_spec _ h).returns fun t log₁ ht => ?_
    obtain ⟨ev, his, hturn⟩ := ht.event
    cases his with
    | again =>
      refine Ensures.mono (hcap ▸ ih hturn.online) ?_ fun _ _ h =>
        h.succ (ht.inTime (by simp)) ht.readings
      rintro out log' ⟨evs, whole, hread, hwhole, hevs⟩
      refine ⟨_, whole, hturn.trans hread, hwhole, fun more => ?_⟩
      rw [List.cons_append, List.cons_append, recvBody, if_neg hgo]
      exact hevs more
    | failed f =>
      refine ⟨_, body, hturn, hcap, fun more => ?_⟩
      rw [List.cons_append, recvBody, if_neg hgo]
      rfl
    | came bytes =>
      refine Ensures.ite (fun hnil => ?_) fun hne => ?_
      · refine ⟨_, body, hturn, hcap, fun more => ?_⟩
        rw [List.cons_append, recvBody, if_neg hgo]
        exact if_pos hnil
      · refine (ih hturn.online).mono ?_ fun _ _ h => h.succ (ht.inTime (by simp)) ht.readings
        rintro out log' ⟨evs, whole, hread, hwhole, hevs⟩
        refine ⟨_, whole, hturn.trans hread, hwhole, fun more => ?_⟩
        rw [List.cons_append, List.cons_append, recvBody, if_neg hgo]
        simp only [if_neg hne]
        exact hevs more

/-! ## The exchange -/

/-- The fuel was not enough for the time until the deadline, and no call was made that was not
allowed. -/
structure Exhausted (K : Kernel) (deadline : ℤ) (fuel : ℕ) (stop : Halt) (log : List Sys) :
    Prop where
  stop_eq : stop = .fuel
  safe : Safe deadline log
  turns : ∀ n, K.Reaches deadline n → fuel < n + 2

/-- The exchange is out of fuel when one of its loops is. -/
theorem Spent.exhausted {fuel : ℕ} {stop : Halt} (h : Spent K deadline fuel log stop log') :
    Exhausted K deadline fuel stop log' := by
  refine ⟨h.stop_eq, h.safe, fun n hn => ?_⟩
  rcases h.turns n hn with hzero | hlt
  · omega
  · omega

/-- The receipt after a body that was kept up to the cap. -/
theorem concludeBody_eq {max_body : ℕ} {whole : Bytes} {out : Read}
    (h : capBody max_body whole = (out.bytes, out.truncated)) (r : RawResponse)
    (rest : List RecvEvent) :
    concludeBody r out = finishBody r max_body ⟨whole, out.eof, out.error, rest⟩ := by
  have hlength := length_capBody max_body whole
  have htruncated := capBody_snd max_body whole
  rw [h] at hlength htruncated
  dsimp only at hlength htruncated
  unfold concludeBody finishBody
  simp only [hlength, htruncated]
  cases r.framing with
  | contentLength =>
    -- A length that equals a number of bytes is not negative.
    have hbool : ∀ (n : ℕ) (v : ℤ), (decide (0 ≤ v) && decide ((n : ℤ) = v)) = decide (v = n) := by
      intro n v
      rw [← Bool.decide_and, decide_eq_decide]
      omega
    simp only [Bool.and_assoc, hbool]
  | _ => rfl

/-- What is received is what the network gives. -/
theorem receiveAll_spec (fuel max_head max_body : ℕ) (r : RawResponse) (h : Online deadline fd log) :
    Ensures (receiveAll K fd deadline fuel max_head max_body r) log
      (fun r' log' => ∃ evs, ReadDone deadline fd log evs log' ∧
        receive max_head max_body evs r = (r', []))
      (Exhausted K deadline fuel) := by
  have hempty : findSub CRLFCRLF [] = none := rfl
  refine Ensures.bind ((recvHeadLoop_spec fuel h hempty).mono (fun _ _ h => h)
    fun _ _ h => h.exhausted) ?_
  rintro out log₁ ⟨heof, evs, hread, hevs⟩
  cases hend : (findSub CRLFCRLF out.bytes).filter (· + 4 ≤ max_head) with
  | none =>
    refine ⟨evs, hread, ?_⟩
    have hhead := hevs []
    rw [List.append_nil] at hhead
    simp only [receive, hhead, hend]
    simp
  | some i =>
    have hnot : out.eof = false := by
      by_contra htrue
      rw [heof (by simpa using htrue)] at hend
      cases hend
    have hreceive : ∀ more, receive max_head max_body (evs ++ more) r =
        receiveBody max_body (out.bytes.take (i + 4)) (out.bytes.drop (i + 4)) more r := by
      intro more
      simp only [receive, hevs more, hend]
    dsimp only
    refine Ensures.ite (fun hbad => ?_) fun hgood => ?_
    · refine ⟨evs, hread, ?_⟩
      rw [← List.append_nil evs, hreceive, receiveBody]
      exact if_pos hbad
    · rw [hnot]
      refine Ensures.bind ((recvBodyLoop_spec fuel hread.online).mono (fun _ _ h => h)
        fun _ _ h => h.exhausted) ?_
      rintro b log₂ ⟨evs₂, whole, hread₂, hwhole, hevs₂⟩
      refine ⟨evs ++ evs₂, hread.trans hread₂, ?_⟩
      have hbody := hevs₂ []
      rw [List.append_nil] at hbody
      rw [hreceive, receiveBody]
      dsimp only
      rw [if_neg hgood, hbody, concludeBody_eq hwhole]

/-- The receipt is that of the exchange on a network, which has accepted the bytes that were sent and
has delivered those that have come. -/
def OnNetwork (host_header target : Bytes) (headers : HeaderList) (max_head max_body : ℕ)
    (r : RawResponse) (log : List Sys) : Prop :=
  ∃ req token_bearing net, buildRequest host_header target headers = .ok (req, token_bearing) ∧
    S3Rdma.rawHttpGet host_header target headers max_head max_body net = .ok (r, []) ∧
    acceptedBytes req net = sentBytes log ∧ receivedBytes net.recvs = arrivedBytes log

section Network

variable {host_header target req : Bytes} {headers : HeaderList} {token_bearing : Bool}
  {max_head max_body : ℕ}

/-- An exchange without a connection is as on a network that gives none. -/
theorem onNetwork_unconnected (hreq : buildRequest host_header target headers = .ok (req, token_bearing))
    (error : Bytes) (hsent : sentBytes log = []) (harrived : arrivedBytes log = []) :
    OnNetwork host_header target headers max_head max_body
      { token_bearing, transport_error := true, error } log := by
  refine ⟨req, token_bearing, ⟨some error, [], []⟩, hreq, ?_, hsent.symm, harrived.symm⟩
  rw [S3Rdma.rawHttpGet, hreq]
  rfl

/-- An exchange on a connection keeps it, and ends as on a network. -/
theorem converse_spec (fuel : ℕ)
    (hreq : buildRequest host_header target headers = .ok (req, token_bearing))
    (h : Online deadline fd log) (hsent : sentBytes log = []) (harrived : arrivedBytes log = []) :
    Ensures (converse K fd deadline fuel req max_head max_body { token_bearing }) log
      (fun r log' => Online deadline fd log' ∧
        OnNetwork host_header target headers max_head max_body r log')
      (Exhausted K deadline fuel) := by
  refine Ensures.bind ((sendLoop_spec fuel h).mono (fun _ _ h => h) fun _ _ h => h.exhausted) ?_
  rintro ⟨off, error⟩ log₁ hsend
  obtain ⟨sends, hsends⟩ := hsend.network
  have haccepted : ∀ recvs, acceptedBytes req ⟨none, sends, recvs⟩ = sentBytes log₁ := by
    intro recvs
    have hpieces := flatten_sentPieces req sends 0
    rw [hsends] at hpieces
    rw [hsend.sent, hsent, acceptedBytes]
    simpa using hpieces
  have hget : ∀ recvs, S3Rdma.rawHttpGet host_header target headers max_head max_body
      ⟨none, sends, recvs⟩ = .ok (if off < req.length then
        ({ token_bearing, request_bytes := off, transport_error := true,
           request_partial := decide (0 < off), error := error.getD [] }, recvs)
        else receive max_head max_body recvs
          { token_bearing, request_bytes := off, request_sent := true }) := by
    intro recvs
    rw [S3Rdma.rawHttpGet, hreq]
    simp only [bind, Except.bind, hsends]
    split_ifs <;> rfl
  dsimp only
  refine Ensures.ite (fun hlt => ?_) fun hall => ?_
  · refine ⟨hsend.online, req, token_bearing, ⟨none, sends, []⟩, hreq, ?_, haccepted [], ?_⟩
    · rw [hget, if_pos hlt]
    · exact (hsend.arrived.trans harrived).symm
  · refine (receiveAll_spec fuel max_head max_body _ hsend.online).mono ?_ fun _ _ h => h
    rintro r log₂ ⟨recvs, hread, hreceive⟩
    refine ⟨hread.online, req, token_bearing, ⟨none, sends, recvs⟩, hreq, ?_, ?_, ?_⟩
    · rw [hget, if_neg hall, hreceive]
    · rw [haccepted, hread.sent]
    · rw [hread.arrived, hsend.arrived, harrived]
      rfl

/-- The resolver opens no socket. It throws if its thread cannot be created. -/
theorem resolveHost_spec (host service : Bytes) (h : Unconnected deadline [] log) :
    Ensures (resolveHost K host service) log (fun _ log' => Unconnected deadline [] log')
      fun stop log' => (∃ what, stop = .threw what) ∧ Unconnected deadline [] log' := by
  have hidle : ∀ {log₁ e}, Unconnected deadline [] log₁ → Sys.isIdle e = true →
      Allowed deadline log₁ e → Unconnected deadline [] (log₁ ++ [e]) :=
    fun h₁ he hallowed => h₁.idle (.note he) (h₁.safe.note hallowed)
  refine Ensures.bind (syscall_spec _ _ _) ?_
  rintro (_ | addrs) _ rfl
  · have h₁ := hidle h (e := .numericHost none) rfl trivial
    refine Ensures.bind (syscall_spec _ _ _) ?_
    rintro (what | _) _ rfl
    · exact ⟨⟨what, rfl⟩, hidle h₁ rfl trivial⟩
    · have h₂ := hidle h₁ (e := .thread (.ok ())) rfl trivial
      refine Ensures.bind (syscall_spec _ _ _) ?_
      rintro (_ | _ | addrs) _ rfl
      · exact hidle h₂ rfl trivial
      · exact hidle h₂ rfl trivial
      · exact hidle h₂ rfl trivial
  · exact hidle h rfl trivial

/-- The whole exchange: the deadline is counted from its first reading of the clock. -/
theorem rawHttpGet_spec (K : Kernel) (fuel : ℕ) (host : Bytes) (port : ℕ) (deadline_s : ℤ)
    (hdeadline : deadline = K.now [] + deadline_s * 1000000000) :
    Ensures (rawHttpGet K fuel host port host_header target headers max_head max_body deadline_s) []
      (fun r log => (Safe deadline log ∧ openFds log = []) ∧
        OnNetwork host_header target headers max_head max_body r log)
      fun stop log => Exhausted K deadline fuel stop log ∨
        (∃ what, stop = .threw what) ∧ Safe deadline log ∧ openFds log = [] ∧ sentBytes log = [] := by
  unfold rawHttpGet
  cases hreq : buildRequest host_header target headers with
  | error what => exact .inr ⟨⟨what, rfl⟩, trivial, rfl, rfl⟩
  | ok res =>
    obtain ⟨req, token_bearing⟩ := res
    refine syscall_bind ?_
    rw [← hdeadline]
    have h₁ : Unconnected deadline [] ([] ++ [.now (K.now [])]) :=
      ⟨Safe.note trivial trivial, rfl, by simp [Established, Connected], rfl, rfl⟩
    refine Ensures.bind ((resolveHost_spec _ _ h₁).mono (fun _ _ h => h) fun _ _ h =>
      .inr ⟨h.1, h.2.safe, h.2.opened, h.2.sent⟩) ?_
    rintro (error | addrs) log₂ h₂
    · exact ⟨⟨h₂.safe, h₂.opened⟩, onNetwork_unconnected hreq error h₂.sent h₂.arrived⟩
    · refine Ensures.bind (connectLoop_spec addrs [] h₂).returns ?_
      rintro ⟨sock, error⟩ log₃ hdone
      dsimp only
      refine Ensures.ite (fun hneg => ?_) fun hsock => ?_
      · obtain ⟨-, h₃⟩ | ⟨hpos, -⟩ := hdone
        · exact ⟨⟨h₃.safe, h₃.opened⟩, onNetwork_unconnected hreq _ h₃.sent h₃.arrived⟩
        · exact absurd hneg (not_lt.mpr hpos)
      · obtain ⟨hneg, -⟩ | ⟨-, h₃, hsent, harrived⟩ := hdone
        · exact absurd hneg hsock
        refine Ensures.bind ((converse_spec fuel hreq h₃ hsent harrived).mono (fun _ _ h => h)
          fun _ _ h => .inl h) ?_
        rintro r log₄ ⟨h₄, req', t, net, hreq', hget, hsent₄, harrived₄⟩
        refine syscall_bind ⟨⟨h₄.safe.note h₄.mem, ?_⟩, req', t, net, hreq', hget, ?_, ?_⟩
        · rw [openFds_concat, h₄.opened, Sys.track, List.erase_cons_head]
        · rw [sentBytes_concat, hsent₄]
          exact (List.append_nil _).symm
        · rw [arrivedBytes_concat, harrived₄]
          exact (List.append_nil _).symm

end Network

end Calls

section Results

variable (K : Kernel) (fuel : ℕ) (host : Bytes) (port : ℕ) (host_header target : Bytes)
  (headers : HeaderList) (max_head max_body : ℕ) (deadline_s : ℤ)

/-- The exchange with its system calls is the exchange on a network: whatever the calls return, the
receipt is one that `raw_http_get` gives on some network, which has accepted exactly the bytes that
`send` accepted and delivered exactly those that `recv` returned. The exceptions that are modelled,
of a request that is not valid and of a thread that cannot be created, leave it before anything was
sent; memory does not run out. -/
theorem exchange_refines :
    Ensures (rawHttpGet K fuel host port host_header target headers max_head max_body deadline_s) []
      (fun r log => OnNetwork host_header target headers max_head max_body r log)
      fun stop log => stop = .fuel ∨ (∃ what, stop = .threw what) ∧ sentBytes log = [] :=
  (rawHttpGet_spec K fuel host port deadline_s rfl).mono (fun _ _ h => h.2) fun _ _ h =>
    h.imp (fun h => h.stop_eq) fun h => ⟨h.1, h.2.2.2⟩

/-- Whatever the calls return, every socket is closed, once and after its last use, one connection is
made at most, bytes are transferred on it only, and no call that can block is made without the
timeouts of its socket having been set, directly before, to no more than what was left of the
deadline. All but the closing also holds of an exchange that is still going on when the fuel is used
up. -/
theorem exchange_safe :
    Ensures (rawHttpGet K fuel host port host_header target headers max_head max_body deadline_s) []
      (fun _ log => Safe (K.now [] + deadline_s * 1000000000) log ∧ openFds log = [])
      fun stop log => Safe (K.now [] + deadline_s * 1000000000) log ∧
        (stop = .fuel ∨ openFds log = []) := by
  refine (rawHttpGet_spec K fuel host port deadline_s rfl).mono (fun _ _ h => h.1) ?_
  rintro stop log (hspent | ⟨-, hsafe, hopen, -⟩)
  · exact ⟨hspent.safe, .inl hspent.stop_eq⟩
  · exact ⟨hsafe, .inr hopen⟩

/-- The exchange returns, or throws before it has sent anything, when the clock goes on and memory
does not run out: if the deadline has passed by the `n`-th reading, no loop makes more than `n + 1`
turns, however many calls are interrupted and however slowly the peer sends. -/
theorem exchange_returns {n : ℕ} (hclock : K.Reaches (K.now [] + deadline_s * 1000000000) n)
    (hfuel : n + 2 ≤ fuel) :
    Ensures (rawHttpGet K fuel host port host_header target headers max_head max_body deadline_s) []
      (fun _ _ => True) fun stop log => (∃ what, stop = .threw what) ∧ sentBytes log = [] := by
  refine (rawHttpGet_spec K fuel host port deadline_s rfl).mono (fun _ _ _ => trivial) ?_
  rintro stop log (hspent | ⟨hthrew, -, -, hsent⟩)
  · exact absurd (hspent.turns n hclock) (not_lt.mpr hfuel)
  · exact ⟨hthrew, hsent⟩

end Results

/-- A peer that takes the request and then sends one byte after the other for ever. Each reading of
the clock is a second later than the one before. -/
def trickling : Kernel where
  now log := 1000000000 * readings log
  numericHost _ _ _ := some [⟨2, 1, 6, []⟩]
  thread _ := .ok ()
  resolve _ _ _ := none
  socket _ _ := 5
  setsockopt _ := none
  connect _ := none
  send _ bytes := (bytes.length, 0)
  recv _ := .ok [0]
  strerror _ := []
  gai_strerror _ := []
  send_le _ _ := le_rfl

/-- With a deadline of three seconds the exchange has returned after three readings. -/
theorem exchange_returns_trickling :
    trickling.Reaches (trickling.now [] + 3 * 1000000000) 3 ∧
      Ensures (rawHttpGet trickling 5 (ascii "h") 80 (ascii "h") (ascii "/o") [] 1000 0 3) []
        (fun _ _ => True) fun stop log => (∃ what, stop = .threw what) ∧ sentBytes log = [] := by
  have hclock : trickling.Reaches (trickling.now [] + 3 * 1000000000) 3 := by
    intro log hlog
    show 1000000000 * ((readings [] : ℕ) : ℤ) + 3 * 1000000000 ≤ 1000000000 * (readings log : ℤ)
    simp only [readings, List.countP_nil] at hlog ⊢
    omega
  exact ⟨hclock, exchange_returns trickling 5 _ 80 _ _ [] 1000 0 3 hclock le_rfl⟩

end S3Rdma.Socket
