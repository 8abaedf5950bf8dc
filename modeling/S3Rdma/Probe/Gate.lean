import S3Rdma.Http.Request
import S3Rdma.Probe.RigCallback

/-!
# The completion gate

What the counters `submitted` and `completed` of a context say about the messages of its calls. A
call takes a ticket with `submitted.fetch_add(1)`, before any byte of its request can be accepted,
and gives it back only when none was. It is credited with `completed.fetch_add(1)` after it has seen
that its ticket is the only one. So the counters count the tickets of the calls
(`System.Inv.counted`), and the rest is the library's `Counted.eq_cases`.

What a call may hold at each of its program points is `Call.AtPc`; one step of a call keeps it
(`act_ok`) and changes the counters as its ticket changes (`act_counted`).

A call that is credited also returns what was expected: the authority reads the reply and the count
as plain digits, and on those the more tolerant readings of the return path agree with it
(`recordReceipt_of_authority`).
-/

namespace S3Rdma.Probe

/-! ## What an exchange tells about the bytes it sent -/

/-- Bytes of the request were accepted exactly if it is noted as sent or as partly sent, and there
is no response to a request that was not sent. -/
theorem rawHttpGet_emission {host_header target : Bytes} {headers : HeaderList}
    {max_head max_body : ℕ} {net : Network} {r : RawResponse} {rest : List RecvEvent}
    (h : rawHttpGet host_header target headers max_head max_body net = .ok (r, rest)) :
    (r.request_sent || r.request_partial) = decide (0 < r.request_bytes) ∧
      (r.request_sent = false → r.head_complete = false) := by
  obtain ⟨req, token_bearing, hbuild, hw⟩ := rawHttpGet_written h
  have hpos := buildRequest_length_pos hbuild
  have hle := hw.bytes_le
  refine ⟨?_, fun hunsent => (hw.unsent hunsent).2.1⟩
  rw [Bool.eq_iff_iff, Bool.or_eq_true, hw.sent_iff, hw.partial_iff, decide_eq_true_eq]
  omega

/-! ## The calls -/

/-- What a call may hold at a program point. -/
def Call.AtPc (u : RigSetup) (c : Call) : Prop :=
  match c.pc with
  | .entered | .gating | .building | .failing | .submitting => c.ticket = .none ∧ c.res = none
  | .latching => c.ticket = .taken ∧ c.emitted = false ∧ c.res = none
  | .exchanging => c.ticket = .taken ∧ c.res = none ∧ (c.emitted = true → ∃ r, c.request u = .ok r)
  | .refused => c.ticket = .taken ∧ c.emitted = false ∧ c.res = none
  | .takingBack => c.ticket = .taken ∧ c.emitted = false ∧ c.accepted u = false
  | .comparing _ _ | .clearing | .tookBack => c.ticket = .none ∧ c.accepted u = false
  | .counting => c.ticket = .taken
  | .recording | .reading => c.accepted u = true → c.ticket = .taken
  | .qualifying =>
    c.at_.qualified_complete = c.accepted u ∧ (c.accepted u = true → c.ticket = .taken)
  | .completing => c.ticket = .passed
  | _ => True

/-- What holds of a call at any time: whoever has emitted has a ticket, and only a call with an
accepted receipt is credited. -/
structure Call.Ok (u : RigSetup) (c : Call) : Prop where
  emitted_held : c.emitted = true → c.ticket.held = true
  sole_accepted : c.ticket.sole = true → c.accepted u = true
  at_pc : c.AtPc u

/-- Without a response there is no receipt. -/
theorem accepted_of_res_eq_none {u : RigSetup} {c : Call} (hres : c.res = none) :
    c.accepted u = false := by
  unfold Call.accepted
  rw [hres]
  cases u.proto <;> rfl

/-- The counters of messages are none of the gate's variables. -/
theorem countMessage_frame (res : RawResponse) (x : RigContext) :
    (countMessage res x).submitted = x.submitted ∧ (countMessage res x).completed = x.completed ∧
      (countMessage res x).unknown = x.unknown := by
  unfold countMessage
  split_ifs <;> exact ⟨rfl, rfl, rfl⟩

/-- No receipt is accepted for a request that was not sent. -/
theorem accepted_eq_false {u : RigSetup} {c : Call} {res : RawResponse} (hres : c.res = some res)
    (hhead : res.head_complete = false) : c.accepted u = false := by
  unfold Call.accepted
  rw [hres]
  cases u.proto with
  | none => rfl
  | some proto =>
    by_contra h
    have hview := (completionAuthority_view (Bool.not_eq_false _ ▸ h)).1.1
    exact absurd (hview.symm.trans hhead) (by decide)

section Step

variable {P : Platform} {u : RigSetup} {now : ℤ} {x x' : RigContext} {c c' : Call} {m : Move}

/-- What the return of `raw_http_get` does to a call. -/
theorem receive_ok {net : Network} (hok : c.Ok u) (hpc : c.pc = .exchanging)
    (h : c.receive u net = some c') :
    c'.Ok u ∧ c'.ticket = c.ticket ∧ (c'.pc = .takingBack ∨ c'.pc = .counting) := by
  obtain ⟨hheld, hsole, hat⟩ := hok
  simp only [Call.AtPc, hpc] at hat
  obtain ⟨hticket, -, -⟩ := hat
  unfold Call.receive at h
  split at h
  · rename_i res rest hget
    obtain ⟨hbytes, hhead⟩ := rawHttpGet_emission hget
    split_ifs at h with hemitted hnot
    · -- Nothing was sent.
      simp only [Bool.and_eq_true, Bool.not_eq_true'] at hnot
      rw [hnot.1, hnot.2, Bool.or_false, eq_comm, ← hemitted] at hbytes
      obtain rfl := Option.some.inj h
      refine ⟨⟨hheld, ?_, ?_⟩, rfl, .inl rfl⟩
      · intro hs
        rw [hticket] at hs
        exact absurd hs (by decide)
      · exact ⟨hticket, hbytes, accepted_eq_false rfl (hhead hnot.1)⟩
    · obtain rfl := Option.some.inj h
      refine ⟨⟨hheld, ?_, hticket⟩, rfl, .inr rfl⟩
      intro hs
      rw [hticket] at hs
      exact absurd hs (by decide)
  · exact absurd h (by simp)

/-- What building the headers does to a call. -/
theorem build_ok {time : ℤ} (hok : c.Ok u) (hpc : c.pc = .building)
    (h : c.build P u time = some c') :
    c'.Ok u ∧ c'.ticket = c.ticket ∧ (c'.pc = .submitting ∨ c'.pc = .failing) := by
  obtain ⟨hheld, hsole, hat⟩ := hok
  simp only [Call.AtPc, hpc] at hat
  unfold Call.build at h
  split at h
  · split at h
    · obtain rfl := Option.some.inj h
      exact ⟨⟨hheld, hsole, hat⟩, rfl, .inl rfl⟩
    · obtain rfl := Option.some.inj h
      exact ⟨⟨hheld, hsole, hat⟩, rfl, .inr rfl⟩
  · exact absurd h (by simp)

/-- What a step of a call does to its ticket and to the shared variables of the gate. -/
inductive Effect (x : RigContext) (c : Call) (x' : RigContext) (c' : Call) : Prop where
  | quiet (ticket : c'.ticket = c.ticket) (submitted : x'.submitted = x.submitted)
      (completed : x'.completed = x.completed) (unknown : x'.unknown = x.unknown)
      (pc : c.pc ≠ .latching) (pc' : c'.pc ≠ .latching)
  | take (before : c.ticket = .none) (after : c'.ticket = .taken) (pc' : c'.pc = .latching)
      (submitted : x'.submitted = x.submitted + 1) (completed : x'.completed = x.completed)
      (unknown : x'.unknown = x.unknown)
  | latch (ticket : c'.ticket = c.ticket) (submitted : x'.submitted = x.submitted)
      (completed : x'.completed = x.completed) (unknown : x'.unknown = true)
  | giveBack (before : c.ticket = .taken) (after : c'.ticket = .none)
      (submitted : x'.submitted = x.submitted - 1) (completed : x'.completed = x.completed)
      (unknown : x'.unknown = x.unknown)
  | pass (before : c.ticket = .taken) (after : c'.ticket = .passed) (pc : c.pc ≠ .latching)
      (one : x.submitted = 1) (submitted : x'.submitted = x.submitted)
      (completed : x'.completed = x.completed) (unknown : x'.unknown = x.unknown)
  | credit (before : c.ticket = .passed) (after : c'.ticket = .credited)
      (submitted : x'.submitted = x.submitted) (completed : x'.completed = x.completed + 1)
      (unknown : x'.unknown = x.unknown)
  | clear (pc : c.pc = .clearing ∨ c.pc = .releasing) (ticket : c'.ticket = c.ticket)
      (submitted : x'.submitted = x.submitted) (completed : x'.completed = x.completed)

/-- One step keeps a call in order, and has one of the effects on the gate. -/
theorem act_spec (hok : c.Ok u) (h : act P u now x c m = some (x', c')) :
    c'.Ok u ∧ Effect x c x' c' := by
  have hok₀ := hok
  obtain ⟨hheld, hsole, hat⟩ := hok
  unfold Call.AtPc at hat
  unfold act at h
  cases hpc : c.pc <;> rw [hpc] at h hat <;> dsimp only at hat <;> cases m <;> dsimp only at h <;>
    try simp only [reduceCtorEq] at h
  case building.build =>
    obtain ⟨c₁, hbuild, heq⟩ := Option.map_eq_some_iff.mp h
    obtain ⟨rfl, rfl⟩ := Prod.mk.inj heq
    obtain ⟨hok', hticket, hpc'⟩ := build_ok hok₀ hpc hbuild
    refine ⟨hok', .quiet hticket rfl rfl rfl (by simp [hpc]) ?_⟩
    rcases hpc' with hpc' | hpc' <;> simp [hpc']
  case submitting.next =>
    obtain ⟨rfl, rfl⟩ := Prod.mk.inj (Option.some.inj h)
    have hquiet : c.emitted = false := by
      by_contra he
      have hticket := hheld (by simpa using he)
      rw [hat.1] at hticket
      exact absurd hticket (by decide)
    exact ⟨⟨fun _ => rfl, nofun, rfl, hquiet, hat.2⟩, .take hat.1 rfl rfl rfl rfl rfl⟩
  case latching.next =>
    obtain ⟨rfl, rfl⟩ := Prod.mk.inj (Option.some.inj h)
    refine ⟨⟨hheld, hsole, hat.1, hat.2.2, ?_⟩, .latch rfl rfl rfl rfl⟩
    intro he
    exact absurd (hat.2.1.symm.trans he) (by decide)
  case exchanging.next =>
    split at h
    · exact absurd h (by simp)
    · rename_i hreq
      obtain ⟨rfl, rfl⟩ := Prod.mk.inj (Option.some.inj h)
      -- A request that cannot be built was not sent.
      have hquiet : c.emitted = false := by
        by_contra he
        obtain ⟨r, hr⟩ := hat.2.2 (by simpa using he)
        exact absurd (hreq.symm.trans hr) (by simp)
      exact ⟨⟨hheld, hsole, hat.1, hquiet, hat.2.1⟩, .quiet rfl rfl rfl rfl (by simp [hpc]) nofun⟩
  case exchanging.accept =>
    split at h
    · rename_i r hreq
      obtain ⟨rfl, rfl⟩ := Prod.mk.inj (Option.some.inj h)
      refine ⟨⟨fun _ => ?_, hsole, ?_⟩, .quiet rfl rfl rfl rfl (by simp [hpc]) nofun⟩
      · show c.ticket.held = true
        rw [hat.1]
        rfl
      · exact ⟨hat.1, hat.2.1, fun _ => ⟨r, hreq⟩⟩
    · exact absurd h (by simp)
  case exchanging.reply =>
    obtain ⟨c₁, hrecv, heq⟩ := Option.map_eq_some_iff.mp h
    obtain ⟨rfl, rfl⟩ := Prod.mk.inj heq
    obtain ⟨hok', hticket, hpc'⟩ := receive_ok hok₀ hpc hrecv
    refine ⟨hok', .quiet hticket rfl rfl rfl (by simp [hpc]) ?_⟩
    rcases hpc' with hpc' | hpc' <;> simp [hpc']
  case refused.next =>
    obtain ⟨rfl, rfl⟩ := Prod.mk.inj (Option.some.inj h)
    exact ⟨⟨hheld, hsole, hat.1, hat.2.1, accepted_of_res_eq_none hat.2.2⟩,
      .quiet rfl rfl rfl rfl (by simp [hpc]) nofun⟩
  case takingBack.next =>
    obtain ⟨rfl, rfl⟩ := Prod.mk.inj (Option.some.inj h)
    refine ⟨⟨?_, nofun, rfl, hat.2.2⟩, .giveBack hat.1 rfl rfl rfl rfl⟩
    intro he
    exact absurd (hat.2.1.symm.trans he) (by decide)
  case clearing.next =>
    obtain ⟨rfl, rfl⟩ := Prod.mk.inj (Option.some.inj h)
    exact ⟨⟨hheld, hsole, hat⟩, .clear (.inl hpc) rfl rfl rfl⟩
  case tookBack.next =>
    have hquiet : c.accepted u = true → c.ticket = .taken := fun hacc =>
      absurd (hat.2.symm.trans hacc) (by decide)
    split at h
    · obtain ⟨rfl, rfl⟩ := Prod.mk.inj (Option.some.inj h)
      exact ⟨⟨hheld, hsole, trivial⟩, .quiet rfl rfl rfl rfl (by simp [hpc]) nofun⟩
    · split_ifs at h <;>
      · obtain ⟨rfl, rfl⟩ := Prod.mk.inj (Option.some.inj h)
        exact ⟨⟨hheld, hsole, hquiet⟩, .quiet rfl rfl rfl rfl (by simp [hpc]) nofun⟩
  case counting.next =>
    obtain ⟨res, -, heq⟩ := Option.map_eq_some_iff.mp h
    obtain ⟨rfl, rfl⟩ := Prod.mk.inj heq
    obtain ⟨hsub, hcomp, hunk⟩ := countMessage_frame res x
    exact ⟨⟨hheld, hsole, fun _ => hat⟩, .quiet rfl hsub hcomp hunk (by simp [hpc]) nofun⟩
  case recording.next =>
    obtain ⟨res, -, heq⟩ := Option.map_eq_some_iff.mp h
    obtain ⟨rfl, rfl⟩ := Prod.mk.inj heq
    refine ⟨⟨hheld, hsole, hat⟩, .quiet rfl ?_ ?_ ?_ (by simp [hpc]) nofun⟩ <;>
    · split_ifs <;> rfl
  case reading.next =>
    split at h
    · rename_i proto res hproto hres
      obtain ⟨rfl, rfl⟩ := Prod.mk.inj (Option.some.inj h)
      have hacc : c.accepted u = completionAuthority (viewReceipt res c.size) proto u.expected
          c.size := by
        rw [Call.accepted, hproto, hres]
      exact ⟨⟨hheld, hsole, hacc.symm, hat⟩, .quiet rfl rfl rfl rfl (by simp [hpc]) nofun⟩
    · exact absurd h (by simp)
  case qualifying.next =>
    split_ifs at h with hcond
    · obtain ⟨rfl, rfl⟩ := Prod.mk.inj (Option.some.inj h)
      have hacc : c.accepted u = true := hat.1.symm.trans hcond.1
      exact ⟨⟨fun _ => rfl, fun _ => hacc, rfl⟩,
        .pass (hat.2 hacc) rfl (by simp [hpc]) hcond.2 rfl rfl rfl⟩
    · obtain ⟨rfl, rfl⟩ := Prod.mk.inj (Option.some.inj h)
      exact ⟨⟨hheld, hsole, trivial⟩, .quiet rfl rfl rfl rfl (by simp [hpc]) nofun⟩
  case completing.next =>
    obtain ⟨rfl, rfl⟩ := Prod.mk.inj (Option.some.inj h)
    refine ⟨⟨fun _ => rfl, fun _ => hsole ?_, trivial⟩, .credit hat rfl rfl rfl rfl⟩
    rw [hat]
    rfl
  case releasing.next =>
    obtain ⟨rfl, rfl⟩ := Prod.mk.inj (Option.some.inj h)
    exact ⟨⟨hheld, hsole, trivial⟩, .clear (.inr hpc) rfl rfl rfl⟩
  case catching.next =>
    split at h
    · obtain ⟨rfl, rfl⟩ := Prod.mk.inj (Option.some.inj h)
      refine ⟨⟨hheld, hsole, ?_⟩, .quiet rfl rfl rfl rfl (by simp [hpc]) ?_⟩
      · split_ifs <;> trivial
      · show (if _ then Pc.catchLatching else Pc.catchLosing) ≠ .latching
        split_ifs <;> nofun
    · exact absurd h (by simp)
  case catchLatching.next =>
    obtain ⟨rfl, rfl⟩ := Prod.mk.inj (Option.some.inj h)
    exact ⟨⟨hheld, hsole, trivial⟩, .latch rfl rfl rfl rfl⟩
  -- The other steps change neither the ticket nor a variable of the gate.
  all_goals
    try split_ifs at h
    all_goals
      obtain ⟨rfl, rfl⟩ := Prod.mk.inj (Option.some.inj h)
      refine ⟨⟨hheld, hsole, ?_⟩, .quiet rfl rfl rfl rfl (by simp [hpc]) nofun⟩
      first | exact hat | trivial

/-- A step of a call changes the two counters as it changes the ticket. -/
theorem Effect.counted (he : Effect x c x' c') {ts : List Ticket} {i : ℕ}
    (hi : ts[i]? = some c.ticket) (h : Counted ts x.submitted x.completed) :
    Counted (ts.set i c'.ticket) x'.submitted x'.completed := by
  cases he with
  | quiet ht hs hc => rw [ht, hs, hc]; exact h.keep hi
  | latch ht hs hc => rw [ht, hs, hc]; exact h.keep hi
  | clear _ ht hs hc => rw [ht, hs, hc]; exact h.keep hi
  | take hb ha _ hs hc => rw [ha, hs, hc]; exact h.take (hb ▸ hi)
  | giveBack hb ha hs hc => rw [ha, hs, hc]; exact h.giveBack (hb ▸ hi)
  | pass hb ha _ hone hs hc => rw [ha, hs, hc]; exact h.pass (hb ▸ hi) hone
  | credit hb ha hs hc => rw [ha, hs, hc]; exact h.credit (hb ▸ hi)

end Step

/-! ## The system -/

section System

variable {P : Platform} {u : RigSetup} {s s' : System} {a : ℤ × Action}

/-- In a step of the system, a call enters or one that has entered moves. -/
theorem step_cases (h : step P u s a = some s') :
    (∃ thread rdma size offset, a.2 = .enter thread rdma size offset ∧
      s' = ⟨s.ctx.enter, s.calls ++ [s.ctx.newCall thread rdma size offset], a.1⟩) ∨
    ∃ i m c x' c', a.2 = .move i m ∧ s.calls[i]? = some c ∧ act P u a.1 s.ctx c m = some (x', c') ∧
      s' = ⟨x', s.calls.set i c', a.1⟩ := by
  unfold step at h
  split_ifs at h
  split at h
  · rename_i thread rdma size offset ha
    split_ifs at h
    exact .inl ⟨thread, rdma, size, offset, ha, (Option.some.inj h).symm⟩
  · rename_i i m ha
    split at h
    · exact absurd h (by simp)
    · rename_i c hc
      obtain ⟨⟨x', c'⟩, hact, rfl⟩ := Option.map_eq_some_iff.mp h
      exact .inr ⟨i, m, c, x', c', ha, hc, hact, rfl⟩

/-- What holds of a call as it enters and is kept by its steps holds of all calls from some number
on. -/
theorem step_calls_from {Q : Call → Prop} {n : ℕ} (h : step P u s a = some s')
    (hcalls : ∀ (j : ℕ) (c : Call), n ≤ j → s.calls[j]? = some c → Q c)
    (henter : n ≤ s.calls.length →
      ∀ thread rdma size offset, Q (s.ctx.newCall thread rdma size offset))
    (hact : ∀ c m x' c', Q c → act P u a.1 s.ctx c m = some (x', c') → Q c') :
    ∀ (j : ℕ) (c : Call), n ≤ j → s'.calls[j]? = some c → Q c := by
  intro j d hj hd
  rcases step_cases h with
    ⟨thread, rdma, size, offset, -, rfl⟩ | ⟨i, m, c, x', c', -, hc, hstep, rfl⟩
  · dsimp only at hd
    rcases Nat.lt_trichotomy j s.calls.length with hlt | rfl | hgt
    · rw [List.getElem?_append_left hlt] at hd
      exact hcalls j d hj hd
    · rw [List.getElem?_concat_length] at hd
      obtain rfl := Option.some.inj hd
      exact henter hj thread rdma size offset
    · rw [List.getElem?_eq_none (by simpa using hgt)] at hd
      exact absurd hd (by simp)
  · by_cases hij : i = j
    · subst hij
      have hlen : i < s.calls.length := (List.getElem?_eq_some_iff.mp hc).1
      obtain rfl := Option.some.inj ((List.getElem?_set_self hlen).symm.trans hd)
      exact hact c m x' c' (hcalls i c hj hc) hstep
    · exact hcalls j d hj ((List.getElem?_set_ne hij).symm.trans hd)

/-- What holds of a call as it enters and is kept by its steps holds of all calls. -/
theorem step_calls {Q : Call → Prop} (h : step P u s a = some s') (hcalls : ∀ c ∈ s.calls, Q c)
    (henter : ∀ thread rdma size offset, Q (s.ctx.newCall thread rdma size offset))
    (hact : ∀ c m x' c', Q c → act P u a.1 s.ctx c m = some (x', c') → Q c') :
    ∀ c ∈ s'.calls, Q c := by
  intro c hc
  obtain ⟨j, hj⟩ := List.mem_iff_getElem?.mp hc
  exact step_calls_from h (fun _ d _ hd => hcalls d (List.mem_of_getElem? hd)) (fun _ => henter) hact j
    c (Nat.zero_le j) hj

/-- What holds in every state of a system. -/
structure System.Inv (u : RigSetup) (s : System) : Prop where
  calls_ok : ∀ c ∈ s.calls, c.Ok u
  counted : Counted (s.calls.map Call.ticket) s.ctx.submitted s.ctx.completed

/-- A call that has just entered has done nothing. -/
theorem newCall_ok (x : RigContext) (thread : ℕ) (rdma : Option Bytes) (size : ℕ) (offset : ℤ) :
    (x.newCall thread rdma size offset).Ok u :=
  ⟨nofun, nofun, rfl, rfl⟩

/-- A step of the system keeps what holds in every state. -/
theorem System.Inv.step (hinv : s.Inv u) (h : Probe.step P u s a = some s') : s'.Inv u := by
  obtain ⟨hcalls, hcounted⟩ := hinv
  refine ⟨step_calls h hcalls (newCall_ok s.ctx) fun c m x' c' hok hact => (act_spec hok hact).1, ?_⟩
  rcases step_cases h with
    ⟨thread, rdma, size, offset, -, rfl⟩ | ⟨i, m, c, x', c', -, hc, hact, rfl⟩
  · show Counted ((s.calls ++ [s.ctx.newCall thread rdma size offset]).map Call.ticket)
      s.ctx.submitted s.ctx.completed
    rw [List.map_append]
    exact hcounted.enter
  · obtain ⟨-, heffect⟩ := act_spec (hcalls c (List.mem_of_getElem? hc)) hact
    have hi : (s.calls.map Call.ticket)[i]? = some c.ticket := by
      rw [List.getElem?_map, hc]
      rfl
    show Counted ((s.calls.set i c').map Call.ticket) x'.submitted x'.completed
    rw [List.map_set]
    exact heffect.counted hi hcounted

/-- A context before its first call, at some time. -/
def System.initial (clock : ℤ) : System := { clock }

/-- The invariant holds of a context before its first call. -/
theorem System.inv_initial (clock : ℤ) : (System.initial clock).Inv u where
  calls_ok _ hc := absurd hc List.not_mem_nil
  counted := Counted.nil

/-- A state that a context can reach. -/
def System.Reachable (P : Platform) (u : RigSetup) (s : System) : Prop :=
  ∃ clock as, runSteps (Probe.step P u) as (.initial clock) = some s

/-- The invariant holds in every state that a context can reach. -/
theorem System.Reachable.inv (h : s.Reachable P u) : s.Inv u := by
  obtain ⟨clock, as, hrun⟩ := h
  exact runSteps_invariant (fun _ _ _ hinv hstep => hinv.step hstep) (inv_initial clock) hrun

/-- The number of calls of whose request the socket has accepted a byte. -/
def System.emissions (s : System) : ℕ := s.calls.countP Call.emitted

/-- The joint hold is clear: nothing is submitted, or all that is submitted is known to be complete
and no record was lost. -/
def RigContext.HoldClear (x : RigContext) : Prop :=
  x.submitted = 0 ∨ (x.unknown = false ∧ x.evidence_lost = false ∧ x.completed = x.submitted)

instance (x : RigContext) : Decidable x.HoldClear := inferInstanceAs (Decidable (_ ∨ _))

/-- Every emission of a state whose two counters are equal has an accepted receipt, and there is at
most one. -/
theorem System.Inv.emissions_of_eq (hinv : s.Inv u) (heq : s.ctx.completed = s.ctx.submitted) :
    s.emissions ≤ 1 ∧ ∀ c ∈ s.calls, c.emitted = true → c.accepted u = true := by
  have hticket : ∀ c ∈ s.calls, c.emitted = true → c.ticket.held = true := fun c hc =>
    (hinv.calls_ok c hc).emitted_held
  have hle : s.emissions ≤ (s.calls.map Call.ticket).countP Ticket.held := by
    rw [List.countP_map]
    exact List.countP_mono_left hticket
  rcases hinv.counted.eq_cases heq with hnone | ⟨hone, hcredited⟩
  · have hzero : (s.calls.map Call.ticket).countP Ticket.held = 0 :=
      List.countP_eq_zero.mpr fun t ht => by simp [hnone t ht]
    refine ⟨by omega, fun c hc he => ?_⟩
    have hnot := hnone c.ticket (List.mem_map_of_mem hc)
    exact absurd ((hticket c hc he).symm.trans hnot) (by decide)
  · refine ⟨by omega, fun c hc he => (hinv.calls_ok c hc).sole_accepted ?_⟩
    rw [hcredited c.ticket (List.mem_map_of_mem hc) (hticket c hc he)]
    rfl

/-- Soundness of the gate: at most one submission is ever completed, and while the joint hold is
clear there is no emission, or a single one, and its receipt was accepted. -/
theorem rigCallback_gate (h : s.Reachable P u) :
    s.ctx.completed ≤ 1 ∧ s.ctx.completed ≤ s.ctx.submitted ∧
      (s.ctx.HoldClear → s.emissions = 0 ∨
        (s.emissions = 1 ∧ ∀ c ∈ s.calls, c.emitted = true → c.accepted u = true)) := by
  have hinv := h.inv
  obtain ⟨hone, hle⟩ := hinv.counted.completed_le
  refine ⟨hone, hle, fun hclear => ?_⟩
  have heq : s.ctx.completed = s.ctx.submitted := by
    rcases hclear with hzero | ⟨-, -, heq⟩
    · have hnonneg : 0 ≤ s.ctx.completed := by
        rw [hinv.counted.completed_eq]
        exact Int.natCast_nonneg _
      omega
    · exact heq
  obtain ⟨hcount, haccepted⟩ := hinv.emissions_of_eq heq
  rcases Nat.le_one_iff_eq_zero_or_eq_one.mp hcount with hzero | hsingle
  · exact .inl hzero
  · exact .inr ⟨hsingle, haccepted⟩

end System

/-- The hash functions and the calendar, for requests that are not signed. -/
def unsignedPlatform : Platform where
  hmac _ _ := []
  sha256 _ := []
  gmtime _ := .midnight 1970 0 1

/-- A GET of seven bytes of which the object has five, from an endpoint that takes the descriptor as
it is. -/
def fiveBytesSetup : RigSetup where
  proto := some { token_encoding := .verbatim }
  host := ascii "h"
  path := ascii "/b/o"
  range := ascii "bytes=0-6"
  expected := 5

/-- The next `n` steps of call `i`. -/
def goOn (i : ℕ) (n : ℕ) : List (ℤ × Action) := List.replicate n (0, .move i .next)

/-- A call enters and builds its headers. -/
def enterAndBuild (i : ℕ) : List (ℤ × Action) :=
  (0, .enter i (some (ascii "7f0a")) 7 0) :: goOn i 2 ++ [(0, .move i (.build 0))]

/-- A run of the calls of `fiveBytesSetup`, from any state. -/
def fiveBytesRun (as : List (ℤ × Action)) (s : System) : System :=
  (runSteps (step unsignedPlatform fiveBytesSetup) as s).getD {}

/-- A run that goes through ends in its state. -/
theorem fiveBytesRun_eq {as : List (ℤ × Action)} {s : System}
    (h : (runSteps (step unsignedPlatform fiveBytesSetup) as s).isSome) :
    runSteps (step unsignedPlatform fiveBytesSetup) as s = some (fiveBytesRun as s) :=
  (Option.getD_of_ne_none (Option.isSome_iff_ne_none.mp h) _).symm

/-- A call submits, finds no connection, takes its submission back and loads the counters. -/
def findNoConnection (i : ℕ) : List (ℤ × Action) :=
  goOn i 2 ++
    [(0, .move i (.reply { connect_error := some (ascii "connect"), sends := [], recvs := [] }))] ++
    goOn i 1 ++ [(0, .move i .loadSubmitted), (0, .move i .loadCompleted)]

/-- The first call finds no connection and takes its submission back; the second enters meanwhile,
is stopped by nothing, and gets the receipt. -/
def retriedRun : List (ℤ × Action) :=
  enterAndBuild 0 ++ enterAndBuild 1 ++ findNoConnection 0 ++ goOn 0 11 ++ goOn 1 2 ++
    [(0, .move 1 .accept), (0, .move 1 (.reply fiveBytesNet))] ++ goOn 1 11

/-- The state after the run in which the first call finds no connection. -/
def retriedState : System := fiveBytesRun retriedRun (.initial 0)

/-- After that run the joint hold is clear, with the one message of the second call. -/
theorem rigCallback_gate_retried :
    retriedState.ctx.HoldClear ∧ retriedState.emissions = 1 ∧
      ∀ c ∈ retriedState.calls, c.emitted = true → c.accepted fiveBytesSetup = true := by
  obtain ⟨hsome, hclear, hone⟩ :
      (runSteps (step unsignedPlatform fiveBytesSetup) retriedRun (.initial 0)).isSome ∧
        retriedState.ctx.HoldClear ∧ retriedState.emissions ≠ 0 := by decide +kernel
  have hreach : retriedState.Reachable unsignedPlatform fiveBytesSetup :=
    ⟨0, retriedRun, fiveBytesRun_eq hsome⟩
  exact ⟨hclear, ((rigCallback_gate hreach).2.2 hclear).resolve_left hone⟩

/-! ## The receipt and the return value -/

/-- The reply of an accepted receipt is read as a code: 200, or the status. -/
theorem parseRdmaReply_of_authority {res : RawResponse} {proto : ProtocolOptions}
    {expected size : ℕ}
    (h : completionAuthority (viewReceipt res size) proto expected size = true) :
    parseRdmaReply (some (res.firstValue kHdrRdmaReply)) =
      .code (match proto.token_encoding with | .base64 => 200 | .verbatim => res.status) := by
  obtain ⟨-, hstatus, ⟨-, hlen, hdig⟩, -, -, hconvention⟩ := completionAuthority_view h
  have hne : res.firstValue kHdrRdmaReply ≠ [] := by
    apply List.ne_nil_of_length_pos
    omega
  cases henc : proto.token_encoding with
  | base64 =>
    rw [henc] at hconvention
    have hvalue := hconvention.1
    rw [parseRdmaReply_code hne hdig (by omega) (by omega) (by omega), hvalue]
  | verbatim =>
    rw [henc] at hconvention
    have hvalue := hconvention.1
    rw [parseRdmaReply_code hne hdig (by omega) (by omega) (by omega), hvalue]

/-- A receipt that the authority accepts is also a candidate in the diagnosis, and by itself the
callback returns the expected length for it. -/
theorem recordReceipt_of_authority (u : RigSetup) (proto : ProtocolOptions) (size : ℕ)
    (res : RawResponse) (a : Attempt) (hsize : size ≤ 2^63 - 1)
    (h : completionAuthority (viewReceipt res size) proto u.expected size = true) :
    (recordReceipt u proto size res a).completion_candidate = true ∧
      (recordReceipt u proto size res a).natural_return = u.expected := by
  obtain ⟨⟨hhead, hmal, -⟩, hstatus, ⟨hreplies, -⟩, ⟨hcounts, -⟩, hdeclared, hconvention⟩ :=
    completionAuthority_view h
  have hpresent : (viewReceipt res size).present = true := by simp [viewReceipt, hhead, hmal]
  have hstatus' : (viewReceipt res size).status = res.status := rfl
  have hone : (viewReceipt res size).reply_count = 1 := hreplies
  have hraw : (viewReceipt res size).reply_raw = res.firstValue kHdrRdmaReply := rfl
  have hcount : (viewReceipt res size).count_count = 1 := hcounts
  have hexpected : (viewReceipt res size).declared = u.expected := by
    rw [← hdeclared]
    simp [viewReceipt, hcounts]
  have hreply := parseRdmaReply_of_authority h
  have hok : ¬ (res.status ≠ 200 ∧ res.status ≠ 206) := by omega
  unfold recordReceipt
  dsimp only
  rw [hone, hraw, if_pos Nat.one_pos, hreply, if_pos hpresent]
  constructor
  · -- The diagnosis reads the reply and the count from the same fields.
    unfold completionCandidate
    cases henc : proto.token_encoding with
    | base64 =>
      rw [henc] at hconvention
      simp [hstatus', hcount, hexpected, hok, hconvention.2]
    | verbatim => simp [hstatus', hcount, hexpected, hok]
  · unfold naturalReturn
    rw [if_pos ⟨hpresent, hstatus⟩, hexpected]
    cases henc : proto.token_encoding with
    | base64 =>
      rw [henc] at hconvention
      rw [hconvention.2]
      exact signed64_eq (by omega)
    | verbatim => simp [hstatus']

/-- For the receipt for five bytes the callback returns five. -/
theorem recordReceipt_of_authority_five_bytes :
    completionAuthority (viewReceipt fiveBytesResponse 7) { token_encoding := .verbatim } 5 7 = true ∧
      (recordReceipt fiveBytesSetup { token_encoding := .verbatim } 7 fiveBytesResponse {}).natural_return
        = 5 := by
  have hauth : completionAuthority (viewReceipt fiveBytesResponse 7)
      { token_encoding := .verbatim } 5 7 = true := by decide +kernel
  exact ⟨hauth, (recordReceipt_of_authority fiveBytesSetup _ 7 _ {} (by decide) hauth).2⟩

end S3Rdma.Probe
