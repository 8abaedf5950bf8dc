import S3Rdma.Probe.Latch

/-!
# A GET of a single call

`exp_exit_child` takes a GET for complete by the record of its only call, without a look at the
counters. This is right: the record says what the authority said about the receipt, a receipt is
accepted only for a request that was sent, and a ticket is given back only for one that was not
(`Call.Fair`). As long as there is no second call, the flag `unknown` is cleared only while the
counters are equal, so that the latch of `Latch.lean` holds without further assumptions
(`System.Tidy`). Hence the only ticket was credited: `System.Tidy.settled`.
-/

namespace S3Rdma.Probe

section Calls

variable {P : Platform} {u : RigSetup} {now : ℤ} {x x' : RigContext} {c c' : Call} {m : Move}

/-- What a step of a call does to its receipt, its ticket and what is recorded of them. -/
structure Receipted (u : RigSetup) (c c' : Call) : Prop where
  size : c'.size = c.size
  res : c.pc ≠ .exchanging → c'.res = c.res
  exchanged : c.pc = .exchanging → c'.accepted u = true → c'.emitted = true
  emitted : c.emitted = true → c'.emitted = true
  qualified : c'.at_.qualified_complete = c.at_.qualified_complete ∨
    c'.at_.qualified_complete = c'.accepted u
  givenBack : c'.ticket = .none → c.ticket = .none ∨ c.pc = .takingBack
  releasing : c'.pc = .releasing → c'.ticket = .credited

/-- The return of `raw_http_get` brings the receipt. -/
theorem receive_receipted {net : Network} (hpc : c.pc = .exchanging)
    (h : c.receive u net = some c') : Receipted u c c' := by
  unfold Call.receive at h
  split at h
  · rename_i res rest hget
    obtain ⟨hbytes, hhead⟩ := rawHttpGet_emission hget
    split_ifs at h with hemitted hnot
    all_goals
      obtain rfl := Option.some.inj h
      refine ⟨rfl, fun h => absurd hpc h, fun _ hacc => ?_, id, .inl rfl, .inl, by simp⟩
      -- A receipt is accepted only if there is a head, and so a request that was sent.
      have hcomplete : res.head_complete = true := by
        by_contra hnone
        exact absurd (hacc.symm.trans (accepted_eq_false rfl (Bool.not_eq_true _ ▸ hnone))) (by decide)
      have hsent : res.request_sent = true := by
        by_contra hunsent
        exact absurd (hcomplete.symm.trans (hhead (Bool.not_eq_true _ ▸ hunsent))) (by decide)
      rw [hsent, Bool.true_or] at hbytes
      exact hemitted.trans hbytes.symm
  · exact absurd h (by simp)

/-- Building the headers brings no receipt. -/
theorem build_receipted {time : ℤ} (hpc : c.pc = .building) (h : c.build P u time = some c') :
    Receipted u c c' := by
  unfold Call.build at h
  split at h
  · split at h <;>
    · obtain rfl := Option.some.inj h
      exact ⟨rfl, fun _ => rfl, by simp [hpc], id, .inl rfl, .inl, by simp⟩
  · exact absurd h (by simp)

/-- One step of a call changes its receipt, its ticket and its record only as `Receipted` says. -/
theorem act_receipted (hok : c.Ok u) (h : act P u now x c m = some (x', c')) :
    Receipted u c c' := by
  -- Before `raw_http_get` returns there is no receipt.
  have hnone : c.pc = .exchanging → c.res = none := fun hpc => by
    have hat := hok.at_pc
    rw [Call.AtPc, hpc] at hat
    exact hat.2.1
  unfold act at h
  cases hpc : c.pc <;> rw [hpc] at h <;> cases m <;> dsimp only at h <;>
    try simp only [reduceCtorEq] at h
  case building.build =>
    obtain ⟨c₁, hbuild, heq⟩ := Option.map_eq_some_iff.mp h
    obtain ⟨-, rfl⟩ := Prod.mk.inj heq
    exact build_receipted hpc hbuild
  case exchanging.reply =>
    obtain ⟨c₁, hrecv, heq⟩ := Option.map_eq_some_iff.mp h
    obtain ⟨-, rfl⟩ := Prod.mk.inj heq
    exact receive_receipted hpc hrecv
  case counting.next =>
    obtain ⟨res, -, heq⟩ := Option.map_eq_some_iff.mp h
    obtain ⟨-, rfl⟩ := Prod.mk.inj heq
    exact ⟨rfl, fun _ => rfl, by simp [hpc], id, .inl rfl, .inl, by simp⟩
  case recording.next =>
    obtain ⟨res, -, heq⟩ := Option.map_eq_some_iff.mp h
    obtain ⟨-, rfl⟩ := Prod.mk.inj heq
    exact ⟨rfl, fun _ => rfl, by simp [hpc], id, .inl rfl, .inl, by simp⟩
  case reading.next =>
    split at h
    · rename_i proto res hproto hres
      obtain ⟨-, rfl⟩ := Prod.mk.inj (Option.some.inj h)
      refine ⟨rfl, fun _ => rfl, by simp [hpc], id, .inr ?_, .inl, by simp⟩
      rw [Call.accepted, hproto, hres]
      rfl
    · exact absurd h (by simp)
  case takingBack.next =>
    obtain ⟨-, rfl⟩ := Prod.mk.inj (Option.some.inj h)
    exact ⟨rfl, fun _ => rfl, by simp [hpc], id, .inl rfl, fun _ => .inr hpc, by simp⟩
  case completing.next =>
    obtain ⟨-, rfl⟩ := Prod.mk.inj (Option.some.inj h)
    exact ⟨rfl, fun _ => rfl, by simp [hpc], id, .inl rfl, by simp, fun _ => rfl⟩
  case exchanging.accept =>
    split at h
    · obtain ⟨-, rfl⟩ := Prod.mk.inj (Option.some.inj h)
      exact ⟨rfl, fun _ => rfl, fun _ _ => rfl, fun _ => rfl, .inl rfl, .inl, by simp⟩
    · exact absurd h (by simp)
  -- The other steps change neither the receipt nor what is recorded of it.
  all_goals
    (try split at h) <;> (try split at h) <;> try split at h
    all_goals
      first
      | obtain ⟨-, rfl⟩ := Prod.mk.inj (Option.some.inj h)
        refine ⟨rfl, fun _ => rfl, fun hpc' hacc => ?_, id, .inl rfl, ?_, by simp⟩
        · exact absurd (hacc.symm.trans (accepted_of_res_eq_none (hnone hpc'))) (by decide)
        · first
          | exact .inl
          | simp
      | cases h

/-- What holds of a call besides `Call.Ok`: an accepted receipt is that of a request that was sent, by
a call that holds its ticket, and only such a receipt is recorded as complete. -/
structure Call.Fair (u : RigSetup) (c : Call) : Prop where
  emitted : c.accepted u = true → c.emitted = true
  held : c.accepted u = true → c.ticket ≠ .none
  qualified : c.at_.qualified_complete = true → c.accepted u = true
  releasing : c.pc = .releasing → c.ticket = .credited

/-- What a call looks at for its receipt stays, outside of `raw_http_get`. -/
theorem Receipted.accepted_eq (h : Receipted u c c') (hpc : c.pc ≠ .exchanging) :
    c'.accepted u = c.accepted u := by
  unfold Call.accepted
  rw [h.res hpc, h.size]

/-- A step keeps a call fair, and a receipt that was accepted stays so. -/
theorem Call.Fair.act (hfair : c.Fair u) (hok : c.Ok u) (h : Probe.act P u now x c m = some (x', c')) :
    c'.Fair u ∧ (c.accepted u = true → c'.accepted u = true) := by
  have hr := act_receipted hok h
  have hat := hok.at_pc
  unfold Call.AtPc at hat
  by_cases hpc : c.pc = .exchanging
  · -- There was no receipt, and the ticket is taken.
    rw [hpc] at hat
    have hnot : c.accepted u = false := accepted_of_res_eq_none hat.2.1
    have hunqualified : c.at_.qualified_complete = false := by
      by_contra hq
      exact absurd (hnot.symm.trans (hfair.qualified (Bool.not_eq_false _ ▸ hq))) (by decide)
    refine ⟨⟨hr.exchanged hpc, fun _ hgone => ?_, fun hq => ?_, hr.releasing⟩, fun hacc => ?_⟩
    · rcases hr.givenBack hgone with hticket | hback
      · exact absurd (hat.1.symm.trans hticket) (by decide)
      · exact absurd (hpc.symm.trans hback) (by decide)
    · rcases hr.qualified with hsame | hacc
      · exact absurd (hq.symm.trans (hsame.trans hunqualified)) (by decide)
      · exact hacc ▸ hq
    · exact absurd (hnot.symm.trans hacc) (by decide)
  · have hsame := hr.accepted_eq hpc
    rw [hsame]
    refine ⟨⟨fun hacc => ?_, fun hacc hgone => ?_, fun hq => ?_, hr.releasing⟩, id⟩
    · exact hr.emitted (hfair.emitted (hsame ▸ hacc))
    · rcases hr.givenBack hgone with hticket | hback
      · exact hfair.held (hsame ▸ hacc) hticket
      · rw [hback] at hat
        exact absurd (hat.2.2.symm.trans (hsame ▸ hacc)) (by decide)
    · rcases hr.qualified with heq | hacc
      · exact hsame ▸ hfair.qualified (heq ▸ hq)
      · exact hacc ▸ hq

end Calls

/-! ## The system -/

section System

variable {P : Platform} {u : RigSetup} {s s' : System} {a : ℤ × Action}

/-- What holds in every state: the counters agree with the calls, every call is fair, a record that
is qualified is of an accepted receipt, and a single call keeps the latch. -/
structure System.Tidy (u : RigSetup) (s : System) : Prop where
  inv : s.Inv u
  fair : ∀ c ∈ s.calls, c.Fair u
  attempts : ∀ a ∈ s.ctx.attempts, a.qualified_complete = true →
    ∃ c ∈ s.calls, c.accepted u = true
  latched : s.calls.length ≤ 1 → s.Latched

/-- A call that has just entered has no receipt. -/
theorem newCall_fair (x : RigContext) (thread : ℕ) (rdma : Option Bytes) (size : ℕ) (offset : ℤ) :
    (x.newCall thread rdma size offset).Fair u := by
  have hnot : (x.newCall thread rdma size offset).accepted u = false := accepted_of_res_eq_none rfl
  refine ⟨fun hacc => ?_, fun hacc => ?_, fun hq => ?_, fun hpc => ?_⟩
  · exact absurd (hnot.symm.trans hacc) (by decide)
  · exact absurd (hnot.symm.trans hacc) (by decide)
  · exact absurd hq Bool.false_ne_true
  · exact absurd hpc (by simp [RigContext.newCall])

/-- A list of at most one element consists of the element that is in it. -/
theorem eq_singleton_of_mem {α : Type} {l : List α} {a : α} (h : a ∈ l) (hone : l.length ≤ 1) :
    l = [a] := by
  obtain ⟨b, rfl⟩ := List.length_eq_one_iff.mp (le_antisymm hone (List.length_pos_of_mem h))
  rw [List.mem_singleton.mp h]

/-- The only call clears the flag only while the counters are equal. -/
theorem System.Tidy.clearsWhenEqual (h : s.Tidy u) (hone : s.calls.length ≤ 1) :
    ClearsWhenEqual s a := by
  intro c hc hpc
  obtain ⟨i, hi⟩ : ∃ i, s.calls[i]? = some c := by
    unfold System.mover at hc
    split at hc
    · exact absurd hc (by simp)
    · exact ⟨_, hc⟩
  have hmem : c ∈ s.calls := List.mem_of_getElem? hi
  have hcalls : s.calls = [c] := eq_singleton_of_mem hmem hone
  have hcounted := h.inv.counted
  rw [hcalls] at hcounted
  obtain ⟨hsubmitted, hcompleted, -⟩ := hcounted
  rcases hpc with hpc | hpc
  · have hat := (h.inv.calls_ok c hmem).at_pc
    rw [Call.AtPc, hpc] at hat
    rw [hsubmitted, hcompleted, List.map_singleton, hat.1]
    rfl
  · rw [hsubmitted, hcompleted, List.map_singleton, (h.fair c hmem).releasing hpc]
    rfl

/-- A step keeps a system tidy. -/
theorem System.Tidy.step (h : s.Tidy u) (hstep : Probe.step P u s a = some s') : s'.Tidy u := by
  have hlatched : s'.calls.length ≤ 1 → s'.Latched := by
    intro hone
    have hbefore : s.calls.length ≤ 1 := by
      rcases step_cases hstep with ⟨_, _, _, _, -, rfl⟩ | ⟨_, _, _, _, _, -, -, -, rfl⟩
      · rw [List.length_append] at hone
        omega
      · rwa [List.length_set] at hone
    exact (h.latched hbefore).step h.inv (h.clearsWhenEqual hbefore) hstep
  rcases step_cases hstep with
    ⟨thread, rdma, size, offset, -, rfl⟩ | ⟨i, m, c, x', c', -, hc, hact, rfl⟩
  · refine ⟨h.inv.step hstep, fun d hd => ?_, fun b hb hq => ?_, hlatched⟩
    · rcases List.mem_append.mp hd with hd | hd
      · exact h.fair d hd
      · rw [List.mem_singleton.mp hd]
        exact newCall_fair s.ctx thread rdma size offset
    · obtain ⟨d, hd, hacc⟩ := h.attempts b hb hq
      exact ⟨d, List.mem_append_left _ hd, hacc⟩
  · have hmem := List.mem_of_getElem? hc
    have hi : i < s.calls.length := (List.getElem?_eq_some_iff.mp hc).1
    obtain ⟨hfair, hkeeps⟩ := (h.fair c hmem).act (h.inv.calls_ok c hmem) hact
    have hmem' : c' ∈ s.calls.set i c' := List.mem_set hi c'
    refine ⟨h.inv.step hstep, fun d hd => ?_, fun b hb hq => ?_, hlatched⟩
    · rcases List.mem_or_eq_of_mem_set hd with hd | rfl
      · exact h.fair d hd
      · exact hfair
    · -- A record that is new is that of the call that moves.
      have hold : b ∈ s.ctx.attempts → ∃ d ∈ s.calls.set i c', d.accepted u = true := by
        intro hb
        obtain ⟨d, hd, hacc⟩ := h.attempts b hb hq
        obtain ⟨j, hj⟩ := List.mem_iff_getElem?.mp hd
        by_cases hij : i = j
        · subst hij
          obtain rfl := Option.some.inj (hj.symm.trans hc)
          exact ⟨c', hmem', hkeeps hacc⟩
        · exact ⟨d, List.mem_of_getElem? ((List.getElem?_set_ne hij).trans hj), hacc⟩
      rcases (act_frame hact).attempts with hsame | ⟨hpush, -⟩
      · exact hold (hsame ▸ hb)
      · rcases List.mem_append.mp (hpush ▸ hb) with hb | hb
        · exact hold hb
        · obtain rfl := List.mem_singleton.mp hb
          exact ⟨c', hmem', hkeeps ((h.fair c hmem).qualified hq)⟩

/-- Every state that a context can reach is tidy. -/
theorem System.Reachable.tidy (h : s.Reachable P u) : s.Tidy u := by
  obtain ⟨clock, as, hrun⟩ := h
  refine runSteps_invariant (fun _ _ _ h hstep => h.step hstep) ?_ hrun
  exact ⟨System.inv_initial clock, fun _ hc => absurd hc List.not_mem_nil,
    fun _ ha => absurd ha List.not_mem_nil, fun _ _ hc => absurd hc List.not_mem_nil⟩

/-- A GET of one call that has returned, with the flag clear and a record of a complete transfer: the
request was sent, its receipt was accepted, and the only ticket was credited. -/
theorem System.Reachable.sole_complete (h : s.Reachable P u) (hquiet : ∀ c ∈ s.calls, c.done = true)
    (hone : s.ctx.invocations = 1) (hunknown : s.ctx.unknown = false) {b : Attempt}
    (hb : b ∈ s.ctx.attempts) (hq : b.qualified_complete = true) :
    ∃ c, s.calls = [c] ∧ c.emitted = true ∧ c.accepted u = true ∧ s.ctx.submitted = 1 ∧
      s.ctx.completed = 1 := by
  have htidy := h.tidy
  have hlen : s.calls.length = 1 := by
    obtain ⟨clock, as, hrun⟩ := h
    have := invocations_eq_length hrun
    omega
  obtain ⟨c, hc, hacc⟩ := htidy.attempts b hb hq
  have hcalls : s.calls = [c] := eq_singleton_of_mem hc hlen.le
  have hfair := htidy.fair c hc
  -- With the flag clear, a ticket that is held was credited.
  have hcredited : c.ticket = .credited := by
    by_contra hnot
    have hheld : c.ticket.held = true := by
      have := hfair.held hacc
      cases hticket : c.ticket <;> simp_all [Ticket.held]
    have hopen : c.Open := by
      refine ⟨hheld, hnot, fun hpc => ?_⟩
      have hdone := hquiet c hc
      rw [Call.done, hpc] at hdone
      exact absurd hdone (by decide)
    exact absurd (hunknown.symm.trans (htidy.latched hlen.le c hc hopen)) (by decide)
  obtain ⟨hsubmitted, hcompleted, -⟩ := htidy.inv.counted
  rw [hcalls, List.map_singleton, hcredited] at hsubmitted hcompleted
  exact ⟨c, hcalls, hfair.emitted hacc, hacc, hsubmitted, hcompleted⟩

end System

end S3Rdma.Probe
