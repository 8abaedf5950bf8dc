import S3Rdma.Probe.Latch

/-!
# The re-entry witness

With the guard set, the first call of a context injects a return value after its transfer has
completed, and every later call is turned away without a message. `guard_witness`
(`src/common/guard_witness.hpp`) looks at the records of the calls, in the order in which they were
pushed, and decides whether they show that the SDK has called again after it had received the
injected value.

What a record says about its call is kept by each step (`Call.Noted`), a call but the first never
gets past the gate (`System.Guarded`), and `active` counts the calls that have not returned, so that
a call that found it zero entered after all others had left. That the decision is sound is
`guardWitness_sound`.
-/

namespace S3Rdma.Probe

/-! ## The decision -/

/-- `GuardAttempt`. -/
structure GuardAttempt where
  invocation : ℤ
  t_begin : ℤ
  t_end : ℤ
  cb_size : ℤ
  cb_offset : ℤ
  injected : Bool
  guarded : Bool
  http_attempt : Bool
  request_partial : Bool
  entered_while_active : Bool
  thread : ℕ
deriving DecidableEq

/-- `GuardWitness`. -/
structure GuardWitness where
  ok : Bool
  why : Bytes
deriving DecidableEq

/-- Why a later entry is no re-entry of the first, if so. -/
def laterWhy (first later : GuardAttempt) : Option Bytes :=
  if !later.guarded then some (ascii "a later entry was not guarded")
  else if later.t_begin ≤ first.t_end then
    some (ascii "re-entry not strictly after the injected return marker")
  else if later.thread ≠ first.thread then
    some (ascii "re-entry on a different thread: return order not provable from probe intervals")
  else if later.cb_size ≠ first.cb_size ∨ later.cb_offset ≠ first.cb_offset then
    some (ascii "re-entry shape differs from the original request")
  else none

/-- `guard_witness`. -/
def guardWitness (a : List GuardAttempt) : GuardWitness :=
  match a with
  | first :: second :: rest =>
    if a.any GuardAttempt.entered_while_active then
      ⟨false, ascii "overlapping callback entries (including the first)"⟩
    else if !first.injected || first.guarded || !first.http_attempt then
      ⟨false, ascii "first entry was not an emitted, injected transfer"⟩
    else if a.any GuardAttempt.request_partial then ⟨false, ascii "partial write present"⟩
    else if a.countP GuardAttempt.http_attempt ≠ 1 then ⟨false, ascii "message count != 1"⟩
    else
      match (second :: rest).findSome? (laterWhy first) with
      | some why => ⟨false, why⟩
      | none => ⟨true, []⟩
  | _ => ⟨false, ascii "no re-entry"⟩

/-- The part of a record that the decision sees. -/
def Attempt.guardAttempt (a : Attempt) : GuardAttempt where
  invocation := a.invocation
  t_begin := a.t_begin
  t_end := a.t_end
  cb_size := a.cb_size
  cb_offset := a.cb_offset
  injected := a.injection_applied
  guarded := a.guarded
  http_attempt := a.http_attempt
  request_partial := a.request_partial
  entered_while_active := a.entered_while_active
  thread := a.thread

/-- An accepted list starts with an injected message, and all that follow are turned away, on the
same thread and for the same request; nobody found another call active. -/
theorem guardWitness_ok {a : List GuardAttempt} (h : (guardWitness a).ok = true) :
    ∃ first rest, a = first :: rest ∧ (∀ x ∈ a, x.entered_while_active = false) ∧
      first.injected = true ∧ first.http_attempt = true ∧
      ∀ later ∈ rest, later.guarded = true ∧ first.t_end < later.t_begin ∧
        later.thread = first.thread ∧ later.cb_size = first.cb_size ∧
        later.cb_offset = first.cb_offset := by
  match a with
  | [] => exact absurd h (by simp [guardWitness])
  | [x] => exact absurd h (by simp [guardWitness])
  | first :: second :: rest =>
    unfold guardWitness at h
    dsimp only at h
    -- Past the four refusals, the list of later records has no reason against it.
    split_ifs at h with hactive hfirst hpartial hcount
    cases hlater : (second :: rest).findSome? (laterWhy first) with
    | some why => simp [hlater] at h
    | none =>
      refine ⟨first, second :: rest, rfl, ?_, ?_⟩
      · intro x hx
        by_contra hne
        exact hactive (List.any_eq_true.mpr ⟨x, hx, by simpa using hne⟩)
      · simp only [Bool.or_eq_true, Bool.not_eq_true', not_or, Bool.not_eq_false] at hfirst
        refine ⟨hfirst.1.1, hfirst.2, fun later hmem => ?_⟩
        have hnone := List.findSome?_eq_none_iff.mp hlater later hmem
        unfold laterWhy at hnone
        split_ifs at hnone with hguarded htime hthread hshape
        simp only [not_or, not_not, not_le, Bool.not_eq_true', Bool.not_eq_false] at *
        exact ⟨hguarded, htime, hthread, hshape.1, hshape.2⟩

/-! ## What a record says about its call -/

/-- The record of a call is true of it. The shape of the request is in it once the call has looked
at its arguments. -/
structure Call.Noted (u : RigSetup) (c : Call) : Prop where
  emitted_eq : ∀ res, c.res = some res → c.emitted = (res.request_sent || res.request_partial)
  sent : c.at_.http_attempt = true →
    ∃ res, c.res = some res ∧ res.request_sent = true ∧ res.token_bearing = true
  qualified : c.at_.qualified_complete = true → c.accepted u = true
  injected : c.at_.injection_applied = true → c.at_.invocation = 0 ∧ c.accepted u = true
  shape : match c.pc with
    | .entered | .catching _ _ | .catchLatching | .catchLosing | .leaving _ | .returned _ => True
    | _ => c.at_.cb_size = signed64 c.size ∧ c.at_.cb_offset = c.offset

/-- A step at which a call with an accepted receipt chooses the injected value. -/
def Injects (u : RigSetup) (c c' : Call) : Prop :=
  c.pc = .finishing ∧ c.accepted u = true ∧ c'.pc = .ending u.first_return false

section Step

variable {P : Platform} {u : RigSetup} {now : ℤ} {x x' : RigContext} {c c' : Call} {m : Move}

/-- Nothing is noted of a response before there is one. -/
theorem Call.Noted.of_res_eq_none (hn : c.Noted u) (hres : c.res = none) :
    c.at_.http_attempt = false ∧ c.at_.qualified_complete = false ∧
      c.at_.injection_applied = false := by
  have hnot := accepted_of_res_eq_none (u := u) hres
  refine ⟨Bool.eq_false_iff.mpr fun h => ?_, Bool.eq_false_iff.mpr fun h => ?_,
    Bool.eq_false_iff.mpr fun h => ?_⟩
  · obtain ⟨res, hsome, -⟩ := hn.sent h
    exact absurd (hres.symm.trans hsome) (by simp)
  · exact absurd (hnot.symm.trans (hn.qualified h)) (by decide)
  · exact absurd (hnot.symm.trans (hn.injected h).2) (by decide)

/-- Building the headers notes nothing. -/
theorem Call.Noted.build {time : ℤ} (hn : c.Noted u) (hpc : c.pc = .building)
    (h : c.build P u time = some c') :
    c'.Noted u ∧ c'.at_.injection_applied = c.at_.injection_applied := by
  obtain ⟨hemitted, hsent, hqualified, hinjected, hshape⟩ := hn
  simp only [hpc] at hshape
  unfold Call.build at h
  split at h
  · split at h <;>
    · obtain rfl := Option.some.inj h
      exact ⟨⟨hemitted, hsent, hqualified, hinjected, hshape⟩, rfl⟩
  · exact absurd h (by simp)

/-- The exchange notes whether bytes of the request were accepted. -/
theorem Call.Noted.receive {net : Network} (hn : c.Noted u) (hres : c.res = none)
    (hpc : c.pc = .exchanging) (h : c.receive u net = some c') :
    c'.Noted u ∧ c'.at_.injection_applied = c.at_.injection_applied := by
  obtain ⟨hattempt, hqualified, hinjected⟩ := hn.of_res_eq_none hres
  have hshape := hn.shape
  simp only [hpc] at hshape
  unfold Call.receive at h
  split at h
  · rename_i res rest hget
    have hbytes := (rawHttpGet_emission hget).1
    split_ifs at h with hemitted <;>
    · obtain rfl := Option.some.inj h
      refine ⟨⟨?_, ?_, ?_, ?_, hshape⟩, rfl⟩
      · intro r hr
        obtain rfl := Option.some.inj hr
        exact hemitted.trans hbytes.symm
      · exact fun hh => absurd (hattempt.symm.trans hh) (by decide)
      · exact fun hh => absurd (hqualified.symm.trans hh) (by decide)
      · exact fun hh => absurd (hinjected.symm.trans hh) (by decide)
  · exact absurd h (by simp)

/-- A step of a call keeps its record true. -/
theorem Call.Noted.act (hok : c.Ok u) (hn : c.Noted u) (h : Probe.act P u now x c m = some (x', c')) :
    c'.Noted u ∧ (c'.at_.injection_applied = c.at_.injection_applied ∨ Injects u c c') := by
  have hat := hok.at_pc
  have hn₀ := hn
  obtain ⟨hemitted, hsent, hqualified, hinjected, hshape⟩ := hn
  unfold Call.AtPc at hat
  unfold Probe.act at h
  cases hpc : c.pc <;> rw [hpc] at h hat hshape <;> dsimp only at hat hshape <;> cases m <;>
    dsimp only at h <;> try simp only [reduceCtorEq] at h
  case building.build =>
    obtain ⟨c₁, hbuild, heq⟩ := Option.map_eq_some_iff.mp h
    obtain ⟨rfl, rfl⟩ := Prod.mk.inj heq
    obtain ⟨hn', hsame⟩ := hn₀.build hpc hbuild
    exact ⟨hn', .inl hsame⟩
  case exchanging.accept =>
    split at h
    · obtain ⟨rfl, rfl⟩ := Prod.mk.inj (Option.some.inj h)
      refine ⟨⟨fun res hres => ?_, hsent, hqualified, hinjected, hshape⟩, .inl rfl⟩
      exact absurd (hat.2.1.symm.trans hres) (by simp)
    · exact absurd h (by simp)
  case exchanging.reply =>
    obtain ⟨c₁, hrecv, heq⟩ := Option.map_eq_some_iff.mp h
    obtain ⟨rfl, rfl⟩ := Prod.mk.inj heq
    obtain ⟨hn', hsame⟩ := hn₀.receive hat.2.1 hpc hrecv
    exact ⟨hn', .inl hsame⟩
  case counting.next =>
    obtain ⟨res, hres, heq⟩ := Option.map_eq_some_iff.mp h
    obtain ⟨rfl, rfl⟩ := Prod.mk.inj heq
    refine ⟨⟨hemitted, fun hh => ?_, hqualified, hinjected, hshape⟩, .inl rfl⟩
    exact ⟨res, hres, (Bool.and_eq_true _ _).mp hh⟩
  case recording.next =>
    obtain ⟨res, -, heq⟩ := Option.map_eq_some_iff.mp h
    obtain ⟨rfl, rfl⟩ := Prod.mk.inj heq
    exact ⟨⟨hemitted, hsent, hqualified, hinjected, hshape⟩, .inl rfl⟩
  case reading.next =>
    split at h
    · rename_i proto res hproto hres
      obtain ⟨rfl, rfl⟩ := Prod.mk.inj (Option.some.inj h)
      obtain ⟨_, _, _, _, _, _, _, hrecord⟩ := recordReceipt_eq (u := u) proto c.size res c.at_
      have hacc : c.accepted u = completionAuthority (viewReceipt res c.size) proto u.expected
          c.size := by
        rw [Call.accepted, hproto, hres]
      rw [hrecord]
      exact ⟨⟨hemitted, hsent, fun hh => hacc.trans hh, hinjected, hshape⟩, .inl rfl⟩
    · exact absurd h (by simp)
  case finishing.next =>
    split_ifs at h with hcond
    · obtain ⟨rfl, rfl⟩ := Prod.mk.inj (Option.some.inj h)
      have hacc := hqualified hcond.2.2
      exact ⟨⟨hemitted, hsent, hqualified, fun _ => ⟨hcond.2.1, hacc⟩, hshape⟩,
        .inr ⟨hpc, hacc, rfl⟩⟩
    · obtain ⟨rfl, rfl⟩ := Prod.mk.inj (Option.some.inj h)
      exact ⟨⟨hemitted, hsent, hqualified, hinjected, hshape⟩, .inl rfl⟩
  case entered.next =>
    split_ifs at h <;> obtain ⟨rfl, rfl⟩ := Prod.mk.inj (Option.some.inj h)
    · exact ⟨⟨hemitted, hsent, hqualified, hinjected, trivial⟩, .inl rfl⟩
    · refine ⟨⟨hemitted, hsent, hqualified, hinjected, ?_⟩, .inl rfl⟩
      dsimp only
      exact ⟨rfl, rfl⟩
  -- The other steps note nothing of this.
  all_goals
    (try split at h) <;> (try split at h) <;> try split at h
    all_goals
      first
      | obtain ⟨rfl, rfl⟩ := Prod.mk.inj (Option.some.inj h)
        refine ⟨⟨hemitted, hsent, hqualified, hinjected, ?_⟩, .inl rfl⟩
        first | exact hshape | trivial
      | cases h

/-- The call has tried to push its record, with the shape of its request. -/
def Call.Recorded (c : Call) : Prop :=
  c.at_.cb_size = signed64 c.size ∧ c.at_.cb_offset = c.offset ∧
    match c.pc with
    | .checking _ | .leaving _ | .returned _ => True
    | _ => False

/-- A record is not changed once it has been pushed. -/
theorem Call.Recorded.act (hr : c.Recorded) (h : Probe.act P u now x c m = some (x', c')) :
    c'.Recorded ∧ c'.at_ = c.at_ := by
  obtain ⟨hsize, hoffset, hpcs⟩ := hr
  cases hpc : c.pc <;> simp only [hpc] at hpcs
  case returned => cases m <;> simp only [Probe.act, hpc, reduceCtorEq] at h
  all_goals
    cases m <;> simp only [Probe.act, hpc, reduceCtorEq] at h
    obtain ⟨rfl, rfl⟩ := Prod.mk.inj (Option.some.inj h)
    exact ⟨⟨hsize, hoffset, trivial⟩, rfl⟩

end Step

/-! ## The calls of a context with the guard -/

section System

variable {P : Platform} {u : RigSetup} {s s' t : System} {a : ℤ × Action}

/-- What holds in every state of a context with the guard: the records are true, a call but the
first is stopped, `active` counts the calls that have not returned, and each pushed record is a
call's. -/
structure System.Guarded (u : RigSetup) (s : System) : Prop where
  calls : ∀ c ∈ s.calls, c.Ok u ∧ c.Noted u
  invocations : s.ctx.invocations = s.calls.length
  barred : ∀ (j : ℕ) (c : Call), 1 ≤ j → s.calls[j]? = some c → c.Barred
  active : s.ctx.active = s.calls.countP fun c => !c.done
  recorded : ∀ r ∈ s.ctx.attempts, ∃ c ∈ s.calls, c.at_ = r ∧ c.Recorded

/-- A call that has just entered has nothing noted. -/
theorem newCall_noted (x : RigContext) (thread : ℕ) (rdma : Option Bytes) (size : ℕ) (offset : ℤ) :
    (x.newCall thread rdma size offset).Noted u where
  emitted_eq _ h := absurd h.symm (Option.some_ne_none _)
  sent h := absurd h Bool.false_ne_true
  qualified h := absurd h Bool.false_ne_true
  injected h := absurd h Bool.false_ne_true
  shape := trivial

/-- The counter of active calls goes with the calls that have not returned. -/
theorem Frame.active {x x' : RigContext} {c c' : Call} {calls : List Call} {i : ℕ}
    (hf : Frame x c x' c') (hc : calls[i]? = some c)
    (hactive : x.active = calls.countP fun c => !c.done) :
    x'.active = (calls.set i c').countP fun c => !c.done := by
  obtain ⟨hi, rfl⟩ := List.getElem?_eq_some_iff.mp hc
  have hpos : 0 < calls.countP fun c => !c.done :=
    List.countP_pos_iff.mpr ⟨_, List.getElem_mem hi, by simp [hf.not_done]⟩
  rw [List.countP_set hi]
  cases hdone : c'.done with
  | false =>
    rw [hf.stays hdone, hactive]
    simp only [hf.not_done, Bool.not_false, if_true]
    omega
  | true =>
    rw [hf.leaves hdone, hactive]
    simp only [hf.not_done, Bool.not_false, Bool.not_true, if_true, Bool.false_eq_true, if_false]
    omega

/-- Pushed records stay those of calls. -/
theorem Frame.recorded {now : ℤ} {m : Move} {x x' : RigContext} {c c' : Call} {calls : List Call}
    {i : ℕ} (hc : calls[i]? = some c) (hn : c.Noted u) (hact : act P u now x c m = some (x', c'))
    (hrecorded : ∀ r ∈ x.attempts, ∃ c ∈ calls, c.at_ = r ∧ c.Recorded) :
    ∀ r ∈ x'.attempts, ∃ c ∈ calls.set i c', c.at_ = r ∧ c.Recorded := by
  have hi : i < calls.length := (List.getElem?_eq_some_iff.mp hc).1
  have hself : c' ∈ calls.set i c' := List.mem_of_getElem? (List.getElem?_set_self hi)
  -- The call that moved keeps its record; the others are not touched.
  have hold : ∀ r ∈ x.attempts, ∃ c ∈ calls.set i c', c.at_ = r ∧ c.Recorded := by
    intro r hr
    obtain ⟨d, hd, hat, hrec⟩ := hrecorded r hr
    obtain ⟨j, hj⟩ := List.mem_iff_getElem?.mp hd
    by_cases hij : i = j
    · subst hij
      obtain rfl := Option.some.inj (hc.symm.trans hj)
      obtain ⟨hrec', hsame⟩ := hrec.act hact
      exact ⟨c', hself, hsame.trans hat, hrec'⟩
    · exact ⟨d, List.mem_of_getElem? ((List.getElem?_set_ne hij).trans hj), hat, hrec⟩
  rcases (act_frame hact).attempts with hsame | ⟨happend, rc, last, hpc, rfl⟩
  · rw [hsame]
    exact hold
  · intro r hr
    rw [happend, List.mem_append, List.mem_singleton] at hr
    rcases hr with hr | rfl
    · exact hold r hr
    · have hshape := hn.shape
      simp only [hpc] at hshape
      refine ⟨_, hself, rfl, hshape.1, hshape.2, ?_⟩
      cases last <;> trivial

/-- A step keeps what holds of a context with the guard. -/
theorem System.Guarded.step (hguard : u.guard = true) (hg : s.Guarded u)
    (h : Probe.step P u s a = some s') : s'.Guarded u := by
  have hset : (u.guard || s.ctx.unknown) = true := by rw [hguard, Bool.true_or]
  have hcalls : ∀ c ∈ s'.calls, c.Ok u ∧ c.Noted u :=
    step_calls h hg.calls (fun _ _ _ _ => ⟨newCall_ok _ _ _ _ _, newCall_noted _ _ _ _ _⟩)
      fun c m x' c' hc hact => ⟨(act_spec hc.1 hact).1, (hc.2.act hc.1 hact).1⟩
  have hbarred : ∀ (j : ℕ) (c : Call), 1 ≤ j → s'.calls[j]? = some c → c.Barred := by
    refine step_calls_from h hg.barred (fun hlen _ _ _ _ => ⟨rfl, ?_, trivial⟩)
      fun c m x' c' hb hact => (hb.act hset hact).1
    show 1 ≤ s.ctx.invocations
    rw [hg.invocations]
    omega
  -- Either a new call enters or one call makes a move.
  rcases step_cases h with
    ⟨thread, rdma, size, offset, -, rfl⟩ | ⟨i, m, c, x', c', -, hc, hact, rfl⟩
  · refine ⟨hcalls, ?_, hbarred, ?_, ?_⟩
    · show s.ctx.invocations + 1 = ((s.calls ++ [_]).length : ℤ)
      rw [List.length_append, List.length_singleton, hg.invocations]
      norm_cast
    · show s.ctx.active + 1 = (((s.calls ++ [s.ctx.newCall thread rdma size offset]).countP
        fun c => !c.done : ℕ) : ℤ)
      rw [List.countP_append, hg.active]
      rfl
    · intro r hr
      obtain ⟨c, hc, hrec⟩ := hg.recorded r hr
      exact ⟨c, List.mem_append_left _ hc, hrec⟩
  · have hframe := act_frame hact
    refine ⟨hcalls, ?_, hbarred, hframe.active hc hg.active,
      Frame.recorded hc (hg.calls c (List.mem_of_getElem? hc)).2 hact hg.recorded⟩
    show x'.invocations = ((s.calls.set i c').length : ℤ)
    rw [List.length_set, hframe.invocations, hg.invocations]

/-- After every run of a context with the guard, `System.Guarded` holds. -/
theorem guarded_of_run {clock : ℤ} {as : List (ℤ × Action)} (hguard : u.guard = true)
    (hrun : runSteps (step P u) as (.initial clock) = some s) : s.Guarded u := by
  have hinitial : (System.initial clock).Guarded u :=
    { calls := fun _ hc => absurd hc List.not_mem_nil
      invocations := rfl
      barred := fun j c _ hc => absurd hc (by simp [System.initial])
      active := rfl
      recorded := fun _ hr => absurd hr List.not_mem_nil }
  exact runSteps_invariant (fun _ _ _ hg hstep => hg.step hguard hstep) hinitial hrun

/-! ## The entry of a call -/

/-- A call keeps what it has from the entry section. -/
theorem entry_of_run {as : List (ℤ × Action)} {i : ℕ} {c : Call}
    (hrun : runSteps (step P u) as s = some t) (hc : s.calls[i]? = some c) :
    ∃ d, t.calls[i]? = some d ∧ d.entry = c.entry := by
  refine runSteps_invariant (I := fun t => ∃ d, t.calls[i]? = some d ∧ d.entry = c.entry) ?_
    ⟨c, hc, rfl⟩ hrun
  rintro s b s' ⟨d, hd, hentry⟩ hstep
  have hlen : i < s.calls.length := (List.getElem?_eq_some_iff.mp hd).1
  rcases step_cases hstep with
    ⟨thread, rdma, size, offset, -, rfl⟩ | ⟨j, m, e, x', e', -, he, hact, rfl⟩
  · exact ⟨d, (List.getElem?_append_left hlen).trans hd, hentry⟩
  · by_cases hij : j = i
    · subst hij
      obtain rfl := Option.some.inj (he.symm.trans hd)
      exact ⟨e', List.getElem?_set_self hlen, (act_frame hact).entry.trans hentry⟩
    · exact ⟨d, (List.getElem?_set_ne hij).trans hd, hentry⟩

/-- In a run from the start to a state, the step at which a call has entered. -/
structure EnteredAt (P : Platform) (u : RigSetup) (clock : ℤ) (as : List (ℤ × Action)) (i : ℕ)
    (c : Call) (s₁ : System) : Prop where
  number : s₁.calls.length = i
  step : ∃ (as₁ : List (ℤ × Action)) (now : ℤ) (as₂ : List (ℤ × Action)) (s₂ : System),
    as = as₁ ++ (now, .enter c.thread c.rdma c.size c.offset) :: as₂ ∧
    runSteps (Probe.step P u) as₁ (.initial clock) = some s₁ ∧
    Probe.step P u s₁ (now, .enter c.thread c.rdma c.size c.offset) = some s₂

/-- Every call has entered, and has in its record what it found then. -/
theorem exists_enteredAt {clock : ℤ} {as : List (ℤ × Action)} {i : ℕ} {c : Call}
    (hrun : runSteps (step P u) as (.initial clock) = some s) (hc : s.calls[i]? = some c) :
    ∃ s₁, EnteredAt P u clock as i c s₁ ∧
      c.entry = (s₁.ctx.newCall c.thread c.rdma c.size c.offset).entry := by
  have hlen : i < s.calls.length := (List.getElem?_eq_some_iff.mp hc).1
  obtain ⟨as₁, ⟨now, act⟩, as₂, s₁, s₂, rfl, hrun₁, hstep, hrun₂, hbefore, hafter⟩ :=
    exists_step_of_change (I := fun s : System => i < s.calls.length) (s := .initial clock)
      (Nat.not_lt_zero i) hlen hrun
  rcases step_cases hstep with
    ⟨thread, rdma, size, offset, hact, rfl⟩ | ⟨j, m, d, x', d', -, hd, hact, rfl⟩
  · have hi : s₁.calls.length = i := by
      simp only [List.length_append, List.length_singleton] at hafter
      omega
    have hnew : (s₁.calls ++ [s₁.ctx.newCall thread rdma size offset])[i]? =
        some (s₁.ctx.newCall thread rdma size offset) := by
      rw [← hi, List.getElem?_concat_length]
    obtain ⟨d, hd, hentry⟩ := entry_of_run hrun₂ hnew
    obtain rfl := Option.some.inj (hc.symm.trans hd)
    obtain ⟨rfl, rfl, rfl, rfl, -⟩ := Entry.mk.inj hentry
    obtain rfl : act = _ := hact
    exact ⟨s₁, ⟨hi, as₁, now, as₂, _, rfl, hrun₁, hstep⟩, hentry⟩
  · exact absurd hafter (by simpa using hbefore)

/-- A record has the number and the thread of its call. -/
theorem entry_eq {clock : ℤ} {as : List (ℤ × Action)} {i : ℕ} {c : Call}
    (hrun : runSteps (step P u) as (.initial clock) = some s) (hc : s.calls[i]? = some c) :
    c.at_.invocation = i ∧ c.at_.thread = c.thread := by
  obtain ⟨s₁, ⟨hnumber, as₁, now, as₂, s₂, -, hrun₁, -⟩, hentry⟩ := exists_enteredAt hrun hc
  have hinvocation : c.at_.invocation = s₁.ctx.invocations := congrArg Entry.invocation hentry
  refine ⟨?_, congrArg Entry.recorded_thread hentry⟩
  rw [hinvocation, invocations_eq_length hrun₁, hnumber]

/-- A call that found no other one active entered after the first one had left. -/
theorem first_done_of_alone {clock : ℤ} {as : List (ℤ × Action)} {i : ℕ} {c : Call}
    (hguard : u.guard = true) (hrun : runSteps (step P u) as (.initial clock) = some s)
    (hc : s.calls[i]? = some c) (hpos : i ≠ 0) (halone : c.at_.entered_while_active = false) :
    ∃ s₁ d, EnteredAt P u clock as i c s₁ ∧ s₁.calls[0]? = some d ∧ d.done = true := by
  obtain ⟨s₁, hat, hentry⟩ := exists_enteredAt hrun hc
  obtain ⟨as₁, now, as₂, s₂, -, hrun₁, -⟩ := hat.step
  have hlen : 0 < s₁.calls.length := by
    have := hat.number
    omega
  refine ⟨s₁, s₁.calls[0], hat, List.getElem?_eq_getElem hlen, ?_⟩
  have hidle : ¬ 0 < s₁.ctx.active := by
    have hflag : c.at_.entered_while_active = decide (0 < s₁.ctx.active) :=
      congrArg Entry.entered_while_active hentry
    rw [halone] at hflag
    exact of_decide_eq_false hflag.symm
  -- No call has not returned, since `active` is their number.
  have hnone : (s₁.calls.countP fun c => !c.done) = 0 := by
    have hactive := (guarded_of_run hguard hrun₁).active
    omega
  simpa using List.countP_eq_zero.mp hnone _ (List.getElem_mem hlen)

/-- In a run from the start, the first call chooses the injected value at a step before which its
receipt was accepted. -/
def InjectedAfterReceipt (P : Platform) (u : RigSetup) (clock : ℤ) (as : List (ℤ × Action)) : Prop :=
  ∃ (as₁ : List (ℤ × Action)) (now : ℤ) (m : Move) (as₂ : List (ℤ × Action)) (s₁ s₂ : System)
    (c c' : Call), as = as₁ ++ (now, .move 0 m) :: as₂ ∧
    runSteps (step P u) as₁ (.initial clock) = some s₁ ∧
    step P u s₁ (now, .move 0 m) = some s₂ ∧
    s₁.calls[0]? = some c ∧ s₂.calls[0]? = some c' ∧ Injects u c c'

/-- The value of a first call that is noted as injected was chosen after its receipt. -/
theorem injectedAfterReceipt {clock : ℤ} {as : List (ℤ × Action)} {c : Call} (hguard : u.guard = true)
    (hrun : runSteps (step P u) as (.initial clock) = some s) (hc : s.calls[0]? = some c)
    (hinjected : c.at_.injection_applied = true) : InjectedAfterReceipt P u clock as := by
  -- Somewhere in the run the flag is set for the first call, and that step is the injection.
  obtain ⟨as₁, ⟨now, b⟩, as₂, s₁, s₂, rfl, hrun₁, hstep, -, hbefore, c₂, hc₂, hafter⟩ :=
    exists_step_of_change
      (I := fun s : System => ∃ c, s.calls[0]? = some c ∧ c.at_.injection_applied = true)
      (s := .initial clock) (by simp [System.initial]) ⟨c, hc, hinjected⟩ hrun
  have hnot : s₁.calls[0]? = some c₂ → InjectedAfterReceipt P u clock (as₁ ++ (now, b) :: as₂) :=
    fun hc₁ => absurd ⟨c₂, hc₁, hafter⟩ hbefore
  rcases step_cases hstep with
    ⟨thread, rdma, size, offset, -, rfl⟩ | ⟨i, m, c₁, x', c', hb, hc₁, hact, rfl⟩
  · dsimp only at hc₂
    rcases Nat.eq_zero_or_pos s₁.calls.length with hzero | hpos
    · rw [List.length_eq_zero_iff.mp hzero] at hc₂
      obtain rfl := Option.some.inj hc₂
      exact absurd hafter Bool.false_ne_true
    · exact hnot ((List.getElem?_append_left hpos).symm.trans hc₂)
  · by_cases hi : i = 0
    · subst hi
      obtain rfl : b = _ := hb
      have hlen : 0 < s₁.calls.length := (List.getElem?_eq_some_iff.mp hc₁).1
      obtain rfl := Option.some.inj ((List.getElem?_set_self hlen).symm.trans hc₂)
      obtain ⟨hok, hnoted⟩ := (guarded_of_run hguard hrun₁).calls c₁ (List.mem_of_getElem? hc₁)
      rcases (hnoted.act hok hact).2 with hsame | hinjects
      · exact absurd ⟨c₁, hc₁, hsame.symm.trans hafter⟩ hbefore
      · exact ⟨as₁, now, m, as₂, s₁, _, c₁, c', rfl, hrun₁, hstep, hc₁, hc₂, hinjects⟩
    · exact hnot ((List.getElem?_set_ne hi).symm.trans hc₂)

/-! ## Soundness -/

/-- With the guard, only the first call can emit. -/
theorem System.Guarded.emissions_eq (hg : s.Guarded u) {c : Call} (hc : s.calls[0]? = some c)
    (hemitted : c.emitted = true) : s.emissions = 1 := by
  obtain ⟨rest, hcalls⟩ : ∃ rest, s.calls = c :: rest := by
    cases hs : s.calls with
    | nil => simp [hs] at hc
    | cons d rest =>
      rw [hs, List.getElem?_cons_zero, Option.some.injEq] at hc
      exact ⟨rest, by rw [hc]⟩
  have hrest : rest.countP Call.emitted = 0 := by
    refine List.countP_eq_zero.mpr fun d hd => ?_
    obtain ⟨j, hj⟩ := List.mem_iff_getElem?.mp hd
    have hbarred := hg.barred (j + 1) d (by omega) (by rw [hcalls, List.getElem?_cons_succ, hj])
    simp [hbarred.1]
  rw [System.emissions, hcalls, List.countP_cons_of_pos hemitted, hrest]

/-- Sizes that the record cannot tell apart are equal. -/
theorem eq_of_signed64_eq {m n : ℕ} (hm : m < 2^64) (hn : n < 2^64) (h : signed64 m = signed64 n) :
    m = n := by
  unfold signed64 at h
  have hmod : (m : ℤ) % (2^64 : ℕ) = n % (2^64 : ℕ) := by
    rw [← Int.bmod_emod, h, Int.bmod_emod]
  omega

/-- A call that is not the first repeats its request on the same thread, and enters after the first
one has left. -/
structure ReEntry (P : Platform) (u : RigSetup) (clock : ℤ) (as : List (ℤ × Action)) (c₀ : Call)
    (i : ℕ) (c : Call) : Prop where
  later : i ≠ 0
  thread : c.thread = c₀.thread
  offset : c.offset = c₀.offset
  size : c₀.size < 2^64 → c.size < 2^64 → c.size = c₀.size
  entered : ∃ s₁ d, EnteredAt P u clock as i c s₁ ∧ s₁.calls[0]? = some d ∧ d.done = true

/-- Soundness of the re-entry witness, in every run of the calls of a context with the guard: if the
pushed records are accepted, the only message was sent by the first call, complete and
token-bearing, the injected value was chosen after its receipt had been accepted, and every other
record is that of a re-entry. No record needs to be there for this but those that were looked at. -/
theorem guardWitness_sound {clock : ℤ} {as : List (ℤ × Action)} (hguard : u.guard = true)
    (hrun : runSteps (step P u) as (.initial clock) = some s)
    (hw : (guardWitness (s.ctx.attempts.map Attempt.guardAttempt)).ok = true) :
    s.emissions = 1 ∧ ∃ c₀, s.calls[0]? = some c₀ ∧ c₀.emitted = true ∧
      (∃ res, c₀.res = some res ∧ res.request_sent = true ∧ res.token_bearing = true) ∧
      InjectedAfterReceipt P u clock as ∧
      ∀ r ∈ s.ctx.attempts, r.invocation ≠ 0 →
        ∃ i c, s.calls[i]? = some c ∧ c.at_ = r ∧ ReEntry P u clock as c₀ i c := by
  have hg := guarded_of_run hguard hrun
  obtain ⟨first, rest, hmap, halone, hinjected, hattempt, hlater⟩ := guardWitness_ok hw
  obtain ⟨r₀, rs, hattempts, rfl, rfl⟩ := List.map_eq_cons_iff.mp hmap
  obtain ⟨c₀, hmem₀, rfl, hsize₀, hoffset₀, -⟩ := hg.recorded r₀ (by simp [hattempts])
  obtain ⟨-, hnoted⟩ := hg.calls c₀ hmem₀
  obtain ⟨i₀, hi₀⟩ := List.mem_iff_getElem?.mp hmem₀
  -- Only the first call injects, so the first record is that of call 0.
  have hfirst := (hnoted.injected hinjected).1
  obtain ⟨hnumber₀, hthread₀⟩ := entry_eq hrun hi₀
  obtain rfl : i₀ = 0 := by omega
  obtain ⟨res, hres, hsent, htoken⟩ := hnoted.sent hattempt
  have hemitted : c₀.emitted = true := by rw [hnoted.emitted_eq res hres, hsent, Bool.true_or]
  refine ⟨hg.emissions_eq hi₀ hemitted, c₀, hi₀, hemitted, ⟨res, hres, hsent, htoken⟩,
    injectedAfterReceipt hguard hrun hi₀ hinjected, fun r hr hne => ?_⟩
  -- Any other record is among the later ones, each compared with the first.
  have hr_rest : r ∈ rs := by
    rw [hattempts, List.mem_cons] at hr
    exact hr.resolve_left fun heq => hne (heq ▸ hfirst)
  obtain ⟨-, -, hthread, hsize, hoffset⟩ := hlater _ (List.mem_map_of_mem hr_rest)
  obtain ⟨c, hmem, rfl, hsize₁, hoffset₁, -⟩ := hg.recorded r hr
  obtain ⟨i, hi⟩ := List.mem_iff_getElem?.mp hmem
  obtain ⟨hnumber, hthread₁⟩ := entry_eq hrun hi
  have hpos : i ≠ 0 := by
    rintro rfl
    exact hne hnumber
  refine ⟨i, c, hi, rfl, hpos, ?_, ?_, fun hlt₀ hlt => ?_, ?_⟩
  · exact hthread₁.symm.trans (hthread.trans hthread₀)
  · exact hoffset₁.symm.trans (hoffset.trans hoffset₀)
  · exact eq_of_signed64_eq hlt hlt₀ (hsize₁.symm.trans (hsize.trans hsize₀))
  · exact first_done_of_alone hguard hrun hi hpos (halone _ (List.mem_map_of_mem hr))

end System

/-- The GET of `fiveBytesSetup` with the guard, which makes the first call fail. -/
def guardedSetup : RigSetup := { fiveBytesSetup with guard := true, first_return := -5 }

/-- The first call gets its receipt and returns the injected value; the SDK then calls again on the
same thread. -/
def reenteredRun : List (ℤ × Action) :=
  enterAndBuild 0 ++ goOn 0 2 ++ [(0, .move 0 .accept), (0, .move 0 (.reply fiveBytesNet))] ++
    goOn 0 11 ++ (1, .enter 0 (some (ascii "7f0a")) 7 0) :: List.replicate 5 (1, .move 1 .next)

/-- The state after the first call has returned and the second was stopped. -/
def reenteredState : System :=
  (runSteps (step unsignedPlatform guardedSetup) reenteredRun (.initial 0)).getD {}

/-- The records of the two calls are accepted, so the one message was the first call's. -/
theorem guardWitness_sound_reentered :
    (guardWitness (reenteredState.ctx.attempts.map Attempt.guardAttempt)).ok = true ∧
      reenteredState.ctx.evidence_lost = false ∧ reenteredState.emissions = 1 ∧
      InjectedAfterReceipt unsignedPlatform guardedSetup 0 reenteredRun := by
  obtain ⟨hsome, hw, hkept⟩ :
      (runSteps (step unsignedPlatform guardedSetup) reenteredRun (.initial 0)).isSome ∧
        (guardWitness (reenteredState.ctx.attempts.map Attempt.guardAttempt)).ok = true ∧
        reenteredState.ctx.evidence_lost = false := by decide +kernel
  have hrun : runSteps (step unsignedPlatform guardedSetup) reenteredRun (.initial 0) =
      some reenteredState :=
    (Option.getD_of_ne_none (Option.isSome_iff_ne_none.mp hsome) _).symm
  obtain ⟨hone, _, -, -, -, hinjected, -⟩ := guardWitness_sound rfl hrun hw
  exact ⟨hw, hkept, hone, hinjected⟩

end S3Rdma.Probe
