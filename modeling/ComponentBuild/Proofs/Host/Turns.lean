import ComponentBuild.Proofs.Host.Safety

namespace ComponentBuild

namespace Phase

/-- Whether a call may yet start a process. -/
def mayStart : Phase → Bool
  | beginning | queued _ | starting _ => true
  | _ => false

variable {r : Request} {ph : Phase} {q : CallStep} {after : q.Answer → Phase} {slot : Nat}

/-- A call stays in its slot, and starts a process at once or never. -/
theorem Asks.stays (hasks : Asks r ph q after) (hslot : ph.slot? = some slot) (a : q.Answer) :
    ((after a).slot? = some slot ∨ (after a).isEnded = true) ∧ (after a).mayStart = false := by
  cases hasks with
  | beginning | queued => cases hslot
  | starting | sending => cases a <;> exact ⟨.inl hslot, rfl⟩
  | readying slot p =>
    change ((ready slot (Worker.ofReady p a)).slot? = _ ∨ _) ∧ (ready slot _).mayStart = false
    cases Worker.ofReady p a <;> exact ⟨.inl hslot, rfl⟩
  | counting => exact ⟨.inl hslot, rfl⟩
  | receiving slot w =>
    change ((replied slot w (w.readReply r a)).slot? = _ ∨ _) ∧ (replied slot w _).mayStart = false
    cases w.readReply r a <;> exact ⟨.inl hslot, rfl⟩
  | leaving | abandoning => exact ⟨.inr rfl, rfl⟩

end Phase

namespace Pool

variable {pool pool' : Pool} {log : List (Exchange HostStep HostStep.Answer)} {r : Request}
  {a : ToolAnswer} {slot : Nat}

theorem transcript_run_ask {q : CallStep}
    {next : q.Answer → Dialogue CallStep CallStep.Answer ToolAnswer} :
    (((Dialogue.ask q next).run answer).run pool).Transcript log (a, pool') ↔
      ∃ x between front back, log = front ++ back ∧
        (answer q pool).Transcript front (x, between) ∧
        (((next x).run answer).run between).Transcript back (a, pool') := by
  change ((answer q pool).bind fun x => ((next x.1).run answer).run x.2).Transcript log _ ↔ _
  rw [Dialogue.transcript_bind]
  constructor
  · rintro ⟨⟨x, between⟩, front, back, h⟩
    exact ⟨x, between, front, back, h⟩
  · rintro ⟨x, between, front, back, h⟩
    exact ⟨⟨x, between⟩, front, back, h⟩

theorem transcript_host {s : HostStep} {x : s.Answer}
    (h : (answer (.host s) pool).Transcript log (x, pool')) : log = [⟨s, x⟩] ∧ pool' = pool := by
  obtain ⟨y, front, back, rfl, hfront, hback⟩ := Dialogue.transcript_bind.1 h
  obtain ⟨rfl, ⟨⟩⟩ := Dialogue.transcript_done.1 hback
  cases hfront with
  | ask hrest =>
    obtain ⟨rfl, rfl⟩ := Dialogue.transcript_done.1 hrest
    exact ⟨rfl, rfl⟩

/-- The processes that are asked to start. -/
def Starts (log : List (Exchange HostStep HostStep.Answer)) : Prop :=
  ∃ x : Except String Process, ⟨.start, x⟩ ∈ log

theorem not_starts_append {front back : List (Exchange HostStep HostStep.Answer)}
    (hfront : ¬Starts front) (hback : ¬Starts back) : ¬Starts (front ++ back) := by
  rintro ⟨x, hx⟩
  rcases List.mem_append.1 hx with hx | hx
  · exact hfront ⟨x, hx⟩
  · exact hback ⟨x, hx⟩

/-- Nothing but one slot, the turns and the count may differ. -/
structure KeepsTo (slot : Nat) (pool pool' : Pool) : Prop where
  turns : pool'.turns = pool.turns
  length : pool'.slots.length = pool.slots.length
  others : ∀ i, i ≠ slot → pool'.slots[i]? = pool.slots[i]?

theorem KeepsTo.refl (slot : Nat) (pool : Pool) : KeepsTo slot pool pool :=
  ⟨rfl, rfl, fun _ _ => rfl⟩

theorem KeepsTo.trans {between : Pool} (h : KeepsTo slot pool between)
    (h' : KeepsTo slot between pool') : KeepsTo slot pool pool' :=
  ⟨h'.turns.trans h.turns, h'.length.trans h.length,
    fun i hi => (h'.others i hi).trans (h.others i hi)⟩

end Pool

namespace Phase

open Pool

variable {r : Request} {ph : Phase} {q : CallStep} {after : q.Answer → Phase} {slot : Nat}
  {pool pool' : Pool} {log : List (Exchange HostStep HostStep.Answer)} {a : ToolAnswer}

theorem Asks.keepsTo (hasks : Asks r ph q after) (hslot : ph.slot? = some slot) :
    KeepsTo slot pool (pool.after q) := by
  cases hasks with
  | beginning | queued => cases hslot
  | leaving slot w reply =>
    cases hslot
    exact ⟨rfl, List.length_set, fun i hi => List.getElem?_set_ne hi.symm⟩
  | starting | readying | counting | sending | receiving | abandoning =>
    exact ⟨rfl, rfl, fun _ _ => rfl⟩

theorem Asks.not_starts (hasks : Asks r ph q after) (hstart : ph.mayStart = false)
    {x : q.Answer} (h : (answer q pool).Transcript log (x, pool')) : ¬Starts log := by
  cases hasks with
  | beginning | queued | starting => cases hstart
  | readying | sending | receiving =>
    obtain ⟨rfl, -⟩ := transcript_host h
    rintro ⟨y, hy⟩
    cases List.mem_singleton.1 hy
  | counting | leaving | abandoning =>
    obtain ⟨rfl, -⟩ := Dialogue.transcript_done.1 h
    rintro ⟨y, hy⟩
    cases hy

/-- A call that has a slot changes no other slot, and starts no process after the first. -/
theorem Goes.keepsTo {d : Dialogue CallStep CallStep.Answer ToolAnswer} (hgoes : Goes r ph d)
    (hslot : ph.slot? = some slot ∨ ph.isEnded = true)
    (h : ((d.run answer).run pool).Transcript log (a, pool')) :
    KeepsTo slot pool pool' ∧ (ph.mayStart = false → ¬Starts log) := by
  induction hgoes generalizing pool log with
  | done =>
    obtain ⟨rfl, ⟨⟩⟩ := Dialogue.transcript_done.1 h
    exact ⟨.refl slot _, fun _ ⟨x, hx⟩ => by cases hx⟩
  | ask hasks _ ih =>
    have hslot : _ = some slot := hslot.resolve_right (by rw [hasks.not_ended]; exact nofun)
    obtain ⟨x, between, front, back, rfl, hfront, hback⟩ := transcript_run_ask.1 h
    obtain rfl := transcript_answer hfront
    obtain ⟨hstays, hstart⟩ := hasks.stays hslot x
    obtain ⟨hkeeps, hstarts⟩ := ih x hstays hback
    exact ⟨(hasks.keepsTo hslot).trans hkeeps, fun hmay =>
      not_starts_append (hasks.not_starts hmay hfront) (hstarts hstart)⟩

end Phase

namespace Pool

variable {pool pool' : Pool} {log : List (Exchange HostStep HostStep.Answer)} {r : Request}
  {a : ToolAnswer} {slot : Nat}

/-- How a call that goes on by itself uses a slot. -/
structure Uses (slot : Nat) (r : Request) (pool pool' : Pool)
    (log : List (Exchange HostStep HostStep.Answer)) : Prop where
  exists_slot : slot < pool.slots.length
  others : ∀ i, i ≠ slot → pool'.slots[i]? = pool.slots[i]?
  starts_iff : Starts log ↔ pool.slots[slot]? = some none
  /-- A worker in the slot gets the request. -/
  sends : ∀ w : Worker, pool.slots[slot]? = some (some w) →
    ∃ (x : Except String Unit) (back : List (Exchange HostStep HostStep.Answer)),
      log = ⟨.send w.process (w.requestLine r), x⟩ :: back

theorem KeepsTo.others_enter (h : KeepsTo slot (pool.after (.enter slot)) pool') {i : Nat}
    (hi : i ≠ slot) : pool'.slots[i]? = pool.slots[i]? :=
  (h.others i hi).trans (List.getElem?_set_ne hi.symm)

/-- A call that comes to its slot goes on with the worker there, or starts one. -/
theorem uses_of_entered {worker? : Option Worker} (hworker : pool.slots[slot]? = some worker?)
    {d : Dialogue CallStep CallStep.Answer ToolAnswer}
    (hgoes : (Phase.entered slot worker?).Goes r d)
    (h : ((d.run answer).run (pool.after (.enter slot))).Transcript log (a, pool')) :
    Uses slot r pool pool' log ∧ KeepsTo slot (pool.after (.enter slot)) pool' := by
  have hslot : slot < pool.slots.length := (List.getElem?_eq_some_iff.1 hworker).1
  cases worker? with
  | some w =>
    obtain ⟨hkeeps, hstarts⟩ := hgoes.keepsTo (.inl rfl) h
    refine ⟨⟨hslot, fun i => hkeeps.others_enter, ?_, ?_⟩, hkeeps⟩
    · rw [hworker]
      exact ⟨fun hs => absurd hs (hstarts rfl), fun hs => by cases hs⟩
    · rw [hworker]
      rintro _ ⟨⟩
      cases hgoes with
      | ask hasks _ =>
      cases hasks
      obtain ⟨x, between, front, back, rfl, hfront, -⟩ := transcript_run_ask.1 h
      obtain ⟨rfl, -⟩ := transcript_host hfront
      exact ⟨x, back, rfl⟩
  | none =>
    obtain ⟨hkeeps, -⟩ := hgoes.keepsTo (.inl rfl) h
    refine ⟨⟨hslot, fun i => hkeeps.others_enter, ?_, ?_⟩, hkeeps⟩
    · rw [hworker]
      refine ⟨fun _ => rfl, fun _ => ?_⟩
      cases hgoes with
      | ask hasks _ =>
      cases hasks
      obtain ⟨x, between, front, back, rfl, hfront, -⟩ := transcript_run_ask.1 h
      obtain ⟨rfl, -⟩ := transcript_host hfront
      exact ⟨x, List.mem_cons_self⟩
    · rw [hworker]
      exact fun _ hw => by cases hw

theorem uses_of_queued {d : Dialogue CallStep CallStep.Answer ToolAnswer}
    (hgoes : (Phase.queued slot).Goes r d)
    (h : ((d.run answer).run pool).Transcript log (a, pool')) (hslot : slot < pool.slots.length) :
    Uses slot r pool pool' log ∧ KeepsTo slot (pool.after (.enter slot)) pool' := by
  cases hgoes with
  | ask hasks hnext =>
  cases hasks
  obtain ⟨worker?, between, front, back, rfl, hfront, hback⟩ := transcript_run_ask.1 h
  obtain ⟨rfl, hworker⟩ := Dialogue.transcript_done.1 hfront
  obtain ⟨rfl, rfl⟩ := Prod.mk.inj hworker
  have hsome : pool.slots[slot]? = some pool.slots[slot] := List.getElem?_eq_getElem hslot
  rw [hsome] at hback
  exact uses_of_entered hsome (hnext _) hback

theorem transcript_call (hslots : 0 < pool.slots.length)
    (h : ((call r).run pool).Transcript log (a, pool')) :
    Uses (pool.turns.toNat % pool.slots.length) r pool pool' log ∧
      pool'.turns = pool.turns + 1 ∧ pool'.slots.length = pool.slots.length := by
  have hgoes := Phase.goes_call r
  change ((r.call.run answer).run pool).Transcript log (a, pool') at h
  generalize r.call = d at h hgoes
  cases hgoes with
  | ask hasks hnext =>
  cases hasks
  obtain ⟨slot, between, front, back, rfl, hfront, hback⟩ := transcript_run_ask.1 h
  obtain ⟨rfl, hslot⟩ := Dialogue.transcript_done.1 hfront
  obtain ⟨rfl, rfl⟩ := Prod.mk.inj hslot
  obtain ⟨huses, hkeeps⟩ := uses_of_queued (hnext _) hback (Nat.mod_lt pool.turns.toNat hslots)
  refine ⟨⟨huses.exists_slot, huses.others, huses.starts_iff, huses.sends⟩, hkeeps.turns, ?_⟩
  exact hkeeps.length.trans List.length_set

/-- Calls one after the other. -/
theorem transcript_calls {front : List Request} {answers : List ToolAnswer}
    (hslots : 0 < pool.slots.length)
    (h : ((front.mapM call).run pool).Transcript log (answers, pool')) :
    pool'.turns = pool.turns + UInt64.ofNat front.length ∧
      pool'.slots.length = pool.slots.length := by
  induction front generalizing pool log answers with
  | nil =>
    obtain ⟨-, ⟨⟩⟩ := Dialogue.transcript_done.1 h
    exact ⟨(UInt64.add_zero _).symm, rfl⟩
  | cons r front ih =>
    rw [List.mapM_cons, StateT.run_bind] at h
    obtain ⟨⟨a, between⟩, log, back, rfl, hcall, hback⟩ := Dialogue.transcript_bind.1 h
    obtain ⟨-, hturns, hlength⟩ := transcript_call hslots hcall
    change (((front.mapM call) >>= fun as => pure (a :: as)).run between).Transcript _ _ at hback
    rw [StateT.run_bind] at hback
    obtain ⟨⟨as, last⟩, log', back', rfl, hcalls, hlast⟩ := Dialogue.transcript_bind.1 hback
    obtain ⟨-, ⟨⟩⟩ := Dialogue.transcript_done.1 hlast
    obtain ⟨hturns', hlength'⟩ := ih (by rw [hlength]; exact hslots) hcalls
    refine ⟨?_, hlength'.trans hlength⟩
    rw [hturns', hturns, List.length_cons, UInt64.ofNat_add, UInt64.add_assoc, UInt64.add_comm 1]
    rfl

end Pool

namespace Phase

open Pool PoolState

variable {r : Request} {ph : Phase} {q : CallStep} {after : q.Answer → Phase} {c count : Nat}
  {s : PoolState} {pool' : Pool} {log : List (Exchange HostStep HostStep.Answer)}
  {a : ToolAnswer} {holders : Nat → Option Nat}

/-- The processes that are started are new ones. -/
def New (past : List PoolEvent) (log : List (Exchange HostStep HostStep.Answer)) : Prop :=
  ∀ p : Process, ⟨.start, (.ok p : Except String Process)⟩ ∈ log →
    ∀ e ∈ past, e.process? ≠ some p

theorem Asks.new (hasks : Asks r ph q after) {pool between : Pool} {x : q.Answer}
    {front back : List (Exchange HostStep HostStep.Answer)} {past : List PoolEvent}
    (h : New past (front ++ back)) (hfront : (answer q pool).Transcript front (x, between)) :
    ∀ p, q.event c x = .started c p → ∀ e ∈ past, e.process? ≠ some p := by
  intro p he
  cases hasks with
  | starting slot =>
    obtain ⟨rfl, -⟩ := transcript_host hfront
    cases x with
    | ok p' =>
      cases he
      exact h p List.mem_cons_self
    | error => cases he
  | sending => cases x <;> cases he
  | beginning | queued | readying | counting | receiving | leaving | abandoning => cases he

/-- What a call does before it starts a process is about none. -/
theorem Asks.process?_of_mayStart (hasks : Asks r ph q after) {x : q.Answer}
    (h : (after x).mayStart = true) : (q.event c x).process? = none := by
  cases hasks with
  | beginning => rfl
  | queued slot =>
    cases x with
    | some w => cases h
    | none => rfl
  | starting | sending => cases x <;> cases h
  | readying slot p =>
    change (ready slot (Worker.ofReady p x)).mayStart = true at h
    cases hw : Worker.ofReady p x <;> rw [hw] at h <;> cases h
  | receiving slot w =>
    change (replied slot w (w.readReply r x)).mayStart = true at h
    cases hw : w.readReply r x <;> rw [hw] at h <;> cases h
  | counting | leaving | abandoning => cases h

theorem Asks.free (hasks : Asks r ph q after)
    (h : ∀ slot, ph.slot? ≠ some slot → holders slot = none) (x : q.Answer) :
    ∀ slot, (after x).slot? ≠ some slot → q.holders c holders slot = none := by
  cases hasks with
  | beginning => exact fun slot _ => h slot nofun
  | queued entered =>
    intro slot hslot
    have hne : slot ≠ entered := by
      rintro rfl
      cases x <;> exact hslot rfl
    exact (Function.update_of_ne hne ..).trans (h slot nofun)
  | starting | sending => cases x <;> exact h
  | readying slot p =>
    change ∀ i, (ready slot (Worker.ofReady p x)).slot? ≠ some i → _
    cases Worker.ofReady p x <;> exact h
  | counting => exact h
  | receiving slot w =>
    change ∀ i, (replied slot w (w.readReply r x)).slot? ≠ some i → _
    cases w.readReply r x <;> exact h
  | leaving left | abandoning left =>
    intro slot _
    by_cases hslot : slot = left
    · subst hslot
      exact Function.update_self ..
    · exact (Function.update_of_ne hslot ..).trans
        (h slot fun hleft => hslot (Option.some.inj hleft).symm)

theorem slot?_of_mayStart (h : ph.mayStart = false) :
    (∃ slot, ph.slot? = some slot) ∨ ph.isEnded = true := by
  cases ph with
  | beginning | queued | starting => cases h
  | readying | counting | sending | receiving | leaving | abandoning => exact .inl ⟨_, rfl⟩
  | ended => exact .inr rfl

theorem Asks.new_cons (hasks : Asks r ph q after) {pool : Pool} {x : q.Answer}
    {front back : List (Exchange HostStep HostStep.Answer)} {past : List PoolEvent}
    {d : Dialogue CallStep CallStep.Answer ToolAnswer} (hgoes : Goes r (after x) d)
    (h : New past (front ++ back))
    (hback : ((d.run answer).run pool).Transcript back (a, pool')) :
    New (q.event c x :: past) back := by
  intro p hp e he
  rcases List.mem_cons.1 he with rfl | he
  · cases hstart : (after x).mayStart with
    | true =>
      rw [hasks.process?_of_mayStart hstart]
      exact nofun
    | false =>
      have hstarts : Starts back := ⟨_, hp⟩
      refine absurd hstarts ?_
      rcases slot?_of_mayStart hstart with ⟨slot, hslot⟩ | hend
      · exact (hgoes.keepsTo (.inl hslot) hback).2 hstart
      · have hkeeps : KeepsTo 0 pool pool' ∧ _ := hgoes.keepsTo (.inr hend) hback
        exact hkeeps.2 hstart
  · exact h p (List.mem_append_right front hp) e he

/-- What a call asks and gets answered while it has the pool for itself leads from state to
state. -/
theorem Goes.reaches {d : Dialogue CallStep CallStep.Answer ToolAnswer} (hgoes : Goes r ph d)
    (hs : Reachable count s) (hc : s.calls c = some ⟨r, d⟩)
    (hfree : ∀ slot, ph.slot? ≠ some slot → s.holders slot = none) (hnew : New s.past log)
    (h : ((d.run answer).run s.pool).Transcript log (a, pool')) :
    ∃ t, Reachable count t ∧ t.pool = pool' ∧ t.calls c = some ⟨r, .done a⟩ ∧
      (∀ slot, t.holders slot = none) ∧ t.begun = s.begun := by
  induction hgoes generalizing s log with
  | done b =>
    obtain ⟨-, ⟨⟩⟩ := Dialogue.transcript_done.1 h
    exact ⟨s, hs, rfl, hc, fun slot => hfree slot nofun, rfl⟩
  | ask hasks hnext ih =>
    obtain ⟨x, between, front, back, rfl, hfront, hback⟩ := transcript_run_ask.1 h
    have hstep := hs.step (.ask hc (fun slot hq => ?_) hfront (hasks.new hnew hfront))
    · have hreaches := ih x hstep (Function.update_self ..) (hasks.free hfree x)
        (hasks.new_cons (hnext x) hnew hback) hback
      exact hreaches
    · subst hq
      cases hasks
      exact hfree slot nofun

end Phase

/-- A call that goes on by itself, with new processes, is a way from state to state. -/
theorem PoolState.Reachable.call {count : Nat} {s : PoolState} {r : Request} {pool' : Pool}
    {log : List (Exchange HostStep HostStep.Answer)} {a : ToolAnswer} (hs : Reachable count s)
    (hfree : ∀ slot, s.holders slot = none) (hnew : Phase.New s.past log)
    (h : ((Pool.call r).run s.pool).Transcript log (a, pool')) :
    ∃ t, Reachable count t ∧ t.pool = pool' ∧ t.calls s.begun = some ⟨r, .done a⟩ ∧
      (∀ slot, t.holders slot = none) ∧ t.begun = s.begun + 1 :=
  (Phase.goes_call r).reaches (hs.step (.start s r)) (Function.update_self ..)
    (fun slot _ => hfree slot) hnew h

namespace Pool

/-- A pool is safe however its calls go on side by side, and calls one after the other take its
slots in turn: a call starts a process exactly when its slot holds no worker. -/
theorem safe_and_in_turn (count : Nat) :
    (∀ s, PoolState.Reachable count s → s.Safe count) ∧
    ∀ (front : List Request) (r : Request) (answers : List ToolAnswer) (a : ToolAnswer)
      (pool pool' : Pool) (log log' : List (Exchange HostStep HostStep.Answer)),
      front.length < UInt64.size →
      ((front.mapM call).run (ofCount count)).Transcript log (answers, pool) →
      ((call r).run pool).Transcript log' (a, pool') →
      Uses (front.length % max count 1) r pool pool' log' := by
  refine ⟨fun s hs => hs.inv.safe, ?_⟩
  intro front r answers a pool pool' log log' hfront hcalls hcall
  have hwidth : (ofCount count).slots.length = max count 1 := List.length_replicate
  have hpos : 0 < max count 1 := Nat.lt_of_lt_of_le Nat.one_pos (Nat.le_max_right count 1)
  obtain ⟨hturns, hlength⟩ := transcript_calls (by rwa [hwidth]) hcalls
  rw [hwidth] at hlength
  obtain ⟨huses, -⟩ := transcript_call (by rwa [hlength]) hcall
  have hslot : pool.turns.toNat = front.length := by
    rw [hturns]
    change (0 + UInt64.ofNat front.length).toNat = _
    rw [UInt64.zero_add, UInt64.toNat_ofNat', Nat.mod_eq_of_lt hfront]
  rwa [hslot, hlength] at huses

/-- Processes that start at once, and say the same line whenever one is awaited. -/
def answersWith (line : String) : (s : HostStep) → s.Answer
  | .start => (.ok ⟨7⟩ : Except String Process)
  | .send _ _ => (.ok () : Except String Unit)
  | .receive _ => Received.line line

theorem safe_and_in_turn_of_one_slot :
    ∃ (s : PoolState) (pool' : Pool) (log : List (Exchange HostStep HostStep.Answer)),
      PoolState.Reachable 1 s ∧ s.Safe 1 ∧
      s.calls 0 = some ⟨.transpile "" "", .done (.ok ⟨"x", none, []⟩)⟩ ∧
      s.pool.slots = [some ⟨⟨7⟩, 2⟩] ∧ Uses 0 (.transpile "" "") s.pool pool' log ∧
      ((call (.transpile "" "")).run s.pool).Transcript log (.ok ⟨"y", none, []⟩, pool') := by
  have hfirst : Id.run (((call (.transpile "" "")).run (ofCount 1)).run (answersWith
      "\x7b\"ready\":true,\"id\":1,\"result\":\x7b\"code\":\"x\"\x7d\x7d")) =
      (.ok ⟨"x", none, []⟩, ⟨[some ⟨⟨7⟩, 2⟩], 1, 1⟩) := by
    decide +kernel
  have hsecond : Id.run (((call (.transpile "" "")).run ⟨[some ⟨⟨7⟩, 2⟩], 1, 1⟩).run (answersWith
      "\x7b\"id\":2,\"result\":\x7b\"code\":\"y\"\x7d\x7d")) =
      (.ok ⟨"y", none, []⟩, ⟨[some ⟨⟨7⟩, 3⟩], 2, 1⟩) := by
    decide +kernel
  obtain ⟨log, hlog⟩ := Dialogue.exists_transcript _ hfirst
  obtain ⟨log', hlog'⟩ := Dialogue.exists_transcript _ hsecond
  have hcalls : (([.transpile "" ""].mapM call).run (ofCount 1)).Transcript log
      ([.ok ⟨"x", none, []⟩], ⟨[some ⟨⟨7⟩, 2⟩], 1, 1⟩) := by
    rw [List.mapM_cons, List.mapM_nil, StateT.run_bind]
    exact Dialogue.transcript_bind.2 ⟨_, log, [], (List.append_nil log).symm, hlog, .done _⟩
  obtain ⟨s, hs, hpool, hcall, -⟩ := PoolState.Reachable.start.call (fun _ => rfl)
    (fun _ _ _ he => absurd he List.not_mem_nil) hlog
  obtain ⟨hsafe, hturn⟩ := safe_and_in_turn 1
  refine ⟨s, ⟨[some ⟨⟨7⟩, 3⟩], 2, 1⟩, log', hs, hsafe s hs, hcall, by rw [hpool], ?_, ?_⟩
  · rw [hpool]
    exact hturn _ _ _ _ _ _ _ _ (by decide) hcalls hlog'
  · rw [hpool]
    exact hlog'

end Pool

end ComponentBuild
