import ComponentBuild.Proofs.Host.Interleaving

namespace ComponentBuild

open History

namespace History

variable {past : List PoolEvent} {e : PoolEvent} {c : Nat} {r : Request}

/-- A call has sent its request to a worker that had answered all requests before, and nothing has
come from the worker since. -/
def Asked (past : List PoolEvent) (c : Nat) (r : Request) (w : Worker) : Prop :=
  ∃ later front, past = later ++ .sent c w.process (w.requestLine r) (.ok ()) :: front ∧
    (∀ e ∈ later, e.process? ≠ some w.process) ∧
    replies front w.process = requests front w.process ∧
    w.next = requests front w.process + 1

/-- A call has read a reply behind its own request, with the number of that request. -/
def Answered (past : List PoolEvent) (c : Nat) (r : Request) (reply : Reply) : Prop :=
  ∃ later w text front, past = later ++ .received c w.process (.line text) :: front ∧
    Asked front c r w ∧ Reply.parse? text = some reply ∧ reply.id? = some w.next ∧
    reply.fatal? = none

theorem Asked.cons {w : Worker} (h : Asked past c r w) (he : e.process? ≠ some w.process) :
    Asked (e :: past) c r w := by
  obtain ⟨later, front, rfl, hlater, hfront⟩ := h
  exact ⟨e :: later, front, rfl, List.forall_mem_cons.2 ⟨he, hlater⟩, hfront⟩

theorem Answered.cons {reply : Reply} (h : Answered past c r reply) :
    Answered (e :: past) c r reply := by
  obtain ⟨later, w, text, front, rfl, h⟩ := h
  exact ⟨e :: later, w, text, front, rfl, h⟩

theorem repliesTo_line {text : String} {reply : Reply} {id : Nat}
    (hparse : Reply.parse? text = some reply) (hid : reply.id? = some id)
    (hfatal : reply.fatal? = none) : repliesTo id (.line text) = true := by
  simp [repliesTo, hparse, hid, hfatal]

/-- The slots hold workers that have answered all their requests. -/
def Stored (past : List PoolEvent) (slots : List (Option Worker)) : Prop :=
  ∀ i w, slots[i]? = some (some w) → ∃ n, w.next = n + 1 ∧ life past w.process = .stored i n

/-- What the pool and the system take care of: a worker comes out of a slot, and a process that
starts is a new one. -/
structure Fair (past : List PoolEvent) (e : PoolEvent) : Prop where
  entered : ∀ c slot w, e = .entered c slot (some w) →
    ∃ n, w.next = n + 1 ∧ life past w.process = .stored slot n
  started : ∀ c p, e = .started c p → ∀ e ∈ past, e.process? ≠ some p

end History

namespace Worker

theorem ofReady_ok {p : Process} {x : Received} {w : Worker} (h : ofReady p x = .ok w) :
    w = ⟨p, 1⟩ ∧ isReady x = true := by
  cases x with
  | ended | broken => cases h
  | line text =>
    simp only [ofReady] at h
    split at h
    · cases h
    · cases h
    · next hready =>
      cases h
      exact ⟨rfl, beq_iff_eq.2 hready⟩

theorem ofReady_error {p : Process} {x : Received} {e : HostError} (h : ofReady p x = .error e) :
    isReady x = false := by
  cases x with
  | ended | broken => rfl
  | line text =>
    simp only [ofReady] at h
    simp only [isReady]
    split at h
    · next hready =>
      rw [hready]
      rfl
    · next hready =>
      rw [hready]
      rfl
    · cases h

theorem readReply_ok {w : Worker} {r : Request} {x : Received} {reply : Reply}
    (h : w.readReply r x = .ok reply) :
    ∃ text, x = .line text ∧ Reply.parse? text = some reply ∧ reply.id? = some w.next ∧
      reply.fatal? = none := by
  cases x with
  | ended | broken => cases h
  | line text =>
    simp only [readReply] at h
    split at h
    · cases h
    · next found hparse =>
      split at h
      · cases h
      · next hfatal =>
        split at h
        · next hid =>
          cases h
          exact ⟨text, rfl, hparse, hid, hfatal⟩
        · cases h

end Worker

namespace Phase

variable {past : List PoolEvent} {e : PoolEvent} {c : Nat} {r : Request} {ph : Phase}

/-- What a phase says about the process of its call. -/
def Place (past : List PoolEvent) (c : Nat) (r : Request) : Phase → Prop
  | beginning | queued _ | starting _ | abandoning _ _ => True
  | readying _ p => life past p = .starting c
  | counting _ w => w.next = 1 ∧ life past w.process = .held c 0
  | sending _ w => ∃ n, w.next = n + 1 ∧ life past w.process = .held c n
  | receiving _ w => (∃ n, w.next = n + 1 ∧ life past w.process = .asked c n) ∧ Asked past c r w
  | leaving _ w reply =>
    (∃ n, w.next = n + 1 ∧ life past w.process = .held c (n + 1)) ∧ Answered past c r reply
  | ended a => (∃ reply, Answered past c r reply ∧ a = reply.answer r) ∨
      ∃ e : HostError, a = .error (.host e.message)

def isEnded : Phase → Bool
  | ended _ => true
  | _ => false

def isCounting : Phase → Bool
  | counting .. => true
  | _ => false

/-- The slot that a call in a phase has for itself. -/
def slot? : Phase → Option Nat
  | starting slot | readying slot _ | counting slot _ | sending slot _ | receiving slot _
  | leaving slot _ _ | abandoning slot _ => some slot
  | beginning | queued _ | ended _ => none

def Holds (holders : Nat → Option Nat) (c : Nat) (ph : Phase) : Prop :=
  ∀ slot, ph.slot? = some slot → holders slot = some c

/-- A call leaves its slot at its very end. -/
structure Fits (past : List PoolEvent) (c : Nat) (r : Request) (ph : Phase) : Prop where
  place : ph.Place past c r
  stays : ph.isEnded = false → ∀ slot w, .left c slot w ∉ past

theorem Place.of_other (h : ph.Place past c r) (he : Legal past e) (hc : e.call ≠ c) :
    ph.Place (e :: past) c r := by
  cases ph with
  | beginning | queued | starting | abandoning => exact trivial
  | readying slot p =>
    change life past p = .starting c at h
    exact (he.of_other hc (by rw [h]; rfl)).2.trans h
  | counting slot w =>
    obtain ⟨hn, h⟩ := h
    exact ⟨hn, (he.of_other hc (by rw [h]; rfl)).2.trans h⟩
  | sending slot w =>
    obtain ⟨n, hn, h⟩ := h
    exact ⟨n, hn, (he.of_other hc (by rw [h]; rfl)).2.trans h⟩
  | receiving slot w =>
    obtain ⟨⟨n, hn, h⟩, hasked⟩ := h
    obtain ⟨hp, hlife⟩ := he.of_other hc (by rw [h]; rfl)
    exact ⟨⟨n, hn, hlife.trans h⟩, hasked.cons hp⟩
  | leaving slot w reply =>
    obtain ⟨⟨n, hn, h⟩, hanswered⟩ := h
    exact ⟨⟨n, hn, (he.of_other hc (by rw [h]; rfl)).2.trans h⟩, hanswered.cons⟩
  | ended a =>
    rcases h with ⟨reply, hanswered, ha⟩ | h
    · exact .inl ⟨reply, hanswered.cons, ha⟩
    · exact .inr h

theorem Fits.of_other (h : ph.Fits past c r) (he : Legal past e) (hc : e.call ≠ c) :
    ph.Fits (e :: past) c r := by
  refine ⟨h.place.of_other he hc, fun hph slot w hmem => ?_⟩
  rcases List.mem_cons.1 hmem with rfl | hmem
  · exact hc rfl
  · exact h.stays hph slot w hmem

theorem ready_place {slot : Nat} {p : Process} (hp : life past p = .starting c) (x : Received) :
    (ready slot (Worker.ofReady p x)).Place (.received c p x :: past) c r := by
  cases hw : Worker.ofReady p x with
  | ok w =>
    obtain ⟨rfl, hready⟩ := Worker.ofReady_ok hw
    refine ⟨rfl, ?_⟩
    rw [life_cons, Life.after_received, hp, Life.receive_starting, if_pos hready]
  | error e => exact trivial

theorem replied_place {slot n : Nat} {w : Worker} (hn : w.next = n + 1)
    (hw : life past w.process = .asked c n) (hasked : Asked past c r w) (x : Received) :
    (replied slot w (w.readReply r x)).Place (.received c w.process x :: past) c r := by
  cases hr : w.readReply r x with
  | ok reply =>
    obtain ⟨text, rfl, hparse, hid, hfatal⟩ := Worker.readReply_ok hr
    refine ⟨⟨n, hn, ?_⟩, [], w, text, past, rfl, hasked, hparse, hid, hfatal⟩
    rw [life_cons, Life.after_received, hw, Life.receive_asked, ← hn,
      if_pos (repliesTo_line hparse hid hfatal)]
  | error e => exact trivial

/-- What a call does fits the history, and leads to a phase that fits. -/
theorem Asks.step {q : CallStep} {after : q.Answer → Phase} (hasks : Asks r ph q after)
    (hlawful : Lawful past) (hplace : ph.Place past c r) (a : q.Answer)
    (hfair : Fair past (q.event c a)) :
    Legal past (q.event c a) ∧ (after a).Place (q.event c a :: past) c r := by
  cases hasks with
  | beginning => exact ⟨trivial, trivial⟩
  | queued slot =>
    cases a with
    | none => exact ⟨trivial, trivial⟩
    | some w =>
      obtain ⟨n, hn, hl⟩ := hfair.entered c slot w rfl
      refine ⟨⟨n, hl⟩, n, hn, ?_⟩
      change (life past w.process).after w.process (.entered c slot (some w)) = _
      rw [Life.after_entered, hl]
      rfl
  | starting slot =>
    cases a with
    | ok p =>
      refine ⟨hfair.started c p rfl, ?_⟩
      change (life past p).after p (.started c p) = _
      exact Life.after_started
    | error cause => exact ⟨trivial, trivial⟩
  | readying slot p => exact ⟨.inl hplace, ready_place hplace a⟩
  | counting slot w => exact ⟨trivial, 0, hplace⟩
  | sending slot w =>
    obtain ⟨n, hn, hl⟩ := hplace
    cases a with
    | ok u =>
      have ht := tally hlawful w.process
      rw [hl] at ht
      refine ⟨⟨n, hl⟩, ⟨n, hn, ?_⟩, [], past, rfl, fun _ he => absurd he List.not_mem_nil, ?_, ?_⟩
      · change (life past w.process).after w.process (.sent c w.process _ (.ok ())) = _
        rw [Life.after_sent, hl]
        rfl
      · unfold replies
        rw [ht.1, ht.2]
        rfl
      · rw [ht.1, hn]
    | error cause => exact ⟨⟨n, hl⟩, trivial⟩
  | receiving slot w =>
    obtain ⟨⟨n, hn, hl⟩, hasked⟩ := hplace
    exact ⟨.inr ⟨n, hl⟩, replied_place hn hl hasked a⟩
  | leaving slot w reply =>
    obtain ⟨⟨n, hn, hl⟩, hanswered⟩ := hplace
    exact ⟨⟨n + 1, hl⟩, .inl ⟨reply, hanswered.cons, rfl⟩⟩
  | abandoning slot e => exact ⟨trivial, .inr ⟨e, rfl⟩⟩

theorem Asks.not_ended {q : CallStep} {after : q.Answer → Phase} (hasks : Asks r ph q after) :
    ph.isEnded = false := by
  cases hasks <;> rfl

theorem Asks.left {q : CallStep} {after : q.Answer → Phase} (hasks : Asks r ph q after)
    {a : q.Answer} {slot : Nat} {w : Worker} (h : q.event c a = .left c slot w) :
    (after a).isEnded = true := by
  cases hasks with
  | leaving => rfl
  | starting | sending => cases a <;> cases h
  | beginning | queued | readying | counting | receiving | abandoning => cases h

theorem Asks.fits {q : CallStep} {after : q.Answer → Phase} (hasks : Asks r ph q after)
    (hlawful : Lawful past) (h : ph.Fits past c r) (a : q.Answer)
    (hfair : Fair past (q.event c a)) :
    Legal past (q.event c a) ∧ (after a).Fits (q.event c a :: past) c r := by
  obtain ⟨hlegal, hplace⟩ := hasks.step hlawful h.place a hfair
  refine ⟨hlegal, hplace, fun hend slot w hmem => ?_⟩
  rcases List.mem_cons.1 hmem with hw | hmem
  · rw [hasks.left hw.symm] at hend
    cases hend
  · exact h.stays hasks.not_ended slot w hmem

end Phase

namespace Pool

/-- The pool behind an answer. -/
def after (p : Pool) : CallStep → Pool
  | .takeTurn => { p with turns := p.turns + 1 }
  | .enter slot => { p with slots := p.slots.set slot none }
  | .count => { p with started := p.started + 1 }
  | .leave slot w => { p with slots := p.slots.set slot (some w) }
  | .abandon _ | .host _ => p

@[simp] theorem after_length (p : Pool) (q : CallStep) :
    (p.after q).slots.length = p.slots.length := by
  cases q with
  | enter | leave => exact List.length_set
  | takeTurn | count | abandon | host => rfl

variable {pool pool' : Pool} {log : List (Exchange HostStep HostStep.Answer)}

theorem transcript_answer {q : CallStep} {a : q.Answer}
    (h : (answer q pool).Transcript log (a, pool')) : pool' = pool.after q := by
  cases q with
  | takeTurn | enter | count | leave | abandon =>
    obtain ⟨-, ⟨⟩⟩ := Dialogue.transcript_done.1 h
    rfl
  | host s =>
    obtain ⟨x, _, _, _, _, hback⟩ := Dialogue.transcript_bind.1 h
    obtain ⟨-, ⟨⟩⟩ := Dialogue.transcript_done.1 hback
    rfl

theorem transcript_takeTurn {slot : Nat}
    (h : (answer .takeTurn pool).Transcript log (slot, pool')) :
    slot = pool.turns.toNat % pool.slots.length := by
  obtain ⟨-, ⟨⟩⟩ := Dialogue.transcript_done.1 h
  rfl

theorem transcript_enter {slot : Nat} {w : Worker}
    (h : (answer (.enter slot) pool).Transcript log (some w, pool')) :
    pool.slots[slot]? = some (some w) := by
  obtain ⟨-, h⟩ := Dialogue.transcript_done.1 h
  exact Option.join_eq_some_iff.1 (congrArg Prod.fst h).symm

end Pool

namespace History

variable {past : List PoolEvent} {e : PoolEvent} {c : Nat} {r : Request}
  {slots : List (Option Worker)}

theorem Stored.cons (h : Stored past slots) (he : Legal past e)
    (hstays : ∀ slot w, e ≠ .entered e.call slot (some w)) : Stored (e :: past) slots := by
  intro i w hi
  obtain ⟨n, hn, hl⟩ := h i w hi
  exact ⟨n, hn, he.of_stored hl fun w _ => hstays i w⟩

theorem Stored.enter {slot : Nat} {worker? : Option Worker} (h : Stored past slots)
    (he : Legal past (.entered c slot worker?)) :
    Stored (.entered c slot worker? :: past) (slots.set slot none) := by
  intro i w hi
  rw [List.getElem?_set] at hi
  split at hi
  · split at hi <;> cases hi
  · next hslot =>
    obtain ⟨n, hn, hl⟩ := h i w hi
    refine ⟨n, hn, he.of_stored hl fun w _ hw => ?_⟩
    cases hw
    exact hslot rfl

theorem Stored.leave {slot n : Nat} {w : Worker} (h : Stored past slots)
    (hn : w.next = n + 1) (hw : life past w.process = .held c n) :
    Stored (.left c slot w :: past) (slots.set slot (some w)) := by
  intro i stored hi
  rw [List.getElem?_set] at hi
  split at hi
  · next hslot =>
    split at hi
    · cases hi
      refine ⟨n, hn, ?_⟩
      rw [life_cons, Life.after_left, hw, ← hslot]
      rfl
    · cases hi
  · obtain ⟨k, hk, hl⟩ := h i stored hi
    have he : Legal past (.left c slot w) := ⟨n, hw⟩
    exact ⟨k, hk, he.of_stored hl fun _ _ hne => by cases hne⟩

/-- The turns that calls have taken lead them from slot to slot. -/
def InTurn (width : Nat) (past : List PoolEvent) : Prop :=
  ∀ later front c slot, past = later ++ .turn c slot :: front →
    slot = turns front % UInt64.size % width

theorem InTurn.cons {width : Nat} (h : InTurn width past)
    (he : ∀ c slot, e = .turn c slot → slot = turns past % UInt64.size % width) :
    InTurn width (e :: past) := by
  intro later front c slot heq
  cases later with
  | nil =>
    obtain ⟨rfl, rfl⟩ := List.cons.inj heq
    exact he c slot rfl
  | cons e later =>
    obtain ⟨rfl, rfl⟩ := List.cons.inj heq
    exact h later front c slot rfl

end History

namespace Phase

variable {past : List PoolEvent} {c : Nat} {r : Request} {ph : Phase} {pool : Pool}
  {q : CallStep} {after : q.Answer → Phase} {a : q.Answer}

theorem Asks.stored (hasks : Asks r ph q after) (h : Stored past pool.slots)
    (hplace : ph.Place past c r) (he : Legal past (q.event c a)) :
    Stored (q.event c a :: past) (pool.after q).slots := by
  cases hasks with
  | queued slot => exact h.enter he
  | leaving slot w reply =>
    obtain ⟨⟨n, hn, hl⟩, -⟩ := hplace
    exact h.leave (w := w.advance) (congrArg (· + 1) hn) hl
  | starting | sending => cases a <;> exact h.cons he fun _ _ hne => by cases hne
  | beginning | readying | counting | receiving | abandoning =>
    exact h.cons he fun _ _ hne => by cases hne

theorem accepted_ready {slot : Nat} {p : Process} (hlines : lines past p = 0) (x : Received) :
    accepted (.received c p x :: past) =
      accepted past + if (ready slot (Worker.ofReady p x)).isCounting then 1 else 0 := by
  cases hw : Worker.ofReady p x with
  | ok w => exact congrArg (accepted past + ·) (if_pos ⟨hlines, (Worker.ofReady_ok hw).2⟩)
  | error e =>
    have hx : ¬(lines past p = 0 ∧ isReady x = true) := by
      rw [Worker.ofReady_error hw]
      exact fun h => Bool.false_ne_true h.2
    exact congrArg (accepted past + ·) (if_neg hx)

theorem accepted_replied {slot : Nat} {w : Worker} (hlines : lines past w.process ≠ 0)
    (x : Received) (result : Except HostError Reply) :
    accepted (.received c w.process x :: past) =
      accepted past + if (replied slot w result).isCounting then 1 else 0 := by
  refine congrArg (accepted past + ·) ((if_neg fun h => hlines h.1).trans ?_)
  cases result <;> rfl

/-- A first line that is accepted leads to the count of it. -/
theorem Asks.accepted (hasks : Asks r ph q after) (hlawful : Lawful past)
    (hplace : ph.Place past c r) :
    accepted (q.event c a :: past) = accepted past + if (after a).isCounting then 1 else 0 := by
  cases hasks with
  | readying slot p =>
    have ht := tally hlawful p
    rw [hplace] at ht
    exact accepted_ready ht.2 a
  | receiving slot w =>
    obtain ⟨⟨n, -, hl⟩, -⟩ := hplace
    have ht := tally hlawful w.process
    rw [hl] at ht
    exact accepted_replied (by rw [ht.2]; exact Nat.succ_ne_zero n) a _
  | starting | sending | queued => cases a <;> rfl
  | beginning | counting | leaving | abandoning => rfl

theorem Asks.turns (hasks : Asks r ph q after) (h : pool.turns = UInt64.ofNat (turns past)) :
    (pool.after q).turns = UInt64.ofNat (turns (q.event c a :: past)) := by
  cases hasks with
  | beginning =>
    have hturns : turns (.turn c a :: past) = turns past + 1 := List.countP_cons_of_pos rfl
    change pool.turns + 1 = UInt64.ofNat (turns (.turn c a :: past))
    rw [h, hturns, UInt64.ofNat_add]
    rfl
  | starting | sending => cases a <;> exact h
  | queued | readying | counting | receiving | leaving | abandoning => exact h

theorem Asks.started (hasks : Asks r ph q after) :
    (pool.after q).started = pool.started + if ph.isCounting then 1 else 0 := by
  cases hasks <;> rfl

variable {holders : Nat → Option Nat}

theorem Asks.slot?_of_host {step : HostStep} {after : step.Answer → Phase}
    (hasks : Asks r ph (.host step) after) : ∃ slot, ph.slot? = some slot := by
  cases hasks <;> exact ⟨_, rfl⟩

/-- A call keeps its slot until it leaves it. -/
theorem Asks.holds (hasks : Asks r ph q after) (h : ph.Holds holders c) :
    (after a).Holds (q.holders c holders) c := by
  cases hasks with
  | beginning => exact fun _ hslot => by cases hslot
  | queued slot =>
    cases a <;>
    · rintro _ ⟨⟩
      exact Function.update_self ..
  | starting slot => cases a <;> exact h
  | readying slot p =>
    change (ready slot (Worker.ofReady p a)).Holds holders c
    cases Worker.ofReady p a <;> exact h
  | counting slot w => exact h
  | sending slot w => cases a <;> exact h
  | receiving slot w =>
    change (replied slot w (w.readReply r a)).Holds holders c
    cases w.readReply r a <;> exact h
  | leaving | abandoning => exact fun _ hslot => by cases hslot

/-- Nothing that a call does takes the slot of another call. -/
theorem Asks.holds_other (hasks : Asks r ph q after) (h : ph.Holds holders c)
    (hfree : ∀ slot, q = .enter slot → holders slot = none) {c' : Nat} (hc : c' ≠ c) {slot : Nat}
    (hslot : holders slot = some c') : q.holders c holders slot = some c' := by
  cases hasks with
  | queued entered =>
    refine (Function.update_of_ne ?_ ..).trans hslot
    rintro rfl
    rw [hfree slot rfl] at hslot
    cases hslot
  | leaving left | abandoning left =>
    refine (Function.update_of_ne ?_ ..).trans hslot
    rintro rfl
    rw [h slot rfl] at hslot
    exact hc (Option.some.inj hslot).symm
  | beginning | starting | readying | counting | sending | receiving => exact hslot

/-- A slot that a call has for itself holds no worker. -/
theorem Asks.alone (hasks : Asks r ph q after) (h : ph.Holds holders c)
    (halone : ∀ slot c w, holders slot = some c → pool.slots[slot]? ≠ some (some w))
    {slot c' : Nat} {w : Worker} (hslot : q.holders c holders slot = some c') :
    (pool.after q).slots[slot]? ≠ some (some w) := by
  cases hasks with
  | queued entered =>
    change (pool.slots.set entered none)[slot]? ≠ _
    rw [List.getElem?_set]
    split
    · split <;> exact fun hw => by cases hw
    · next hne =>
      exact halone slot c' w ((Function.update_of_ne (Ne.symm hne) ..).symm.trans hslot)
  | leaving left w' =>
    have hne : slot ≠ left := by
      rintro rfl
      cases (Function.update_self (f := holders) ..).symm.trans hslot
    change (pool.slots.set left _)[slot]? ≠ _
    rw [List.getElem?_set, if_neg hne.symm]
    exact halone slot c' w ((Function.update_of_ne hne ..).symm.trans hslot)
  | abandoning left =>
    have hne : slot ≠ left := by
      rintro rfl
      cases (Function.update_self (f := holders) ..).symm.trans hslot
    exact halone slot c' w ((Function.update_of_ne hne ..).symm.trans hslot)
  | beginning | starting | readying | counting | sending | receiving =>
    exact halone slot c' w hslot

end Phase

end ComponentBuild
