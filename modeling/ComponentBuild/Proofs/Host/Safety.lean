import ComponentBuild.Proofs.Host.CallSteps
import Mathlib.Algebra.BigOperators.Group.Finset.Piecewise

namespace ComponentBuild

open History

/-- Whether a call is about to count a worker that is ready. -/
def CallState.isCounting (x : CallState) : Bool :=
  match x.rest with
  | .ask .count _ => true
  | _ => false

theorem Phase.Goes.isCounting {r : Request} {ph : Phase}
    {d : Dialogue CallStep CallStep.Answer ToolAnswer} (h : Goes r ph d) :
    (⟨r, d⟩ : CallState).isCounting = ph.isCounting := by
  cases h with
  | done a => rfl
  | ask hasks => cases hasks <;> rfl

namespace PoolState

/-- How many of the first calls are about to count a worker that is ready. -/
def countingBelow (calls : Nat → Option CallState) (n : Nat) : Nat :=
  ((Finset.range n).filter fun c => (calls c).any CallState.isCounting).card

theorem countingBelow_update (calls : Nat → Option CallState) {n c : Nat} (hc : c < n)
    (x? : Option CallState) :
    countingBelow (Function.update calls c x?) n +
        (if (calls c).any CallState.isCounting then 1 else 0) =
      countingBelow calls n + if x?.any CallState.isCounting then 1 else 0 := by
  unfold countingBelow
  have hmem : c ∈ Finset.range n := Finset.mem_range.2 hc
  have hrest : ∀ i ∈ (Finset.range n).erase c,
      (if (Function.update calls c x? i).any CallState.isCounting then 1 else 0) =
        if (calls i).any CallState.isCounting then 1 else 0 := by
    intro i hi
    rw [Function.update_of_ne (Finset.ne_of_mem_erase hi)]
  rw [Finset.card_filter, Finset.card_filter, ← Finset.add_sum_erase _ _ hmem,
    ← Finset.add_sum_erase (Finset.range n) _ hmem, Finset.sum_congr rfl hrest,
    Function.update_self]
  omega

theorem countingBelow_succ {calls : Nat → Option CallState} {n : Nat} {x : CallState}
    (hx : x.isCounting = false) :
    countingBelow (Function.update calls n (some x)) (n + 1) = countingBelow calls n := by
  unfold countingBelow
  rw [Finset.card_filter, Finset.card_filter, Finset.sum_range_succ, Function.update_self,
    Option.any_some, hx, if_neg Bool.false_ne_true, Nat.add_zero]
  refine Finset.sum_congr rfl fun i hi => ?_
  rw [Function.update_of_ne (Finset.mem_range.1 hi).ne]

/-- How many calls are about to count a worker that is ready. -/
def counting (s : PoolState) : Nat := countingBelow s.calls s.begun

/-- What every step keeps. -/
structure Inv (count : Nat) (s : PoolState) : Prop where
  lawful : Lawful s.past
  stored : Stored s.past s.pool.slots
  calls : ∀ c x, s.calls c = some x →
    ∃ ph : Phase, ph.Goes x.request x.rest ∧ ph.Fits s.past c x.request ∧ ph.Holds s.holders c
  alone : ∀ slot c w, s.holders slot = some c → s.pool.slots[slot]? ≠ some (some w)
  bounded : ∀ c, s.begun ≤ c → s.calls c = none ∧ ∀ e ∈ s.past, e.call ≠ c
  width : s.pool.slots.length = max count 1
  turns : s.pool.turns = UInt64.ofNat (turns s.past)
  inTurn : InTurn (max count 1) s.past
  counted : s.pool.started + s.counting = accepted s.past

variable {count : Nat} {s t : PoolState}

theorem inv_ofCount (count : Nat) : (ofCount count).Inv count where
  lawful := trivial
  stored i w h := by
    rw [ofCount, Pool.ofCount, List.getElem?_replicate] at h
    split at h <;> cases h
  calls c x h := by cases h
  alone slot c w h := by cases h
  bounded c _ := ⟨rfl, fun e he => absurd he List.not_mem_nil⟩
  width := List.length_replicate
  turns := rfl
  inTurn later front c slot h := by
    cases later <;> cases h
  counted := rfl

theorem Inv.begin (h : s.Inv count) (r : Request) :
    ({ s with
      begun := s.begun + 1
      calls := Function.update s.calls s.begun (some ⟨r, r.call⟩) } : PoolState).Inv count where
  lawful := h.lawful
  stored := h.stored
  calls c x hx := by
    by_cases hc : c = s.begun
    · subst hc
      cases (Function.update_self (f := s.calls) ..).symm.trans hx
      exact ⟨.beginning, Phase.goes_call r,
        ⟨trivial, fun _ slot w hmem => (h.bounded s.begun (Nat.le_refl _)).2 _ hmem rfl⟩,
        fun _ hslot => by cases hslot⟩
    · exact h.calls c x ((Function.update_of_ne hc ..).symm.trans hx)
  alone := h.alone
  bounded c hc := by
    obtain ⟨hnone, hpast⟩ := h.bounded c (Nat.le_of_succ_le hc)
    exact ⟨(Function.update_of_ne (Nat.ne_of_gt hc) ..).trans hnone, hpast⟩
  width := h.width
  turns := h.turns
  inTurn := h.inTurn
  counted := by
    refine Eq.trans ?_ h.counted
    exact congrArg (s.pool.started + ·) (countingBelow_succ (Phase.goes_call r).isCounting)

theorem Inv.begun (h : s.Inv count) {c : Nat} {x : CallState} (hc : s.calls c = some x) :
    c < s.begun := by
  by_contra hle
  rw [(h.bounded c (Nat.le_of_not_lt hle)).1] at hc
  cases hc

theorem Inv.fair (h : s.Inv count) {c : Nat} {q : CallStep} {a : q.Answer} {pool : Pool}
    {log : List (Exchange HostStep HostStep.Answer)}
    (hanswer : (Pool.answer q s.pool).Transcript log (a, pool))
    (hnew : ∀ p, q.event c a = .started c p → ∀ e ∈ s.past, e.process? ≠ some p) :
    Fair s.past (q.event c a) where
  entered c' slot w he := by
    cases q with
    | enter slot' =>
      cases he
      exact h.stored slot w (Pool.transcript_enter hanswer)
    | host step =>
      cases step with
      | start => cases a <;> cases he
      | send | receive => cases he
    | takeTurn | count | leave | abandon => cases he
  started c' p he := by
    cases q with
    | host step =>
      cases step with
      | start =>
        cases a with
        | ok p' =>
          cases he
          exact hnew p rfl
        | error => cases he
      | send | receive => cases he
    | takeTurn | enter | count | leave | abandon => cases he

theorem Inv.turn (h : s.Inv count) {c c' slot : Nat} {q : CallStep} {a : q.Answer} {pool : Pool}
    {log : List (Exchange HostStep HostStep.Answer)}
    (hanswer : (Pool.answer q s.pool).Transcript log (a, pool))
    (he : q.event c a = .turn c' slot) : slot = History.turns s.past % UInt64.size % max count 1 := by
  cases q with
  | takeTurn =>
    cases he
    rw [Pool.transcript_takeTurn hanswer, h.width, h.turns, UInt64.toNat_ofNat']
  | host step =>
    cases step with
    | start => cases a <;> cases he
    | send | receive => cases he
  | enter | count | leave | abandon => cases he

/-- An event of one call leaves the others where they are, if they keep their slots. -/
theorem Inv.others (h : s.Inv count) {e : PoolEvent} (hlegal : Legal s.past e) {c : Nat}
    {x : CallState} (hc : e.call ≠ c) (hx : s.calls c = some x) {holders : Nat → Option Nat}
    (hholders : ∀ slot, s.holders slot = some c → holders slot = some c) :
    ∃ ph : Phase, ph.Goes x.request x.rest ∧ ph.Fits (e :: s.past) c x.request ∧
      ph.Holds holders c := by
  obtain ⟨ph, hgoes, hfits, hholds⟩ := h.calls c x hx
  exact ⟨ph, hgoes, hfits.of_other hlegal hc, fun slot hslot => hholders slot (hholds slot hslot)⟩

/-- An event of a call that has begun is none of a call that has not. -/
theorem Inv.bounded_cons (h : s.Inv count) {c : Nat} (hc : c < s.begun) (x? : Option CallState)
    {e : PoolEvent} (he : e.call = c) :
    ∀ c', s.begun ≤ c' →
      Function.update s.calls c x? c' = none ∧ ∀ e' ∈ e :: s.past, e'.call ≠ c' := by
  intro c' hc'
  obtain ⟨hnone, hpast⟩ := h.bounded c' hc'
  have hne : c' ≠ c := (Nat.lt_of_lt_of_le hc hc').ne'
  refine ⟨(Function.update_of_ne hne ..).trans hnone, List.forall_mem_cons.2 ⟨?_, hpast⟩⟩
  rw [he]
  exact hne.symm

theorem Inv.ask (h : s.Inv count) {c : Nat} {r : Request} {q : CallStep}
    {next : q.Answer → Dialogue CallStep CallStep.Answer ToolAnswer} {a : q.Answer}
    {pool : Pool} {log : List (Exchange HostStep HostStep.Answer)}
    (hc : s.calls c = some ⟨r, .ask q next⟩)
    (hanswer : (Pool.answer q s.pool).Transcript log (a, pool))
    (hnew : ∀ p, q.event c a = .started c p → ∀ e ∈ s.past, e.process? ≠ some p)
    (hfree : ∀ slot, q = .enter slot → s.holders slot = none) :
    ({ s with
      pool
      holders := q.holders c s.holders
      calls := Function.update s.calls c (some ⟨r, next a⟩)
      past := q.event c a :: s.past } : PoolState).Inv count := by
  obtain ⟨ph, hgoes, hfits, hholds⟩ := h.calls c _ hc
  have hcounting := hgoes.isCounting
  cases hgoes with
  | @ask _ _ after _ hasks hnext =>
  have hfair := h.fair hanswer hnew
  obtain ⟨hlegal, hafter⟩ := hasks.fits h.lawful hfits a hfair
  obtain rfl := Pool.transcript_answer hanswer
  exact
    { lawful := ⟨hlegal, h.lawful⟩
      stored := hasks.stored h.stored hfits.place hlegal
      calls := by
        intro c' x hx
        by_cases hc' : c' = c
        · subst hc'
          cases (Function.update_self (f := s.calls) ..).symm.trans hx
          exact ⟨after a, hnext a, hafter, hasks.holds hholds⟩
        · refine h.others hlegal ?_ ((Function.update_of_ne hc' ..).symm.trans hx) fun slot =>
            hasks.holds_other hholds hfree hc'
          rw [CallStep.event_call]
          exact Ne.symm hc'
      alone := fun slot c' w hslot => hasks.alone hholds h.alone hslot
      bounded := h.bounded_cons (h.begun hc) _ (CallStep.event_call ..)
      width := (Pool.after_length s.pool q).trans h.width
      turns := hasks.turns h.turns
      inTurn := h.inTurn.cons fun c' slot he => h.turn hanswer he
      counted := by
        have hupdate := countingBelow_update s.calls (h.begun hc) (some ⟨r, next a⟩)
        rw [hc, Option.any_some, Option.any_some, hcounting, (hnext a).isCounting] at hupdate
        have hstarted : (s.pool.after q).started = s.pool.started + _ := hasks.started
        have haccepted := hasks.accepted (c := c) (a := a) h.lawful hfits.place
        have hcounted : s.pool.started + countingBelow s.calls s.begun = accepted s.past :=
          h.counted
        change (s.pool.after q).started +
          countingBelow (Function.update s.calls c (some ⟨r, next a⟩)) s.begun =
          accepted (q.event c a :: s.past)
        omega }

theorem Inv.drop (h : s.Inv count) {c : Nat} {r : Request} {q : CallStep}
    {next : q.Answer → Dialogue CallStep CallStep.Answer ToolAnswer}
    (hc : s.calls c = some ⟨r, .ask q next⟩) (hq : q.waits = true) :
    ({ s with
      holders := fun slot => if s.holders slot = some c then none else s.holders slot
      calls := Function.update s.calls c none
      past := .dropped c :: s.past } : PoolState).Inv count := by
  obtain ⟨ph, hgoes, hfits, -⟩ := h.calls c _ hc
  have hlegal : Legal s.past (.dropped c) := by
    cases hgoes with
    | ask hasks => exact hfits.stays hasks.not_ended
  exact
    { lawful := ⟨hlegal, h.lawful⟩
      stored := h.stored.cons hlegal fun _ _ he => by cases he
      calls := by
        intro c' x hx
        by_cases hc' : c' = c
        · subst hc'
          cases (Function.update_self (f := s.calls) ..).symm.trans hx
        · refine h.others hlegal (Ne.symm hc') ((Function.update_of_ne hc' ..).symm.trans hx)
            fun slot hheld => ?_
          exact (if_neg fun hdropped => hc' (Option.some.inj (hheld.symm.trans hdropped))).trans hheld
      alone := by
        intro slot c' w hslot
        change (if s.holders slot = some c then none else s.holders slot) = some c' at hslot
        split at hslot
        · cases hslot
        · exact h.alone slot c' w hslot
      bounded := h.bounded_cons (h.begun hc) none rfl
      width := h.width
      turns := h.turns
      inTurn := h.inTurn.cons fun _ _ he => by cases he
      counted := by
        have hupdate := countingBelow_update s.calls (h.begun hc) none
        have hcounting : (⟨r, .ask q next⟩ : CallState).isCounting = false := by
          cases q with
          | count => cases hq
          | takeTurn | enter | leave | abandon | host => rfl
        rw [hc, Option.any_some, hcounting] at hupdate
        exact (congrArg (s.pool.started + ·) hupdate).trans h.counted }

theorem Inv.step (h : s.Inv count) (hstep : s.Step t) : t.Inv count := by
  cases hstep with
  | start r => exact h.begin r
  | ask hc hfree hanswer hnew => exact h.ask hc hanswer hnew hfree
  | drop hc hq => exact h.drop hc hq

theorem Reachable.inv (h : Reachable count s) : s.Inv count := by
  induction h with
  | start => exact inv_ofCount count
  | step _ hstep ih => exact ih.step hstep

/-- What is safe about a shared pool. -/
structure Safe (count : Nat) (s : PoolState) : Prop where
  /-- A worker in a slot has answered all its requests, and has numbered them one after the
  other. -/
  stored : ∀ (i : Nat) (w : Worker), s.pool.slots[i]? = some (some w) →
    replies s.past w.process = requests s.past w.process ∧ w.next = requests s.past w.process + 1
  outstanding : ∀ p, requests s.past p ≤ replies s.past p + 1
  /-- A call ends with what its own reply means, or tells that there is none. -/
  answered : ∀ c r a, s.calls c = some ⟨r, .done a⟩ →
    (∃ reply, Answered s.past c r reply ∧ a = reply.answer r) ∨
      ∃ e : HostError, a = .error (.host e.message)
  /-- A spoilt process is in no slot and gets no requests. -/
  spoilt : ∀ later e front p, s.past = later ++ e :: front → Spoils front p e →
    (∀ c line result, .sent c p line result ∉ later) ∧
      ∀ (i : Nat) (w : Worker), s.pool.slots[i]? = some (some w) → w.process ≠ p
  /-- A call deals with a process while it has a slot for itself, and the slot is empty. -/
  alone : ∀ c r step next, s.calls c = some ⟨r, .ask (.host step) next⟩ →
    ∃ slot, s.holders slot = some c ∧ ∀ w : Worker, s.pool.slots[slot]? ≠ some (some w)
  /-- The workers that are counted are those that were found to be ready, but for those of calls
  that are about to count theirs. -/
  counted : s.pool.started + s.counting = accepted s.past
  settled : (∀ c x, s.calls c = some x → x.isCounting = false) →
    s.pool.started = accepted s.past
  inTurn : InTurn (max count 1) s.past

theorem counting_eq_zero (h : ∀ c x, s.calls c = some x → x.isCounting = false) :
    s.counting = 0 := by
  unfold counting countingBelow
  rw [Finset.card_eq_zero, Finset.filter_eq_empty_iff]
  intro c _ hc
  obtain ⟨x, hx, hcounting⟩ := (Option.any_eq_true _ _).1 hc
  rw [h c x hx] at hcounting
  cases hcounting

theorem Inv.safe (h : s.Inv count) : s.Safe count where
  stored i w hi := by
    obtain ⟨n, hn, hl⟩ := h.stored i w hi
    have ht := tally h.lawful w.process
    rw [hl] at ht
    refine ⟨?_, by rw [hn, ht.1]⟩
    unfold replies
    rw [ht.1, ht.2]
    rfl
  outstanding p := requests_le h.lawful p
  answered c r a hc := by
    obtain ⟨ph, hgoes, hfits, -⟩ := h.calls c _ hc
    cases hgoes
    exact hfits.place
  spoilt later e front p hpast hspoils := by
    have hlawful := h.lawful
    rw [hpast] at hlawful
    obtain ⟨hl, hsent⟩ := not_sent_of_spoils hlawful hspoils
    refine ⟨hsent, fun i w hi hw => ?_⟩
    obtain ⟨n, -, hstored⟩ := h.stored i w hi
    rw [hw, hpast, hl] at hstored
    cases hstored
  alone c r step next hc := by
    obtain ⟨ph, hgoes, -, hholds⟩ := h.calls c _ hc
    cases hgoes with
    | ask hasks =>
    obtain ⟨slot, hslot⟩ := hasks.slot?_of_host
    exact ⟨slot, hholds slot hslot, fun w => h.alone slot c w (hholds slot hslot)⟩
  counted := h.counted
  settled hsettled := by
    have hcounted := h.counted
    rwa [counting_eq_zero hsettled, Nat.add_zero] at hcounted
  inTurn := h.inTurn

end PoolState

end ComponentBuild
