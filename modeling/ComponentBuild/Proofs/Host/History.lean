import ComponentBuild.Host.Pool
import Mathlib.Data.List.Basic

namespace ComponentBuild

/-- What a call did, or that it was dropped. -/
inductive PoolEvent where
  | turn (call slot : Nat)
  | entered (call slot : Nat) (worker? : Option Worker)
  | started (call : Nat) (p : Process)
  | notStarted (call : Nat)
  | received (call : Nat) (p : Process) (x : Received)
  | counted (call : Nat)
  | sent (call : Nat) (p : Process) (line : String) (result : Except String Unit)
  | left (call slot : Nat) (worker : Worker)
  | abandoned (call slot : Nat)
  | dropped (call : Nat)

namespace PoolEvent

def call : PoolEvent → Nat
  | turn c _ | entered c _ _ | started c _ | notStarted c | received c _ _ | counted c
  | sent c _ _ _ | left c _ _ | abandoned c _ | dropped c => c

/-- The process that an event is about. -/
def process? : PoolEvent → Option Process
  | entered _ _ w? => w?.map Worker.process
  | started _ p | received _ p _ | sent _ p _ _ => some p
  | left _ _ w => some w.process
  | turn .. | notStarted _ | counted _ | abandoned .. | dropped _ => none

def isTurn : PoolEvent → Bool
  | turn .. => true
  | _ => false

def isRequestTo (p : Process) : PoolEvent → Bool
  | sent _ q _ _ => q == p
  | _ => false

def isLineFrom (p : Process) : PoolEvent → Bool
  | received _ q (.line _) => q == p
  | _ => false

end PoolEvent

namespace History

/-- How many requests a process was sent. -/
def requests (past : List PoolEvent) (p : Process) : Nat := past.countP (·.isRequestTo p)

/-- How many lines of a process were read. -/
def lines (past : List PoolEvent) (p : Process) : Nat := past.countP (·.isLineFrom p)

/-- How many replies of a process were read: its first line is none. -/
def replies (past : List PoolEvent) (p : Process) : Nat := lines past p - 1

/-- How many calls have taken their turn. -/
def turns (past : List PoolEvent) : Nat := past.countP (·.isTurn)

/-- Whether a process tells that it is ready. -/
def isReady : Received → Bool
  | .line text => readyLine? text == some true
  | _ => false

/-- Whether what came is a reply to the request of a number, and not a fatal one. -/
def repliesTo (id : Nat) : Received → Bool
  | .line text =>
    match Reply.parse? text with
    | some reply => reply.fatal?.isNone && reply.id? == some id
    | none => false
  | _ => false

/-- Whether what came from a process is what had to come: that it is ready, or a reply to its last
request. -/
def isExpected (past : List PoolEvent) (p : Process) (x : Received) : Bool :=
  if lines past p = 0 then isReady x else repliesTo (requests past p) x

/-- How many processes were found to be ready. -/
def accepted : List PoolEvent → Nat
  | [] => 0
  | .received _ p x :: past =>
    accepted past + if lines past p = 0 ∧ isReady x = true then 1 else 0
  | _ :: past => accepted past

/-- An event that ends the use of a process: it could not be sent a request, something else came
than had to come, or a call that dealt with it was dropped. -/
def Spoils (past : List PoolEvent) (p : Process) : PoolEvent → Prop
  | .sent _ q _ (.error _) => q = p
  | .received _ q x => q = p ∧ isExpected past p x = false
  | .dropped c => ∃ e ∈ past, e.call = c ∧ e.process? = some p
  | _ => False

/-- Where a process is: in the hands of a call, in a slot, or spoilt. The numbers are those of the
replies that were read from it. -/
inductive Life where
  | unborn
  | starting (call : Nat)
  | held (call count : Nat)
  | asked (call count : Nat)
  | stored (slot count : Nat)
  | spoilt
  deriving DecidableEq

namespace Life

/-- The call that has the process. -/
def call? : Life → Option Nat
  | starting c | held c _ | asked c _ => some c
  | unborn | stored .. | spoilt => none

def receive (x : Received) : Life → Life
  | starting c => if isReady x then held c 0 else spoilt
  | asked c n => if repliesTo (n + 1) x then held c (n + 1) else spoilt
  | l => l

def send : Except String Unit → Life → Life
  | .ok _, held c n => asked c n
  | .error _, held _ _ => spoilt
  | _, l => l

def drop (c : Nat) (l : Life) : Life := if l.call? = some c then spoilt else l

def take (c : Nat) : Life → Life
  | stored _ n => held c n
  | l => l

def leave (slot : Nat) : Life → Life
  | held _ n => stored slot n
  | l => l

/-- Where a process is after an event. -/
def after (p : Process) (l : Life) : PoolEvent → Life
  | .started c q => if q = p then starting c else l
  | .received _ q x => if q = p then l.receive x else l
  | .sent _ q _ result => if q = p then l.send result else l
  | .entered c _ (some w) => if w.process = p then l.take c else l
  | .left _ slot w => if w.process = p then l.leave slot else l
  | .dropped c => l.drop c
  | _ => l

end Life

def life : List PoolEvent → Process → Life
  | [], _ => .unborn
  | e :: past, p => (life past p).after p e

/-- What has to be so for an event to happen. -/
def Legal (past : List PoolEvent) : PoolEvent → Prop
  | .started _ p => ∀ e ∈ past, e.process? ≠ some p
  | .received c p _ => life past p = .starting c ∨ ∃ n, life past p = .asked c n
  | .sent c p _ _ => ∃ n, life past p = .held c n
  | .entered _ slot (some w) => ∃ n, life past w.process = .stored slot n
  | .left c _ w => ∃ n, life past w.process = .held c n
  | .dropped c => ∀ slot w, .left c slot w ∉ past
  | _ => True

/-- A history all of whose events could happen. -/
def Lawful : List PoolEvent → Prop
  | [] => True
  | e :: past => Legal past e ∧ Lawful past

variable {past : List PoolEvent} {p : Process} {e : PoolEvent}

@[simp] theorem life_nil : life [] p = .unborn := rfl

@[simp] theorem life_cons : life (e :: past) p = (life past p).after p e := rfl

namespace Life

variable {l : Life} {c slot n : Nat}

@[simp] theorem receive_starting (x : Received) :
    (starting c).receive x = if isReady x then held c 0 else spoilt := rfl

@[simp] theorem receive_asked (x : Received) :
    (asked c n).receive x = if repliesTo (n + 1) x then held c (n + 1) else spoilt := rfl

@[simp] theorem after_started : l.after p (.started c p) = starting c := if_pos rfl

@[simp] theorem after_received (x : Received) : l.after p (.received c p x) = l.receive x :=
  if_pos rfl

@[simp] theorem after_sent (line : String) (result : Except String Unit) :
    l.after p (.sent c p line result) = l.send result := if_pos rfl

@[simp] theorem after_entered (w : Worker) :
    l.after w.process (.entered c slot (some w)) = l.take c := if_pos rfl

@[simp] theorem after_left (w : Worker) : l.after w.process (.left c slot w) = l.leave slot :=
  if_pos rfl

/-- An event about no process, or about another one, moves a process only if its call is dropped
by it. -/
theorem after_of_ne (h : e.process? ≠ some p) :
    l.after p e = l ∨ ∃ c, e = .dropped c ∧ l.call? = some c ∧ l.after p e = spoilt := by
  cases e with
  | started c q | received c q x | sent c q line result | left c slot w =>
    exact .inl (if_neg fun hq => h (congrArg some hq))
  | entered c slot w? =>
    cases w? with
    | none => exact .inl rfl
    | some w => exact .inl (if_neg fun hq => h (congrArg some hq))
  | dropped c =>
    by_cases hc : l.call? = some c
    · exact .inr ⟨c, rfl, hc, if_pos hc⟩
    · exact .inl (if_neg hc)
  | turn | notStarted | counted | abandoned => exact .inl rfl

end Life

theorem life_of_untouched (h : ∀ e ∈ past, e.process? ≠ some p) : life past p = .unborn := by
  induction past with
  | nil => rfl
  | cons e past ih =>
    obtain ⟨he, hpast⟩ := List.forall_mem_cons.1 h
    rw [life_cons, ih hpast]
    rcases Life.after_of_ne (l := .unborn) he with h | ⟨_, _, ⟨⟩, _⟩
    exact h

/-- The counts that go with a place. -/
def Tally (requests lines : Nat) : Life → Prop
  | .unborn | .starting _ => requests = 0 ∧ lines = 0
  | .held _ n | .stored _ n => requests = n ∧ lines = n + 1
  | .asked _ n => requests = n + 1 ∧ lines = n + 1
  | .spoilt => requests ≤ lines - 1 + 1

theorem Tally.to_spoilt {r n : Nat} {l : Life} (h : Tally r n l) : Tally r n .spoilt := by
  cases l with
  | unborn | starting | held | asked | stored =>
    obtain ⟨hr, hn⟩ := h
    change r ≤ n - 1 + 1
    omega
  | spoilt => exact h

theorem requests_cons : requests (e :: past) p =
    requests past p + if e.isRequestTo p then 1 else 0 := List.countP_cons

theorem lines_cons : lines (e :: past) p =
    lines past p + if e.isLineFrom p then 1 else 0 := List.countP_cons

theorem requests_cons_of_ne (h : e.process? ≠ some p) :
    requests (e :: past) p = requests past p := by
  rw [requests_cons, if_neg, Nat.add_zero]
  cases e with
  | sent c q line result =>
    intro hq
    exact h (congrArg some (eq_of_beq hq))
  | _ => exact Bool.false_ne_true

theorem lines_cons_of_ne (h : e.process? ≠ some p) : lines (e :: past) p = lines past p := by
  rw [lines_cons, if_neg, Nat.add_zero]
  cases e with
  | received c q x =>
    cases x with
    | line text =>
      intro hq
      exact h (congrArg some (eq_of_beq hq))
    | ended | broken => exact Bool.false_ne_true
  | _ => exact Bool.false_ne_true

theorem isLineFrom_of_isReady {c : Nat} {x : Received} (h : isReady x = true) :
    (PoolEvent.received c p x).isLineFrom p = true := by
  cases x with
  | line text => exact beq_self_eq_true p
  | ended | broken => cases h

theorem isLineFrom_of_repliesTo {c n : Nat} {x : Received} (h : repliesTo n x = true) :
    (PoolEvent.received c p x).isLineFrom p = true := by
  cases x with
  | line text => exact beq_self_eq_true p
  | ended | broken => cases h

/-- A line is read from a process that starts or was asked. -/
theorem tally_received {c : Nat} {x : Received} {r n : Nat} {l : Life}
    (hlegal : l = .starting c ∨ ∃ k, l = .asked c k) (h : Tally r n l) :
    Tally r (n + if (PoolEvent.received c p x).isLineFrom p then 1 else 0) (l.receive x) := by
  rcases hlegal with rfl | ⟨k, rfl⟩
  · obtain ⟨rfl, rfl⟩ := h
    rw [Life.receive_starting]
    by_cases hx : isReady x = true
    · rw [if_pos hx, if_pos (isLineFrom_of_isReady hx)]
      exact ⟨rfl, rfl⟩
    · rw [if_neg hx]
      exact Nat.zero_le _
  · obtain ⟨rfl, rfl⟩ := h
    rw [Life.receive_asked]
    by_cases hx : repliesTo (k + 1) x = true
    · rw [if_pos hx, if_pos (isLineFrom_of_repliesTo hx)]
      exact ⟨rfl, rfl⟩
    · rw [if_neg hx]
      change k + 1 ≤ _ - 1 + 1
      omega

theorem tally_sent {c : Nat} {line : String} {result : Except String Unit} {r n k : Nat}
    (h : Tally r n (.held c k)) :
    Tally (r + if (PoolEvent.sent c p line result).isRequestTo p then 1 else 0) n
      ((Life.held c k).send result) := by
  obtain ⟨rfl, rfl⟩ := h
  have hrequest : (PoolEvent.sent c p line result).isRequestTo p = true := beq_self_eq_true p
  rw [if_pos hrequest]
  cases result with
  | ok => exact ⟨rfl, rfl⟩
  | error => exact Nat.le_refl _

/-- The requests and replies of a process take turns. -/
theorem tally (h : Lawful past) (p : Process) :
    Tally (requests past p) (lines past p) (life past p) := by
  induction past with
  | nil => exact ⟨rfl, rfl⟩
  | cons e past ih =>
    obtain ⟨hlegal, hpast⟩ := h
    have ih := ih hpast
    by_cases he : e.process? = some p
    · rw [requests_cons, lines_cons, life_cons]
      cases e with
      | started c q =>
        cases he
        rw [life_of_untouched hlegal] at ih
        rw [Life.after_started]
        exact ih
      | received c q x =>
        cases he
        rw [Life.after_received]
        exact tally_received hlegal ih
      | sent c q line result =>
        cases he
        obtain ⟨n, hn⟩ := hlegal
        rw [hn] at ih
        rw [Life.after_sent, hn]
        exact tally_sent ih
      | entered c slot w? =>
        cases w? with
        | none => cases he
        | some w =>
          cases he
          obtain ⟨n, hn⟩ := hlegal
          rw [hn] at ih
          rw [Life.after_entered, hn]
          exact ih
      | left c slot w =>
        cases he
        obtain ⟨n, hn⟩ := hlegal
        rw [hn] at ih
        rw [Life.after_left, hn]
        exact ih
      | turn | notStarted | counted | abandoned | dropped => cases he
    · rw [requests_cons_of_ne he, lines_cons_of_ne he, life_cons]
      rcases Life.after_of_ne he with h | ⟨_, _, _, h⟩
      · rw [h]
        exact ih
      · rw [h]
        exact ih.to_spoilt

/-- At most one request to a process has no reply. -/
theorem requests_le (h : Lawful past) (p : Process) : requests past p ≤ replies past p + 1 := by
  have ht := tally h p
  unfold replies
  cases hl : life past p with
  | unborn | starting | held | asked | stored =>
    rw [hl] at ht
    obtain ⟨hr, hn⟩ := ht
    omega
  | spoilt =>
    rw [hl] at ht
    exact ht

/-- An event about a process finds it in the hands of its call, but for one that starts it or takes
it out of a slot. -/
theorem Legal.call (h : Legal past e) (he : e.process? = some p) :
    life past p = .unborn ∨
      (∃ slot n w, life past p = .stored slot n ∧ e = .entered e.call slot (some w) ∧
        w.process = p) ∨
      (life past p).call? = some e.call := by
  cases e with
  | started c q =>
    cases he
    exact .inl (life_of_untouched h)
  | received c q x =>
    cases he
    rcases h with h | ⟨n, h⟩ <;> exact .inr (.inr (by rw [h]; rfl))
  | sent c q line result =>
    cases he
    obtain ⟨n, h⟩ := h
    exact .inr (.inr (by rw [h]; rfl))
  | entered c slot w? =>
    cases w? with
    | none => cases he
    | some w =>
      cases he
      obtain ⟨n, h⟩ := h
      exact .inr (.inl ⟨slot, n, w, h, rfl, rfl⟩)
  | left c slot w =>
    cases he
    obtain ⟨n, h⟩ := h
    exact .inr (.inr (by rw [h]; rfl))
  | turn | notStarted | counted | abandoned | dropped => cases he

/-- An event about a process leaves it in the hands of its call, but for one that puts it into a
slot. -/
theorem Legal.call_after (h : Legal past e) (he : e.process? = some p) :
    life (e :: past) p = .spoilt ∨ (life (e :: past) p).call? = some e.call ∨
      ∃ slot w, e = .left e.call slot w := by
  rw [life_cons]
  cases e with
  | started c q =>
    cases he
    exact .inr (.inl (by rw [Life.after_started]; rfl))
  | received c q x =>
    cases he
    rw [Life.after_received]
    rcases h with h | ⟨n, h⟩
    · rw [h, Life.receive_starting]
      split
      · exact .inr (.inl rfl)
      · exact .inl rfl
    · rw [h, Life.receive_asked]
      split
      · exact .inr (.inl rfl)
      · exact .inl rfl
  | sent c q line result =>
    cases he
    obtain ⟨n, h⟩ := h
    rw [Life.after_sent, h]
    cases result with
    | ok => exact .inr (.inl rfl)
    | error => exact .inl rfl
  | entered c slot w? =>
    cases w? with
    | none => cases he
    | some w =>
      cases he
      obtain ⟨n, h⟩ := h
      rw [Life.after_entered, h]
      exact .inr (.inl rfl)
  | left c slot w => exact .inr (.inr ⟨slot, w, rfl⟩)
  | turn | notStarted | counted | abandoned | dropped => cases he

/-- What another call does leaves a process in the hands of the call that has it. -/
theorem Legal.of_other {c : Nat} (h : Legal past e) (hc : e.call ≠ c)
    (hp : (life past p).call? = some c) :
    e.process? ≠ some p ∧ life (e :: past) p = life past p := by
  have he : e.process? ≠ some p := by
    intro he
    rcases h.call he with hl | ⟨slot, n, w, hl, -⟩ | hl
    · rw [hl] at hp
      cases hp
    · rw [hl] at hp
      cases hp
    · exact hc (Option.some.inj (hl.symm.trans hp))
  refine ⟨he, ?_⟩
  rcases Life.after_of_ne (l := life past p) he with hl | ⟨_, rfl, hl, _⟩
  · exact hl
  · exact absurd (Option.some.inj (hl.symm.trans hp)) hc

/-- A process in a slot stays there until it is taken out. -/
theorem Legal.of_stored {slot n : Nat} (h : Legal past e) (hp : life past p = .stored slot n)
    (hstays : ∀ w, w.process = p → e ≠ .entered e.call slot (some w)) :
    life (e :: past) p = .stored slot n := by
  by_cases he : e.process? = some p
  · rcases h.call he with hl | ⟨slot', n', w, hl, hw, hwp⟩ | hl
    · cases hp.symm.trans hl
    · cases hp.symm.trans hl
      exact absurd hw (hstays w hwp)
    · rw [hp] at hl
      cases hl
  · rw [life_cons, hp]
    rcases Life.after_of_ne (l := .stored slot n) he with hl | ⟨_, _, hl, _⟩
    · exact hl
    · cases hl

/-- A process stays spoilt. -/
theorem spoilt_cons (h : Legal past e) (hp : life past p = .spoilt) :
    life (e :: past) p = .spoilt := by
  by_cases he : e.process? = some p
  · rcases h.call he with hl | ⟨slot, n, w, hl, -⟩ | hl
    · cases hp.symm.trans hl
    · cases hp.symm.trans hl
    · rw [hp] at hl
      cases hl
  · rw [life_cons, hp]
    rcases Life.after_of_ne (l := .spoilt) he with hl | ⟨_, _, _, hl⟩ <;> exact hl

/-- A process that a call has dealt with is in its hands, unless the call has left its slot or the
process is spoilt. -/
theorem touched (h : Lawful past) {e : PoolEvent} (he : e ∈ past) (hp : e.process? = some p) :
    life past p = .spoilt ∨ (life past p).call? = some e.call ∨
      ∃ slot w, .left e.call slot w ∈ past := by
  induction past with
  | nil => cases he
  | cons last past ih =>
    obtain ⟨hlegal, hpast⟩ := h
    rcases List.mem_cons.1 he with rfl | he
    · rcases hlegal.call_after hp with hl | hl | ⟨slot, w, hl⟩
      · exact .inl hl
      · exact .inr (.inl hl)
      · exact .inr (.inr ⟨slot, w, List.mem_cons.2 (.inl hl.symm)⟩)
    rcases ih hpast he with hl | hl | ⟨slot, w, hl⟩
    · exact .inl (spoilt_cons hlegal hl)
    · by_cases hlast : last.process? = some p
      · have hcall : last.call = e.call := by
          rcases hlegal.call hlast with hl' | ⟨slot, n, w, hl', -⟩ | hl'
          · rw [hl'] at hl
            cases hl
          · rw [hl'] at hl
            cases hl
          · exact Option.some.inj (hl'.symm.trans hl)
        rw [← hcall]
        rcases hlegal.call_after hlast with hl | hl | ⟨slot, w, hl⟩
        · exact .inl hl
        · exact .inr (.inl hl)
        · exact .inr (.inr ⟨slot, w, List.mem_cons.2 (.inl hl.symm)⟩)
      · rw [life_cons]
        rcases Life.after_of_ne hlast with hl' | ⟨_, _, _, hl'⟩
        · rw [hl']
          exact .inr (.inl hl)
        · exact .inl hl'
    · exact .inr (.inr ⟨slot, w, List.mem_cons_of_mem _ hl⟩)

/-- An event that spoils a process leaves it spoilt. -/
theorem spoilt_of_spoils (h : Lawful (e :: past)) (hp : Spoils past p e) :
    life (e :: past) p = .spoilt := by
  obtain ⟨hlegal, hpast⟩ := h
  rw [life_cons]
  cases e with
  | sent c q line result =>
    cases result with
    | ok => cases hp
    | error cause =>
      cases hp
      obtain ⟨n, hn⟩ := hlegal
      rw [Life.after_sent, hn]
      rfl
  | received c q x =>
    obtain ⟨rfl, hx⟩ := hp
    have ht := tally hpast q
    rw [Life.after_received]
    unfold isExpected at hx
    rcases hlegal with hl | ⟨n, hl⟩
    · rw [hl] at ht ⊢
      rw [if_pos ht.2] at hx
      rw [Life.receive_starting, hx]
      rfl
    · rw [hl] at ht ⊢
      rw [ht.1, ht.2, if_neg (Nat.succ_ne_zero n)] at hx
      rw [Life.receive_asked, hx]
      rfl
  | dropped c =>
    obtain ⟨e, he, rfl, hp⟩ := hp
    change (life past p).drop e.call = .spoilt
    unfold Life.drop
    rcases touched hpast he hp with hl | hl | ⟨slot, w, hl⟩
    · rw [hl]
      exact ite_self _
    · exact if_pos hl
    · exact absurd hl (hlegal slot w)
  | turn | entered | started | notStarted | counted | left | abandoned => cases hp

/-- A process that something has spoilt is not sent a request later. -/
theorem not_sent_of_spoils {later front : List PoolEvent} (h : Lawful (later ++ e :: front))
    (hp : Spoils front p e) :
    life (later ++ e :: front) p = .spoilt ∧
      ∀ c line result, .sent c p line result ∉ later := by
  induction later with
  | nil => exact ⟨spoilt_of_spoils h hp, fun _ _ _ => List.not_mem_nil⟩
  | cons last later ih =>
    obtain ⟨hlegal, hpast⟩ := h
    obtain ⟨hl, hsent⟩ := ih hpast
    refine ⟨spoilt_cons hlegal hl, fun c line result hmem => ?_⟩
    rcases List.mem_cons.1 hmem with rfl | hmem
    · obtain ⟨n, hn⟩ := hlegal
      cases hl.symm.trans hn
    · exact hsent c line result hmem

end History

end ComponentBuild
