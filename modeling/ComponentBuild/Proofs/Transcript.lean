import ComponentBuild.Compile.Preprocess

namespace ComponentBuild

/-- A question and its answer. -/
structure Exchange (Q : Type) (A : Q → Type) where
  question : Q
  answer : A question

namespace Dialogue

variable {Q : Type} {A : Q → Type} {α β : Type}

/-- The exchanges that lead to a result, for any answers the surroundings may give. -/
inductive Transcript : Dialogue Q A α → List (Exchange Q A) → α → Prop
  | done (a : α) : Transcript (.done a) [] a
  | ask {q : Q} {next : A q → Dialogue Q A α} {answer : A q} {log : List (Exchange Q A)} {a : α}
      (rest : Transcript (next answer) log a) :
      Transcript (.ask q next) (⟨q, answer⟩ :: log) a

@[simp] theorem transcript_done {a b : α} {log : List (Exchange Q A)} :
    (done a).Transcript log b ↔ log = [] ∧ b = a := by
  constructor
  · rintro ⟨⟩
    exact ⟨rfl, rfl⟩
  · rintro ⟨rfl, rfl⟩
    exact .done b

theorem transcript_bind {d : Dialogue Q A α} {f : α → Dialogue Q A β}
    {log : List (Exchange Q A)} {b : β} :
    (d.bind f).Transcript log b ↔
      ∃ a front back, log = front ++ back ∧ d.Transcript front a ∧ (f a).Transcript back b := by
  constructor
  · induction d generalizing log with
    | done a => exact fun h => ⟨a, [], log, rfl, .done a, h⟩
    | ask q next ih =>
      rintro ⟨⟩
      next log answer h =>
        obtain ⟨a, front, back, rfl, hfront, hback⟩ := ih answer h
        exact ⟨a, _ :: front, back, rfl, .ask hfront, hback⟩
  · rintro ⟨a, front, back, rfl, hfront, hback⟩
    induction hfront with
    | done a => exact hback
    | ask _ ih => exact .ask (ih hback)

/-- Of two courses of a dialogue neither goes on behind the end of the other. -/
theorem Transcript.eq_of_append {d : Dialogue Q A α} {log log' x y : List (Exchange Q A)}
    {a b : α} (h : d.Transcript log a) (h' : d.Transcript log' b) (he : log ++ x = log' ++ y) :
    log = log' ∧ a = b := by
  induction h generalizing log' with
  | done a =>
    obtain ⟨rfl, rfl⟩ := transcript_done.1 h'
    exact ⟨rfl, rfl⟩
  | ask _ ih =>
    cases h' with
    | ask hrest =>
      obtain ⟨hfirst, hothers⟩ := List.cons.inj he
      cases hfirst
      obtain ⟨rfl, rfl⟩ := ih hrest hothers
      exact ⟨rfl, rfl⟩

/-- Behind a course of its first part a dialogue goes on as its second part. -/
theorem transcript_bind_behind {d : Dialogue Q A α} {f : α → Dialogue Q A β}
    {log rest : List (Exchange Q A)} {a : α} {b : β} (h : d.Transcript log a) :
    (d.bind f).Transcript (log ++ rest) b ↔ (f a).Transcript rest b := by
  rw [transcript_bind]
  constructor
  · rintro ⟨a', front, back, he, hfront, hback⟩
    obtain ⟨rfl, rfl⟩ := h.eq_of_append hfront he
    rwa [List.append_cancel_left he]
  · intro hrest
    exact ⟨a, log, rest, rfl, h, hrest⟩

/-- All questions of a dialogue pass, whatever the answers are. -/
def All (P : Q → Prop) : Dialogue Q A α → Prop
  | done _ => True
  | ask q next => P q ∧ ∀ a, (next a).All P

theorem All.bind {P : Q → Prop} {d : Dialogue Q A α} {f : α → Dialogue Q A β} (h : d.All P)
    (hf : ∀ a, (f a).All P) : (d.bind f).All P := by
  induction d with
  | done a => exact hf a
  | ask q next ih => exact ⟨h.1, fun a => ih a (h.2 a)⟩

theorem All.translate {R : Type} {B : R → Type} {P : Q → Prop} {P' : R → Prop}
    {say : (q : Q) → Dialogue R B (A q)} {d : Dialogue Q A α} (h : d.All P)
    (hsay : ∀ q, P q → (say q).All P') : (d.translate say).All P' := by
  induction d with
  | done a => exact trivial
  | ask q next ih => exact (hsay q h.1).bind fun a => ih a (h.2 a)

theorem All.mono {P P' : Q → Prop} {d : Dialogue Q A α} (h : d.All P) (hP : ∀ q, P q → P' q) :
    d.All P' := by
  induction d with
  | done a => exact trivial
  | ask q next ih => exact ⟨hP q h.1, fun a => ih a (h.2 a)⟩

/-- What the answer to each question keeps, a whole dialogue keeps. -/
theorem All.run_keeps {σ : Type} {P : Q → Prop} {I : σ → Prop}
    {answer : (q : Q) → StateM σ (A q)} {d : Dialogue Q A α} {s : σ} (h : d.All P)
    (hstep : ∀ q, P q → ∀ s, I s → I (answer q s).2) (hs : I s) : I (d.run answer s).2 := by
  induction d generalizing s with
  | done a => exact hs
  | ask q next ih => exact ih (answer q s).1 (h.2 _) (hstep q h.1 s hs)

theorem translate_bind {R : Type} {B : R → Type} {say : (q : Q) → Dialogue R B (A q)}
    (d : Dialogue Q A α) (f : α → Dialogue Q A β) :
    (d.bind f).translate say = (d.translate say).bind fun a => (f a).translate say := by
  induction d with
  | done a => rfl
  | ask q next ih =>
    change (say q).bind (fun a => ((next a).bind f).translate say) = _
    simp only [ih]
    exact (bind_assoc ..).symm

theorem run_bind {m : Type → Type} [Monad m] [LawfulMonad m] (answer : (q : Q) → m (A q))
    (d : Dialogue Q A α) (f : α → Dialogue Q A β) :
    (d.bind f).run answer = d.run answer >>= fun a => (f a).run answer := by
  induction d with
  | done a => exact (LawfulMonad.pure_bind (m := m) a fun a => (f a).run answer).symm
  | ask q next ih =>
    change (answer q >>= fun a => ((next a).bind f).run answer) = _
    simp only [ih]
    exact (LawfulMonad.bind_assoc (m := m) ..).symm

theorem run_bind_state {σ : Type} (answer : (q : Q) → StateM σ (A q)) (d : Dialogue Q A α)
    (f : α → Dialogue Q A β) (s : σ) :
    (d.bind f).run answer s = (f (d.run answer s).1).run answer (d.run answer s).2 :=
  congrFun (run_bind answer d f) s

/-- The exchanges with surroundings that answer every question. -/
def log (answer : (q : Q) → A q) : Dialogue Q A α → List (Exchange Q A)
  | done _ => []
  | ask q next => ⟨q, answer q⟩ :: (next (answer q)).log answer

theorem transcript_log (answer : (q : Q) → A q) (d : Dialogue Q A α) :
    d.Transcript (d.log answer) (d.run (m := Id) answer) := by
  induction d with
  | done a => exact .done a
  | ask q next ih => exact .ask (ih (answer q))

theorem answer_of_mem_log {answer : (q : Q) → A q} {d : Dialogue Q A α} {x : Exchange Q A}
    (h : x ∈ d.log answer) : x.answer = answer x.question := by
  induction d with
  | done a => cases h
  | ask q next ih =>
    rcases List.mem_cons.1 h with rfl | h
    · rfl
    · exact ih (answer q) h

/-- Surroundings that answer every question lead a dialogue to its end. -/
theorem exists_transcript (answer : (q : Q) → A q) {d : Dialogue Q A α} {a : α}
    (h : d.run (m := Id) answer = a) : ∃ log, d.Transcript log a :=
  ⟨d.log answer, h ▸ transcript_log answer d⟩

theorem All.of_transcript {P : Q → Prop} {d : Dialogue Q A α} {log : List (Exchange Q A)} {a : α}
    (hd : d.All P) (h : d.Transcript log a) : ∀ x ∈ log, P x.question := by
  induction h with
  | done a => simp
  | ask _ ih =>
    intro x hx
    rcases List.mem_cons.1 hx with rfl | hx
    · exact hd.1
    · exact ih (hd.2 _) x hx

/-- What is asked in no course of a dialogue is not asked at all. -/
theorem all_of_transcripts {P : Q → Prop} {d : Dialogue Q A α} (hanswer : ∀ q, Nonempty (A q))
    (h : ∀ log a, d.Transcript log a → ∀ x ∈ log, P x.question) : d.All P := by
  induction d with
  | done a => exact trivial
  | ask q next ih =>
    have hlog (a : A q) : ∃ log b, (next a).Transcript log b :=
      let ⟨log, hrest⟩ := exists_transcript (fun q => Classical.choice (hanswer q)) rfl
      ⟨log, _, hrest⟩
    obtain ⟨a⟩ := hanswer q
    obtain ⟨log, b, hfirst⟩ := hlog a
    refine ⟨h _ _ (.ask hfirst) _ List.mem_cons_self, fun a => ih a fun log b hrest x hx => ?_⟩
    exact h _ _ (.ask hrest) x (List.mem_cons_of_mem _ hx)

end Dialogue

namespace Steps

variable {α β : Type} {log : List (Exchange Step Step.Answer)}

/-- The exchanges of steps that end with a result or a failure. -/
def Transcript (s : Steps α) (log : List (Exchange Step Step.Answer)) (r : Except Failure α) :
    Prop :=
  Dialogue.Transcript s.run log r

theorem transcript_bind {s : Steps α} {f : α → Steps β} {r : Except Failure β} :
    Transcript (s >>= f) log r ↔
      (∃ a front back, log = front ++ back ∧ Transcript s front (.ok a) ∧
        Transcript (f a) back r) ∨
      ∃ e, r = .error e ∧ Transcript s log (.error e) := by
  unfold Transcript
  rw [ExceptT.run_bind]
  simp only [Dialogue.bind_eq, Dialogue.transcript_bind]
  constructor
  · rintro ⟨x, front, back, hlog, hfront, hback⟩
    cases x with
    | ok a => exact .inl ⟨a, front, back, hlog, hfront, hback⟩
    | error e =>
      obtain ⟨rfl, rfl⟩ := Dialogue.transcript_done.1 hback
      exact .inr ⟨e, rfl, by rwa [hlog, List.append_nil]⟩
  · rintro (⟨a, front, back, hlog, hfront, hback⟩ | ⟨e, rfl, h⟩)
    · exact ⟨.ok a, front, back, hlog, hfront, hback⟩
    · exact ⟨.error e, log, [], (List.append_nil _).symm, h, .done _⟩

/-- Steps that come to a result have come to one all along. -/
theorem transcript_bind_ok {s : Steps α} {f : α → Steps β} {b : β} :
    Transcript (s >>= f) log (.ok b) ↔
      ∃ a front back, log = front ++ back ∧ Transcript s front (.ok a) ∧
        Transcript (f a) back (.ok b) := by
  rw [transcript_bind]
  constructor
  · rintro (h | ⟨e, he, -⟩)
    · exact h
    · cases he
  · exact .inl

@[simp] theorem transcript_pure {a : α} {r : Except Failure α} :
    Transcript (pure a) log r ↔ log = [] ∧ r = .ok a :=
  Dialogue.transcript_done

@[simp] theorem transcript_throw {e : Failure} {r : Except Failure α} :
    Transcript (throw e) log r ↔ log = [] ∧ r = .error e :=
  Dialogue.transcript_done

/-- Whether something fits is no question. -/
theorem transcript_checked {x : Checked α} {r : Except Failure α} :
    Transcript (checked x) log r ↔
      log = [] ∧ r = x.mapError fun _ => .abort .overflow := by
  cases x with
  | ok a => exact transcript_pure
  | error e => exact transcript_throw

/-- What is done with a result at the end asks nothing. -/
theorem transcript_bind_pure {s : Steps α} {g : α → β} {r : Except Failure β} :
    Transcript (s >>= fun a => pure (g a)) log r ↔ ∃ x, Transcript s log x ∧ r = x.map g := by
  rw [transcript_bind]
  constructor
  · rintro (⟨a, front, back, rfl, hfront, hback⟩ | ⟨e, rfl, h⟩)
    · obtain ⟨rfl, rfl⟩ := transcript_pure.1 hback
      exact ⟨.ok a, by rwa [List.append_nil], rfl⟩
    · exact ⟨.error e, h, rfl⟩
  · rintro ⟨a | a, h, rfl⟩
    · exact .inr ⟨a, rfl, h⟩
    · exact .inl ⟨a, log, [], (List.append_nil _).symm, h, transcript_pure.2 ⟨rfl, rfl⟩⟩

/-- A question of the surroundings never fails by itself. -/
theorem transcript_lift {q : Step} {r : Except Failure (Step.Answer q)} :
    Transcript (ExceptT.lift (Dialogue.question q)) log r ↔ ∃ a, r = .ok a ∧ log = [⟨q, a⟩] := by
  constructor
  · rintro ⟨⟩
    next _ answer h =>
      obtain ⟨rfl, rfl⟩ := Dialogue.transcript_done.1 h
      exact ⟨answer, rfl, rfl⟩
  · rintro ⟨a, rfl, rfl⟩
    exact .ask (.done _)

theorem transcript_lift_bind {q : Step} {f : Step.Answer q → Steps β} {r : Except Failure β} :
    Transcript (ExceptT.lift (Dialogue.question q) >>= f) log r ↔
      ∃ a back, log = ⟨q, a⟩ :: back ∧ Transcript (f a) back r := by
  rw [transcript_bind]
  constructor
  · rintro (⟨a, front, back, rfl, hfront, hback⟩ | ⟨e, -, h⟩)
    · obtain ⟨_, ⟨⟩, rfl⟩ := transcript_lift.1 hfront
      exact ⟨a, back, rfl, hback⟩
    · obtain ⟨_, ⟨⟩, -⟩ := transcript_lift.1 h
  · rintro ⟨a, back, rfl, hback⟩
    exact .inl ⟨a, [_], back, rfl, transcript_lift.2 ⟨a, rfl, rfl⟩, hback⟩

/-- A call ends with what the tool answers, or with the failure that its error means. -/
theorem transcript_call {request : Request} {fail : ToolError → Failure}
    {r : Except Failure ToolOutput} :
    Transcript (call request fail) log r ↔
      ∃ answer : ToolAnswer, log = [⟨.call request, answer⟩] ∧ r = answer.mapError fail := by
  unfold call
  rw [transcript_bind]
  constructor
  · rintro (⟨answer, front, back, rfl, hfront, hback⟩ | ⟨e, -, h⟩)
    · obtain ⟨_, ⟨⟩, rfl⟩ := transcript_lift.1 hfront
      refine ⟨answer, ?_⟩
      cases answer with
      | ok output =>
        obtain ⟨rfl, rfl⟩ := transcript_pure.1 hback
        exact ⟨rfl, rfl⟩
      | error e =>
        obtain ⟨rfl, rfl⟩ := transcript_throw.1 hback
        exact ⟨rfl, rfl⟩
    · obtain ⟨_, ⟨⟩, -⟩ := transcript_lift.1 h
  · rintro ⟨answer, rfl, rfl⟩
    refine .inl ⟨answer, _, [], (List.append_nil _).symm, transcript_lift.2 ⟨answer, rfl, rfl⟩, ?_⟩
    cases answer with
    | ok output => exact transcript_pure.2 ⟨rfl, rfl⟩
    | error e => exact transcript_throw.2 ⟨rfl, rfl⟩

theorem transcript_call_ok {request : Request} {fail : ToolError → Failure}
    {output : ToolOutput} :
    Transcript (call request fail) log (.ok output) ↔
      log = [⟨.call request, (.ok output : ToolAnswer)⟩] := by
  rw [transcript_call]
  constructor
  · rintro ⟨answer, rfl, h⟩
    cases answer with
    | ok o =>
      cases h
      rfl
    | error e => cases h
  · rintro rfl
    exact ⟨.ok output, rfl, rfl⟩

/-- Steps that start with a call go on with what the tool has made, or end with its failure. -/
theorem transcript_call_bind {request : Request} {fail : ToolError → Failure}
    {f : ToolOutput → Steps α} {r : Except Failure α}
    (h : Transcript (call request fail >>= f) log r) :
    (∃ output back, log = ⟨.call request, (.ok output : ToolAnswer)⟩ :: back ∧
      Transcript (f output) back r) ∨
    ∃ e, log = [⟨.call request, (.error e : ToolAnswer)⟩] ∧ r = .error (fail e) := by
  rcases transcript_bind.1 h with ⟨output, front, back, rfl, hfront, hback⟩ | ⟨failure, rfl, hcall⟩
  · obtain rfl := transcript_call_ok.1 hfront
    exact .inl ⟨output, back, rfl, hback⟩
  · obtain ⟨answer, rfl, hr⟩ := transcript_call.1 hcall
    cases answer with
    | ok output => cases hr
    | error e => exact .inr ⟨e, rfl, congrArg _ (Except.error.inj hr)⟩

end Steps

end ComponentBuild
