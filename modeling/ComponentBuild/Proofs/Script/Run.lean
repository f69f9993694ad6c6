import ComponentBuild.Script.Parse
import Mathlib

namespace ComponentBuild.Script

namespace State

/-- The state behind the current token. -/
def next (s : State) : State :=
  let lexed := nextToken s.typescript false s.token.stop s.rest
  { s with
    token := lexed.token
    rest := lexed.rest
    previous := ⟨s.token.start, s.token.stop⟩
    faults := if s.muted then s.faults else lexed.faults.reverse ++ s.faults }

/-- The state in another context. -/
def inContext (s : State) (c : Context) : State := { s with context := c }

/-- The state with the offset an arrow function could start at. -/
def marked (s : State) (start : Nat) : State := { s with arrowStart? := some start }

section Fields

variable (s : State) (c d : Context) (start : Nat)

@[simp] theorem inContext_token : (s.inContext c).token = s.token := rfl

@[simp] theorem inContext_context : (s.inContext c).context = c := rfl

@[simp] theorem inContext_typescript : (s.inContext c).typescript = s.typescript := rfl

@[simp] theorem inContext_next : (s.inContext c).next = s.next.inContext c := rfl

@[simp] theorem inContext_inContext : (s.inContext c).inContext d = s.inContext d := rfl

@[simp] theorem inContext_marked :
    (s.inContext c).marked start = (s.marked start).inContext c := rfl

@[simp] theorem marked_token : (s.marked start).token = s.token := rfl

@[simp] theorem marked_context : (s.marked start).context = s.context := rfl

@[simp] theorem marked_next : (s.marked start).next = s.next.marked start := rfl

@[simp] theorem next_context : s.next.context = s.context := rfl

@[simp] theorem next_typescript : s.next.typescript = s.typescript := rfl

variable {s c} in
theorem inContext_of_context (h : s.context = c) : s.inContext c = s := by
  subst h
  rfl

@[simp] theorem inContext_bound : (s.inContext c).bound = s.bound := rfl

@[simp] theorem next_bound : s.next.bound = s.bound := rfl

end Fields

/-- Outside of classes and generators, and with nothing to answer for. -/
structure IsPlain (s : State) : Prop where
  field : s.context.inClassField = false
  generator : s.context.inGenerator = false
  strays : s.strayDefaults = []
  bound : s.bound ≠ 0

namespace IsPlain

variable {s : State} (h : s.IsPlain)

include h

theorem next : s.next.IsPlain := ⟨h.field, h.generator, h.strays, h.bound⟩

theorem marked (start : Nat) : (s.marked start).IsPlain := ⟨h.field, h.generator, h.strays, h.bound⟩

theorem inContext {c : Context} (hfield : c.inClassField = s.context.inClassField)
    (hgenerator : c.inGenerator = s.context.inGenerator) : (s.inContext c).IsPlain :=
  ⟨hfield.trans h.field, hgenerator.trans h.generator, h.strays, h.bound⟩

end IsPlain

end State

section Run

variable {α β : Type} (s : State)

@[simp] theorem bind_run (p : P α) (f : α → P β) :
    (p >>= f) s = match p s with
      | .ok a t => f a t
      | .error e t => .error e t := by
  show EStateM.bind p f s = _
  unfold EStateM.bind
  cases p s <;> rfl

@[simp] theorem map_run (p : P α) (f : α → β) :
    (f <$> p) s = match p s with
      | .ok a t => .ok (f a) t
      | .error e t => .error e t := by
  show EStateM.map f p s = _
  unfold EStateM.map
  cases p s <;> rfl

@[simp] theorem discard_run (p : P α) :
    discard p s = match p s with
      | .ok _ t => .ok () t
      | .error e t => .error e t :=
  map_run s p _

@[simp] theorem pure_run (a : α) : (pure a : P α) s = .ok a s := rfl

@[simp] theorem get_run : (get : P State) s = .ok s s := rfl

@[simp] theorem modify_run (f : State → State) : (modify f : P Unit) s = .ok () (f s) := rfl

@[simp] theorem bump_run : bump s = .ok () s.next := rfl

@[simp] theorem current_run : current s = .ok s.token s := rfl

@[simp] theorem currentKind_run : currentKind s = .ok s.token.kind s := rfl

@[simp] theorem offset_run : offset s = .ok s.token.start s := rfl

@[simp] theorem context_run : context s = .ok s.context s := rfl

@[simp] theorem previousSpan_run : previousSpan s = .ok s.previous s := rfl

@[simp] theorem afterBreak_run : afterBreak s = .ok s.token.afterBreak s := rfl

@[simp] theorem isTypescript_run : isTypescript s = .ok s.typescript s := rfl

@[simp] theorem peek_run : peek s = .ok s.next.token s := rfl

@[simp] theorem peekIsWord_run (w : Word) :
    peekIsWord w s = .ok (s.next.token.kind == .word w) s := rfl

@[simp] theorem peekIsMark_run (m : Mark) :
    peekIsMark m s = .ok (s.next.token.kind == .mark m) s := rfl

@[simp] theorem isKind_run (kind : TokenKind) : isKind kind s = .ok (s.token.kind == kind) s := rfl

@[simp] theorem isMark_run (m : Mark) : isMark m s = .ok (s.token.kind == .mark m) s := rfl

@[simp] theorem isWord_run (w : Word) : isWord w s = .ok (s.token.kind == .word w) s := rfl

@[simp] theorem isEnd_run : isEnd s = .ok (s.token.kind == .endOfText) s := rfl

@[simp] theorem isVariable_run : isVariable s = .ok s.token.kind.isVariable s := rfl

@[simp] theorem eatKind_run (kind : TokenKind) :
    eatKind kind s = if s.token.kind = kind then .ok true s.next else .ok false s := by
  by_cases h : s.token.kind = kind <;> simp [eatKind, h]

@[simp] theorem eatMark_run (m : Mark) :
    eatMark m s = if s.token.kind = .mark m then .ok true s.next else .ok false s :=
  eatKind_run s _

@[simp] theorem eatWord_run (w : Word) :
    eatWord w s = if s.token.kind = .word w then .ok true s.next else .ok false s :=
  eatKind_run s _

@[simp] theorem within_run (change : Context → Context) (p : P α) :
    within change p s = match p (s.inContext (change s.context)) with
      | .ok a t => .ok a (t.inContext s.context)
      | .error e t => .error e (t.inContext s.context) := rfl

variable {s}

theorem expectKind_run {kind : TokenKind} (h : s.token.kind = kind) :
    expectKind kind s = .ok () s.next := by
  simp [expectKind, h]

theorem settle_run {p : P α} {a : α} {t : State} (h : p s = .ok a t) :
    settle p s = .ok (.ok a) t := by
  rw [settle, h]

theorem repeatFrom_run {start : β} {step : β → P (Turn β α)} (hbound : s.bound ≠ 0) :
    repeatFrom start step s = match step start s with
      | .ok (.again b) t => iterate step (s.bound - 1) b t
      | .ok (.done a) t => .ok a t
      | .error e t => .error e t := by
  obtain ⟨n, hn⟩ := Nat.exists_eq_succ_of_ne_zero hbound
  rw [repeatFrom, bind_run, get_run]
  simp only [hn, iterate, bind_run, Nat.succ_sub_one]
  cases step start s with
  | error e t => rfl
  | ok turn t => cases turn <;> rfl

end Run

variable {s : State}

theorem bindingIdent_of_ident (noLet : Bool) (h : s.token.kind = .ident)
    (hn : isStrictlyReserved s.token.text = false) :
    bindingIdent noLet s = .ok (s.token.start, s.token.text) s.next := by
  simp [bindingIdent, h, hn]

theorem ident_of_ident (h : s.token.kind = .ident) (hs : s.IsPlain) :
    ident s = .ok (s.token.start, s.token.text) s.next := by
  simp only [ident, bind_run, current_run, context_run, bump_run, pure_run, h, hs.field,
    TokenKind.isWord, if_true, Bool.false_and, Bool.false_eq_true, if_false]

namespace Grammar

variable (g : Grammar)

theorem bindingPattern_of_ident (noLet : Bool) (h : s.token.kind = .ident)
    (hn : isStrictlyReserved s.token.text = false) :
    g.bindingPattern noLet s = .ok (.name s.token.start s.token.text) s.next := by
  simp [bindingPattern, h, TokenKind.isWord, bindingIdent_of_ident noLet h hn]

theorem nameOrArrow_of_ident (canBeArrow : Bool) (h : s.token.kind = .ident) (hs : s.IsPlain)
    (hasync : s.token.text ≠ Word.async.chars) (harrow : s.next.token.kind ≠ .mark .arrow) :
    g.nameOrArrow canBeArrow s = .ok (.name s.token.start s.token.text) s.next := by
  cases canBeArrow <;> cases hb : s.next.token.afterBreak <;>
    simp [nameOrArrow, ident_of_ident h hs, hasync, eatMarkIf, harrow, hb]

theorem guarded_of_ident (h : s.token.kind = .ident) (hs : s.IsPlain)
    (hasync : s.token.text ≠ Word.async.chars) (harrow : s.next.token.kind ≠ .mark .arrow) :
    g.guarded s = .ok (.name s.token.start s.token.text) s.next := by
  simp [guarded, primary, h, g.nameOrArrow_of_ident _ h hs hasync harrow]

theorem arguments_of_nothing (imports : Bool) (hs : s.IsPlain)
    (hopen : s.token.kind = .mark .lparen) (hclose : s.next.token.kind = .mark .rparen) :
    g.arguments imports s = .ok [] s.next.next := by
  have hbound (c : Context) : (s.next.inContext c).bound ≠ 0 := hs.bound
  simp [arguments, expectMark, expectKind_run, repeatFrom_run (hbound _), hopen, hclose]
  rfl

theorem instantiated_of_lparen (e : Expr) (h : s.token.kind = .mark .lparen) :
    g.instantiated e s = .ok e s := by
  cases hts : s.typescript <;> simp [instantiated, instantiation, isOpener, h, hts]

/-- Nothing goes on with a callee in front of its arguments, or with a call at the end of a
statement. -/
theorem subscriptsOf_of_end {e : Expr} {noCall : Bool} (hs : s.IsPlain)
    (h : noCall = true ∧ s.token.kind = .mark .lparen ∧ (∃ start n, e = .name start n) ∨
      s.token.kind = .mark .semicolon ∧ ∃ start callee, e = .call start false callee []) :
    g.subscriptsOf e noCall false s = .ok e s := by
  rw [subscriptsOf, repeatFrom_run hs.bound]
  rcases h with ⟨rfl, h, start, n, rfl⟩ | ⟨h, start, callee, rfl⟩
  · cases hts : s.typescript <;> cases hb : s.token.afterBreak <;>
      simp [subscript, typedSubscript, isTemplate, isOpener, h, hts, hb]
  · cases hts : s.typescript <;> cases hb : s.token.afterBreak <;>
      simp [subscript, typedSubscript, isTemplate, isOpener, h, hts, hb]

theorem memberExpression_of_callee (hs : s.IsPlain) (h : s.token.kind = .ident)
    (hasync : s.token.text ≠ Word.async.chars) (hopen : s.next.token.kind = .mark .lparen) :
    g.memberExpression s = .ok (.name s.token.start s.token.text) s.next := by
  have harrow : s.next.token.kind ≠ .mark .arrow := by simp [hopen]
  simp [memberExpression, h, g.guarded_of_ident h hs hasync harrow, Expr.isArrow,
    g.instantiated_of_lparen _ hopen,
    g.subscriptsOf_of_end hs.next (.inl ⟨rfl, hopen, _, _, rfl⟩)]

end Grammar

/-- The tokens of a statement's last expression, if that is a call without arguments. -/
structure State.Calls (s : State) (n : Name) : Prop where
  callee : s.token.kind = .ident
  text : s.token.text = n
  lparen : s.next.token.kind = .mark .lparen
  rparen : s.next.next.token.kind = .mark .rparen
  semicolon : s.next.next.next.token.kind = .mark .semicolon

theorem State.Calls.inContext {n : Name} (h : s.Calls n) (c : Context) : (s.inContext c).Calls n :=
  ⟨h.callee, h.text, h.lparen, h.rparen, h.semicolon⟩

theorem State.Calls.marked {n : Name} (h : s.Calls n) (start : Nat) : (s.marked start).Calls n :=
  ⟨h.callee, h.text, h.lparen, h.rparen, h.semicolon⟩

/-- A call of a name without arguments. -/
def Expr.callOf (start : Nat) (n : Name) : Expr := .call start false (.name start n) []

@[simp] theorem Expr.isArrow_callOf (start : Nat) (n : Name) :
    (callOf start n).isArrow = false := rfl

namespace Grammar

variable {n : Name}

theorem leftHandSide_of_calls (depth : Nat) (hs : s.IsPlain) (h : s.Calls n)
    (hasync : n ≠ Word.async.chars) :
    (grammar (depth + 1)).leftHandSide s = .ok (.callOf s.token.start n) s.next.next.next := by
  have hmember : (grammar (depth + 1)).member s = .ok (.name s.token.start n) s.next :=
    h.text ▸ (grammar depth).memberExpression_of_callee hs h.callee (h.text ▸ hasync) h.lparen
  have harguments := (grammar (depth + 1)).arguments_of_nothing false hs.next h.lparen h.rparen
  have hend : (grammar (depth + 1)).subscriptsOf (.callOf s.token.start n) false false
      s.next.next.next = .ok (.callOf s.token.start n) s.next.next.next :=
    subscriptsOf_of_end _ hs.next.next.next (.inr ⟨h.semicolon, _, _, rfl⟩)
  rw [Expr.callOf] at hend
  cases hty : s.typescript <;>
    simp [leftHandSide, h.callee, hmember, Expr.isArrow, h.lparen, isOpener, harguments, hty,
      Expr.withoutNonNull, Expr.isChain, hend, Expr.callOf]

theorem unaryExpression_of_calls (depth : Nat) (hs : s.IsPlain) (h : s.Calls n)
    (hasync : n ≠ Word.async.chars) :
    (grammar (depth + 1)).unaryExpression s = .ok (.callOf s.token.start n) s.next.next.next := by
  cases hb : s.next.next.next.token.afterBreak <;>
    simp [unaryExpression, h.callee, leftHandSide_of_calls depth hs h hasync, updateFrom,
      h.semicolon, hb]

theorem binaryFrom_of_semicolon (g : Grammar) (e : Expr) (hs : s.IsPlain)
    (h : s.token.kind = .mark .semicolon) :
    g.binaryFrom e s = .ok e s := by
  obtain ⟨fuel, hfuel⟩ := Nat.exists_eq_succ_of_ne_zero (Nat.mul_ne_zero two_ne_zero hs.bound)
  rw [binaryFrom, bind_run, get_run]
  simp only [hfuel, binaryRest]
  cases hts : s.typescript <;> cases hb : s.token.afterBreak <;>
    simp [hts, hb, h, operator?, Mark.precedence?]

theorem binary_of_calls (depth : Nat) (hs : s.IsPlain) (h : s.Calls n)
    (hasync : n ≠ Word.async.chars) :
    (grammar (depth + 2)).binary s = .ok (.callOf s.token.start n) s.next.next.next := by
  have hunary : (grammar (depth + 2)).unary s = .ok (.callOf s.token.start n) s.next.next.next :=
    unaryExpression_of_calls depth hs h hasync
  have hrest := (grammar (depth + 2)).binaryFrom_of_semicolon (.callOf s.token.start n)
    hs.next.next.next h.semicolon
  simp [binary, settle_run hunary, hrest]

/-- The only trace that the assignment leaves is where an arrow function could have started. -/
theorem assignmentExpression_of_calls (depth : Nat) (hs : s.IsPlain) (h : s.Calls n)
    (hasync : n ≠ Word.async.chars) :
    (grammar (depth + 2)).assignmentExpression s =
      .ok (.callOf s.token.start n) (s.next.next.next.marked s.token.start) := by
  have hgeneric : (grammar (depth + 2)).genericArrow s = .ok none s := by
    cases hts : s.typescript <;> simp [genericArrow, hts, h.callee]
  have hmark : (modify fun s' => { s' with arrowStart? := some s.token.start } : P Unit) s =
      .ok () (s.marked s.token.start) := rfl
  have hbinary := binary_of_calls depth (hs.marked s.token.start) (h.marked _) hasync
  have hstored : isStoredTarget (.callOf s.token.start n) = true := rfl
  simp [-modify_run, assignmentExpression, hgeneric, hs.generator, h.callee,
    TokenKind.isVariable, hmark, hbinary, hstored, assignmentFrom, h.semicolon, Mark.isAssign]

theorem verify_of_none (e : Expr) (hs : s.IsPlain) : verify e s = .ok () s := by
  have hsame : { s with strayDefaults := [] } = s := by rw [← hs.strays]
  simp [verify, hs.strays, hsame]

theorem firstValue_of_assign {g : Grammar} {e : Expr} {t : State} (kind : VariableKind)
    (start : Nat) (target : Pattern) (h : s.token.kind = .mark .assign)
    (hvalue : g.assignment s.next = .ok e t) (ht : t.IsPlain) :
    g.firstValue false kind start target s = .ok (some e) t := by
  simp [firstValue, h, hvalue, verify_of_none e ht]

end Grammar

/-- The tokens of a variable that gets the result of a call. -/
structure State.Declares (s : State) (n callee : Name) : Prop where
  name : s.token.kind = .ident
  text : s.token.text = n
  assign : s.next.token.kind = .mark .assign
  calls : s.next.next.Calls callee

theorem State.Declares.inContext {n callee : Name} (h : s.Declares n callee) (c : Context) :
    (s.inContext c).Declares n callee :=
  ⟨h.name, h.text, h.assign, h.calls.inContext c⟩

namespace Grammar

variable {n callee : Name}

/-- The declarator of a variable that gets the result of a call. -/
def callDeclarator (s : State) (n callee : Name) : Declarator :=
  .mk (.name s.token.start n) (some (.callOf s.next.next.token.start callee))

@[simp] theorem callDeclarator_inContext (s : State) (c : Context) (n callee : Name) :
    callDeclarator (s.inContext c) n callee = callDeclarator s n callee := rfl

theorem declarator_of_declares (depth : Nat) (kind : VariableKind) (hs : s.IsPlain)
    (h : s.Declares n callee) (hn : isStrictlyReserved n = false)
    (hasync : callee ≠ Word.async.chars) :
    (grammar (depth + 3)).declarator false kind s =
      .ok (callDeclarator s n callee, false)
        (s.next.next.next.next.next.marked s.next.next.token.start) := by
  have hbinding (noLet : Bool) :
      (grammar (depth + 3)).binding noLet s = .ok (.name s.token.start n) s.next :=
    h.text ▸ (grammar (depth + 2)).bindingPattern_of_ident noLet h.name (h.text ▸ hn)
  have hvalue : (grammar (depth + 3)).assignment s.next.next = _ :=
    assignmentExpression_of_calls depth hs.next.next h.calls hasync
  have hfirst := firstValue_of_assign kind s.token.start (.name s.token.start n) h.assign hvalue
    (hs.next.next.next.next.next.marked _)
  cases hts : s.typescript <;>
    simp [declarator, hbinding, hts, Pattern.isName, h.assign, typeAnnotation, eatTypeMark,
      eatMarkIf, hfirst, callDeclarator]

theorem lacksVariable_of_ident (g : Grammar) (h : s.token.kind = .ident) :
    g.lacksVariable s = .ok false s := by
  cases hts : s.typescript <;> simp [lacksVariable, h, hts]

theorem declarators_of_one {α : Type} {declarator : P α} {a : α} {t : State} (introduced : Span)
    (hs : s.IsPlain) (h : s.token.kind = .ident) (hdeclarator : declarator s = .ok a t)
    (hend : t.token.kind = .mark .semicolon) : declarators introduced declarator s = .ok [a] t := by
  simp [declarators, repeatFrom_run hs.bound, h, hdeclarator, hend]

theorem variableList_of_const (depth : Nat) (hs : s.IsPlain)
    (hword : s.token.kind = .word .const) (h : s.next.Declares n callee)
    (hn : isStrictlyReserved n = false) (hasync : callee ≠ Word.async.chars) :
    (grammar (depth + 3)).variableList false s =
      .ok (.constant, [(callDeclarator s.next n callee, false)])
        (s.next.next.next.next.next.next.next.marked s.next.next.next.token.start) := by
  let change (c : Context) : Context := { c with inOperator := true }
  have hdeclarator := declarator_of_declares depth .constant
    (hs.next.inContext (c := change s.context) rfl rfl) (h.inContext _) hn hasync
  have hwithin : within change ((grammar (depth + 3)).declarator false .constant) s.next =
      .ok (callDeclarator s.next n callee, false)
        (s.next.next.next.next.next.next.marked s.next.next.next.token.start) := by
    simp [within_run, hdeclarator]
    exact State.inContext_of_context (by simp)
  have hfound := declarators_of_one s.next.previous hs.next h.name hwithin h.calls.semicolon
  simp [variableList, hword, lacksVariable_of_ident _ h.name, hfound, eatStatementEnd,
    h.calls.semicolon, change]

theorem wordStatement?_of_const (depth : Nat) (hs : s.IsPlain)
    (hword : s.token.kind = .word .const) (h : s.next.Declares n callee)
    (hn : isStrictlyReserved n = false) (hasync : callee ≠ Word.async.chars) :
    (grammar (depth + 3)).wordStatement? true .const s =
      .ok (some (.variables .constant [callDeclarator s.next n callee]))
        (s.next.next.next.next.next.next.next.marked s.next.next.next.token.start) := by
  cases hts : s.typescript <;>
    simp [wordStatement?, variableStatement, hts, h.name,
      variableList_of_const depth hs hword h hn hasync]

theorem plainStatement_of_const (depth : Nat) (hs : s.IsPlain)
    (hword : s.token.kind = .word .const) (h : s.next.Declares n callee)
    (hn : isStrictlyReserved n = false) (hasync : callee ≠ Word.async.chars) :
    (grammar (depth + 3)).plainStatement true s =
      .ok (.variables .constant [callDeclarator s.next n callee])
        (s.next.next.next.next.next.next.next.marked s.next.next.next.token.start) := by
  have hstatement := wordStatement?_of_const depth
    (hs.inContext (c := { s.context with colonExpected := false }) rfl rfl) hword (h.inContext _) hn
    hasync
  simp [plainStatement, hword, hstatement]
  exact State.inContext_of_context (by simp)

theorem anyStatement_of_const (depth : Nat) (hs : s.IsPlain) (hword : s.token.kind = .word .const)
    (h : s.next.Declares n callee) (hn : isStrictlyReserved n = false)
    (hasync : callee ≠ Word.async.chars) :
    (grammar (depth + 3)).anyStatement true true s =
      .ok (.variables .constant [callDeclarator s.next n callee])
        (s.next.next.next.next.next.next.next.marked s.next.next.next.token.start) := by
  have hstatement := plainStatement_of_const depth
    (hs.inContext (c := { s.context with topLevel := true }) rfl rfl) hword (h.inContext _) hn
    hasync
  simp [anyStatement, hword, hstatement]
  exact State.inContext_of_context (by simp)

theorem importSpecifier_of_alias (typeOnly : Bool) (hname : s.token.kind = .ident)
    (htype : s.token.text ≠ Word.type.chars) (has : s.next.token.kind = .word .as)
    (hlocal : s.next.next.token.kind = .ident)
    (hn : isStrictlyReserved s.next.next.token.text = false) :
    importSpecifier typeOnly s = .ok s.next.next.token.text s.next.next.next := by
  have hexported : exportedName s = .ok (false, s.token.start, s.token.text) s.next := by
    simp [exportedName, identName, hname, TokenKind.isWord]
  simp [importSpecifier, hexported, htype, has, bindingIdent_of_ident false hlocal hn]

theorem specifiers_of_one {α : Type} {specifier : P α} {a : α} {t : State} (hs : s.IsPlain)
    (h : s.token.kind = .ident) (hspecifier : specifier s = .ok a t)
    (hclose : t.token.kind = .mark .rbrace) : specifiers specifier s = .ok [a] t.next := by
  simp [specifiers, expectMark, expectKind_run, repeatFrom_run hs.bound, h, hspecifier, hclose]

theorem fromClause_of_string (g : Grammar) (hfrom : s.token.kind = .word .«from»)
    (hstring : s.next.token.kind = .string) (hend : s.next.next.token.kind = .mark .semicolon) :
    g.fromClause s = .ok () s.next.next := by
  cases hts : s.typescript <;>
    simp [fromClause, importAttributes, expectWord, expectKind_run, hfrom, hstring, hend, hts]

end Grammar

/-- The tokens of the import of one thing under another name, behind the word `import`. -/
structure State.Imports (s : State) (n : Name) : Prop where
  lbrace : s.token.kind = .mark .lbrace
  name : s.next.token.kind = .ident
  named : s.next.token.text ≠ Word.type.chars
  as : s.next.next.token.kind = .word .as
  renamed : s.next.next.next.token.kind = .ident
  text : s.next.next.next.token.text = n
  rbrace : s.next.next.next.next.token.kind = .mark .rbrace
  origin : s.next.next.next.next.next.token.kind = .word .«from»
  source : s.next.next.next.next.next.next.token.kind = .string
  semicolon : s.next.next.next.next.next.next.next.token.kind = .mark .semicolon

namespace Grammar

variable {n : Name}

theorem importHead_of_lbrace (h : s.token.kind = .mark .lbrace) :
    importHead s = .ok (.names false .evaluation none) s := by
  simp [importHead, TokenKind.isVariable, h]

theorem importItem_of_imports (g : Grammar) (hs : s.IsPlain) (h : s.next.Imports n)
    (hn : isStrictlyReserved n = false) :
    g.importItem s = .ok (.importNames [n]) s.next.next.next.next.next.next.next.next.next := by
  have hspecifier := importSpecifier_of_alias false h.name h.named h.as h.renamed (h.text ▸ hn)
  have hspecifiers := specifiers_of_one hs.next.next h.name hspecifier h.rbrace
  have hfrom := fromClause_of_string g h.origin h.source h.semicolon
  have hhead := importHead_of_lbrace h.lbrace
  simp [importItem, hhead, eatMarkIf, h.lbrace, h.text, hspecifiers, hfrom, expectStatementEnd,
    eatStatementEnd, h.semicolon]

theorem anyStatement_of_import (g : Grammar) (hs : s.IsPlain)
    (hword : s.token.kind = .word .«import») (h : s.next.Imports n)
    (hn : isStrictlyReserved n = false) :
    g.anyStatement true true s =
      .ok (.importNames [n]) s.next.next.next.next.next.next.next.next.next := by
  simp [anyStatement, hword, importItem_of_imports g hs h hn]

end Grammar

end ComponentBuild.Script
