import ComponentBuild.Proofs.Script.Run
import ComponentBuild.Proofs.Script.Restore
import ComponentBuild.Proofs.Script.Declared

namespace ComponentBuild.Script

open Text (isIdentifierPart isIdentifierStart)

/-- A text starts with a token of a kind, wherever it stands. -/
def Starts (kind : TokenKind) (cs rest : List Char) : Prop :=
  ∀ typescript first pos, (nextToken typescript first pos cs).token.kind = kind ∧
    (nextToken typescript first pos cs).rest = rest

/-- A text starts with an identifier that is no word, wherever it stands. -/
def StartsWith (n : Name) (cs rest : List Char) : Prop :=
  Starts .ident cs rest ∧
    ∀ typescript first pos, (nextToken typescript first pos cs).token.text = n

theorem Starts.space {kind : TokenKind} {cs rest : List Char} (h : Starts kind cs rest) :
    Starts kind (' ' :: cs) rest :=
  fun typescript first pos => h typescript first (pos + 1)

theorem StartsWith.space {n : Name} {cs rest : List Char} (h : StartsWith n cs rest) :
    StartsWith n (' ' :: cs) rest :=
  ⟨h.1.space, fun typescript first pos => h.2 typescript first (pos + 1)⟩

namespace State

variable {s : State} {kind : TokenKind} {n : Name} {cs rest : List Char}

/-- The current token is the first of a text. -/
def At (s : State) (cs : List Char) : Prop :=
  ∃ first pos, s.token = (nextToken s.typescript first pos cs).token ∧
    s.rest = (nextToken s.typescript first pos cs).rest

theorem At.next (h : s.At cs) (hcs : Starts kind cs rest) :
    s.token.kind = kind ∧ s.next.At rest := by
  obtain ⟨first, pos, htoken, hrest⟩ := h
  obtain ⟨hkind, hbehind⟩ := hcs s.typescript first pos
  refine ⟨htoken ▸ hkind, false, s.token.stop, ?_, ?_⟩
  · rw [← hbehind, ← hrest]
    rfl
  · rw [← hbehind, ← hrest]
    rfl

theorem At.text (h : s.At cs) (hcs : StartsWith n cs rest) : s.token.text = n := by
  obtain ⟨first, pos, htoken, -⟩ := h
  rw [htoken]
  exact hcs.2 s.typescript first pos

theorem At.newline (h : s.At ('\n' :: cs)) : s.At cs := by
  obtain ⟨first, pos, htoken, hrest⟩ := h
  exact ⟨true, pos + 1, htoken, hrest⟩

end State

theorem isIdentifierPart_of_isDigit {d : Char} (h : d.isDigit = true) :
    isIdentifierPart d = true := by
  have hlt : d.val < 128 := by
    simp only [Char.isDigit, Bool.and_eq_true, decide_eq_true_eq] at h
    have hle : d.val.toNat ≤ 57 := UInt32.le_iff_toNat_le.1 h.2
    exact UInt32.lt_iff_toNat_lt.2 (Nat.lt_of_le_of_lt hle (by decide))
  simp [isIdentifierPart, hlt, Char.isAlphanum, h]

/-- An identifier without escapes is read up to what cannot go on with it. -/
theorem wordText_of_name {n : Name} {c : Char} (cs : List Char)
    (hn : n.all isIdentifierPart = true) (hc : isIdentifierPart c = false) (hescape : c ≠ '\\')
    (first : Bool) (pos : Nat) :
    ∃ stop, wordText first 0 pos (n ++ c :: cs) = .ok ⟨n, stop, c :: cs, false, []⟩ := by
  induction n generalizing first pos with
  | nil => exact ⟨pos, by simp [wordText, hc, hescape]⟩
  | cons d n ih =>
    rw [List.all_cons, Bool.and_eq_true] at hn
    obtain ⟨hpart, hrest⟩ := hn
    have hd : d ≠ '\\' := by
      rintro rfl
      exact absurd hpart (by decide)
    obtain ⟨stop, hword⟩ := ih hrest false (pos + d.utf8Size)
    exact ⟨stop, by simp [wordText, hpart, hd, hword]⟩

/-- No word starts with the sign that the names of the prologue start with. -/
theorem ofChars?_underscore (n : Name) : Word.ofChars? ('_' :: n) = none := by
  have hall : ∀ w ∈ Word.all, w.chars.head? ≠ some '_' := by decide
  refine List.find?_eq_none.2 fun w hw heq => hall w hw ?_
  rw [beq_iff_eq.1 heq]
  rfl

/-- A name that starts with an underscore is read up to what cannot go on with it. -/
theorem startsWith_underscore {n : Name} (c : Char) (cs : List Char)
    (hn : n.all isIdentifierPart = true) (hc : isIdentifierPart c = false) (hescape : c ≠ '\\') :
    StartsWith ('_' :: n) ('_' :: n ++ c :: cs) (c :: cs) := by
  have hname : ('_' :: n).all isIdentifierPart = true := by
    rw [List.all_cons, hn]
    decide
  have hlexed (typescript first : Bool) (pos : Nat) : ∃ stop,
      nextToken typescript first pos ('_' :: n ++ c :: cs) =
        ⟨⟨.ident, pos, stop, first, '_' :: n⟩, c :: cs, []⟩ := by
    obtain ⟨stop, hword⟩ := wordText_of_name cs hname hc hescape true pos
    have hgap : skipGap .blank first pos ('_' :: (n ++ c :: cs)) =
        ⟨pos, '_' :: (n ++ c :: cs), first, []⟩ := by cases first <;> rfl
    have hstart : isIdentifierStart '_' = true := by decide
    rw [List.cons_append] at hword ⊢
    exact ⟨stop, by simp [nextToken, hgap, hstart, wordPiece, hword, ofChars?_underscore,
      Lexed.ofScanned]⟩
  constructor
  · intro typescript first pos
    obtain ⟨stop, h⟩ := hlexed typescript first pos
    rw [h]
    exact ⟨rfl, rfl⟩
  · intro typescript first pos
    obtain ⟨stop, h⟩ := hlexed typescript first pos
    rw [h]

theorem starts_word {w : Word} (cs : List Char)
    (hw : w ∈ [Word.«import», .as, .«from», .const]) :
    Starts (.word w) (w.chars ++ ' ' :: cs) (' ' :: cs) := by
  simp only [List.mem_cons, List.not_mem_nil, or_false] at hw
  rcases hw with rfl | rfl | rfl | rfl <;> rintro - (_ | _) - <;> exact ⟨rfl, rfl⟩

theorem starts_mark {m : Mark} (cs : List Char)
    (hm : m ∈ [Mark.lbrace, .rbrace, .lparen, .rparen, .semicolon]) :
    Starts (.mark m) (m.chars ++ cs) cs := by
  simp only [List.mem_cons, List.not_mem_nil, or_false] at hm
  rcases hm with rfl | rfl | rfl | rfl | rfl <;> rintro - (_ | _) - <;> exact ⟨rfl, rfl⟩

namespace Reactive

theorem startsWith_creator (c : Char) (cs : List Char) (hc : isIdentifierPart c = false)
    (hescape : c ≠ '\\') : StartsWith creator.toList (creator.toList ++ c :: cs) (c :: cs) :=
  startsWith_underscore c cs (by decide) hc hescape

theorem startsWith_tracker (id : Nat) (cs : List Char) :
    StartsWith (tracker id).toList ((tracker id).toList ++ ' ' :: cs) (' ' :: cs) := by
  have hname : (tracker id).toList =
      '_' :: (['m', '_', 't', 'r', 'a', 'c', 'k', 'e', 'r'] ++ (toString id).toList) := by
    rw [tracker, String.toList_append]
    rfl
  have hdigits : (toString id).toList.all isIdentifierPart = true := by
    refine List.all_eq_true.2 fun d hd => isIdentifierPart_of_isDigit ?_
    have hmem : d ∈ Nat.toDigits 10 id := by simpa using hd
    exact Nat.isDigit_of_mem_toDigits (by decide) (by decide) hmem
  have hpart : (['m', '_', 't', 'r', 'a', 'c', 'k', 'e', 'r'] ++ (toString id).toList).all
      isIdentifierPart = true := by
    rw [List.all_append, hdigits]
    decide
  rw [hname]
  exact startsWith_underscore ' ' cs hpart (by decide) (by decide)

theorem importLine_append (cs : List Char) : importLine ++ cs =
    Word.«import».chars ++ ' ' :: '\x7b' :: ' ' :: ("createReactiveWrapper".toList ++ ' ' ::
      (Word.as.chars ++ ' ' :: (creator.toList ++ ' ' :: '\x7d' :: ' ' ::
        (Word.«from».chars ++ ' ' :: ("\"melte/tracker\"".toList ++ ';' :: '\n' :: cs))))) := by
  rw [importLine]
  simp only [List.append_assoc, List.cons_append, List.nil_append]

theorem trackerLine_append (id : Nat) (cs : List Char) : trackerLine id ++ cs =
    Word.const.chars ++ ' ' :: ((tracker id).toList ++ ' ' :: '=' :: ' ' :: (creator.toList ++
      '(' :: ')' :: ';' :: '\n' :: cs)) := by
  rw [trackerLine]
  simp only [List.append_assoc, List.cons_append, List.nil_append]

section Lines

variable {s : State} {cs : List Char}

theorem imports_of_at (h : s.At (importLine ++ cs)) :
    s.token.kind = .word .«import» ∧ s.next.Imports creator.toList ∧
      s.next.next.next.next.next.next.next.next.next.At ('\n' :: cs) := by
  have hname (cs : List Char) : StartsWith "createReactiveWrapper".toList
      ("createReactiveWrapper".toList ++ ' ' :: cs) (' ' :: cs) :=
    ⟨fun _ first _ => by cases first <;> exact ⟨rfl, rfl⟩, fun _ first _ => by cases first <;> rfl⟩
  have hsource (cs : List Char) : Starts .string ("\"melte/tracker\"".toList ++ cs) cs :=
    fun _ first _ => by cases first <;> exact ⟨rfl, rfl⟩
  have hcreator (cs : List Char) := startsWith_creator ' ' cs (by decide) (by decide)
  rw [importLine_append] at h
  obtain ⟨himport, h⟩ := h.next (starts_word (w := .«import») _ (by decide))
  obtain ⟨hlbrace, h⟩ := h.next (starts_mark (m := .lbrace) _ (by decide)).space
  have htext := h.text (hname _).space
  obtain ⟨hident, h⟩ := h.next (hname _).1.space
  obtain ⟨has, h⟩ := h.next (starts_word (w := .as) _ (by decide)).space
  have halias := h.text (hcreator _).space
  obtain ⟨hlocal, h⟩ := h.next (hcreator _).1.space
  obtain ⟨hrbrace, h⟩ := h.next (starts_mark (m := .rbrace) _ (by decide)).space
  obtain ⟨hfrom, h⟩ := h.next (starts_word (w := .«from») _ (by decide)).space
  obtain ⟨hstring, h⟩ := h.next (hsource _).space
  obtain ⟨hend, h⟩ := h.next (starts_mark (m := .semicolon) _ (by decide))
  have hnamed : s.next.next.token.text ≠ Word.type.chars := by
    rw [htext]
    decide
  exact ⟨himport, ⟨hlbrace, hident, hnamed, has, hlocal, halias, hrbrace, hfrom, hstring, hend⟩, h⟩

theorem declares_of_at {id : Nat} (h : s.At (trackerLine id ++ cs)) :
    s.token.kind = .word .const ∧ s.next.Declares (tracker id).toList creator.toList ∧
      s.next.next.next.next.next.next.next.At ('\n' :: cs) := by
  have hassign (cs : List Char) : Starts (.mark .assign) ('=' :: ' ' :: cs) (' ' :: cs) :=
    fun _ first _ => by cases first <;> exact ⟨rfl, rfl⟩
  have hcreator (cs : List Char) := startsWith_creator '(' cs (by decide) (by decide)
  rw [trackerLine_append] at h
  obtain ⟨hconst, h⟩ := h.next (starts_word (w := .const) _ (by decide))
  have htext := h.text (startsWith_tracker id _).space
  obtain ⟨hname, h⟩ := h.next (startsWith_tracker id _).1.space
  obtain ⟨hassign, h⟩ := h.next (hassign _).space
  have hcallee := h.text (hcreator _).space
  obtain ⟨hident, h⟩ := h.next (hcreator _).1.space
  obtain ⟨hopen, h⟩ := h.next (starts_mark (m := .lparen) _ (by decide))
  obtain ⟨hclose, h⟩ := h.next (starts_mark (m := .rparen) _ (by decide))
  obtain ⟨hend, h⟩ := h.next (starts_mark (m := .semicolon) _ (by decide))
  exact ⟨hconst, ⟨hname, htext, hassign, ⟨hident, hcallee, hopen, hclose, hend⟩⟩, h⟩

end Lines

section Many

variable {α : Type} {p : P (Option α)} {s t u : State} {found all : List α} {a : α}

/-- One turn of a parser that is repeated. -/
def turn (p : P (Option α)) (found : List α) : P (Turn (List α) (List α)) := do
  match ← p with
  | some a => return .again (a :: found)
  | none => return .done found.reverse

theorem many_eq (p : P (Option α)) : many p = repeatFrom [] (turn p) := rfl

theorem failHere_ne_ok {fault : Fault} : failHere fault s ≠ .ok a t := by
  rw [failHere, bind_run, offset_run]
  show (leaveInvalid >>= fun _ => throw ⟨fault, s.token.start⟩ : P α) s ≠ _
  rw [bind_run]
  cases leaveInvalid s with
  | ok x v => exact fun h => nomatch h
  | error e v => exact fun h => nomatch h

/-- A repeated parser that comes to an end takes something and goes on, or is done. -/
theorem iterate_turn_cases {n : Nat} (h : iterate (turn p) n found s = .ok all u) :
    ∃ m t, n = m + 1 ∧
      ((∃ a, p s = .ok (some a) t ∧ iterate (turn p) m (a :: found) t = .ok all u) ∨
        p s = .ok none t ∧ all = found.reverse) := by
  cases n with
  | zero => exact absurd h failHere_ne_ok
  | succ m =>
    rw [iterate, bind_run, turn, bind_run] at h
    cases hp : p s with
    | error e t =>
      rw [hp] at h
      cases h
    | ok found? t =>
      rw [hp] at h
      cases found? with
      | some a => exact ⟨m, t, rfl, .inl ⟨a, rfl, h⟩⟩
      | none =>
        cases h
        exact ⟨m, _, rfl, .inr ⟨rfl, rfl⟩⟩

/-- What is found stays in front. -/
theorem found_isPrefix (n : Nat) (h : iterate (turn p) n found s = .ok all u) :
    found.reverse <+: all := by
  induction n generalizing found s with
  | zero =>
    obtain ⟨m, _, hm, -⟩ := iterate_turn_cases h
    cases hm
  | succ n ih =>
    obtain ⟨m, t, hm, ⟨a, -, hrest⟩ | ⟨-, rfl⟩⟩ := iterate_turn_cases h
    · obtain rfl := Nat.succ.inj hm
      have hprefix := ih hrest
      rw [List.reverse_cons] at hprefix
      exact (List.prefix_append _ _).trans hprefix
    · exact List.prefix_rfl

end Many

/-- What a module is read by, over and over. -/
def nextItem (g : Grammar) : P (Option Stmt) := do
  if ← isEnd then return none
  return some (← g.anyStatement true true)

theorem moduleItems_eq (g : Grammar) : moduleItems g = many (nextItem g) := rfl

section Items

variable {s t : State} {item : Stmt} {found items : List Stmt}

theorem nextItem_of_item {g : Grammar} (hend : s.token.kind ≠ .endOfText)
    (hitem : g.anyStatement true true s = .ok item t) : nextItem g s = .ok (some item) t := by
  simp [nextItem, hend, hitem]

/-- A turn that takes an item. -/
theorem iterate_of_item {g : Grammar} {n : Nat} {u : State} (hend : s.token.kind ≠ .endOfText)
    (hitem : g.anyStatement true true s = .ok item t)
    (h : iterate (turn (nextItem g)) n found s = .ok items u) :
    ∃ m, iterate (turn (nextItem g)) m (item :: found) t = .ok items u := by
  have hnext := nextItem_of_item hend hitem
  obtain ⟨m, t', -, ⟨item', hitem', hrest⟩ | ⟨hnone, -⟩⟩ := iterate_turn_cases h
  · rw [hnext] at hitem'
    cases hitem'
    exact ⟨m, hrest⟩
  · rw [hnext] at hnone
    cases hnone

theorem isStrictlyReserved_tracker (id : Nat) : isStrictlyReserved (tracker id).toList = false := by
  have hfirst : (tracker id).toList.head? = some '_' := by
    rw [tracker, String.toList_append]
    rfl
  rw [isStrictlyReserved, Bool.or_eq_false_iff, beq_eq_false_iff_ne, beq_eq_false_iff_ne]
  constructor
  · intro h
    rw [h] at hfirst
    cases hfirst
  · intro h
    rw [h] at hfirst
    cases hfirst

/-- What the line of a tracker means for names. -/
def trackerParts (id : Nat) : List Script.Part :=
  [.declare (tracker id).toList, .reference creator.toList]

/-- The lines of trackers are read as one item each. -/
theorem items_of_trackerLines (depth : Nat) (ids : List Nat) {n : Nat} {cs : List Char}
    (hs : s.IsPlain) (hat : s.At (ids.flatMap trackerLine ++ cs))
    (h : iterate (turn (nextItem (grammar (depth + 3)))) n found s = .ok items t) :
    ∃ lines rest, items = found.reverse ++ (lines ++ rest) ∧ lines.length = ids.length ∧
      partsOfStmts lines = ids.flatMap trackerParts ∧
      lexicalNamesOf lines = (ids.map fun id => (tracker id).toList) ∧ varNamesOf lines = [] := by
  induction ids generalizing n found s with
  | nil =>
    obtain ⟨rest, rfl⟩ := found_isPrefix n h
    exact ⟨[], rest, rfl, rfl, rfl, rfl, rfl⟩
  | cons id ids ih =>
    rw [List.flatMap_cons, List.append_assoc] at hat
    obtain ⟨hconst, hdeclares, hbehind⟩ := declares_of_at hat
    have hitem := Grammar.anyStatement_of_const depth hs hconst hdeclares
      (isStrictlyReserved_tracker id) (by decide)
    obtain ⟨m, hrest⟩ := iterate_of_item (by simp [hconst]) hitem h
    have hplain := hs.next.next.next.next.next.next.next
    obtain ⟨lines, rest, rfl, hlength, hparts, hlexical, hvar⟩ :=
      ih (hplain.marked _) hbehind.newline hrest
    let line : Stmt :=
      .variables .constant [Grammar.callDeclarator s.next (tracker id).toList creator.toList]
    refine ⟨line :: lines, rest, ?_, congrArg Nat.succ hlength, ?_, ?_, hvar⟩
    · rw [List.reverse_cons, List.append_assoc]
      rfl
    · rw [partsOfStmts, hparts, List.flatMap_cons]
      rfl
    · rw [lexicalNamesOf, List.flatMap_cons, ← lexicalNamesOf, hlexical]
      rfl

end Items

/-- What the lines of the import and of the trackers mean for names. -/
def prologueParts (count : Nat) : List Script.Part :=
  .declare creator.toList :: (List.range count).flatMap trackerParts

/-- The names that the prologue declares for its own use. -/
def ownNames (count : Nat) : List Name :=
  creator.toList :: (List.range count).map fun id => (tracker id).toList

section Rewritten

variable {options : Options} {source : String} {o : Output} {items : List Stmt}

theorem startState_at (typescript : Bool) (cs : List Char) :
    (startState typescript (importLine ++ cs)).At (importLine ++ cs) :=
  ⟨true, 0, rfl, rfl⟩

theorem startState_isPlain (typescript : Bool) (cs : List Char) :
    (startState typescript cs).IsPlain :=
  ⟨rfl, rfl, rfl, Nat.succ_ne_zero _⟩

theorem moduleItems_of_parse {dialect : Dialect} {code : String}
    (h : parse dialect code = .ok items) :
    ∃ depth t, moduleItems (grammar (depth + 3))
      (startState (dialect == .typescript) (withoutMark code.toList)) = .ok items t := by
  have hdepth (n : Nat) : 8 * (n + 8) = 8 * n + 61 + 3 := by omega
  rw [parse, parseChars, hdepth] at h
  generalize hrun : moduleItems _ _ = result at h
  cases result with
  | error e t => cases h
  | ok found t =>
    cases hfaults : t.faults.getLast? with
    | some e =>
      simp [hfaults] at h
    | none =>
      simp only [hfaults] at h
      cases h
      exact ⟨_, t, hrun⟩

/-- However a rewritten script goes on, its first items are the import and the trackers. -/
theorem lines_of_rewritten (h : rewrite options source = .ok o)
    (hmodule : options.trackerModule = defaultModule) (hblocks : o.blocks ≠ [])
    (hparse : parse options.dialect o.code = .ok items) :
    partsOfStmts (items.take (o.blocks.length + 1)) = prologueParts o.blocks.length ∧
      boundNames (items.take (o.blocks.length + 1)) = ownNames o.blocks.length := by
  obtain ⟨cs, hcode⟩ : ∃ cs, o.code.toList =
      importLine ++ ((List.range o.blocks.length).flatMap trackerLine ++ cs) := by
    rw [code_toList h hmodule hblocks, prologueText, List.append_assoc, List.append_assoc]
    exact ⟨_, rfl⟩
  obtain ⟨depth, t, hrun⟩ := moduleItems_of_parse hparse
  have hmark : withoutMark o.code.toList = o.code.toList := by
    rw [hcode]
    rfl
  rw [hmark, hcode, moduleItems_eq, many_eq, repeatFrom, bind_run, get_run] at hrun
  have hplain := startState_isPlain (options.dialect == .typescript)
    (importLine ++ ((List.range o.blocks.length).flatMap trackerLine ++ cs))
  obtain ⟨himport, himports, hbehind⟩ :=
    imports_of_at (startState_at (options.dialect == .typescript) _)
  have hitem := Grammar.anyStatement_of_import (grammar (depth + 3)) hplain himport himports
    (by decide)
  obtain ⟨m, hrest⟩ := iterate_of_item (by simp [himport]) hitem hrun
  obtain ⟨lines, rest, rfl, hlength, hparts, hlexical, hvar⟩ := items_of_trackerLines depth _
    hplain.next.next.next.next.next.next.next.next.next hbehind.newline hrest
  rw [List.length_range] at hlength
  rw [List.reverse_singleton, List.singleton_append, List.take_succ_cons, ← hlength,
    List.take_left, hlength]
  constructor
  · rw [partsOfStmts, hparts]
    rfl
  · rw [boundNames, lexicalNamesOf, List.flatMap_cons, ← lexicalNamesOf, hlexical, varNamesOf, hvar]
    exact List.append_nil _

end Rewritten

end Reactive

end ComponentBuild.Script
