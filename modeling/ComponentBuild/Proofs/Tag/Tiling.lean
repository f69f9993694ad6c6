import ComponentBuild.Proofs.Document.Checked
import ComponentBuild.Proofs.Document.Tag

namespace ComponentBuild.Tag

open Text (IsBoundary StandsAt)

/-- The texts that the pattern of a kind takes. Invalid tokens and the end of the text have no
pattern. -/
inductive TokenKind.Takes : TokenKind → List Char → Prop
  | closeAngle : Takes .closeAngle ['>']
  | slashAngle : Takes .slashAngle ['/', '>']
  | slash : Takes .slash ['/']
  | equals : Takes .equals ['=']
  | doubleQuoted {inner : List Char} (h : '"' ∉ inner) :
      Takes .doubleQuoted ('"' :: inner ++ ['"'])
  | singleQuoted {inner : List Char} (h : '\'' ∉ inner) :
      Takes .singleQuoted ('\'' :: inner ++ ['\''])
  | expression {inner : List Char} (h : ∀ c ∈ inner, isBrace c = false) :
      Takes .expression ('\x7b' :: inner ++ ['\x7d'])
  | name {c : Char} {cs : List Char} (h : ∀ d ∈ c :: cs, isNameChar d = true) :
      Takes .name (c :: cs)

/-- The longest text in front of `rest` that a pattern takes, and no other pattern takes it. -/
structure IsLongest (kind : TokenKind) (text rest : List Char) : Prop where
  takes : kind.Takes text
  longest : ∀ (other : TokenKind) (front : List Char), other.Takes front →
    front <+: text ++ rest → front <+: text ∧ (front = text → other = kind)

/-- Nothing that a pattern takes stands at the front of a text. -/
def Untaken (cs : List Char) : Prop :=
  ∀ (kind : TokenKind) (front : List Char), kind.Takes front → ¬front <+: cs

variable {c : Char} {cs text rest : List Char} {kind : TokenKind}

theorem quoted_takes {q : Char} (htakes : ∀ inner, q ∉ inner → kind.Takes (q :: inner ++ [q]))
    (hvalid : (quoted kind q cs).kind ≠ .invalid) :
    (quoted kind q cs).kind.Takes (quoted kind q cs).text := by
  unfold quoted at hvalid ⊢
  split
  next rest hrest =>
    refine htakes _ fun hq => ?_
    exact absurd rfl (bne_iff_ne.1 (List.mem_takeWhile_imp (p := (· != q)) hq))
  next hrest =>
    rw [hrest] at hvalid
    exact absurd rfl hvalid

theorem braced_takes (hvalid : (braced cs).kind ≠ .invalid) :
    (braced cs).kind.Takes (braced cs).text := by
  unfold braced at hvalid ⊢
  split
  next =>
    exact .expression fun c hc => by simpa using List.mem_takeWhile_imp hc
  next hother =>
    split at hvalid
    next rest hrest => exact absurd hrest (hother rest)
    next => exact absurd rfl hvalid

/-- A token that is not invalid is taken by the pattern of its kind. -/
theorem lexeme_takes (hvalid : (lexeme c cs).kind ≠ .invalid) :
    (lexeme c cs).kind.Takes (lexeme c cs).text := by
  unfold lexeme at hvalid ⊢
  split
  next hc => rw [hc]; exact .closeAngle
  next hangle =>
  rw [if_neg hangle] at hvalid
  split
  next hc =>
    rw [hc]
    split
    · exact .slashAngle
    · exact .slash
  next hslash =>
  rw [if_neg hslash] at hvalid
  split
  next hc => rw [hc]; exact .equals
  next hequals =>
  rw [if_neg hequals] at hvalid
  split
  next hc =>
    rw [if_pos hc] at hvalid
    subst hc
    exact quoted_takes (fun inner => .doubleQuoted) hvalid
  next hdouble =>
  rw [if_neg hdouble] at hvalid
  split
  next hc =>
    rw [if_pos hc] at hvalid
    subst hc
    exact quoted_takes (fun inner => .singleQuoted) hvalid
  next hsingle =>
  rw [if_neg hsingle] at hvalid
  split
  next hc =>
    rw [if_pos hc] at hvalid
    exact braced_takes hvalid
  next hbrace =>
  rw [if_neg hbrace] at hvalid
  split
  next hc =>
    refine .name fun d hd => ?_
    rcases List.mem_cons.1 hd with rfl | hd
    · exact hc
    · exact List.mem_takeWhile_imp hd
  next hname =>
    rw [if_neg hname] at hvalid
    exact absurd rfl hvalid

/-- Where a pattern takes something there is a token, and no shorter one. -/
theorem lexeme_of_takes (h : kind.Takes text) (hcs : text ++ rest = c :: cs) :
    (lexeme c cs).kind ≠ .invalid ∧ text <+: (lexeme c cs).text ∧
      (text = (lexeme c cs).text → kind = (lexeme c cs).kind) := by
  have hexact {x : Lexeme} (hx : x = ⟨kind, text, rest⟩) (hvalid : kind ≠ .invalid) :
      x.kind ≠ .invalid ∧ text <+: x.text ∧ (text = x.text → kind = x.kind) := by
    rw [hx]
    exact ⟨hvalid, List.prefix_rfl, fun _ => rfl⟩
  cases h with
  | closeAngle | slashAngle | equals =>
    cases hcs
    exact hexact rfl nofun
  | slash =>
    rw [List.singleton_append] at hcs
    cases hcs
    unfold lexeme
    rw [if_neg (by decide), if_pos rfl]
    split
    · exact ⟨nofun, ⟨['>'], rfl⟩, nofun⟩
    · exact ⟨nofun, List.prefix_rfl, fun _ => rfl⟩
  | @doubleQuoted inner hinner =>
    rw [List.append_assoc] at hcs
    cases hcs
    exact hexact (quoted_front .doubleQuoted hinner) nofun
  | @singleQuoted inner hinner =>
    rw [List.append_assoc] at hcs
    cases hcs
    exact hexact (quoted_front .singleQuoted hinner) nofun
  | @expression inner hinner =>
    rw [List.append_assoc] at hcs
    cases hcs
    exact hexact (braced_front hinner) nofun
  | @name _ ds hnames =>
    rw [List.cons_append] at hcs
    cases hcs
    have hmore : ∀ e ∈ c :: (ds ++ rest.takeWhile isNameChar), isNameChar e = true := by
      intro e he
      rw [← List.cons_append] at he
      exact (List.mem_append.1 he).elim (hnames e) List.mem_takeWhile_imp
    have hstop : ∀ e ∈ (rest.dropWhile isNameChar).head?, isNameChar e = false := by
      intro e he
      have hhead := List.head?_dropWhile_not isNameChar rest
      rw [Option.mem_def.1 he] at hhead
      simpa using hhead
    have hlexeme := lexeme_name hmore hstop
    rw [List.append_assoc, List.takeWhile_append_dropWhile] at hlexeme
    rw [hlexeme]
    exact ⟨nofun, List.prefix_append (c :: ds) _, fun _ => rfl⟩

theorem lexeme_isLongest (hvalid : (lexeme c cs).kind ≠ .invalid) :
    IsLongest (lexeme c cs).kind (lexeme c cs).text (lexeme c cs).rest where
  takes := lexeme_takes hvalid
  longest other front hfront hprefix := by
    rw [lexeme_append] at hprefix
    obtain ⟨back, hback⟩ := hprefix
    exact (lexeme_of_takes hfront hback).2

theorem lexeme_untaken (hinvalid : (lexeme c cs).kind = .invalid) : Untaken (c :: cs) := by
  rintro kind front hfront ⟨back, hback⟩
  exact (lexeme_of_takes hfront hback).1 hinvalid

/-- A token between what is in front of it and `rest`. It starts with no blank, and is what the
patterns ask for there. -/
structure IsToken (kind : TokenKind) (text rest : List Char) : Prop where
  kind_ne : kind ≠ .endOfText
  ne_nil : text ≠ []
  notBlank : ∀ c ∈ text.head?, isBlank c = false
  valid : kind ≠ .invalid → IsLongest kind text rest
  invalid : kind = .invalid → Untaken (text ++ rest)

/-- What stands between tokens, from an offset on. -/
def gaps (offset : Nat) : List Token → List Span
  | [] => []
  | t :: ts => ⟨offset, t.span.start⟩ :: gaps t.span.stop ts

/-- Tokens that tile a text from an offset on. -/
structure Tiles (source : List Char) (offset : Nat) (tokens : List Token) : Prop where
  behind : ∀ t ∈ tokens, offset ≤ t.span.start ∧ t.span.start ≤ t.span.stop
  inOrder : tokens.Pairwise fun t u => t.span.stop ≤ u.span.start
  /-- Nothing but blanks is left out. -/
  blanks : ∀ gap ∈ gaps offset tokens, ∃ text, Text.slice? source gap.start gap.stop = some text ∧
    ∀ c ∈ text, isBlank c = true
  /-- The end of the text is told once, behind all other tokens. -/
  ends : ∃ front, tokens = front ++ [⟨.endOfText, .empty (Text.byteLength source)⟩] ∧
    ∀ t ∈ front, ∃ text rest, Text.slice? source t.span.start t.span.stop = some text ∧
      StandsAt source t.span.stop rest ∧ IsToken t.kind text rest

variable {source blanks : List Char} {offset : Nat} {tokens : List Token}

theorem tiles_end (h : StandsAt source offset blanks) (hblanks : ∀ c ∈ blanks, isBlank c = true) :
    Tiles source offset [⟨.endOfText, .empty (offset + Text.byteLength blanks)⟩] := by
  have hend : Text.byteLength source = offset + Text.byteLength blanks := by
    obtain ⟨front, rfl, rfl⟩ := h
    exact Text.byteLength_append front blanks
  have hslice : Text.slice? source offset (offset + Text.byteLength blanks) = some blanks := by
    rw [← List.append_nil blanks] at h
    exact h.slice? blanks
  refine ⟨List.forall_mem_singleton.2 ⟨Nat.le_add_right _ _, Nat.le_refl _⟩,
    List.pairwise_singleton .., List.forall_mem_singleton.2 ⟨blanks, hslice, hblanks⟩, [], ?_,
    List.forall_mem_nil _⟩
  rw [hend]
  rfl

/-- One more token in front. -/
theorem Tiles.cons (h : StandsAt source offset (blanks ++ (text ++ rest)))
    (hblanks : ∀ c ∈ blanks, isBlank c = true) (htoken : IsToken kind text rest)
    (hrest : Tiles source (offset + Text.byteLength blanks + Text.byteLength text) tokens) :
    Tiles source offset
      (⟨kind, ⟨offset + Text.byteLength blanks,
        offset + Text.byteLength blanks + Text.byteLength text⟩⟩ :: tokens) := by
  have htext := h.drop blanks
  obtain ⟨front, rfl, hfront⟩ := hrest.ends
  refine ⟨List.forall_mem_cons.2 ⟨⟨Nat.le_add_right _ _, Nat.le_add_right _ _⟩, fun t ht => ?_⟩,
    List.pairwise_cons.2 ⟨fun t ht => (hrest.behind t ht).1, hrest.inOrder⟩,
    List.forall_mem_cons.2 ⟨⟨blanks, h.slice? blanks, hblanks⟩, hrest.blanks⟩,
    _ :: front, rfl,
    List.forall_mem_cons.2 ⟨⟨text, rest, htext.slice? text, htext.drop text, htoken⟩, hfront⟩⟩
  have ht := hrest.behind t ht
  exact ⟨by omega, ht.2⟩

theorem Tiles.stop_le (h : Tiles source offset tokens) {t : Token} (ht : t ∈ tokens) :
    t.span.stop ≤ Text.byteLength source := by
  obtain ⟨front, rfl, hfront⟩ := h.ends
  rcases List.mem_append.1 ht with ht | ht
  · obtain ⟨text, rest, hslice, -⟩ := hfront t ht
    obtain ⟨a, b, rfl, hstart, hstop⟩ := Text.slice?_eq_some_iff.1 hslice
    simp only [Text.byteLength_append]
    omega
  · rw [List.mem_singleton.1 ht]
    exact Nat.le_refl _

theorem isToken_lexeme (hc : isBlank c = false) :
    IsToken (lexeme c cs).kind (lexeme c cs).text (lexeme c cs).rest where
  kind_ne := Scan.lexeme_kind_ne c cs
  ne_nil := lexeme_text_ne_nil c cs
  notBlank d hd := by
    have happend := lexeme_append c cs
    cases htext : (lexeme c cs).text with
    | nil => exact absurd htext (lexeme_text_ne_nil c cs)
    | cons e es =>
      rw [htext] at happend hd
      cases hd
      rw [(List.cons.inj happend).1]
      exact hc
  valid := lexeme_isLongest
  invalid hinvalid := by
    rw [lexeme_append]
    exact lexeme_untaken hinvalid

theorem isToken_of_next? {x : Lexeme} (h : next? cs = some (blanks, x)) :
    (∀ c ∈ blanks, isBlank c = true) ∧ IsToken x.kind x.text x.rest := by
  unfold next? at h
  split at h
  · cases h
  next c rest hd =>
    cases h
    have hhead := List.head?_dropWhile_not isBlank cs
    rw [hd] at hhead
    exact ⟨fun c => List.mem_takeWhile_imp, isToken_lexeme (by simpa using hhead)⟩

theorem blanks_of_next?_eq_none (h : next? cs = none) : ∀ c ∈ cs, isBlank c = true := by
  unfold next? at h
  split at h
  · next hd => exact List.dropWhile_eq_nil_iff.1 hd
  · cases h

theorem tiles_tokens (h : StandsAt source offset cs) :
    Tiles source offset (Tag.tokens offset cs) := by
  induction cs using tokenInduction generalizing offset with
  | ends cs hnext =>
    rw [Scan.tokens_of_none hnext]
    exact tiles_end h (blanks_of_next?_eq_none hnext)
  | token cs blanks x hnext ih =>
    rw [Scan.tokens_of_next hnext]
    obtain ⟨hblanks, htoken⟩ := isToken_of_next? hnext
    rw [next?_append hnext] at h
    exact Tiles.cons h hblanks htoken (ih ((h.drop blanks).drop x.text))

/-- The tokens behind a boundary of a text tile what is left of it. In a text below 4 GiB their
offsets are words. -/
theorem tokens_tile {source : String} (h : IsBoundary source.toList offset) :
    Tiles source.toList offset
      (Tag.tokens offset (Text.dropBytes source.toList offset)) ∧
    (Text.byteLength source.toList < UInt32.size →
      ∀ t ∈ Tag.tokens offset (Text.dropBytes source.toList offset),
        t.span.stop < UInt32.size) := by
  have htiles : Tiles source.toList offset
      (Tag.tokens offset (Text.dropBytes source.toList offset)) := by
    obtain ⟨front, back, hsource, rfl⟩ := h
    have hback : Text.dropBytes source.toList (Text.byteLength front) = back := by
      rw [Text.dropBytes, hsource, Text.splitAt?_byteLength]
      rfl
    rw [hback]
    exact tiles_tokens ⟨front, hsource, rfl⟩
  exact ⟨htiles, fun hsize t ht => Nat.lt_of_le_of_lt (htiles.stop_le ht) hsize⟩

/-- A name that ends at a blank no token may start with, and a quote without an end. -/
theorem tokens_tile_of_invalid :
    IsBoundary "<p><ü\u00a0 =\n\"é".toList 4 ∧
      Text.byteLength "<p><ü\u00a0 =\n\"é".toList < UInt32.size ∧
      Tiles "<p><ü\u00a0 =\n\"é".toList 4
        [⟨.name, ⟨4, 6⟩⟩, ⟨.invalid, ⟨6, 8⟩⟩, ⟨.equals, ⟨9, 10⟩⟩, ⟨.invalid, ⟨11, 14⟩⟩,
          ⟨.endOfText, ⟨14, 14⟩⟩] := by
  have hboundary : IsBoundary "<p><ü\u00a0 =\n\"é".toList 4 :=
    ⟨"<p><".toList, "ü\u00a0 =\n\"é".toList, by decide, by decide⟩
  have htokens : Tag.tokens 4 (Text.dropBytes "<p><ü\u00a0 =\n\"é".toList 4) =
      [⟨.name, ⟨4, 6⟩⟩, ⟨.invalid, ⟨6, 8⟩⟩, ⟨.equals, ⟨9, 10⟩⟩, ⟨.invalid, ⟨11, 14⟩⟩,
        ⟨.endOfText, ⟨14, 14⟩⟩] := by
    decide +kernel
  exact ⟨hboundary, by decide, htokens ▸ (tokens_tile hboundary).1⟩

end ComponentBuild.Tag
