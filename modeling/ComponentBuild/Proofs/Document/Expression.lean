import ComponentBuild.Proofs.Document.Shift

namespace ComponentBuild

/-- What a literal in quotes `q` holds where a backslash escapes the character behind it. -/
inductive Escaped (q : Char) : List Char → Prop where
  | nil : Escaped q []
  | plain {c : Char} {cs : List Char} (quote : c ≠ q) (backslash : c ≠ '\\') (rest : Escaped q cs) :
      Escaped q (c :: cs)
  | escape {c : Char} {cs : List Char} (rest : Escaped q cs) : Escaped q ('\\' :: c :: cs)

namespace Scan

variable {source : List Char} {s : ScanState} {offset depth : Nat} {e cs rest : List Char}

theorem exists_string_of_skipBraces {q : Char} (h : skipBraces depth (some q) cs = some rest) :
    ∃ text back, cs = text ++ q :: back ∧ Unescaped q text ∧
      skipBraces depth none back = some rest := by
  induction cs with
  | nil => cases h
  | cons c cs ih =>
    rw [skipBraces] at h
    by_cases hc : c = q
    · rw [if_pos hc] at h
      exact ⟨[], cs, by rw [hc, List.nil_append], List.not_mem_nil, h⟩
    · rw [if_neg hc] at h
      obtain ⟨text, back, rfl, htext, hback⟩ := ih h
      refine ⟨c :: text, back, by rw [List.cons_append], ?_, hback⟩
      intro hmem
      rcases List.mem_cons.1 hmem with rfl | hmem
      · exact hc rfl
      · exact htext hmem

/-- A text that goes on with `depth` closing braces of its own: code up to the first of them, and so
on behind it. -/
def Closes (rest : List Char) (depth : Nat) (e : List Char) : Prop :=
  (depth = 0 ∧ Code Unescaped e) ∨
    ∃ n front back, depth = n + 1 ∧ e = front ++ '\x7d' :: back ∧ Code Unescaped front ∧
      skipBraces (n + 1) none (back ++ '\x7d' :: rest) = some rest

theorem Closes.prepend {front : List Char} (hfront : Code Unescaped front)
    (h : Closes rest depth e) : Closes rest depth (front ++ e) := by
  rcases h with ⟨hdepth, he⟩ | ⟨n, inner, back, hdepth, rfl, hinner, hback⟩
  · exact .inl ⟨hdepth, hfront.append he⟩
  · refine .inr ⟨n, front ++ inner, back, hdepth, ?_, hfront.append hinner, hback⟩
    rw [List.append_assoc]

/-- What is read with `depth` more braces open than the one that closes it. -/
theorem closes_of_skipBraces
    (h : skipBraces (depth + 1) none (e ++ '\x7d' :: rest) = some rest) :
    Closes rest depth e := by
  -- The induction is on the length, for a group or a literal is read in two parts.
  induction hn : e.length using Nat.strongRecOn generalizing depth e with
  | ind n ih =>
    subst hn
    cases e with
    | nil =>
      cases depth with
      | zero => exact .inl ⟨rfl, .nil⟩
      | succ depth =>
        rw [List.nil_append, skipBraces_close] at h
        exact absurd (skipBraces_length h) (Nat.lt_irrefl _)
    | cons c e =>
      rw [List.cons_append] at h
      by_cases hquote : IsQuote c
      · rw [skipBraces_quote hquote] at h
        obtain ⟨text, back, htext, hunescaped, hback⟩ := exists_string_of_skipBraces h
        have hlength := skipBraces_length hback
        -- The literal ends before the brace, for what is left behind it is more than the rest.
        obtain ⟨last, rfl, rfl⟩ : ∃ last, e = text ++ c :: last ∧ back = last ++ '\x7d' :: rest := by
          have hsplit : e ++ '\x7d' :: rest = (text ++ [c]) ++ back := by
            rw [htext, List.append_assoc, List.singleton_append]
          rcases List.append_eq_append_iff.1 hsplit with ⟨m, hm, hrest⟩ | ⟨m, hm, hrest⟩
          · cases m with
            | nil =>
              rw [List.nil_append] at hrest
              refine ⟨[], ?_, hrest.symm⟩
              simpa using hm.symm
            | cons d m =>
              have := congrArg List.length hrest
              simp only [List.length_append, List.length_cons] at this
              omega
          · refine ⟨m, ?_, hrest⟩
            rw [hm, List.append_assoc, List.singleton_append]
        have hrest := ih last.length (by simp; omega) hback rfl
        have hfront : Code Unescaped (c :: (text ++ [c])) := .string hquote hunescaped .nil
        have := hrest.prepend hfront
        simpa using this
      · cases hbrace : Tag.isBrace c with
        | false =>
          rw [skipBraces_plain hbrace hquote] at h
          have hfront : Code Unescaped [c] := .plain hbrace hquote .nil
          exact (ih e.length (Nat.lt_succ_self _) h rfl).prepend hfront
        | true =>
          obtain rfl | rfl : c = '\x7b' ∨ c = '\x7d' := by
            simpa [Tag.isBrace] using hbrace
          · rw [skipBraces_open] at h
            rcases ih e.length (Nat.lt_succ_self _) h rfl with
              ⟨hzero, _⟩ | ⟨n, inner, back, hdepth, rfl, hinner, hback⟩
            · contradiction
            · obtain rfl := Nat.succ.inj hdepth
              have hrest := ih back.length (by simp; omega) hback rfl
              have hfront : Code Unescaped ('\x7b' :: (inner ++ ['\x7d'])) := .group hinner .nil
              have := hrest.prepend hfront
              simpa using this
          · cases depth with
            | zero =>
              rw [skipBraces_last] at h
              have := congrArg List.length (Option.some.inj h)
              simp only [List.length_append, List.length_cons] at this
              omega
            | succ depth =>
              rw [skipBraces_close] at h
              exact .inr ⟨depth, [], e, rfl, rfl, .nil, h⟩

theorem skipExpression_iff : skipExpression (e ++ '\x7d' :: rest) = rest ↔ Code Unescaped e := by
  constructor
  · intro h
    cases hskip : skipBraces 1 none (e ++ '\x7d' :: rest) with
    | none =>
      rw [skipExpression, hskip, Option.getD_none] at h
      have := congrArg List.length h
      simp only [List.length_append, List.length_cons] at this
      omega
    | some found =>
      rw [skipExpression, hskip, Option.getD_some] at h
      subst h
      rcases closes_of_skipBraces hskip with ⟨_, he⟩ | ⟨n, _, _, hdepth, _⟩
      · exact he
      · contradiction
  · intro h
    exact skipExpression_code h rest

theorem step_expression_iff :
    step source s offset '\x7b' (e ++ '\x7d' :: rest) =
        .ok ⟨s, offset + Text.byteLength ('\x7b' :: e ++ ['\x7d']), rest⟩ ↔
      Code Unescaped e := by
  rw [← @skipExpression_iff e rest, step_expression]
  constructor
  · intro h
    exact congrArg Step.rest (Except.ok.inj h)
  · intro h
    have htext : '\x7b' :: (e ++ '\x7d' :: rest) = '\x7b' :: e ++ ['\x7d'] ++ rest := by
      simp only [List.cons_append, List.append_assoc, List.nil_append]
    rw [h, htext, advance_append]

end Scan

/-- An expression in front of a document. It is read up to its own closing brace, from any state and
whatever follows, exactly where its braces match outside of literals that the next quote of their
kind ends; then the document is found as it would be alone, moved by the length of the expression.
With escapes in its literals it is read so as long as none of them holds a quote of its own kind. -/
theorem scan_expression (e : List Char) :
    (∀ source s offset rest, Scan.step source s offset '\x7b' (e ++ '\x7d' :: rest) =
        .ok ⟨s, offset + Text.byteLength ('\x7b' :: e ++ ['\x7d']), rest⟩ ↔
      Code Unescaped e) ∧
    (Code Unescaped e → ∀ rest,
      scan (String.ofList ('\x7b' :: e ++ ['\x7d'] ++ rest)) =
        moved (Text.byteLength ('\x7b' :: e ++ ['\x7d'])) ScanResult.shift
          (scan (String.ofList rest))) ∧
    (Code (fun q text => Escaped q text ∧ q ∉ text) e → Code Unescaped e) := by
  refine ⟨fun source s offset rest => Scan.step_expression_iff, ?_, ?_⟩
  · intro h rest
    refine scan_of_front rest fun source => ?_
    rw [Scan.run_expression h, Nat.zero_add]
  · exact Code.mono fun q text h => h.2

/-- Behind an escaped quote the angle bracket of a literal opens an element, and a script that
follows the expression goes unseen in it. -/
theorem scan_expression_of_escape :
    Code Escaped "'it\\'s <b>'".toList ∧ ¬ Code Unescaped "'it\\'s <b>'".toList ∧
      scan "\x7b'it\\'s <b>'\x7d<script>let x;</script>" = .ok ⟨.empty, []⟩ ∧
      (scan "<script>let x;</script>").map (·.component.instanceScript.isSome) = .ok true := by
  have hangle : Escaped '\'' " <b>".toList :=
    .plain (by decide) (by decide) <| .plain (by decide) (by decide) <|
      .plain (by decide) (by decide) <| .plain (by decide) (by decide) .nil
  have hescaped : Escaped '\'' "it\\'s <b>".toList :=
    .plain (by decide) (by decide) <| .plain (by decide) (by decide) <|
      .escape <| .plain (by decide) (by decide) hangle
  have hcode : Code Escaped "'it\\'s <b>'".toList := .string (.inr (.inl rfl)) hescaped .nil
  refine ⟨hcode, ?_, by decide +kernel, by decide +kernel⟩
  have hstep := ((scan_expression "'it\\'s <b>'".toList).1 [] ⟨.empty, [], []⟩ 0 []).not
  refine hstep.1 fun h => ?_
  exact absurd (congrArg (fun x => x.map fun t => t.offset) h) (by decide +kernel)

end ComponentBuild
