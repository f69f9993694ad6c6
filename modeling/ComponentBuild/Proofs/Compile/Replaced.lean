import ComponentBuild.Proofs.Compile.Layout
import ComponentBuild.Proofs.Compile.Place
import ComponentBuild.Proofs.Document.Checked

namespace ComponentBuild

open Text (StandsAt IsBoundary)

namespace Preprocessed

/-- The pieces of the new document, with each cut checked. -/
def pieces? (source : List Char) (cursor : Nat) :
    List (Section × SectionOutput) → Option (List Piece)
  | [] =>
    (Text.slice? source cursor (Text.byteLength source)).map fun text =>
      [.copied cursor (String.ofList text)]
  | (s, o) :: rest =>
    (Text.slice? source cursor s.contentSpan.start).bind fun text =>
      (pieces? source s.contentSpan.stop rest).map fun others =>
        .copied cursor (String.ofList text) :: contentPiece s.contentSpan o :: others

/-- Two texts, the first of them a document from an offset on, that are the same but for the
contents of these sections, which have their outputs in their places. -/
inductive Replaces : Nat → List (Section × SectionOutput) → List Char → List Char → Prop where
  | nil (offset : Nat) (rest : List Char) : Replaces offset [] rest rest
  | cons {offset : Nat} {s : Section} {o : SectionOutput} {outputs : List (Section × SectionOutput)}
      {gap rest code : List Char} (start : s.contentSpan.start = offset + Text.byteLength gap)
      (stop : s.contentSpan.stop = s.contentSpan.start + Text.byteLength s.content.toList)
      (behind : Replaces s.contentSpan.stop outputs rest code) :
      Replaces offset ((s, o) :: outputs) (gap ++ (s.content.toList ++ rest))
        (gap ++ (o.code.toList ++ code))

variable {source : List Char} {offset : Nat} {outputs : List (Section × SectionOutput)}

theorem InOrder.pieces?_eq (h : InOrder source offset outputs) {cs : List Char}
    (hcs : StandsAt source offset cs) :
    pieces? source offset outputs = some (pieces source offset outputs) := by
  induction outputs generalizing offset cs with
  | nil =>
    have hslice := Text.slice?_between hcs.isBoundary (Text.isBoundary_byteLength source)
      hcs.isBoundary.le
    rw [pieces?, hslice, Option.map_some, String.ofList_toList]
    rfl
  | cons x outputs ih =>
    obtain ⟨s, o⟩ := x
    obtain ⟨gap, rest, -, rfl, hstart, -, hrest⟩ := h.exists_gap hcs
    have hslice := hcs.slice? (gap ++ ['>'])
    have hbetween := hcs.between (gap ++ ['>'])
    rw [← hstart] at hslice hbetween
    rw [pieces?, hslice, Option.bind_some, ih h.tail hrest, Option.map_some, pieces, hbetween]

/-- The code of the pieces is the document with the contents of the sections replaced. -/
theorem InOrder.replaces (h : InOrder source offset outputs) {cs : List Char}
    (hcs : StandsAt source offset cs) :
    Replaces offset outputs cs (Splice.codeChars (pieces source offset outputs)) := by
  induction outputs generalizing offset cs with
  | nil =>
    rw [← List.append_nil cs] at hcs
    have hbetween := hcs.between cs
    rw [List.append_nil] at hcs
    rw [← Scan.byteLength_of_standsAt hcs] at hbetween
    rw [pieces, hbetween, Splice.codeChars_cons, Splice.codeChars_nil, Piece.text,
      String.toList_ofList, List.append_nil]
    exact .nil offset cs
  | cons x outputs ih =>
    obtain ⟨s, o⟩ := x
    obtain ⟨gap, rest, -, rfl, hstart, hstop, hrest⟩ := h.exists_gap hcs
    have hbetween := hcs.between (gap ++ ['>'])
    rw [← hstart] at hbetween
    rw [pieces, hbetween, Splice.codeChars_cons, Splice.codeChars_cons, contentPiece_text,
      Piece.text, String.toList_ofList]
    exact .cons hstart hstop (ih h.tail hrest)

/-- What replaces the contents of sections is one text. -/
theorem Replaces.unique {cs code code' : List Char} (h : Replaces offset outputs cs code)
    (h' : Replaces offset outputs cs code') : code = code' := by
  induction h generalizing code' with
  | nil =>
    cases h'
    rfl
  | @cons offset s o outputs gap rest code start stop behind ih =>
    generalize hcs : gap ++ (s.content.toList ++ rest) = cs at h'
    cases h' with
    | @cons _ _ _ _ gap' rest' code' start' _ behind' =>
      obtain ⟨m, rfl, hrest⟩ := Text.exists_middle hcs (by omega)
      rw [Text.byteLength_append] at start'
      obtain rfl : m = [] := Text.byteLength_eq_zero.1 (by omega)
      obtain rfl := List.append_cancel_left hrest
      rw [List.append_nil, ih behind']

end Preprocessed

theorem scan_error {source : String} {e : ScanError} (h : scan source = .error e) :
    Scan.TagAt source.toList e.span.start := by
  unfold scan at h
  split at h
  next e' hrun =>
    cases h
    exact Scan.run_error hrun (StandsAt.zero _)
  next => cases h

theorem detect_error {name source : String} {e : ScanError}
    (h : Document.detect name source = .error e) : Scan.TagAt source.toList e.span.start := by
  unfold Document.detect at h
  split at h
  next hscan => exact scan_error (Except.error.inj h ▸ hscan)
  next => split at h <;> cases h

/-- A document that cannot be divided is told where that fails. -/
theorem ScanError.toFailure_of_tagAt {source : String} {e : ScanError}
    (h : Scan.TagAt source.toList e.span.start)
    (hsize : Text.byteLength source.toList < UInt32.size) :
    ∃ p q, Text.position? source.toList e.span.start = some p ∧ q.spot = p.spot.fromOne ∧
      e.toFailure source = .document (.ofPosition e.message (some q)) := by
  obtain ⟨cs, front, hsource, hstart⟩ := h
  have hp : Text.position? source.toList e.span.start = some (LineCol.after front) := by
    rw [hsource, hstart]
    exact LineIndex.unitLineCol?_append _ _
  obtain ⟨q, hq⟩ := ToolPosition.exists_ofLineCol_iff.2
    (LineCol.fits_fromOne_after (List.cons_ne_nil '<' cs) (hsource ▸ hsize))
  refine ⟨_, q, hp, ToolPosition.ofLineCol_eq_ok_iff.1 hq, ?_⟩
  change Failure.ofPlace e.message
    ((Text.position? source.toList e.span.start).mapM ToolPosition.ofLineCol) = _
  rw [hp, Option.mapM_some, hq]
  rfl

/-- No document makes scanning or replacing leave its bounds. A scan that checks each offset it cuts
at finds what scanning finds; sections, attributes and parts lie apart and inside the document; the
contents of any of the sections can be replaced, and all other text stays, unless a map that comes
with a new content tells a place that words cannot hold; and an error has a position. Offsets are
words in a document of less than 4 GiB. -/
theorem scan_in_bounds (source : String) :
    Scan.scan? source = some (scan source) ∧
      (∀ result, scan source = .ok result →
        (∀ s ∈ result.component.sections, s.Placed source.toList) ∧
        (result.component.sections.Pairwise fun s t => s.span.stop ≤ t.span.start) ∧
        (∃ ranges, PartsIn source.toList result.html ranges) ∧
        (Text.byteLength source.toList < UInt32.size →
          ∀ s ∈ result.component.sections, s.span.stop < UInt32.size) ∧
        ∀ (k : SectionContext) (outputs : List (Section × SectionOutput)), k.source = source →
          (outputs.map Prod.fst).Sublist result.component.sections →
          Preprocessed.pieces? source.toList 0 outputs =
              some (Preprocessed.pieces source.toList 0 outputs) ∧
            ∃ code : String, Preprocessed.Replaces 0 outputs source.toList code.toList ∧
              (Preprocessed.splice k outputs = .error ⟨⟩ ↔
                ∃ part ∈ Preprocessed.parts 0 0 outputs, part.Overflows k code) ∧
              (Preprocessed.splice k outputs ≠ .error ⟨⟩ →
                ∃ map, Preprocessed.splice k outputs = .ok ⟨code, some map⟩)) ∧
      ∀ e, scan source = .error e →
        IsBoundary source.toList e.span.start ∧
        (Text.byteLength source.toList < UInt32.size →
          ∃ p q, Text.position? source.toList e.span.start = some p ∧ q.spot = p.spot.fromOne ∧
            e.toFailure source = .document (.ofPosition e.message (some q))) := by
  refine ⟨Scan.scan?_eq source, fun result hresult => ?_,
    fun e he => ⟨(scan_error he).isBoundary, ScanError.toFailure_of_tagAt (scan_error he)⟩⟩
  obtain ⟨hplaced, hapart, hparts⟩ := scan_ok hresult
  refine ⟨hplaced, hapart, hparts, ?_, fun k outputs hk houtputs => ?_⟩
  · intro hsize s hs
    exact Nat.lt_of_le_of_lt (hplaced s hs).stop_boundary.le hsize
  subst hk
  have horder := Preprocessed.inOrder_of_sublist hplaced hapart houtputs
  refine ⟨horder.pieces?_eq (StandsAt.zero _), _, ?_, Preprocessed.splice_eq_error_iff, ?_⟩
  · rw [Splice.toList_code]
    exact horder.replaces (StandsAt.zero _)
  · intro hok
    cases hsplice : Preprocessed.splice k outputs with
    | error e => exact absurd hsplice hok
    | ok plain =>
      obtain ⟨m, -, rfl⟩ := Preprocessed.splice_eq_ok_iff.1 hsplice
      exact ⟨_, rfl⟩

theorem scan_in_bounds_of_style :
    (∃ s code map, scan "é<style>a</style>" = .ok ⟨⟨none, none, some s⟩, []⟩ ∧
      Preprocessed.Replaces 0 [(s, ⟨"b", none⟩)] "é<style>a</style>".toList code.toList ∧
      Preprocessed.splice ⟨{}, ⟨"A.svelte"⟩, "é<style>a</style>", .ofText "é<style>a</style>"⟩
        [(s, ⟨"b", none⟩)] = .ok ⟨code, some map⟩ ∧ code = "é<style>b</style>") ∧
      ∃ e, scan "é<style>" = .error e ∧ ∃ p, e.toFailure "é<style>" =
        .document (.ofPosition e.message (some p)) := by
  have hscan : scan "é<style>a</style>" =
      .ok ⟨⟨none, none, some ⟨.style, ⟨2, 18⟩, ⟨9, 10⟩, "a", []⟩⟩, []⟩ := by decide +kernel
  have herror : scan "é<style>" = .error ⟨.unclosedRawText "style", ⟨2, 9⟩⟩ := by decide +kernel
  constructor
  · let k : SectionContext :=
      ⟨{}, ⟨"A.svelte"⟩, "é<style>a</style>", .ofText "é<style>a</style>"⟩
    obtain ⟨-, code, hreplaces, hfails, hok⟩ :=
      ((scan_in_bounds "é<style>a</style>").2.1 _ hscan).2.2.2.2 k
        [(⟨.style, ⟨2, 18⟩, ⟨9, 10⟩, "a", []⟩, ⟨"b", none⟩)] rfl (List.Sublist.refl _)
    obtain ⟨map, hmap⟩ := hok fun h => absurd (hfails.1 h).choose_spec.1 List.not_mem_nil
    have hcode : (Preprocessed.splice k
        [(⟨.style, ⟨2, 18⟩, ⟨9, 10⟩, "a", []⟩, ⟨"b", none⟩)]).map Preprocessed.code =
          .ok "é<style>b</style>" := by decide +kernel
    rw [hmap] at hcode
    exact ⟨_, code, map, hscan, hreplaces, hmap, Except.ok.inj hcode⟩
  · obtain ⟨-, q, -, -, htold⟩ := ((scan_in_bounds "é<style>").2.2 _ herror).2 (by decide +kernel)
    exact ⟨_, herror, q, htold⟩

/-- A tool that takes its code to be from the last line that words can name leaves no document. -/
theorem splice_of_last_line :
    ∃ s, scan "\n<style lang=scss>a</style>" = .ok ⟨⟨none, none, some s⟩, []⟩ ∧
      Preprocessed.splice ⟨{}, ⟨"A.svelte"⟩, "\n<style lang=scss>a</style>",
        .ofText "\n<style lang=scss>a</style>"⟩
        [(s, ⟨"b", some ((PositionMap.empty.addSource "a").1.add ⟨0, 0⟩ 0 ⟨4294967295, 0⟩)⟩)] =
          .error ⟨⟩ :=
  ⟨⟨.style, ⟨1, 27⟩, ⟨18, 19⟩, "a", [⟨"lang", some "scss", ⟨8, 17⟩⟩]⟩, by decide +kernel,
    by decide +kernel⟩

end ComponentBuild
