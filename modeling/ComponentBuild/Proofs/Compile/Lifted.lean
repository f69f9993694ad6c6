import ComponentBuild.Host.Reply
import ComponentBuild.Proofs.Compile.Reported
import ComponentBuild.Proofs.Position.Order

namespace ComponentBuild

open Text (IsBoundary)

theorem Json.toWord?_nat (n : Nat) :
    Json.toWord? (.nat n) = if n < UInt32.size then some n.toUInt32 else none := rfl

/-- A reply can tell any place whose numbers are words, and no other one. Its line 0 is line 1. -/
theorem ToolPosition.ofJson?_nat (line column : Nat) :
    (ofJson? (.object [("line", .nat line), ("column", .nat column)])).map spot =
      if line < UInt32.size ∧ column < UInt32.size then some ⟨max 1 line, column⟩ else none := by
  have hfields : ofJson? (.object [("line", .nat line), ("column", .nat column)]) =
      (Json.toWord? (.nat line)).bind fun line => (Json.toWord? (.nat column)).bind fun column =>
        some ⟨if line = 0 then 1 else line, column⟩ := rfl
  rw [hfields, Json.toWord?_nat, Json.toWord?_nat]
  by_cases hline : line < UInt32.size
  · by_cases hcolumn : column < UInt32.size
    · rw [if_pos hline, if_pos hcolumn, if_pos (And.intro hline hcolumn)]
      have hzero : line.toUInt32 = 0 ↔ line = 0 := by
        rw [← UInt32.toNat_inj, UInt32.toNat_zero, Nat.toUInt32, UInt32.toNat_ofNat_of_lt' hline]
      refine congrArg some (congrArg₂ Spot.mk ?_ (UInt32.toNat_ofNat_of_lt' hcolumn))
      change (if line.toUInt32 = 0 then 1 else line.toUInt32).toNat = _
      by_cases h : line = 0
      · rw [if_pos (hzero.2 h), h]
        rfl
      · rw [if_neg (hzero.not.2 h), Nat.max_eq_right (Nat.one_le_iff_ne_zero.2 h)]
        exact UInt32.toNat_ofNat_of_lt' hline
    · rw [if_pos hline, if_neg hcolumn, if_neg fun h : _ ∧ _ => hcolumn h.2]
      rfl
  · rw [if_neg hline, if_neg fun h : _ ∧ _ => hline h.1]
    rfl

namespace PositionMap

/-- A mapping of a whole tells the places of one of a part, as numbers of any size. -/
def IsExactAt (generatedBase originalBase : LineCol) (source : Nat) (x y : Mapping) : Prop :=
  y.generated.spot = x.generated.spot.relativeTo generatedBase.spot ∧
    y.original.map (fun o => (o.source, o.position.spot)) =
      x.original.map fun o => (source, o.position.spot.relativeTo originalBase.spot)

variable {generatedBase originalBase : LineCol} {source : Nat} {x y : Mapping}

/-- One mapping of a whole is exact where words can hold its places. -/
theorem isExactAt_iff (h : FitsAt generatedBase originalBase x) :
    IsExactAt generatedBase originalBase source x y ↔
      y = shifted generatedBase originalBase source x := by
  have hmoved {p base : LineCol} (hp : (p.spot.relativeTo base.spot).Fits) (q : LineCol) :
      q.spot = p.spot.relativeTo base.spot ↔ q = p.moved base := by
    rw [← LineCol.relativeTo_eq_ok_iff, LineCol.relativeTo_of_fits hp, Except.ok.injEq, eq_comm]
  obtain ⟨generated, original⟩ := x
  obtain ⟨generated', original'⟩ := y
  unfold IsExactAt shifted
  rw [hmoved h.1, Mapping.mk.injEq]
  refine and_congr_right' ?_
  cases original with
  | none => simp only [Option.map_none, Option.map_eq_none_iff]
  | some o =>
    cases original' with
    | none => simp only [Option.map_none, Option.map_some, reduceCtorEq]
    | some o' =>
      obtain ⟨source', position⟩ := o'
      simp only [Option.map_some, Option.some.injEq, Prod.mk.injEq, Location.mk.injEq,
        hmoved (h.2 o rfl)]

/-- What a map says of places in new text and in what it was made of keeps what it says where both
are parts of larger texts. -/
theorem fitsAt_of_isIn {before code front content : List Char} (hcode : x.generated.IsIn code)
    (hcontent : ∀ o ∈ x.original, o.position.IsIn content)
    (hbefore : Text.byteLength (before ++ code) < UInt32.size)
    (hfront : Text.byteLength (front ++ content) < UInt32.size) :
    FitsAt (.after before) (.after front) x :=
  ⟨LineCol.fits_of_isIn hcode hbefore, fun o ho => LineCol.fits_of_isIn (hcontent o ho) hfront⟩

/-- The mappings of a part are taken in exactly. -/
theorem mem_extendShifted_iff_isExactAt {m part m' : PositionMap}
    (h : m.extendShifted part generatedBase originalBase source = .ok m') :
    y ∈ m'.mappings ↔
      y ∈ m.mappings ∨ ∃ x ∈ part.mappings, IsExactAt generatedBase originalBase source x y := by
  have hfits := (extendShifted_eq_ok_iff.1 h).1
  rw [mem_extendShifted h]
  refine or_congr_right (exists_congr fun x => and_congr_right fun hx => ?_)
  rw [isExactAt_iff (hfits x hx)]

end PositionMap

/-- Replies carry all places that are words, with a line 0 as line 1. A place that counts from
another one, a line that counts from one, and a mapping that a map takes in from a part are exact,
or there is an overflow: exactly where a sum is no word. So the failure of a tool is told at its
exact place in the document if and only if that fits, which it does wherever the place is in the
content of a section. -/
theorem places_lifted (options : BuildOptions) (path : Path) (source : String)
    (log : List (Exchange Step Step.Answer)) (s : Section) :
    (∀ line column : Nat,
      (ToolPosition.ofJson? (.object [("line", .nat line), ("column", .nat column)])).map
          ToolPosition.spot =
        if line < UInt32.size ∧ column < UInt32.size then some ⟨max 1 line, column⟩ else none) ∧
    (∀ p base : LineCol,
      (∀ q, p.relativeTo base = .ok q ↔ q.spot = p.spot.relativeTo base.spot) ∧
      (p.relativeTo base = .error ⟨⟩ ↔ ¬ (base.line.toNat + p.line.toNat < UInt32.size ∧
        (p.line.toNat = 0 → base.col.toNat + p.col.toNat < UInt32.size)))) ∧
    (∀ p : LineCol,
      (∀ q, ToolPosition.ofLineCol p = .ok q ↔ q.spot = p.spot.fromOne) ∧
      (ToolPosition.ofLineCol p = .error ⟨⟩ ↔ ¬ p.line.toNat + 1 < UInt32.size)) ∧
    (∀ (m part : PositionMap) (generatedBase originalBase : LineCol) (source : Nat),
      (∀ m', m.extendShifted part generatedBase originalBase source = .ok m' →
        ∀ y, y ∈ m'.mappings ↔ y ∈ m.mappings ∨ ∃ x ∈ part.mappings,
          PositionMap.IsExactAt generatedBase originalBase source x y) ∧
      (m.extendShifted part generatedBase originalBase source = .error ⟨⟩ ↔
        ∃ x ∈ part.mappings, ¬ PositionMap.FitsAt generatedBase originalBase x) ∧
      ∀ x ∈ part.mappings, ∀ before code front content : List Char,
        generatedBase = .after before → originalBase = .after front →
        Text.byteLength (before ++ code) < UInt32.size →
        Text.byteLength (front ++ content) < UInt32.size →
        x.generated.IsIn code → (∀ o ∈ x.original, o.position.IsIn content) →
        PositionMap.FitsAt generatedBase originalBase x) ∧
    (∀ (stage : Stage) (map : Option PositionMap) (failure : ToolFailure),
      failure.start ≠ none ∨ stage = .compile →
      (Failure.ofTool stage map (.failed failure)).Blames
        (withFrame failure.message failure.frame) (failure.told map none)) ∧
    (s.IsReached options path source log →
      let k : SectionContext := ⟨options, path, source, .ofText source⟩
      ∀ (changed : Option SectionOutput) (failure : ToolFailure),
        s.prepared k = .ok changed → s.needsTool options = true →
        let told := failure.told (changed.bind SectionOutput.map?) (some (s.base k))
        (∃ last : Failure, last.Blames failure.message told ∧
          EndsBehind options path source
            (log ++ [⟨.call (s.request k changed), (.error (.failed failure) : ToolAnswer)⟩])
            last) ∧
        ∀ inner : LineCol, Text.byteLength source.toList < UInt32.size →
          inner.IsIn s.content.toList →
          failure.spot? (changed.bind SectionOutput.map?) = some inner.spot.fromOne →
          ∃ place, told = some place ∧ place.Fits) := by
  refine ⟨ToolPosition.ofJson?_nat, ?sums, ?fromOne, ?parts, ?stages, ?sections⟩
  case sums =>
    intro p base
    refine ⟨fun q => LineCol.relativeTo_eq_ok_iff, ?_⟩
    rw [LineCol.relativeTo_eq_error_iff, Spot.fits_relativeTo_iff p.spot_fits base.spot_fits]
    rfl
  case fromOne =>
    intro p
    refine ⟨fun q => ToolPosition.ofLineCol_eq_ok_iff, ?_⟩
    rw [ToolPosition.ofLineCol_eq_error_iff, Spot.fits_fromOne_iff p.spot_fits]
    rfl
  case parts =>
    intro m part generatedBase originalBase source
    refine ⟨fun m' hm y => PositionMap.mem_extendShifted_iff_isExactAt hm,
      PositionMap.extendShifted_eq_error_iff, fun x _ => ?_⟩
    rintro before code front content rfl rfl hbefore hfront hcode hcontent
    exact PositionMap.fitsAt_of_isIn hcode hcontent hbefore hfront
  case stages =>
    intro stage map failure h
    refine Failure.ofTool_blames ?_
    rw [Bool.and_eq_true, Option.isNone_iff_eq_none, bne_iff_ne]
    tauto
  case sections =>
    intro hreached k changed failure hprepared hneeds told
    refine ⟨⟨_, Failure.ofSectionTool_blames, hreached.endsBehind
      (Section.transcript_of_refused hprepared hneeds (.failed failure))⟩, ?_⟩
    intro inner hsize hinner hspot
    obtain ⟨base, hbase⟩ := hreached.placed.exists_base
    have hfits := hreached.placed.fits_fromOne hsize hbase hinner
    have hsection : s.base k = base := Section.base_eq hbase
    refine ⟨inner.spot.fromOne.within base.spot, ?_, ?_⟩
    · simp only [told, ToolFailure.told, hspot, hsection, Option.map_some]
    · rwa [Spot.within_eq, Spot.fromZero_fromOne]

/-- The style of the document `"\n<style lang=scss>b</style>"`. -/
def secondLineStyle : Section :=
  ⟨.style, ⟨1, 27⟩, ⟨18, 19⟩, "b", [⟨"lang", some "scss", ⟨8, 17⟩⟩]⟩

theorem secondLineStyle_isReached :
    secondLineStyle.IsReached {} ⟨"A.svelte"⟩ "\n<style lang=scss>b</style>" [] :=
  Section.isReached_of_first (c := ⟨none, none, some secondLineStyle⟩) (by decide +kernel) rfl

theorem secondLineStyle_base :
    secondLineStyle.base ⟨{}, ⟨"A.svelte"⟩, "\n<style lang=scss>b</style>",
      .ofText "\n<style lang=scss>b</style>"⟩ = ⟨1, 17⟩ := by
  rfl

/-- A style on the second line. Its tool fails two lines further down. -/
theorem places_lifted_of_style :
    let source := "\n<style lang=scss>b</style>"
    let failure : ToolFailure := ⟨"boom", some ⟨3, 5⟩, none⟩
    TellsBehind {} ⟨"A.svelte"⟩ source
        [⟨.call (.preprocess (.style .scss) "b" [("lang", "scss")] "A.svelte"),
          (.error (.failed failure) : ToolAnswer)⟩] ⟨"boom", some 4, some 5⟩ ∧
      failure.told none (some ⟨1, 17⟩) = some ⟨4, 5⟩ := by
  intro source failure
  obtain ⟨-, -, -, -, -, hsections⟩ := places_lifted {} ⟨"A.svelte"⟩ source []
    secondLineStyle
  obtain ⟨⟨last, hblames, hends⟩, -⟩ := hsections secondLineStyle_isReached none failure rfl rfl
  have htold : failure.told none (some ⟨1, 17⟩) = some (⟨4, 5⟩ : ToolPosition).spot := rfl
  rw [secondLineStyle_base] at hblames
  obtain rfl := (htold ▸ hblames).eq_document
  exact ⟨hends, htold⟩

/-- A reply that tells the last line there is, about a style on the second line of a document: its
place in the document fits no word, and the build breaks off. So it is with a map that leads to that
line. -/
theorem line_of_reply_overflows :
    let source := "\n<style lang=scss>b</style>"
    let failure : ToolFailure := ⟨"boom", some ⟨4294967295, 0⟩, none⟩
    Reply.parse? ("\x7b\"id\":1,\"error\":\x7b\"message\":\"boom\"," ++
        "\"start\":\x7b\"line\":4294967295,\"column\":0\x7d\x7d\x7d") =
        some ⟨some 1, none, some failure, none⟩ ∧
      failure.told none (some ⟨1, 17⟩) = some ⟨4294967296, 0⟩ ∧
      BreaksOffBehind {} ⟨"A.svelte"⟩ source
        [⟨.call (.preprocess (.style .scss) "b" [("lang", "scss")] "A.svelte"),
          (.error (.failed failure) : ToolAnswer)⟩] .overflow ∧
      PositionMap.empty.extendShifted
        ((PositionMap.empty.addSource "a").1.add ⟨0, 0⟩ 0 ⟨4294967295, 0⟩) ⟨1, 17⟩ ⟨1, 17⟩ 0 =
          .error ⟨⟩ := by
  intro source failure
  have hends := secondLineStyle_isReached.endsBehind (Section.transcript_of_refused
    (rfl : secondLineStyle.prepared _ = .ok none) rfl (.failed failure))
  rw [secondLineStyle_base] at hends
  exact ⟨by decide +kernel, rfl, hends, rfl⟩

end ComponentBuild
