import ComponentBuild.Compile.Failure
import ComponentBuild.Proofs.Position.Spot

namespace ComponentBuild

namespace Spot

/-- A place whose lines count from one, with lines from zero. There is none in front of the
first. -/
def fromZero (s : Spot) : Spot := ⟨s.line - 1, s.column⟩

/-- The place in the document of one in a section, whose content starts at `base`. Lines count from
one, and a line 0 is the first. -/
def within (s base : Spot) : Spot :=
  ⟨base.line + max 1 s.line, if s.line ≤ 1 then base.column + s.column else s.column⟩

variable {s base : Spot}

theorem fits_of_fits_fromOne (h : s.fromOne.Fits) : s.Fits := ⟨Nat.lt_of_succ_lt h.1, h.2⟩

theorem fromZero_fromOne (s : Spot) : s.fromOne.fromZero = s := rfl

theorem fits_fromOne_iff (h : s.Fits) : s.fromOne.Fits ↔ s.line + 1 < UInt32.size :=
  and_iff_left h.2

/-- A line that does not fit fits in no larger text. -/
theorem fits_fromOne_of_relativeTo (hs : s.Fits) (h : (s.relativeTo base).fromOne.Fits) :
    s.fromOne.Fits := by
  have hline := ((fits_fromOne_relativeTo_iff hs).1 h).1
  refine (fits_fromOne_iff hs).2 ?_
  omega

theorem within_eq (s base : Spot) : s.within base = (s.fromZero.relativeTo base).fromOne := by
  simp only [within, relativeTo, fromOne, fromZero, Nat.sub_eq_zero_iff_le]
  split <;> simp only [mk.injEq, and_true] <;> omega

end Spot

namespace ToolPosition

variable {p q : ToolPosition} {base : LineCol}

def spot (p : ToolPosition) : Spot := ⟨p.line.toNat, p.column.toNat⟩

theorem spot_inj : p.spot = q.spot ↔ p = q := by
  obtain ⟨line, column⟩ := p
  obtain ⟨line', column'⟩ := q
  simp only [spot, Spot.mk.injEq, mk.injEq, UInt32.toNat_inj]

theorem spot_fits (p : ToolPosition) : p.spot.Fits :=
  ⟨p.line.toNat_lt_size, p.column.toNat_lt_size⟩

theorem spot_toLineCol (p : ToolPosition) : p.toLineCol.spot = p.spot.fromZero := by
  unfold toLineCol LineCol.spot
  split
  next h =>
    rw [spot, h]
    rfl
  next h =>
    have hone : (1 : UInt32) ≤ p.line := by
      rw [UInt32.le_iff_toNat_le, UInt32.toNat_one]
      exact Nat.one_le_iff_ne_zero.2 fun hzero => h (UInt32.toNat_inj.1 hzero)
    rw [UInt32.toNat_sub_of_le _ _ hone, UInt32.toNat_one]
    rfl

/-- A line that counts from one is told exactly, or not at all. -/
theorem ofLineCol_eq_ok_iff {p : LineCol} : ofLineCol p = .ok q ↔ q.spot = p.spot.fromOne := by
  obtain ⟨line, column⟩ := q
  rw [ofLineCol, Checked.map_eq_ok_iff]
  simp only [addWords_eq_ok_iff, spot, Spot.fromOne, LineCol.spot, mk.injEq, Spot.mk.injEq,
    UInt32.toNat_inj, UInt32.toNat_one]
  constructor
  · rintro ⟨l, hl, rfl, hc⟩
    exact ⟨hl, hc.symm⟩
  · rintro ⟨hl, hc⟩
    exact ⟨line, hl, rfl, hc.symm⟩

theorem exists_spot_iff {s : Spot} : (∃ p : ToolPosition, p.spot = s) ↔ s.Fits := by
  constructor
  · rintro ⟨p, rfl⟩
    exact p.spot_fits
  · intro h
    obtain ⟨p, rfl⟩ := LineCol.exists_spot_iff.2 h
    exact ⟨⟨p.line, p.col⟩, rfl⟩

theorem exists_ofLineCol_iff {p : LineCol} : (∃ q, ofLineCol p = .ok q) ↔ p.spot.fromOne.Fits := by
  simp only [ofLineCol_eq_ok_iff, exists_spot_iff]

theorem ofLineCol_eq_error_iff {p : LineCol} : ofLineCol p = .error ⟨⟩ ↔ ¬ p.spot.fromOne.Fits := by
  rw [Checked.eq_error_iff, ← exists_ofLineCol_iff, not_exists]

/-- A place of a section is told exactly in the document, or not at all. -/
theorem relativeTo_eq_ok_iff : p.relativeTo base = .ok q ↔ q.spot = p.spot.within base.spot := by
  rw [relativeTo, Checked.bind_eq_ok_iff, Spot.within_eq]
  simp only [LineCol.relativeTo_eq_ok_iff, ofLineCol_eq_ok_iff, spot_toLineCol]
  constructor
  · rintro ⟨r, hr, hq⟩
    rw [hq, hr]
  · intro hq
    obtain ⟨r, hr⟩ := LineCol.exists_spot_iff.2 (Spot.fits_of_fits_fromOne (hq ▸ q.spot_fits))
    exact ⟨r, hr, by rw [hq, hr]⟩

end ToolPosition

/-- Where a failure is in what a map leads to, in numbers of any size. -/
def ToolFailure.spot? (f : ToolFailure) (map : Option PositionMap) : Option Spot :=
  f.start.bind fun p =>
    match map with
    | none => some p.spot
    | some m => (m.lookup p.toLineCol).map fun found => found.position.spot.fromOne

/-- Where a failure is told, in numbers of any size. What the map leads to is the document, or the
content of a section that starts at `base?`. -/
def ToolFailure.told (f : ToolFailure) (map : Option PositionMap) (base? : Option LineCol) :
    Option Spot :=
  match base? with
  | none => f.spot? map
  | some base => (f.spot? map).map (·.within base.spot)

theorem ToolFailure.told_of_start_none {f : ToolFailure} (h : f.start = none)
    (map : Option PositionMap) (base? : Option LineCol) : f.told map base? = none := by
  have hspot : f.spot? map = none := by rw [spot?, h, Option.bind_none]
  cases base? with
  | none => exact hspot
  | some base => rw [told, hspot, Option.map_none]

/-- A document is blamed at a place if that fits into words. -/
def Failure.Blames (message : String) (place : Option Spot) (failure : Failure) : Prop :=
  (∃ p : Option ToolPosition, p.map ToolPosition.spot = place ∧
    failure = .document (.ofPosition message p)) ∨
  (∃ s, place = some s ∧ ¬ s.Fits) ∧ failure = .abort .overflow

namespace Failure

variable {f : ToolFailure} {map : Option PositionMap} {base : LineCol} {message : String}

/-- A place that fits is the one that is told. -/
theorem Blames.eq_document {failure : Failure} {p : ToolPosition}
    (h : failure.Blames message (some p.spot)) :
    failure = .document (.ofPosition message (some p)) := by
  rcases h with ⟨q, hq, rfl⟩ | ⟨⟨s, hs, hnot⟩, -⟩
  · obtain ⟨q, rfl, hspot⟩ := Option.map_eq_some_iff.1 hq
    rw [ToolPosition.spot_inj.1 hspot]
  · exact absurd p.spot_fits (Option.some.inj hs ▸ hnot)

theorem blames_none : (Failure.ofPlace message (.ok none)).Blames message none :=
  .inl ⟨none, rfl, rfl⟩

/-- What is told where a sum of words says is told there if the sum fits. -/
theorem blames_of_spot {x : Checked ToolPosition} {s : Spot} (h : ∀ q, x = .ok q ↔ q.spot = s) :
    (Failure.ofPlace message (x.map some)).Blames message (some s) := by
  cases x with
  | ok q => exact .inl ⟨some q, congrArg some ((h q).1 rfl), rfl⟩
  | error e =>
    refine .inr ⟨⟨s, rfl, fun hfits => ?_⟩, rfl⟩
    obtain ⟨q, hq⟩ := ToolPosition.exists_spot_iff.2 hfits
    cases (h q).2 hq

/-- A failure behind preprocessing is told where the map leads to. -/
theorem ofTool_blames {stage : Stage} (h : ¬ (f.start.isNone && stage != .compile) = true) :
    (ofTool stage map (.failed f)).Blames (withFrame f.message f.frame) (f.told map none) := by
  rw [ofTool, if_neg h, ToolFailure.told]
  cases hstart : f.start with
  | none =>
    rw [ToolFailure.place, hstart, ToolFailure.spot?, hstart]
    exact blames_none
  | some p =>
    rw [ToolFailure.place, hstart, ToolFailure.spot?, hstart]
    cases map with
    | none => exact .inl ⟨some p, rfl, rfl⟩
    | some m =>
      simp only [ToolPosition.lift, Option.bind_some]
      cases m.lookup p.toLineCol with
      | none => exact blames_none
      | some found => exact blames_of_spot fun _ => ToolPosition.ofLineCol_eq_ok_iff

/-- The failure of a section is told where the map leads to in its content, as that stands in the
document. -/
theorem ofSectionTool_blames :
    (ofSectionTool map base (.failed f)).Blames f.message (f.told map (some base)) := by
  rw [ofSectionTool, ToolFailure.place, ToolFailure.told, ToolFailure.spot?]
  cases f.start with
  | none => exact blames_none
  | some p =>
    cases map with
    | none => exact blames_of_spot fun _ => ToolPosition.relativeTo_eq_ok_iff
    | some m =>
      simp only [ToolPosition.lift, Option.bind_some]
      cases m.lookup p.toLineCol with
      | none => exact blames_none
      | some found =>
        cases hfound : ToolPosition.ofLineCol found.position with
        | ok q =>
          rw [Option.mapM_some, hfound]
          have hq := ToolPosition.ofLineCol_eq_ok_iff.1 hfound
          refine blames_of_spot fun r => ?_
          rw [ToolPosition.relativeTo_eq_ok_iff, hq]
        | error e =>
          rw [Option.mapM_some, hfound]
          refine .inr ⟨⟨_, rfl, fun hfits => ?_⟩, rfl⟩
          change (found.position.spot.fromOne.within base.spot).Fits at hfits
          rw [Spot.within_eq, Spot.fromZero_fromOne] at hfits
          exact ToolPosition.ofLineCol_eq_error_iff.1 hfound
            (Spot.fits_fromOne_of_relativeTo (LineCol.spot_fits _) hfits)

end Failure

end ComponentBuild
