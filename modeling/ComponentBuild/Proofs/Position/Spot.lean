import ComponentBuild.Position.Map
import Mathlib.Logic.Basic

namespace ComponentBuild

theorem fitting_of_lt {n : Nat} (h : n < UInt32.size) : fitting n = .ok n := if_pos h

/-- A sum of words is exact. -/
theorem addWords_eq_ok_iff {a b c : UInt32} :
    addWords a b = .ok c ↔ c.toNat = a.toNat + b.toNat := by
  unfold addWords
  by_cases h : a.toNat + b.toNat < UInt32.size
  · rw [fitting_of_lt h]
    change Except.ok _ = _ ↔ _
    rw [Except.ok.injEq, ← UInt32.toNat_inj, Nat.toUInt32, UInt32.toNat_ofNat_of_lt' h, eq_comm]
  · rw [fitting, if_neg h]
    refine iff_of_false nofun fun hc => h (hc ▸ c.toNat_lt_size)

/-- Two that come to the same results are the same. -/
theorem Checked.ext {α : Type} {x y : Checked α} (h : ∀ a, x = .ok a ↔ y = .ok a) : x = y := by
  cases x with
  | ok a => exact ((h a).1 rfl).symm
  | error e =>
    cases y with
    | ok b => exact (h b).2 rfl
    | error e' => rfl

theorem Checked.eq_error_iff {α : Type} {x : Checked α} : x = .error ⟨⟩ ↔ ∀ a, x ≠ .ok a := by
  cases x with
  | ok a => exact iff_of_false nofun fun h => h a rfl
  | error e => exact iff_of_true rfl nofun

theorem Checked.map_eq_ok_iff {α β : Type} {f : α → β} {x : Checked α} {b : β} :
    x.map f = .ok b ↔ ∃ a, x = .ok a ∧ f a = b := by
  cases x with
  | ok a => simp [Except.map]
  | error e => simp [Except.map]

theorem Checked.bind_eq_ok_iff {α β : Type} {f : α → Checked β} {x : Checked α} {b : β} :
    x >>= f = .ok b ↔ ∃ a, x = .ok a ∧ f a = .ok b := by
  cases x with
  | ok a => exact ⟨fun h => ⟨a, rfl, h⟩, fun ⟨_, ha, h⟩ => Except.ok.inj ha ▸ h⟩
  | error e => exact iff_of_false nofun nofun

theorem Checked.map_eq_error_iff {α β : Type} {f : α → β} {x : Checked α} {e : Overflow} :
    x.map f = .error e ↔ x = .error e := by
  cases x with
  | ok a => simp [Except.map]
  | error e => simp [Except.map]

theorem Checked.exists_eq_ok {α : Type} {x : Checked α} (h : x.toOption.isSome = true) :
    ∃ a, x = .ok a := by
  cases x with
  | ok a => exact ⟨a, rfl⟩
  | error e => cases h

/-- A line and a column of any size. -/
structure Spot where
  line : Nat
  column : Nat
  deriving DecidableEq

namespace Spot

/-- The absolute place of one that counts from `base`. -/
def relativeTo (p base : Spot) : Spot :=
  if p.line = 0 then ⟨base.line, base.column + p.column⟩ else ⟨base.line + p.line, p.column⟩

/-- The same place with lines that count from one. -/
def fromOne (p : Spot) : Spot := ⟨p.line + 1, p.column⟩

def Fits (p : Spot) : Prop := p.line < UInt32.size ∧ p.column < UInt32.size

variable {p q r base : Spot}

theorem relativeTo_assoc : (p.relativeTo q).relativeTo r = p.relativeTo (q.relativeTo r) := by
  unfold relativeTo
  by_cases hp : p.line = 0
  · by_cases hq : q.line = 0
    · simp only [hp, hq, if_true, Nat.add_assoc]
    · simp only [hp, hq, if_true, if_false]
  · have hsum : q.line + p.line ≠ 0 := by omega
    by_cases hq : q.line = 0
    · simp only [hp, hq, Nat.zero_add, if_true, if_false]
    · simp only [hp, hq, hsum, if_false, Nat.add_assoc]

theorem fits_relativeTo_iff (hp : p.Fits) (hbase : base.Fits) :
    (p.relativeTo base).Fits ↔ base.line + p.line < UInt32.size ∧
      (p.line = 0 → base.column + p.column < UInt32.size) := by
  unfold relativeTo
  split
  next h => simp only [Fits, h, Nat.add_zero, hbase.1, true_and, forall_const]
  next h => simp only [Fits, h, hp.2, and_true, false_imp_iff]

theorem fits_fromOne_relativeTo_iff (hp : p.Fits) :
    (p.relativeTo base).fromOne.Fits ↔ base.line + p.line + 1 < UInt32.size ∧
      (p.line = 0 → base.column + p.column < UInt32.size) := by
  unfold relativeTo fromOne
  split
  next h => simp only [Fits, h, Nat.add_zero, forall_const]
  next h => simp only [Fits, h, hp.2, and_true, false_imp_iff]

end Spot

namespace LineCol

variable {p q r base : LineCol}

def spot (p : LineCol) : Spot := ⟨p.line.toNat, p.col.toNat⟩

theorem spot_fits (p : LineCol) : p.spot.Fits := ⟨p.line.toNat_lt_size, p.col.toNat_lt_size⟩

/-- Every spot that fits is one of words. -/
theorem exists_spot_iff {s : Spot} : (∃ p : LineCol, p.spot = s) ↔ s.Fits := by
  constructor
  · rintro ⟨p, rfl⟩
    exact p.spot_fits
  · rintro ⟨hline, hcol⟩
    exact ⟨⟨s.line.toUInt32, s.column.toUInt32⟩,
      congrArg₂ Spot.mk (UInt32.toNat_ofNat_of_lt' hline) (UInt32.toNat_ofNat_of_lt' hcol)⟩

/-- Positions that count from others are told exactly, or not at all. -/
theorem relativeTo_eq_ok_iff :
    p.relativeTo base = .ok q ↔ q.spot = p.spot.relativeTo base.spot := by
  have hzero : p.line = 0 ↔ p.spot.line = 0 := UInt32.toNat_inj.symm
  obtain ⟨line, col⟩ := q
  unfold relativeTo Spot.relativeTo
  by_cases h : p.line = 0
  · rw [if_pos h, if_pos (hzero.1 h), Checked.map_eq_ok_iff]
    simp only [addWords_eq_ok_iff, spot, mk.injEq, Spot.mk.injEq, UInt32.toNat_inj]
    exact ⟨fun ⟨c, hc, hl, he⟩ => ⟨hl.symm, he ▸ hc⟩, fun ⟨hl, hc⟩ => ⟨col, hc, hl.symm, rfl⟩⟩
  · rw [if_neg h, if_neg (hzero.not.1 h), Checked.map_eq_ok_iff]
    simp only [addWords_eq_ok_iff, spot, mk.injEq, Spot.mk.injEq, UInt32.toNat_inj]
    exact ⟨fun ⟨l, hl, he, hc⟩ => ⟨he ▸ hl, hc.symm⟩, fun ⟨hl, hc⟩ => ⟨line, hl, rfl, hc.symm⟩⟩

theorem exists_relativeTo_iff :
    (∃ q, p.relativeTo base = .ok q) ↔ (p.spot.relativeTo base.spot).Fits := by
  simp only [relativeTo_eq_ok_iff, exists_spot_iff]

theorem relativeTo_eq_error_iff :
    p.relativeTo base = .error ⟨⟩ ↔ ¬ (p.spot.relativeTo base.spot).Fits := by
  rw [Checked.eq_error_iff, ← exists_relativeTo_iff, not_exists]

/-- Counting from a place that itself counts from another one is counting from that. -/
theorem relativeTo_assoc {a b : LineCol} (ha : p.relativeTo q = .ok a)
    (hb : q.relativeTo r = .ok b) : a.relativeTo r = p.relativeTo b := by
  rw [relativeTo_eq_ok_iff] at ha hb
  refine Checked.ext fun c => ?_
  rw [relativeTo_eq_ok_iff, relativeTo_eq_ok_iff, ha, hb, Spot.relativeTo_assoc]

/-- The position that `relativeTo` tells where the sums fit. -/
def moved (p base : LineCol) : LineCol :=
  if p.line = 0 then ⟨base.line, base.col + p.col⟩ else ⟨base.line + p.line, p.col⟩

theorem relativeTo_of_fits (h : (p.spot.relativeTo base.spot).Fits) :
    p.relativeTo base = .ok (p.moved base) := by
  rw [relativeTo_eq_ok_iff]
  have hzero : p.line = 0 ↔ p.spot.line = 0 := UInt32.toNat_inj.symm
  unfold Spot.relativeTo moved at *
  by_cases hp : p.line = 0
  · rw [if_pos (hzero.1 hp)] at h ⊢
    rw [if_pos hp]
    exact congrArg (Spot.mk _) ((UInt32.toNat_add _ _).trans (Nat.mod_eq_of_lt h.2))
  · rw [if_neg (hzero.not.1 hp)] at h ⊢
    rw [if_neg hp]
    exact congrArg (Spot.mk · _) ((UInt32.toNat_add _ _).trans (Nat.mod_eq_of_lt h.1))

end LineCol

namespace PositionMap

variable {generatedBase originalBase : LineCol} {source : Nat} {x : Mapping}

/-- Words can hold both places of a mapping of a part in the whole. -/
def FitsAt (generatedBase originalBase : LineCol) (x : Mapping) : Prop :=
  (x.generated.spot.relativeTo generatedBase.spot).Fits ∧
    ∀ o ∈ x.original, (o.position.spot.relativeTo originalBase.spot).Fits

/-- A mapping of a part, as the map of the whole holds it where it fits. -/
def shifted (generatedBase originalBase : LineCol) (source : Nat) (x : Mapping) : Mapping :=
  ⟨x.generated.moved generatedBase,
    x.original.map fun o => ⟨source, o.position.moved originalBase⟩⟩

theorem shift_none (generated : LineCol) :
    (Mapping.mk generated none).shift generatedBase originalBase source =
      (generated.relativeTo generatedBase).map (⟨·, none⟩) :=
  rfl

theorem shift_some (generated : LineCol) (o : Location) :
    (Mapping.mk generated (some o)).shift generatedBase originalBase source =
      (o.position.relativeTo originalBase).bind fun q =>
        (generated.relativeTo generatedBase).map (⟨·, some ⟨source, q⟩⟩) := by
  unfold Mapping.shift
  dsimp only
  rw [Option.mapM_some]
  cases o.position.relativeTo originalBase <;> rfl

theorem shift_of_fitsAt (h : FitsAt generatedBase originalBase x) :
    x.shift generatedBase originalBase source =
      .ok (shifted generatedBase originalBase source x) := by
  obtain ⟨generated, _ | o⟩ := x
  · rw [shift_none, LineCol.relativeTo_of_fits h.1]
    rfl
  · rw [shift_some, LineCol.relativeTo_of_fits h.1, LineCol.relativeTo_of_fits (h.2 o rfl)]
    rfl

theorem shift_of_not_fitsAt (h : ¬ FitsAt generatedBase originalBase x) :
    x.shift generatedBase originalBase source = .error ⟨⟩ := by
  obtain ⟨generated, _ | o⟩ := x
  · rw [shift_none, LineCol.relativeTo_eq_error_iff.2 fun hp => h ⟨hp, nofun⟩]
    rfl
  · rw [shift_some]
    by_cases ho : (o.position.spot.relativeTo originalBase.spot).Fits
    · rw [LineCol.relativeTo_of_fits ho,
        LineCol.relativeTo_eq_error_iff.2 fun hp => h ⟨hp, fun _ he => Option.some.inj he ▸ ho⟩]
      rfl
    · rw [LineCol.relativeTo_eq_error_iff.2 ho]
      rfl

theorem mapM_shift_eq_ok_iff {xs ys : List Mapping} :
    xs.mapM (·.shift generatedBase originalBase source) = .ok ys ↔
      (∀ x ∈ xs, FitsAt generatedBase originalBase x) ∧
        ys = xs.map (shifted generatedBase originalBase source) := by
  induction xs generalizing ys with
  | nil =>
    rw [List.mapM_nil]
    change Except.ok _ = _ ↔ _
    simp [eq_comm]
  | cons x xs ih =>
    rw [List.mapM_cons, List.forall_mem_cons]
    by_cases hx : FitsAt generatedBase originalBase x
    · rw [shift_of_fitsAt hx]
      simp only [hx, true_and, List.map_cons]
      cases hxs : xs.mapM (·.shift generatedBase originalBase source) with
      | ok zs =>
        obtain ⟨hfits, rfl⟩ := ih.1 hxs
        change Except.ok _ = _ ↔ _
        simp only [Except.ok.injEq, and_iff_right hfits, eq_comm]
      | error e =>
        change Except.error _ = _ ↔ _
        refine iff_of_false nofun fun h => ?_
        exact absurd (ih.2 ⟨h.1, rfl⟩) (by rw [hxs]; exact nofun)
    · rw [shift_of_not_fitsAt hx]
      exact iff_of_false nofun fun h => hx h.1.1

/-- A part is taken in as a whole or not at all. -/
theorem shiftMappings_eq_ok_iff {part : PositionMap} {ys : List Mapping} :
    part.shiftMappings generatedBase originalBase source = .ok ys ↔
      (∀ x ∈ part.mappings, FitsAt generatedBase originalBase x) ∧
        ys = part.mappings.map (shifted generatedBase originalBase source) :=
  mapM_shift_eq_ok_iff

theorem shiftMappings_eq_error_iff {part : PositionMap} :
    part.shiftMappings generatedBase originalBase source = .error ⟨⟩ ↔
      ∃ x ∈ part.mappings, ¬ FitsAt generatedBase originalBase x := by
  by_cases h : ∀ x ∈ part.mappings, FitsAt generatedBase originalBase x
  · rw [shiftMappings_eq_ok_iff.2 ⟨h, rfl⟩]
    exact iff_of_false nofun fun ⟨x, hx, hnot⟩ => hnot (h x hx)
  · refine iff_of_true
      (Checked.eq_error_iff.2 fun ys hys => h (shiftMappings_eq_ok_iff.1 hys).1) ?_
    simpa only [not_forall, exists_prop] using h

theorem extendShifted_eq_ok_iff {m part m' : PositionMap} :
    m.extendShifted part generatedBase originalBase source = .ok m' ↔
      (∀ x ∈ part.mappings, FitsAt generatedBase originalBase x) ∧
        m' = part.mappings.foldl (fun m x =>
          let y := shifted generatedBase originalBase source x
          m.addMapping y.generated y.original) m := by
  unfold extendShifted
  cases h : part.shiftMappings generatedBase originalBase source with
  | ok ys =>
    obtain ⟨hfits, rfl⟩ := shiftMappings_eq_ok_iff.1 h
    change Except.ok (List.foldl _ m (part.mappings.map _)) = _ ↔ _
    rw [List.foldl_map, Except.ok.injEq, and_iff_right hfits, eq_comm]
  | error e =>
    change Except.error _ = _ ↔ _
    refine iff_of_false nofun fun hm => ?_
    exact absurd (shiftMappings_eq_ok_iff.2 ⟨hm.1, rfl⟩) (by rw [h]; exact nofun)

theorem extendShifted_eq_error_iff {m part : PositionMap} :
    m.extendShifted part generatedBase originalBase source = .error ⟨⟩ ↔
      ∃ x ∈ part.mappings, ¬ FitsAt generatedBase originalBase x := by
  rw [← shiftMappings_eq_error_iff, extendShifted]
  cases part.shiftMappings generatedBase originalBase source with
  | ok ys => exact iff_of_false nofun nofun
  | error e => exact iff_of_true rfl rfl

end PositionMap

end ComponentBuild
