import ComponentBuild.Word

namespace ComponentBuild

/-- A line and a column of a text, both from zero. -/
structure LineCol where
  line : UInt32
  col : UInt32
  deriving DecidableEq, Repr, Inhabited

namespace LineCol

instance : LT LineCol := ⟨fun a b => a.line < b.line ∨ a.line = b.line ∧ a.col < b.col⟩

instance : LE LineCol := ⟨fun a b => a.line < b.line ∨ a.line = b.line ∧ a.col ≤ b.col⟩

instance (a b : LineCol) : Decidable (a < b) :=
  inferInstanceAs (Decidable (a.line < b.line ∨ a.line = b.line ∧ a.col < b.col))

instance (a b : LineCol) : Decidable (a ≤ b) :=
  inferInstanceAs (Decidable (a.line < b.line ∨ a.line = b.line ∧ a.col ≤ b.col))

/-- The absolute position of one that counts from `base`. Only the first line after `base` is
indented by it. -/
def relativeTo (p base : LineCol) : Checked LineCol :=
  if p.line = 0 then (addWords base.col p.col).map fun col => ⟨base.line, col⟩
  else (addWords base.line p.line).map fun line => ⟨line, p.col⟩

theorem lt_iff (a b : LineCol) :
    a < b ↔ a.line < b.line ∨ a.line = b.line ∧ a.col < b.col := Iff.rfl

theorem le_iff (a b : LineCol) :
    a ≤ b ↔ a.line < b.line ∨ a.line = b.line ∧ a.col ≤ b.col := Iff.rfl

theorem not_le_iff (a b : LineCol) : ¬ a ≤ b ↔ b < a := by
  simp only [le_iff, lt_iff, ← UInt32.toNat_inj, UInt32.lt_iff_toNat_lt, UInt32.le_iff_toNat_le]
  omega

theorem le_of_lt {a b : LineCol} (h : a < b) : a ≤ b := by
  simp only [le_iff, lt_iff, ← UInt32.toNat_inj, UInt32.lt_iff_toNat_lt,
    UInt32.le_iff_toNat_le] at h ⊢
  omega

theorem le_refl (a : LineCol) : a ≤ a := .inr ⟨rfl, UInt32.le_refl _⟩

theorem le_trans {a b c : LineCol} (hab : a ≤ b) (hbc : b ≤ c) : a ≤ c := by
  simp only [le_iff, ← UInt32.toNat_inj, UInt32.lt_iff_toNat_lt,
    UInt32.le_iff_toNat_le] at hab hbc ⊢
  omega

theorem le_antisymm {a b : LineCol} (hab : a ≤ b) (hba : b ≤ a) : a = b := by
  obtain ⟨l, c⟩ := a
  obtain ⟨l', c'⟩ := b
  simp only [le_iff, mk.injEq, ← UInt32.toNat_inj, UInt32.lt_iff_toNat_lt,
    UInt32.le_iff_toNat_le] at hab hba ⊢
  omega

end LineCol

end ComponentBuild
