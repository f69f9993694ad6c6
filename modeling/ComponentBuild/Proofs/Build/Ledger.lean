import ComponentBuild.Build.Ledger
import Mathlib.Data.List.Basic

namespace ComponentBuild

namespace Path

variable {p q r : Path}

theorem sameAs_iff : p.sameAs q = true ↔ p.components = q.components := beq_iff_eq

@[simp] theorem sameAs_refl (p : Path) : p.sameAs p = true := sameAs_iff.2 rfl

theorem sameAs_comm (p q : Path) : p.sameAs q = q.sameAs p := Bool.beq_comm ..

theorem sameAs_congr (h : p.sameAs q = true) (r : Path) : p.sameAs r = q.sameAs r := by
  unfold sameAs
  rw [sameAs_iff.1 h]

end Path

namespace Ledger

variable (l : Ledger) (document file : Path)

def errorsOf : List DocumentError := (l.errors.filter (·.1.sameAs document)).map Prod.snd

theorem errorsOf_addError (e : DocumentError) (other : Path) :
    (l.addError document e).errorsOf other =
      l.errorsOf other ++ if document.sameAs other then [e] else [] := by
  unfold errorsOf addError
  rw [List.filter_append, List.map_append, List.filter_singleton]
  cases document.sameAs other <;> rfl

theorem errorsOf_takeErrors (other : Path) :
    (l.takeErrors document).2.errorsOf other =
      if document.sameAs other then [] else l.errorsOf other := by
  unfold errorsOf takeErrors
  rw [List.filter_filter]
  split
  · next h =>
    rw [List.filter_eq_nil_iff.2, List.map_nil]
    intro entry _
    rw [Path.sameAs_comm _ document, Path.sameAs_congr h, Path.sameAs_comm other]
    cases entry.1.sameAs other <;> exact Bool.false_ne_true
  · next h =>
    congr 1
    refine List.filter_congr fun entry _ => ?_
    cases hentry : entry.1.sameAs other with
    | false => rfl
    | true =>
      rw [Path.sameAs_congr hentry, Path.sameAs_comm, Bool.eq_false_iff.2 h]
      rfl

/-- Whether a document is listed with a file. -/
def listed (document file : Path) (dependents : List (Path × List Path)) : Bool :=
  dependents.any fun entry => entry.1.sameAs file && entry.2.any (·.sameAs document)

/-- Whether a document is known to depend on a file. -/
def relates : Bool := listed document file l.dependents

variable {l document file} {other f : Path} {dependents : List (Path × List Path)}

theorem any_sameAs_of_sameAs {documents : List Path} (h : document.sameAs other = true) :
    documents.any (·.sameAs document) = documents.any (·.sameAs other) := by
  refine List.any_congr rfl fun d => ?_
  rw [Path.sameAs_comm, Path.sameAs_congr h, Path.sameAs_comm]

theorem relates_congr (h : document.sameAs other = true) (l : Ledger) (f : Path) :
    l.relates document f = l.relates other f := by
  unfold relates listed
  refine List.any_congr rfl fun entry => ?_
  rw [any_sameAs_of_sameAs h]

theorem any_insert {documents : List Path} :
    (if documents.any (·.sameAs document) then documents else documents ++ [document]).any
        (·.sameAs other) = (documents.any (·.sameAs other) || document.sameAs other) := by
  split
  · next hmem =>
    cases h : document.sameAs other with
    | false => rw [Bool.or_false]
    | true => rw [← any_sameAs_of_sameAs h, hmem, Bool.true_or]
  · rw [List.any_append, List.any_cons, List.any_nil, Bool.or_false]

theorem listed_insertDependent :
    listed other f (insertDependent file document dependents) =
      (listed other f dependents || (file.sameAs f && document.sameAs other)) := by
  induction dependents with
  | nil => simp [insertDependent, listed]
  | cons entry dependents ih =>
    obtain ⟨g, documents⟩ := entry
    unfold insertDependent
    split
    · next hg =>
      unfold listed
      rw [List.any_cons, List.any_cons, any_insert, Path.sameAs_congr hg]
      cases file.sameAs f <;> cases documents.any (·.sameAs other) <;>
        cases document.sameAs other <;> simp
    · unfold listed at ih ⊢
      rw [List.any_cons, ih, List.any_cons, Bool.or_assoc]

theorem relates_addDependency (l : Ledger) :
    (l.addDependency document file).relates other f =
      (l.relates other f || ((l.resolve document file).sameAs f && document.sameAs other)) :=
  listed_insertDependent

theorem any_forget {documents : List Path} :
    (documents.filter (!·.sameAs document)).any (·.sameAs other) =
      (documents.any (·.sameAs other) && !document.sameAs other) := by
  rw [List.any_filter]
  cases h : document.sameAs other with
  | true =>
    rw [Bool.not_true, Bool.and_false, List.any_eq_false]
    intro d _
    rw [Path.sameAs_comm d, Path.sameAs_congr h, Path.sameAs_comm other]
    cases d.sameAs other <;> exact Bool.false_ne_true
  | false =>
    rw [Bool.not_false, Bool.and_true]
    refine List.any_congr rfl fun d => ?_
    cases hd : d.sameAs other with
    | false => rw [Bool.and_false]
    | true => rw [Path.sameAs_congr hd, Path.sameAs_comm, h]; rfl

theorem relates_forget (l : Ledger) :
    (l.forget document).relates other f = (l.relates other f && !document.sameAs other) := by
  unfold relates forget listed
  rw [List.any_filter, List.any_map]
  have hentry (entry : Path × List Path) :
      (!(entry.2.filter (!·.sameAs document)).isEmpty &&
        (entry.1.sameAs f && (entry.2.filter (!·.sameAs document)).any (·.sameAs other))) =
      ((entry.1.sameAs f && entry.2.any (·.sameAs other)) && !document.sameAs other) := by
    rw [Bool.and_assoc, ← any_forget]
    cases hany : (entry.2.filter (!·.sameAs document)).any (·.sameAs other) with
    | false => rw [Bool.and_false, Bool.and_false]
    | true =>
      have hne : (entry.2.filter (!·.sameAs document)).isEmpty = false := by
        rw [← Bool.not_eq_true, List.isEmpty_iff]
        intro hnil
        rw [hnil] at hany
        cases hany
      rw [hne, Bool.not_false, Bool.true_and]
  refine (List.any_congr rfl hentry).trans ?_
  cases document.sameAs other with
  | false => simp only [Bool.not_false, Bool.and_true]
  | true => simp only [Bool.not_true, Bool.and_false, List.any_eq_false, Bool.false_eq_true,
      not_false_eq_true, implies_true]

/-- No file is listed twice. -/
def Unique (l : Ledger) : Prop := l.dependents.Pairwise fun a b => a.1.sameAs b.1 = false

theorem dependentsOf_any (h : l.Unique) :
    (l.dependentsOf file).any (·.sameAs document) = l.relates document file.normalize := by
  unfold dependentsOf relates listed
  unfold Unique at h
  generalize l.dependents = dependents at h ⊢
  induction dependents with
  | nil => rfl
  | cons entry dependents ih =>
    obtain ⟨hentry, hrest⟩ := List.pairwise_cons.1 h
    rw [List.find?_cons, List.any_cons]
    cases hfile : entry.1.sameAs file.normalize with
    | false => rw [Bool.false_and, Bool.false_or, ← ih hrest]
    | true =>
      have hnone : (dependents.any fun e => e.1.sameAs file.normalize &&
          e.2.any (·.sameAs document)) = false := by
        rw [List.any_eq_false]
        intro e he
        have hne := hentry e he
        rw [Path.sameAs_congr hfile, Path.sameAs_comm] at hne
        rw [hne, Bool.false_and]
        exact Bool.false_ne_true
      rw [hnone, Bool.true_and, Bool.or_false]
      rfl

theorem mem_insertDependent {entry : Path × List Path}
    (h : entry ∈ insertDependent file document dependents) :
    entry.1 = file ∨ ∃ old ∈ dependents, old.1 = entry.1 := by
  induction dependents with
  | nil => exact .inl (congrArg Prod.fst (List.mem_singleton.1 h))
  | cons old dependents ih =>
    unfold insertDependent at h
    split at h
    · rcases List.mem_cons.1 h with rfl | h
      · exact .inr ⟨old, List.mem_cons_self, rfl⟩
      · exact .inr ⟨entry, List.mem_cons_of_mem _ h, rfl⟩
    · rcases List.mem_cons.1 h with rfl | h
      · exact .inr ⟨_, List.mem_cons_self, rfl⟩
      · rcases ih h with h | ⟨e, he, h⟩
        · exact .inl h
        · exact .inr ⟨e, List.mem_cons_of_mem _ he, h⟩

theorem Unique.addDependency (h : l.Unique) : (l.addDependency document file).Unique := by
  unfold Unique Ledger.addDependency at *
  generalize l.resolve document file = resolved
  generalize l.dependents = dependents at h ⊢
  induction dependents with
  | nil => exact List.pairwise_singleton ..
  | cons entry dependents ih =>
    obtain ⟨hentry, hrest⟩ := List.pairwise_cons.1 h
    unfold insertDependent
    split
    · exact List.pairwise_cons.2 ⟨hentry, hrest⟩
    · next hne =>
      refine List.pairwise_cons.2 ⟨fun e he => ?_, ih hrest⟩
      rcases mem_insertDependent he with he | ⟨old, hold, he⟩
      · rw [he]
        exact Bool.eq_false_iff.2 hne
      · rw [← he]
        exact hentry old hold

theorem Unique.forget (h : l.Unique) : (l.forget document).Unique :=
  List.Pairwise.filter _ (List.pairwise_map.2 h)

end Ledger

end ComponentBuild
