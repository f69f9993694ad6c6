import ComponentBuild.Proofs.Build.SideBySide
import Mathlib.Algebra.BigOperators.Group.Finset.Basic
import Mathlib.Algebra.Order.BigOperators.Group.Finset

namespace ComponentBuild

open BuildExchange

namespace Building

variable {plan : BuildPlan} {tool : Request → ToolAnswer} {documents : List Path} {w w' : World}
  {s t : Building} {d : Path}

/-- A task that has ended has come to what it comes to alone. -/
theorem Inv.ended (h : Inv plan tool documents w s) (hd : d ∈ documents) {built : Bool}
    (hrest : s.rest d = .done built) :
    built = (plan.ending tool w d).1 ∧ s.world.ledger.errorsOf d = [] ∧
      s.logOf d = (plan.ending tool w d).2.log := by
  have hruns := h.runs d hd
  have herrors := (plan.ending_outcome tool w d).errors
  rw [hrest] at hruns
  rw [← hruns] at herrors ⊢
  exact ⟨rfl, herrors, rfl⟩

/-- All that a task has asked is the front of what it asks alone. -/
theorem Inv.logOf_length_le (h : Inv plan tool documents w s) (hd : d ∈ documents) :
    (s.logOf d).length ≤ (plan.ending tool w d).2.log.length := by
  obtain ⟨back, hback⟩ := Task.alone_log tool (plan.source w d) (s.rest d)
    ⟨s.world.ledger.errorsOf d, s.logOf d⟩
  rw [← h.runs d hd, hback, List.length_append]
  exact Nat.le_add_right ..

theorem length_logOf (s : Building) (d : Path) :
    (s.logOf d).length = (s.past.map Prod.fst).count d := by
  unfold logOf
  rw [List.length_map, List.count_eq_length_filter, List.filter_map, List.length_map]
  congr 2

/-- Tasks do not go on for ever. -/
theorem Inv.past_length_le (h : Inv plan tool documents w s) :
    s.past.length ≤ ∑ d ∈ documents.toFinset, (plan.ending tool w d).2.log.length := by
  have hmem : ∀ d ∈ Multiset.ofList (s.past.map Prod.fst), d ∈ documents.toFinset := by
    intro d hd
    obtain ⟨x, hx, rfl⟩ := List.mem_map.1 (Multiset.mem_coe.1 hd)
    exact List.mem_toFinset.2 (h.past x hx).1
  have hsum : ∑ d ∈ documents.toFinset, (s.logOf d).length = s.past.length := by
    simp only [length_logOf, ← Multiset.coe_count]
    rw [Multiset.sum_count_eq_card hmem, Multiset.coe_card, List.length_map]
  rw [← hsum]
  exact Finset.sum_le_sum fun d hd => h.logOf_length_le (List.mem_toFinset.1 hd)

/-- A task that has the surroundings for itself goes on to its end. -/
theorem Reachable.run {task : Task Bool} {built : Bool} (hs : Reachable plan tool documents w s)
    (hrest : s.rest d = task)
    (hrun : task.run (World.answer tool) s.world = some (built, w')) :
    ∃ log : List BuildExchange, Reachable plan tool documents w
      ⟨w', Function.update s.rest d (.done built), s.past ++ log.map (Prod.mk d)⟩ := by
  induction task generalizing s with
  | done a =>
    cases hrun
    refine ⟨[], ?_⟩
    rw [← hrest, Function.update_eq_self, List.map_nil, List.append_nil]
    exact hs
  | ask q next ih =>
    obtain ⟨⟨a, w₁⟩, hanswer, hrun⟩ := Option.bind_eq_some_iff.1 hrun
    obtain ⟨log, hlog⟩ := ih a (hs.step (.ask hrest hanswer)) (Function.update_self ..) hrun
    refine ⟨⟨q, a⟩ :: log, ?_⟩
    rwa [Function.update_idem, List.append_assoc] at hlog

theorem logOf_of_others {s : Building} {e : Path} {log : List BuildExchange}
    {rest : Path → Task Bool} (h : d ≠ e) :
    logOf ⟨w', rest, s.past ++ log.map (Prod.mk d)⟩ e = s.logOf e := by
  unfold logOf
  have hlog : (log.map (Prod.mk d)).filter (·.1 = e) = [] := by
    refine List.filter_eq_nil_iff.2 fun x hx => ?_
    obtain ⟨y, -, rfl⟩ := List.mem_map.1 hx
    simpa using h
  rw [List.filter_append, hlog, List.append_nil]

theorem logOf_of_own {s : Building} {log : List BuildExchange} {rest : Path → Task Bool} :
    logOf ⟨w', rest, s.past ++ log.map (Prod.mk d)⟩ d = s.logOf d ++ log := by
  unfold logOf
  have hlog : ((log.map (Prod.mk d)).filter (·.1 = d)).map Prod.snd = log := by
    rw [List.filter_eq_self.2, List.map_map]
    · exact List.map_id log
    · intro x hx
      obtain ⟨y, -, rfl⟩ := List.mem_map.1 hx
      exact decide_eq_true rfl
  rw [List.filter_append, List.map_append, hlog]

/-- What is told while a document is built is what its task tells alone. -/
theorem Inv.told_of_run (h : Inv plan tool documents w s) {log : List BuildExchange}
    {rest : Path → Task Bool} {built : Bool}
    (h' : Inv plan tool documents w ⟨w', rest, s.past ++ log.map (Prod.mk d)⟩) (hd : d ∈ documents)
    (hrest : rest d = .done built) (hlog : s.logOf d = []) :
    w'.told = s.world.told ++ BuildExchange.told (plan.ending tool w d).2.log := by
  obtain ⟨-, -, hended⟩ := h'.ended hd hrest
  rw [logOf_of_own, hlog, List.nil_append] at hended
  have htold := h'.told
  rw [List.map_append, told_append, ← List.append_assoc, ← h.told, List.map_map] at htold
  rw [← hended]
  exact htold.trans (congrArg (fun l => s.world.told ++ BuildExchange.told l) (List.map_id log))

/-- How many of some documents could not be built. -/
def failures (s : Building) (documents : List Path) : Nat :=
  documents.countP fun d =>
    match s.rest d with
    | .done built => !built
    | .ask _ _ => false

/-- Documents that are built one after the other, in a build that has not begun with them. -/
theorem Reachable.buildEach {order : List Path} {n : Nat}
    (hinv : ∀ s, Reachable plan tool documents w s → Inv plan tool documents w s)
    (hs : Reachable plan tool documents w s) (hnodup : order.Nodup)
    (horder : ∀ d ∈ order, d ∈ documents ∧ s.rest d = Task.attempt plan d ∧ s.logOf d = [])
    (hrun : (Task.buildEach plan order).run (World.answer tool) s.world = some (n, w')) :
    ∃ t, Reachable plan tool documents w t ∧ t.world = w' ∧
      (∀ d ∉ order, t.rest d = s.rest d) ∧ (∀ d ∈ order, ∃ built, t.rest d = .done built) ∧
      n = t.failures order ∧
      w'.told = s.world.told ++
        order.flatMap fun d => BuildExchange.told (plan.ending tool w d).2.log := by
  induction order generalizing s n with
  | nil =>
    cases hrun
    exact ⟨s, hs, rfl, fun _ _ => rfl, nofun, rfl, (List.append_nil _).symm⟩
  | cons d order ih =>
    obtain ⟨hdorder, hnodup⟩ := List.nodup_cons.1 hnodup
    obtain ⟨⟨hd, hrest, hlog⟩, horder⟩ := List.forall_mem_cons.1 horder
    rw [Task.buildEach, Dialogue.bind_eq, Dialogue.run_bind] at hrun
    obtain ⟨⟨built, w₁⟩, hfirst, hrun⟩ := Option.bind_eq_some_iff.1 hrun
    dsimp only at hrun
    rw [Dialogue.bind_eq, Dialogue.run_bind] at hrun
    obtain ⟨⟨failed, w₂⟩, hothers, hrun⟩ := Option.bind_eq_some_iff.1 hrun
    obtain ⟨rfl, rfl⟩ := Prod.mk.inj (Option.some.inj hrun)
    obtain ⟨log, hs₁⟩ := hs.run hrest hfirst
    have hne {e : Path} (he : e ∈ order) : d ≠ e := fun heq => hdorder (heq ▸ he)
    obtain ⟨t, ht, hworld, hidle, hdone, hfailed, htold⟩ := ih hs₁ hnodup (fun e he =>
      ⟨(horder e he).1, (Function.update_of_ne (hne he).symm ..).trans (horder e he).2.1,
        (logOf_of_others (hne he)).trans (horder e he).2.2⟩) hothers
    have hrest_d : t.rest d = .done built := (hidle d hdorder).trans (Function.update_self ..)
    have htold_d : w₁.told = s.world.told ++ BuildExchange.told (plan.ending tool w d).2.log :=
      (hinv s hs).told_of_run (hinv _ hs₁) hd (Function.update_self ..) hlog
    refine ⟨t, ht, hworld, fun e he => ?_, fun e he => ?_, ?_, ?_⟩
    · exact (hidle e (List.not_mem_of_not_mem_cons he)).trans
        (Function.update_of_ne (List.ne_of_not_mem_cons he) ..)
    · rcases List.mem_cons.1 he with rfl | he
      · exact ⟨built, hrest_d⟩
      · exact hdone e he
    · unfold failures at hfailed ⊢
      rw [List.countP_cons, hrest_d, hfailed]
      cases built <;> rfl
    · rw [htold, htold_d, List.flatMap_cons, List.append_assoc]

/-- The end of a document's task. -/
structure Settled (plan : BuildPlan) (tool : Request → ToolAnswer) (w : World) (s : Building)
    (d : Path) : Prop where
  /-- A document that cannot be built writes nothing. -/
  failed : s.rest d = .done false → written (s.logOf d) = []
  /-- Each error that was reported is told once, beside the text of the document; what is told else
  is why the stages broke off. -/
  told : BuildExchange.told (s.logOf d) =
    (reported (s.logOf d)).map (Task.errorText plan d (plan.source w d)) ++
      plan.breakdown tool d (plan.source w d)
  /-- The task asks and is answered as in a build of this document only. -/
  alone : ∀ t, Reachable plan tool [d] w t → t.Complete →
    t.rest d = s.rest d ∧ t.logOf d = s.logOf d

/-- The end of a build beside that of a build of its documents in an order. -/
structure EndsAs (documents : List Path) (w : World) (s : Building) (order : List Path)
    (summary : Report.Summary) (w' : World) : Prop where
  files : ∀ l, s.world.tree.fileAt l = w'.tree.fileAt l
  summary : summary = ⟨documents.length, s.failures documents⟩
  /-- What the author is told of each document. -/
  told : w'.told = w.told ++ order.flatMap fun d => BuildExchange.told (s.logOf d)
  dependents : ∀ file document, (s.world.ledger.dependentsOf file).any (·.sameAs document) =
    (w'.ledger.dependentsOf file).any (·.sameAs document)
  errors : s.world.ledger.errors = [] ∧ w'.ledger.errors = []

theorem Inv.settled (hinv : Inv plan tool documents w s) (hplain : ∀ d ∈ documents, d.IsPlain)
    (herrors : w.ledger.errors = []) (hunique : w.ledger.Unique) (hcomplete : s.Complete)
    (hd : d ∈ documents) : Settled plan tool w s d := by
  obtain ⟨built, hrest⟩ := hcomplete d
  obtain ⟨hbuilt, -, hlog⟩ := hinv.ended hd hrest
  have houtcome := plan.ending_outcome tool w d
  rw [← hbuilt] at houtcome
  refine ⟨fun hfalse => ?_, by rw [hlog]; exact houtcome.told, fun t ht htcomplete => ?_⟩
  · rw [hrest] at hfalse
    cases hfalse
    have hbuilds := houtcome.built
    rw [hlog, houtcome.written]
    unfold BuildPlan.builds at hbuilds
    unfold BuildPlan.outputs
    split at hbuilds
    · cases hbuilds
    · rfl
  · have hapart : plan.Apart tool [d] w :=
      ⟨fun e he => List.mem_singleton.1 he ▸ hplain d hd, List.nodup_singleton d,
        fun e he f hf hne =>
          absurd ((List.mem_singleton.1 he).trans (List.mem_singleton.1 hf).symm) hne⟩
    obtain ⟨built', hrest'⟩ := htcomplete d
    obtain ⟨hbuilt', -, hlog'⟩ :=
      (ht.inv hapart herrors hunique).ended (List.mem_singleton_self d) hrest'
    exact ⟨by rw [hrest, hrest', hbuilt, hbuilt'], hlog'.trans hlog.symm⟩

/-- No error is left behind. -/
theorem Inv.errors_eq_nil (h : Inv plan tool documents w s) (hcomplete : s.Complete) :
    s.world.ledger.errors = [] := by
  refine List.eq_nil_iff_forall_not_mem.2 fun entry hentry => ?_
  have hd := h.errors entry hentry
  obtain ⟨built, hrest⟩ := hcomplete entry.1
  have hnone := (h.ended hd hrest).2.1
  unfold Ledger.errorsOf at hnone
  rw [List.map_eq_nil_iff, List.filter_eq_nil_iff] at hnone
  exact hnone entry hentry (Path.sameAs_refl _)

/-- Two builds of the same documents end with the same. -/
theorem Inv.agree (h : Inv plan tool documents w s) (h' : Inv plan tool documents w t)
    (hs : s.Complete) (ht : t.Complete) :
    (∀ l, s.world.tree.fileAt l = t.world.tree.fileAt l) ∧
      s.failures documents = t.failures documents ∧
      ∀ file document, (s.world.ledger.dependentsOf file).any (·.sameAs document) =
        (t.world.ledger.dependentsOf file).any (·.sameAs document) := by
  have hended {d : Path} (hd : d ∈ documents) : s.rest d = t.rest d ∧ s.logOf d = t.logOf d := by
    obtain ⟨built, hrest⟩ := hs d
    obtain ⟨built', hrest'⟩ := ht d
    obtain ⟨hbuilt, -, hlog⟩ := h.ended hd hrest
    obtain ⟨hbuilt', -, hlog'⟩ := h'.ended hd hrest'
    exact ⟨by rw [hrest, hrest', hbuilt, hbuilt'], hlog.trans hlog'.symm⟩
  refine ⟨fun l => ?_, ?_, fun file document => ?_⟩
  · have hfind (u : Building) : (documents.findSome? fun d =>
        contentAt? w.tree.here l (u.logOf d)) =
          (documents.map u.logOf).findSome? (contentAt? w.tree.here l) := by
      rw [List.findSome?_map]
      rfl
    rw [h.fileAt, h'.fileAt, hfind, hfind, List.map_congr_left fun d hd => (hended hd).2]
  · exact List.countP_congr fun d hd => by rw [(hended hd).1]
  · rw [Ledger.dependentsOf_any h.unique, Ledger.dependentsOf_any h'.unique]
    by_cases hmem : ∃ d ∈ documents, d.sameAs document = true
    · obtain ⟨d, hd, hsame⟩ := hmem
      rw [← Ledger.relates_congr hsame, ← Ledger.relates_congr hsame, h.related d hd,
        h'.related d hd, (hended hd).2]
    · have hnone : ∀ d ∈ documents, d.sameAs document = false := fun d hd =>
        Bool.eq_false_iff.2 fun hsame => hmem ⟨d, hd, hsame⟩
      rw [h.others document hnone, h'.others document hnone]

/-- Documents that are built side by side, however their tasks take turns, end as documents that are
built one after the other in any order. -/
theorem side_by_side_as_in_turn (hapart : plan.Apart tool documents w)
    (herrors : w.ledger.errors = []) (hunique : w.ledger.Unique) :
    (∃ n, ∀ s, Reachable plan tool documents w s → s.past.length ≤ n) ∧
    (∀ s, Reachable plan tool documents w s →
      (∀ x ∈ s.past, x.2.question.IsOf plan x.1) ∧
      s.world.told = w.told ++ BuildExchange.told (s.past.map Prod.snd) ∧
      ∀ d ∈ documents, ∀ e ∈ documents, d ≠ e → ∀ f ∈ written (s.logOf d),
        ∀ g ∈ written (s.logOf e), f.1.location w.tree.here ≠ g.1.location w.tree.here) ∧
    ∀ s, Reachable plan tool documents w s → s.Complete →
      (∀ d ∈ documents, Settled plan tool w s d) ∧
      ∀ order summary w', order.Perm documents →
        (Task.buildAll plan order).run (World.answer tool) w = some (summary, w') →
          EndsAs documents w s order summary w' := by
  have hinv (s : Building) (hs : Reachable plan tool documents w s) :
      Inv plan tool documents w s := hs.inv hapart herrors hunique
  refine ⟨⟨_, fun s hs => (hinv s hs).past_length_le⟩, fun s hs =>
    ⟨fun x hx => ((hinv s hs).past x hx).2, (hinv s hs).told, fun d hd e he hne f hf g hg => ?_⟩,
    fun s hs hcomplete => ⟨fun d hd => ?_, fun order summary w' hperm hrun => ?_⟩⟩
  · exact BuildPlan.location_ne (hapart.plain d hd) (hapart.plain e he) hne
      ((hinv s hs).written_subset hd hf) ((hinv s hs).written_subset he hg)
  · exact (hinv s hs).settled hapart.plain herrors hunique hcomplete hd
  · rw [Task.buildAll, Dialogue.bind_eq, Dialogue.run_bind] at hrun
    obtain ⟨⟨n, w₁⟩, heach, hsummary⟩ := Option.bind_eq_some_iff.1 hrun
    obtain ⟨rfl, rfl⟩ := Prod.mk.inj (Option.some.inj hsummary)
    have horder : ∀ d ∈ order, d ∈ documents ∧
        (start plan documents w).rest d = Task.attempt plan d ∧
        (start plan documents w).logOf d = [] := fun d hd =>
      ⟨hperm.subset hd, if_pos (hperm.subset hd), rfl⟩
    obtain ⟨t, ht, rfl, hidle, hdone, rfl, htold⟩ :=
      Reachable.start.buildEach hinv (hperm.nodup_iff.2 hapart.nodup) horder heach
    have htcomplete : t.Complete := fun d => by
      by_cases hd : d ∈ order
      · exact hdone d hd
      · exact ⟨true, (hidle d hd).trans (if_neg fun hd' => hd (hperm.symm.subset hd'))⟩
    obtain ⟨hfiles, hfailures, hdependents⟩ := (hinv s hs).agree (hinv t ht) hcomplete htcomplete
    refine ⟨hfiles, ?_, htold.trans ?_, hdependents, (hinv s hs).errors_eq_nil hcomplete,
      (hinv t ht).errors_eq_nil htcomplete⟩
    · rw [hperm.length_eq, hfailures]
      exact congrArg _ (hperm.countP_eq _)
    · congr 1
      refine List.flatMap_congr fun d hd => ?_
      obtain ⟨built, hrest⟩ := hcomplete d
      rw [((hinv s hs).ended (hperm.subset hd) hrest).2.2]

/-- A document of markup beside one that cannot be built: the second one does not keep the first one
from its file, and its error is told. -/
theorem side_by_side_as_in_turn_of_two :
    let plan : BuildPlan := ⟨⟨⟨"/w"⟩, ⟨"/w/out"⟩, {}, []⟩, {}, false⟩
    let tool : Request → ToolAnswer := fun _ => .error (.failed ⟨"no", none, none⟩)
    let w : World :=
      ⟨⟨[(["w", "a.html"], .file "<body>a</body>"),
          (["w", "b.svelte"], .file "<script>b</script>"), (["w"], .folder)], []⟩,
        Ledger.ofWorkspace ⟨"/w"⟩, []⟩
    ∃ s w', Reachable plan tool [⟨"a.html"⟩, ⟨"b.svelte"⟩] w s ∧ s.Complete ∧
      EndsAs [⟨"a.html"⟩, ⟨"b.svelte"⟩] w s [⟨"b.svelte"⟩, ⟨"a.html"⟩] ⟨2, 1⟩ w' ∧
      w'.tree.fileAt ["w", "out", "a.html.body.html"] = some "a\n" ∧ w'.told = ["  × no\n\n"] := by
  intro plan tool w
  have hplain : ∀ d ∈ [(⟨"a.html"⟩ : Path), ⟨"b.svelte"⟩], d.IsPlain := by
    unfold Path.IsPlain Path.IsName
    decide +kernel
  have houtputs : ∀ d ∈ [(⟨"a.html"⟩ : Path), ⟨"b.svelte"⟩],
      ∀ e ∈ [(⟨"a.html"⟩ : Path), ⟨"b.svelte"⟩], d ≠ e →
        ∀ file ∈ plan.outputs tool d (plan.source w d),
          file.1.location w.tree.here ≠ plan.place w e := by
    decide +kernel
  have hapart : plan.Apart tool [⟨"a.html"⟩, ⟨"b.svelte"⟩] w := ⟨hplain, by decide, houtputs⟩
  have hempty : w.ledger.errors = [] := rfl
  have hunique : w.ledger.Unique := List.Pairwise.nil
  have hfirst : ((Task.buildEach plan [⟨"a.html"⟩, ⟨"b.svelte"⟩]).run (World.answer tool) w).isSome =
      true := by
    decide +kernel
  have hsecond : ((Task.buildAll plan [⟨"b.svelte"⟩, ⟨"a.html"⟩]).run (World.answer tool) w).map
      (fun r => (r.1, r.2.tree.fileAt ["w", "out", "a.html.body.html"], r.2.told)) =
        some (⟨2, 1⟩, some "a\n", ["  × no\n\n"]) := by
    decide +kernel
  obtain ⟨⟨n, w₁⟩, hfirst⟩ := Option.isSome_iff_exists.1 hfirst
  obtain ⟨⟨summary, w'⟩, hrun, hend⟩ := Option.map_eq_some_iff.1 hsecond
  obtain ⟨rfl, htext, htold⟩ : summary = ⟨2, 1⟩ ∧ _ ∧ _ := by simpa using hend
  obtain ⟨s, hs, -, hidle, hdone, -⟩ := Reachable.start.buildEach
    (fun s hs => hs.inv hapart hempty hunique) hapart.nodup
    (fun d hd => ⟨hd, if_pos hd, rfl⟩) hfirst
  have hcomplete : s.Complete := fun d => by
    by_cases hd : d ∈ [(⟨"a.html"⟩ : Path), ⟨"b.svelte"⟩]
    · exact hdone d hd
    · exact ⟨true, (hidle d hd).trans (if_neg hd)⟩
  obtain ⟨-, -, hends⟩ := side_by_side_as_in_turn hapart hempty hunique
  exact ⟨s, w', hs, hcomplete, (hends s hs hcomplete).2 _ _ _ (List.Perm.swap ..) hrun, htext,
    htold⟩

end Building

end ComponentBuild
