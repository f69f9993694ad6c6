import ComponentBuild.Proofs.Build.Alone
import ComponentBuild.Proofs.Build.Glob
import ComponentBuild.Proofs.Files.Resolved

namespace ComponentBuild

namespace Path

variable {p r : Path} {base : FileLocation} {here : FileLocation}

theorem pieces_ofPieces {qs : List (List Char)} (hne : qs ≠ []) (h : ∀ q ∈ qs, '/' ∉ q) :
    (ofPieces qs).pieces = qs := by
  unfold ofPieces pieces
  rw [String.toList_ofList, Text.splitOn_intercalate hne h]

theorem dropPieces_subset (n : Nat) (ps : List (List Char)) : dropPieces n ps ⊆ ps := by
  induction ps generalizing n with
  | nil =>
    rw [dropPieces_nil]
    exact List.Subset.refl _
  | cons piece ps ih =>
    cases hidle : isIdle piece with
    | true =>
      rw [dropPieces_idle hidle]
      exact List.subset_cons_of_subset _ (ih n)
    | false =>
      cases n with
      | zero =>
        rw [dropPieces_zero hidle]
        exact List.Subset.refl _
      | succ n =>
        rw [dropPieces_succ hidle]
        exact List.subset_cons_of_subset _ (ih n)

theorem trimPieces_subset (ps : List (List Char)) : trimPieces ps ⊆ ps := by
  intro piece hpiece
  exact List.mem_reverse.1 ((List.dropWhile_suffix isIdle).subset (List.mem_reverse.1 hpiece))

theorem eq_of_map_ofPiece {ps : List (List Char)} {l : FileLocation}
    (h : ps.map Component.ofPiece = l.map Component.name) : ps = l.map String.toList := by
  induction l generalizing ps with
  | nil => exact List.map_eq_nil_iff.1 h
  | cons n l ih =>
    obtain ⟨piece, ps', rfl, hpiece, hps'⟩ := List.map_eq_cons_iff.1 h
    rw [List.map_cons, ← ofPiece_eq_name hpiece, ih hps']

variable (here) in
/-- What a path below a resolved one spells out. -/
theorem location_of_below? (hbase : ∀ n ∈ base, IsFileName n)
    (h : p.below? (FileTree.pathOf base) = some r) (hr : r.IsPlain) :
    p.isAbsolute = true ∧ p.location here = base ++ r.pieces.map String.ofList := by
  unfold below? at h
  split at h
  · next hprefix =>
    rw [List.isPrefixOf_iff_prefix, FileTree.components_pathOf hbase] at hprefix
    obtain ⟨rest, hrest⟩ := hprefix
    have habsolute : p.isAbsolute = true := isAbsolute_of_root hrest.symm
    rw [components_of_isAbsolute habsolute] at hrest
    obtain ⟨front, back, hpieces, hfront, -⟩ :=
      List.map_eq_append_iff.1 (List.cons.inj hrest).2.symm
    have hfront := eq_of_map_ofPiece hfront
    let qs := trimPieces (dropPieces ((FileTree.pathOf base).components.length - 1) p.pieces)
    have hr' : r = ofPieces qs := (Option.some.inj h).symm
    have hlength : (FileTree.pathOf base).components.length - 1 = front.length := by
      rw [FileTree.components_pathOf hbase, List.length_cons, List.length_map, hfront,
        List.length_map]
      rfl
    have hfilter : qs.filter (!isIdle ·) = back := by
      rw [filter_trimPieces, filter_dropPieces, hlength, hpieces, List.drop_left]
    have hslash : ∀ q ∈ qs, '/' ∉ q := fun q hq =>
      Text.not_mem_of_mem_splitOn (dropPieces_subset _ _ (trimPieces_subset _ hq))
    have hne : qs ≠ [] := fun hnil => hr.not_empty (by rw [hr', hnil]; rfl)
    have hqs : r.pieces = qs := by rw [hr', pieces_ofPieces hne hslash]
    have hback : back = r.pieces := by
      rw [← hfilter, ← hqs, filter_names hr]
    refine ⟨habsolute, ?_⟩
    unfold location
    rw [habsolute, if_pos rfl, ← follow_filter, hpieces, hfront, hback, follow_append,
      follow_names (isName_of_mem hbase), follow_names hr, map_ofList_toList, List.nil_append]
  · cases h

theorem location_of_isAbsolute (h : p.isAbsolute = true) : p.location here = p.location [] := by
  unfold location
  rw [h]
  rfl

theorem isFileName_of_location (h : p.isAbsolute = true) : ∀ n ∈ p.location here, IsFileName n := by
  unfold location
  rw [h, if_pos rfl]
  exact isFileName_of_follow nofun fun piece hpiece => Text.not_mem_of_mem_splitOn hpiece

theorem IsPlain.isFileName (h : p.IsPlain) : ∀ n ∈ p.pieces.map String.ofList, IsFileName n := by
  intro n hn
  obtain ⟨piece, hpiece, rfl⟩ := List.mem_map.1 hn
  unfold IsFileName
  rw [String.toList_ofList]
  exact ⟨h piece hpiece, Text.not_mem_of_mem_splitOn hpiece⟩

/-- Pieces one behind the other have one slash between them. -/
theorem ofPieces_append (p q : Path) :
    ofPieces (p.pieces ++ q.pieces) = ⟨p.text ++ "/" ++ q.text⟩ := by
  unfold ofPieces pieces
  rw [← Text.splitOn_append_separator, Text.intercalate_splitOn]
  refine congrArg Path.mk (String.toList_injective ?_)
  simp only [String.toList_ofList, String.toList_append, List.append_assoc]
  rfl

end Path

namespace Project

open Path

variable {project : Project} {base : FileLocation} {document file : Path} {here : FileLocation}

/-- A project of a folder, with all that is left out of its own accord. -/
structure Loaded (project : Project) (base : FileLocation) : Prop where
  names : ∀ n ∈ base, IsFileName n
  workspace : project.workspace = FileTree.pathOf base
  outDir : project.outDir.isAbsolute = true
  ignored : ∀ g ∈ standardPatterns project.workspace project.outDir, g ∈ project.ignored

theorem load_loaded {a : Arguments} {here : Path} {t : FileTree} (hhere : here.isAbsolute = true)
    (hworkspace : (t.resolve? (here.join a.workspace)).isSome = true)
    (hload : ((load a here).run (m := StateM FileTree) FileTree.answer t).1 = .ok project) :
    ∃ base, Loaded project base ∧ t.Leads base := by
  obtain ⟨base, hlocate, hresolve⟩ : ∃ base, t.locate (here.join a.workspace) = .ok base ∧
      t.resolve? (here.join a.workspace) = some (FileTree.pathOf base) := by
    unfold FileTree.resolve? at hworkspace ⊢
    split at hworkspace
    · next base hlocate =>
      split at hworkspace
      · next hsome => exact ⟨base, hlocate, if_pos hsome⟩
      · cases hworkspace
    · cases hworkspace
  have habsolute := isAbsolute_join hhere a.workspace
  have hnames : ∀ n ∈ base, IsFileName n := by
    rw [FileTree.locate_ok hlocate]
    exact isFileName_of_location habsolute
  refine ⟨base, ?_, FileTree.leads_of_locate habsolute hlocate⟩
  rw [load, Dialogue.bind_eq, Dialogue.run_bind] at hload
  change ((Dialogue.run FileTree.answer
    ((Config.load ((t.resolve? (here.join a.workspace)).getD _) a.config).bind _)) t).1 = _ at hload
  rw [hresolve, Option.getD_some, Dialogue.run_bind] at hload
  cases hconfig : (Config.load (FileTree.pathOf base) a.config).run (m := StateM FileTree)
    FileTree.answer t with
  | mk result t₁ =>
    simp only [bind, StateT.bind, hconfig] at hload
    cases result with
    | error e => cases hload
    | ok config =>
      dsimp only at hload
      split at hload
      · cases hload
      · cases hload
        exact ⟨hnames, rfl, isAbsolute_join (FileTree.isAbsolute_pathOf base) _,
          fun g hg => List.mem_append_right _ hg⟩

/-- The pattern of the output folder takes what is below this folder, if each character of its path
stands for itself. -/
theorem Loaded.ignores (h : Loaded project base) {r : Path}
    (hr : project.outDir.below? project.workspace = some r)
    (hletters : ∀ c ∈ r.text.toList, Glob.IsLetter c) (q : Path) :
    project.ignores ⟨r.text ++ "/" ++ q.text⟩ = true := by
  refine List.any_eq_true.2 ⟨Glob.below r.text, h.ignored _ ?_,
    (Glob.isMatch_below _ _).2 ⟨q.text, rfl⟩⟩
  unfold standardPatterns
  refine List.mem_filterMap.2 ⟨r.text ++ "/**", List.mem_append_right _ ?_, ?_⟩
  · rw [hr]
    exact List.mem_singleton_self _
  · rw [Glob.parse_below hletters]
    rfl

/-- Output that is out of sight: its folder lies below the workspace, under a plain path of
characters that stand for themselves, or neither of the two folders lies in the other one. -/
def HidesOutput (project : Project) : Prop :=
  (∃ r, project.outDir.below? project.workspace = some r ∧ r.IsPlain ∧
    ∀ c ∈ r.text.toList, Glob.IsLetter c) ∨
  (¬project.outDir.location [] <+: project.workspace.location [] ∧
    ¬project.workspace.location [] <+: project.outDir.location [])

/-- No output is a document. -/
theorem Loaded.documentPath?_output (h : Loaded project base) (hout : project.HidesOutput)
    (hdocument : document.IsPlain) (hfile : project.IsOutput document file) :
    project.documentPath? (FileTree.pathOf (file.location here)) = none := by
  obtain ⟨s, hs, rfl⟩ := hfile
  let q : Path := ⟨document.text ++ s⟩
  have hq : q.IsPlain := isPlain_append hdocument hs
  have hlocation : (⟨(project.outDir.join document).text ++ s⟩ : Path).location here =
      project.outDir.location here ++ q.pieces.map String.ofList := location_output hdocument hs
  have hnames : ∀ n ∈ project.outDir.location here ++ q.pieces.map String.ofList, IsFileName n :=
    List.forall_mem_append.2 ⟨isFileName_of_location h.outDir, hq.isFileName⟩
  unfold documentPath?
  rw [hlocation, h.workspace, FileTree.below?_pathOf hnames h.names]
  rcases hout with ⟨r, hr, hplain, hletters⟩ | ⟨houter, hinner⟩
  · have hr' := hr
    rw [h.workspace] at hr'
    obtain ⟨-, hlocation⟩ := location_of_below? here h.names hr' hplain
    have hprefix : base.isPrefixOf (base ++ r.pieces.map String.ofList ++ q.pieces.map String.ofList) =
        true := by
      rw [List.isPrefixOf_iff_prefix, List.append_assoc]
      exact List.prefix_append _ _
    have hrest : ((base ++ r.pieces.map String.ofList ++ q.pieces.map String.ofList).drop
        base.length).map String.toList = r.pieces ++ q.pieces := by
      rw [List.append_assoc, List.drop_left, ← List.map_append, List.map_map]
      exact List.map_id'' (fun piece => String.toList_ofList) _
    rw [hlocation, hprefix, if_pos rfl, hrest, ofPieces_append, Option.filter_some,
      h.ignores hr hletters q, Bool.not_true, Bool.and_false, if_neg Bool.false_ne_true]
  · rw [h.workspace, FileTree.location_pathOf h.names] at houter hinner
    rw [location_of_isAbsolute h.outDir]
    split
    · next hprefix =>
      rcases List.prefix_or_prefix_of_prefix (List.isPrefixOf_iff_prefix.1 hprefix)
        (List.prefix_append _ _) with hle | hle
      · exact absurd hle hinner
      · exact absurd hle houter
    · rfl

/-- The document that an entry of a tree is found as. -/
def documentAt? (project : Project) (base : FileLocation) : FileLocation × FileEntry → Option Path
  | (l, .file _) =>
    if base.isPrefixOf l then project.documentPath? (FileTree.pathOf l) else none
  | (_, .folder) => none

def documentsIn (project : Project) (base : FileLocation) (t : FileTree) : List Path :=
  t.entries.filterMap (project.documentAt? base)

variable {t u : FileTree}

theorem Loaded.discover_run (h : Loaded project base) (hleads : t.Leads base) :
    (project.discover.run (m := StateM FileTree) FileTree.answer t).1 =
      Path.sort (project.documentsIn base t) := by
  change Path.sort ((t.filesBelow project.workspace).filterMap project.documentPath?) = _
  unfold FileTree.filesBelow documentsIn
  rw [h.workspace, FileTree.locate_pathOf h.names hleads]
  dsimp only
  rw [List.filterMap_filterMap]
  congr 2
  funext ⟨l, e⟩
  cases e with
  | folder => rfl
  | file s =>
    unfold documentAt?
    dsimp only
    split <;> rfl

/-- What is put where no document is found changes nothing that is found. -/
theorem documentsIn_put {l : FileLocation} {e : FileEntry}
    (he : project.documentAt? base (l, e) = none)
    (hold : ∀ x ∈ t.entries, x.1 = l → project.documentAt? base x = none) :
    project.documentsIn base (t.put l e) = project.documentsIn base t := by
  unfold documentsIn FileTree.put
  rw [List.filterMap_cons_none he, List.filterMap_filter]
  refine List.filterMap_congr fun x hx => ?_
  by_cases hl : x.1 = l
  · rw [hold x hx hl, ite_self]
  · rw [if_pos (by simpa using hl)]

/-- Another tree in which the same documents are found. -/
structure FindsAs (project : Project) (base : FileLocation) (t u : FileTree) : Prop where
  leads : u.Leads base
  documents : project.documentsIn base u = project.documentsIn base t

theorem FindsAs.makeFolder {p : Path} {v : FileTree} (h : FindsAs project base t u)
    (hmade : u.makeFolder p = .ok v) : FindsAs project base t v := by
  obtain ⟨hnone, rfl⟩ := FileTree.makeFolder_put hmade
  have hfolder : u.find? (p.location u.here) ≠ some .folder := by
    rw [hnone]
    exact nofun
  refine ⟨h.leads.mono fun l => FileTree.find?_put_folder hfolder,
    (documentsIn_put rfl fun x hx hl => ?_).trans h.documents⟩
  have hlookup : u.entries.lookup x.1 = none := by
    rw [← hl] at hnone
    cases hx1 : x.1 with
    | nil =>
      rw [hx1] at hnone
      cases hnone
    | cons n ns =>
      rw [hx1] at hnone
      exact hnone
  exact absurd rfl (bne_iff_ne.1 (List.lookup_eq_none_iff.1 hlookup x hx))

theorem FindsAs.write {p : Path} {content : String} {v : FileTree} (h : FindsAs project base t u)
    (hp : project.documentPath? (FileTree.pathOf (p.location u.here)) = none)
    (hwritten : u.write p content = .ok v) : FindsAs project base t v := by
  obtain ⟨hfolder, rfl⟩ := FileTree.write_put hwritten
  have hnone (e : FileEntry) : project.documentAt? base (p.location u.here, e) = none := by
    cases e with
    | folder => rfl
    | file s =>
      unfold documentAt?
      dsimp only
      rw [hp, ite_self]
  refine ⟨h.leads.mono fun l => FileTree.find?_put_folder hfolder,
    (documentsIn_put (hnone _) fun x _ hl => ?_).trans h.documents⟩
  obtain ⟨l, e⟩ := x
  obtain rfl : l = p.location u.here := hl
  exact hnone e

/-- What a task asks of the files changes nothing that is found. -/
theorem FindsAs.answer {plan : BuildPlan} {q : FileStep} (hloaded : Loaded plan.project base)
    (hout : plan.project.HidesOutput) (hdocument : document.IsPlain)
    (hq : (BuildStep.file q).IsOf plan document) (h : FindsAs plan.project base t u) :
    FindsAs plan.project base t (FileTree.answer q u).2 := by
  cases q with
  | read p => exact h
  | write p content =>
    exact FileTree.attempt_keeps h fun v hwritten =>
      h.write (hloaded.documentPath?_output hout hdocument hq) hwritten
  | makeFolders p =>
    exact FileTree.attempt_keeps h fun v hmade =>
      FileTree.makeFolders_keeps (fun _ _ _ hmade h => h.makeFolder hmade) hmade h
  | «exists» | isFile | resolve | filesBelow => cases hq

end Project

/-- Answers questions to the files from a tree, and all others in any way. -/
def BuildStep.answerWith (others : (q : BuildStep) → q.Answer) :
    (q : BuildStep) → StateM FileTree q.Answer
  | .file q => FileTree.answer q
  | .tool r => fun t => (others (.tool r), t)
  | .ledger q => fun t => (others (.ledger q), t)
  | .tell text => fun t => (others (.tell text), t)

/-- What a task asks changes nothing that is found. -/
theorem Project.FindsAs.answerWith {plan : BuildPlan} {base : FileLocation} {document : Path}
    {t u : FileTree} {others : (q : BuildStep) → q.Answer} (hloaded : plan.project.Loaded base)
    (hout : plan.project.HidesOutput) (hdocument : document.IsPlain) {q : BuildStep}
    (hq : q.IsOf plan document) (h : plan.project.FindsAs base t u) :
    plan.project.FindsAs base t (BuildStep.answerWith others q u).2 := by
  cases q with
  | file q => exact FindsAs.answer hloaded hout hdocument hq h
  | tool | ledger | tell => exact h

theorem Task.buildEach_all (plan : BuildPlan) (documents : List Path) :
    (buildEach plan documents).All fun q => ∃ d ∈ documents, q.IsOf plan d := by
  induction documents with
  | nil => exact trivial
  | cons d documents ih =>
    refine ((attempt_all plan d).mono fun q hq => ⟨d, List.mem_cons_self, hq⟩).bind fun built => ?_
    refine (ih.mono fun q hq => ?_).bind fun failed => trivial
    obtain ⟨e, he, hq⟩ := hq
    exact ⟨e, List.mem_cons_of_mem _ he, hq⟩

theorem Task.buildAll_all (plan : BuildPlan) (documents : List Path) :
    (buildAll plan documents).All fun q => ∃ d ∈ documents, q.IsOf plan d :=
  (buildEach_all plan documents).bind fun _ => trivial

namespace Project

open Path

theorem Loaded.discover_buildAll (plan : BuildPlan) {base : FileLocation} {t : FileTree}
    {documents : List Path} (h : Loaded plan.project base) (hleads : t.Leads base)
    (hout : plan.project.HidesOutput) (hplain : ∀ d ∈ documents, d.IsPlain)
    (others : (q : BuildStep) → q.Answer) :
    (plan.project.discover.run (m := StateM FileTree) FileTree.answer
      ((Task.buildAll plan documents).run (BuildStep.answerWith others) t).2).1 =
    (plan.project.discover.run (m := StateM FileTree) FileTree.answer t).1 := by
  have hfinds : FindsAs plan.project base t
      ((Task.buildAll plan documents).run (BuildStep.answerWith others) t).2 :=
    Dialogue.All.run_keeps (I := FindsAs plan.project base t) (Task.buildAll_all plan documents)
      (fun q ⟨d, hd, hq⟩ u hu => hu.answerWith h hout (hplain d hd) hq) ⟨hleads, rfl⟩
  rw [h.discover_run hfinds.leads, h.discover_run hleads, hfinds.documents]

/-- A build of a project whose output is out of sight adds no document: whatever tools answer, and
whether or not its files can be written, the next build finds the documents that this one has
found. -/
theorem output_is_no_input {a : Arguments} {here : Path} {t : FileTree} {project : Project}
    (hhere : here.isAbsolute = true)
    (hworkspace : (t.resolve? (here.join a.workspace)).isSome = true)
    (hload : ((load a here).run (m := StateM FileTree) FileTree.answer t).1 = .ok project)
    (hout : project.HidesOutput) :
    (∀ document compiled, document.IsPlain → ∀ file ∈ project.outputs document compiled,
      project.documentPath? (FileTree.pathOf (file.1.location t.here)) = none) ∧
    ∀ options color documents others, (∀ d ∈ documents, d.IsPlain) →
      (project.discover.run (m := StateM FileTree) FileTree.answer
        ((Task.buildAll ⟨project, options, color⟩ documents).run (BuildStep.answerWith others) t).2).1 =
      (project.discover.run (m := StateM FileTree) FileTree.answer t).1 := by
  obtain ⟨base, hloaded, hleads⟩ := load_loaded hhere hworkspace hload
  refine ⟨fun document compiled hdocument file hfile =>
    hloaded.documentPath?_output hout hdocument (isOutput_of_mem hfile),
    fun options color documents others hplain => ?_⟩
  exact hloaded.discover_buildAll ⟨project, options, color⟩ hleads hout hplain others

/-- The markup of a document, in the folder that is built into if none is named. -/
theorem output_is_no_input_of_markup :
    let t : FileTree := ⟨[(["w", "a.html"], .file "<body>a</body>"), (["w"], .folder)], []⟩
    ∃ project, ((load { workspace := ⟨"/w"⟩ } ⟨"/"⟩).run (m := StateM FileTree)
        FileTree.answer t).1 = .ok project ∧
      project.documentPath? ⟨"/w/build/a.html.body.html"⟩ = none ∧
      ∀ options color others, (project.discover.run (m := StateM FileTree) FileTree.answer
        ((Task.buildAll ⟨project, options, color⟩ [⟨"a.html"⟩]).run
          (BuildStep.answerWith others) t).2).1 = [⟨"a.html"⟩] := by
  intro t
  have hload : (match ((load { workspace := ⟨"/w"⟩ } ⟨"/"⟩).run (m := StateM FileTree)
      FileTree.answer t).1 with
    | .ok project => decide (project.workspace = ⟨"/w"⟩ ∧ project.outDir = ⟨"/w/build"⟩ ∧
        (project.discover.run (m := StateM FileTree) FileTree.answer t).1 = [⟨"a.html"⟩])
    | .error _ => false) = true := by
    decide +kernel
  cases hproject : ((load { workspace := ⟨"/w"⟩ } ⟨"/"⟩).run (m := StateM FileTree)
      FileTree.answer t).1 with
  | error e =>
    rw [hproject] at hload
    cases hload
  | ok project =>
    rw [hproject] at hload
    obtain ⟨hworkspace, houtDir, hdiscover⟩ := of_decide_eq_true hload
    have hletters : "build".toList.all (Glob.IsLetter ·) = true := by decide +kernel
    have hout : project.HidesOutput := by
      refine .inl ⟨⟨"build"⟩, ?_, ?_, fun c hc =>
        of_decide_eq_true (List.all_eq_true.1 hletters c hc)⟩
      · rw [hworkspace, houtDir]
        decide +kernel
      · unfold Path.IsPlain Path.IsName
        decide +kernel
    have hplain : (⟨"a.html"⟩ : Path).IsPlain := by
      unfold Path.IsPlain Path.IsName
      decide +kernel
    obtain ⟨houtputs, hbuilds⟩ := output_is_no_input rfl (by decide +kernel) hproject hout
    refine ⟨project, rfl, ?_, fun options color others =>
      (hbuilds options color _ others (List.forall_mem_singleton.2 hplain)).trans hdiscover⟩
    have hfile := houtputs ⟨"a.html"⟩ (.markup [⟨.body, "a"⟩]) hplain
      (⟨(project.outDir.join ⟨"a.html"⟩).text ++ "." ++ "body" ++ ".html"⟩, "a\n")
      (List.mem_singleton_self _)
    rw [houtDir] at hfile
    exact hfile

/-- An output folder whose name, read as a pattern, is not its own name: the markup that is written
there is a document. -/
theorem output_is_input_of_class :
    (match ((load { workspace := ⟨"/w"⟩, outDir := ⟨"out[1]"⟩ } ⟨"/"⟩).run (m := StateM FileTree)
        FileTree.answer ⟨[(["w", "a.html"], .file "<body>a</body>"), (["w"], .folder)], []⟩).1 with
    | .ok project => (project.outputs ⟨"a.html"⟩ (.markup [⟨.body, "a"⟩])).map fun file =>
        project.documentPath? file.1
    | .error _ => []) = [some ⟨"out[1]/a.html.body.html"⟩] := by
  decide +kernel

end Project

end ComponentBuild
