import ComponentBuild.Build.Project
import ComponentBuild.Proofs.Compile.ToldAttributes
import ComponentBuild.Proofs.Files.Resolved

namespace ComponentBuild

/-- Words that name nothing in a module. -/
def Script.Word.isKept (w : Word) : Bool := w.isTaken || w == .«let» || w == .static

/-- Texts that scripts can use as the name of a variable, with letters of ASCII only. -/
structure IsIdentifier (cs : List Char) : Prop where
  ne_nil : cs ≠ []
  chars : ∀ c ∈ cs, isNameChar c = true
  start : ∀ c ∈ cs.head?, c.isDigit = false
  notKept : ∀ w : Script.Word, w.isKept = true → w.chars ≠ cs

/-- What stands for a character in the name of a component. -/
def nameChar (c : Char) : Char := if isNameChar c then c else '_'

theorem nameChar_of_isNameChar {c : Char} (h : isNameChar c = true) : nameChar c = c := if_pos h

theorem isNameChar_nameChar (c : Char) : isNameChar (nameChar c) = true := by
  unfold nameChar
  split
  next h => exact h
  next => decide

theorem isDigit_nameChar (c : Char) : (nameChar c).isDigit = c.isDigit := by
  unfold nameChar
  split
  next => rfl
  next h =>
    have hdigit : c.isDigit = false := by
      refine Bool.eq_false_iff.2 fun hdigit => h ?_
      simp only [isNameChar, Char.isAlphanum, hdigit, Bool.or_true, Bool.true_or]
    rw [hdigit]
    decide

/-- Only what is the text itself becomes a text without underscores. -/
theorem map_nameChar_eq_iff {cs ds : List Char} (hnames : ∀ d ∈ ds, isNameChar d = true)
    (hline : '_' ∉ ds) : cs.map nameChar = ds ↔ cs = ds := by
  constructor
  · rintro rfl
    refine (List.map_id cs).symm.trans (List.map_congr_left fun c hc => ?_)
    by_cases h : isNameChar c = true
    · exact (nameChar_of_isNameChar h).symm
    · have hunderscore : nameChar c = '_' := if_neg h
      exact absurd (hunderscore ▸ List.mem_map_of_mem hc) hline
  · rintro rfl
    exact (List.map_congr_left fun c hc => nameChar_of_isNameChar (hnames c hc)).trans
      (List.map_id cs)

theorem Script.Word.isNameChar_of_mem (w : Word) : ∀ c ∈ w.chars, isNameChar c = true := by
  have hall : w.chars.all isNameChar = true := by cases w <;> rfl
  exact List.all_eq_true.1 hall

theorem Script.Word.underscore_notMem (w : Word) : '_' ∉ w.chars := by
  cases w <;> decide

theorem isIdentifier_map_nameChar_iff {cs : List Char} :
    IsIdentifier (cs.map nameChar) ↔ cs ≠ [] ∧ (∀ c ∈ cs.head?, c.isDigit = false) ∧
      ∀ w : Script.Word, w.isKept = true → w.chars ≠ cs := by
  have hkept (w : Script.Word) : w.chars = cs.map nameChar ↔ w.chars = cs :=
    eq_comm.trans ((map_nameChar_eq_iff w.isNameChar_of_mem w.underscore_notMem).trans eq_comm)
  have hstart : (∀ c ∈ (cs.map nameChar).head?, c.isDigit = false) ↔
      ∀ c ∈ cs.head?, c.isDigit = false := by
    simp only [List.head?_map, Option.mem_map, forall_exists_index, and_imp,
      forall_apply_eq_imp_iff₂, isDigit_nameChar]
  constructor
  · intro h
    exact ⟨fun hnil => h.ne_nil (List.map_eq_nil_iff.2 hnil), hstart.1 h.start,
      fun w hw heq => h.notKept w hw ((hkept w).2 heq)⟩
  · rintro ⟨hne, hdigit, hword⟩
    exact ⟨fun hnil => hne (List.map_eq_nil_iff.1 hnil),
      List.forall_mem_map.2 fun c _ => isNameChar_nameChar c, hstart.2 hdigit,
      fun w hw heq => hword w hw ((hkept w).1 heq)⟩

namespace Path

/-- What the name of a component is made of: its file up to the first dot. -/
def stem (p : Path) : List Char := (p.fileName?.getD p.text).toList.takeWhile (· != '.')

/-- A file in a folder. -/
theorem fileName?_of_folder {folder file : String} (h : IsFileName file) :
    (⟨folder ++ "/" ++ file⟩ : Path).fileName? = some file := by
  let p : Path := ⟨folder ++ "/" ++ file⟩
  have hpieces : p.pieces = Text.splitOn '/' folder.toList ++ [file.toList] := by
    have htext : p.text.toList = folder.toList ++ '/' :: file.toList := by
      simp only [p, String.toList_append, List.append_assoc]
      rfl
    rw [pieces, htext, Text.splitOn_append_separator,
      Text.splitOn_of_forall_ne fun c hc => ne_of_mem_of_not_mem hc h.2]
  have hlast (front : List (List Char)) : (((front ++ [file.toList]).filter (!isIdle ·)).map
      Component.ofPiece).getLast? = some (.name file) := by
    rw [List.filter_append, filter_names (List.forall_mem_singleton.2 h.1), List.map_append,
      List.map_singleton, List.getLast?_concat, ofPiece_name h.1]
  have hcons (c : Component) (front : List (List Char)) :
      (c :: ((front ++ [file.toList]).filter (!isIdle ·)).map Component.ofPiece).getLast? =
        some (.name file) := by
    rw [List.getLast?_cons, hlast]
    rfl
  have hcomponents : p.components.getLast? = some (.name file) := by
    unfold components
    split
    · rw [hpieces]
      exact hcons _ _
    · obtain ⟨piece, front, hfront⟩ :=
        List.exists_cons_of_ne_nil (Text.splitOn_ne_nil '/' folder.toList)
      rw [hpieces, hfront, List.cons_append]
      split
      next heq =>
        rw [← (List.cons.inj heq).2]
        exact hcons _ _
      next => exact hlast (piece :: front)
  rw [fileName?, hcomponents]

/-- The name of a component goes by the file alone, in whatever folder it is. -/
theorem stem_of_folder {folder file : String} (h : IsFileName file) :
    (⟨folder ++ "/" ++ file⟩ : Path).stem = file.toList.takeWhile (· != '.') := by
  rw [stem, fileName?_of_folder h, Option.getD_some]

end Path

theorem CompileOptions.name_ofDocument (path : Path) (options : BuildOptions) :
    (CompileOptions.ofDocument path options).name.toList = path.stem.map nameChar :=
  String.toList_ofList

/-- What a request tells of the document that is compiled. -/
def Request.options? : Request → Option CompileOptions
  | compile _ told => some told
  | instrument _ _ told => some told
  | preprocess .. => none
  | transpile .. => none

theorem Component.Plans.options? {c : Component} {options : BuildOptions} {path : Path}
    {source : String} {calls : List ToolCall} (h : c.Plans options path source calls)
    {call : ToolCall} (hcall : call ∈ calls) {told : CompileOptions}
    (htold : call.request.options? = some told) : told = .ofDocument path options := by
  obtain ⟨n, hn⟩ := List.mem_iff_getElem?.1 hcall
  obtain ⟨p, _, _, -, hasks⟩ := h n call hn
  generalize call.request = request, ToolCall.outputs (calls.take n) = outputs at hasks htold
  cases hasks with
  | preprocess | transpile | transpileInstrumented => cases htold
  | compile | instrument => exact (Option.some.inj htold).symm

/-- The compiler is told one name for a document in all calls of a build, whatever tools answer. The
name goes by the file, whatever its folder. All its characters can stand in an identifier; it is one
unless the stem of the document is empty, starts with a digit or is a word that names nothing. -/
theorem name_told (options : BuildOptions) (path : Path) (source : String)
    (log : List (Exchange Step Step.Answer)) (r : Except Abort (Option Compiled)) :
    let name := (CompileOptions.ofDocument path options).name.toList
    name = path.stem.map nameChar ∧
    (∀ folder file, Path.IsFileName file → path = ⟨folder ++ "/" ++ file⟩ →
      path.stem = file.toList.takeWhile (· != '.')) ∧
    (∀ c ∈ name, isNameChar c = true) ∧
    (IsIdentifier name ↔ path.stem ≠ [] ∧ (∀ c ∈ path.stem.head?, c.isDigit = false) ∧
      ∀ w : Script.Word, w.isKept = true → w.chars ≠ path.stem) ∧
    ((buildDocument options path source).Transcript log r →
      ∀ x ∈ log, ∀ request told, x.question = .call request → request.options? = some told →
        told = .ofDocument path options) := by
  intro name
  have hname : name = path.stem.map nameChar := CompileOptions.name_ofDocument path options
  refine ⟨hname, ?_, ?_, ?_, ?_⟩
  · rintro folder file hfile rfl
    exact Path.stem_of_folder hfile
  · rw [hname]
    exact List.forall_mem_map.2 fun c _ => isNameChar_nameChar c
  · rw [hname]
    exact isIdentifier_map_nameChar_iff
  · intro h x hx request told hquestion htold
    obtain ⟨calls, result, rfl, -, hplanned, -⟩ := transcript_buildDocument h
    rcases List.mem_append.1 hx with hx | hx
    · obtain ⟨call, hcall, hx⟩ := List.mem_flatMap.1 hx
      rcases hplanned with rfl | ⟨c, -, hplans⟩
      · cases hcall
      · exact hplans.options? hcall (mem_exchanges hx hquestion ▸ htold)
    · obtain ⟨e, -, rfl⟩ := List.mem_map.1 hx
      cases hquestion

/-- A document with more than one dot and a sign that no identifier has. -/
theorem name_told_of_dashes :
    let path : Path := ⟨"src/todo-item.component.svelte"⟩
    ∃ log r, (buildDocument {} path "<p>a</p>").Transcript log r ∧
      ∃ x ∈ log, ∃ request told, x.question = .call request ∧ request.options? = some told ∧
        told = .ofDocument path {} ∧ told.name = "todo_item" ∧ IsIdentifier told.name.toList := by
  intro path
  have hdetect : Document.detect path.text "<p>a</p>" = .ok (.component ⟨none, none, none⟩) := by
    decide +kernel
  have hlog := Dialogue.transcript_log sameAnswer (buildDocument {} path "<p>a</p>")
  have hcall : ⟨.call (.compile "<p>a</p>" (.ofDocument path {})),
      (.ok ⟨"c", none, []⟩ : ToolAnswer)⟩ ∈
      (buildDocument {} path "<p>a</p>").log sameAnswer := by
    unfold buildDocument buildStages
    rw [hdetect]
    exact List.mem_cons_self
  obtain ⟨-, hfile, -, hidentifier, hcalls⟩ := name_told {} path "<p>a</p>" _ _
  have hstem := hfile "src" "todo-item.component.svelte"
    ⟨⟨by decide +kernel, by decide +kernel⟩, by decide +kernel⟩ (by decide +kernel)
  have htold := hcalls hlog _ hcall _ _ rfl rfl
  refine ⟨_, _, hlog, _, hcall, _, _, rfl, rfl, htold, by decide +kernel, hidentifier.2 ?_⟩
  have htext : "todo-item.component.svelte".toList.takeWhile (· != '.') =
      ['t', 'o', 'd', 'o', '-', 'i', 't', 'e', 'm'] := by
    decide +kernel
  rw [hstem, htext]
  refine ⟨List.cons_ne_nil _ _, fun c hc => ?head, fun w _ hword => ?word⟩
  case head =>
    obtain rfl := Option.mem_some_iff.1 hc
    rfl
  case word =>
    -- No word has a dash.
    have hdash : isNameChar '-' = true := w.isNameChar_of_mem '-' (by simp [hword])
    exact absurd hdash (by decide)

/-- Documents whose components get no identifier for a name: it starts with a digit, is empty or is
a keyword. -/
theorem name_not_identifier :
    let project : Project := ⟨⟨"/w"⟩, ⟨"/w/build"⟩, {}, []⟩
    ∀ document ∈ [("404.svelte", "404"), (".svelte", ""), ("class.svelte", "class")],
      project.documentPath? ⟨"/w/" ++ document.1⟩ = some ⟨document.1⟩ ∧
      (CompileOptions.ofDocument ⟨document.1⟩ {}).name = document.2 ∧
      ¬IsIdentifier document.2.toList := by
  intro project
  refine List.forall_mem_cons.2 ⟨⟨by decide +kernel, by decide +kernel, fun h => ?digit⟩,
    List.forall_mem_cons.2 ⟨⟨by decide +kernel, by decide +kernel, fun h => ?empty⟩,
      List.forall_mem_singleton.2 ⟨by decide +kernel, by decide +kernel, fun h => ?word⟩⟩⟩
  case digit => exact absurd (h.start '4' rfl) (by decide)
  case empty => exact h.ne_nil rfl
  case word => exact h.notKept .«class» rfl rfl

end ComponentBuild
