import ComponentBuild.Proofs.Script.Reactive

namespace ComponentBuild

open Text (StandsAt)

namespace Script.Reactive

/-- The spans of a statement and of its body, if it is a reactive one. -/
def reactive? : Stmt → Option (Span × Span)
  | .labeled statement body n _ => if n = label then some (statement, body) else none
  | _ => none

/-- The end of a block, behind its body. -/
def suffix : List Char := " \x7d);".toList

/-- A reactive statement with the text in front of it. -/
structure Part where
  before : List Char
  label : List Char
  body : List Char

namespace Part

/-- The part as the script has it. -/
def written (p : Part) : List Char := p.before ++ (p.label ++ p.body)

/-- The part in the rewritten script. -/
def replaced (p : Part) (id : Nat) : List Char :=
  p.before ++ ((head id).toList ++ (p.body ++ suffix))

/-- The block of a part that starts at an offset. -/
def block (p : Part) (id offset : Nat) : Block :=
  let start := offset + Text.byteLength p.before
  let body := start + Text.byteLength p.label
  ⟨id, ⟨start, body + Text.byteLength p.body⟩, ⟨body, body + Text.byteLength p.body⟩⟩

end Part

def written (parts : List Part) : List Char := parts.flatMap Part.written

/-- The parts in the rewritten script, with numbers from `id` on. -/
def replaced (id : Nat) : List Part → List Char
  | [] => []
  | p :: parts => p.replaced id ++ replaced (id + 1) parts

/-- The blocks of parts that start at an offset, with numbers from `id` on. -/
def blocksAt (id offset : Nat) : List Part → List Block
  | [] => []
  | p :: parts => p.block id offset :: blocksAt (id + 1) (p.block id offset).statement.stop parts

/-- A text without a front it starts with. -/
def dropFront? (front text : List Char) : Option (List Char) :=
  if front.isPrefixOf text then some (text.drop front.length) else none

theorem dropFront?_append (front text : List Char) :
    dropFront? front (front ++ text) = some text := by
  rw [dropFront?, if_pos (List.isPrefixOf_iff_prefix.2 (List.prefix_append front text)),
    List.drop_left]

/-- Text behind the prologue with its blocks undone. The spans of a block say how much is copied;
its head makes way for its label again, and its suffix for nothing. -/
def restoreFrom (label : Block → List Char) (cursor : Nat) :
    List Block → List Char → Option (List Char)
  | [], text => some text
  | b :: blocks, text => do
    let (before, text) ← Text.splitAt? text (b.statement.start - cursor)
    let text ← dropFront? (head b.id).toList text
    let (body, text) ← Text.splitAt? text (b.body.stop - b.body.start)
    let text ← dropFront? suffix text
    let rest ← restoreFrom label b.statement.stop blocks text
    return before ++ (label b ++ (body ++ rest))

/-- A rewritten script with the prologue removed and its blocks undone. -/
def Output.restore (o : Output) (trackerModule : String) (label : Block → List Char) :
    Option (List Char) :=
  (dropFront? (prologue trackerModule o.blocks o.injected).toList o.code.toList).bind
    (restoreFrom label 0 o.blocks)

/-- The label of a block in a script, with what stands between it and the body. -/
def labelIn (source : List Char) (b : Block) : List Char :=
  (Text.slice? source b.statement.start b.body.start).getD []

theorem restoreFrom_replaced {source : List Char} {offset : Nat} (id : Nat) (parts : List Part)
    (tail : List Char) (h : StandsAt source offset (written parts ++ tail)) :
    restoreFrom (labelIn source) offset (blocksAt id offset parts) (replaced id parts ++ tail) =
      some (written parts ++ tail) := by
  induction parts generalizing id offset with
  | nil => rfl
  | cons p parts ih =>
    have htext : written (p :: parts) ++ tail =
        p.before ++ (p.label ++ (p.body ++ (written parts ++ tail))) := by
      simp only [written, List.flatMap_cons, Part.written, List.append_assoc]
    have hreplaced : replaced id (p :: parts) ++ tail =
        p.before ++
          ((head id).toList ++ (p.body ++ (suffix ++ (replaced (id + 1) parts ++ tail)))) := by
      simp only [replaced, Part.replaced, List.append_assoc]
    rw [htext] at h ⊢
    have hlabel : labelIn source (p.block id offset) = p.label := by
      rw [labelIn]
      simp only [Part.block, (h.drop p.before).slice?, Option.getD_some]
    have hrest := ih (id + 1) (((h.drop p.before).drop p.label).drop p.body)
    have hbefore : (p.block id offset).statement.start - offset = Text.byteLength p.before :=
      Nat.add_sub_cancel_left ..
    have hbody : (p.block id offset).body.stop - (p.block id offset).body.start =
        Text.byteLength p.body := Nat.add_sub_cancel_left ..
    have hid : (p.block id offset).id = id := rfl
    rw [hreplaced, blocksAt, restoreFrom]
    simp only [hbefore, hbody, hid, hlabel, Text.splitAt?_byteLength, dropFront?_append, bind,
      Option.bind]
    rw [show (p.block id offset).statement.stop = offset + Text.byteLength p.before +
      Text.byteLength p.label + Text.byteLength p.body from rfl, hrest]
    rfl

/-- A script whose blocks are placed is made of parts, and they tell its blocks and its pieces. -/
theorem exists_parts {content cs : List Char} (found : List (Span × Span × List Name)) (id : Nat)
    {cursor : Nat} (hplaced : Placed content (blocksFrom id found))
    (hcursor : ∀ b ∈ blocksFrom id found, cursor ≤ b.statement.start)
    (hcs : StandsAt content cursor cs) :
    ∃ parts tail, cs = written parts ++ tail ∧ blocksFrom id found = blocksAt id cursor parts ∧
      Splice.codeChars (bodyPieces content cursor (blocksFrom id found)) =
        replaced id parts ++ tail := by
  induction found generalizing id cursor cs with
  | nil =>
    have hlength : Text.byteLength content = cursor + Text.byteLength cs := by
      obtain ⟨front, rfl, rfl⟩ := hcs
      exact Text.byteLength_append front cs
    have hbetween : Text.between content cursor (Text.byteLength content) = String.ofList cs := by
      rw [hlength]
      exact StandsAt.between cs (by rwa [List.append_nil])
    refine ⟨[], cs, rfl, rfl, ?_⟩
    simp only [blocksFrom, bodyPieces, Splice.codeChars_cons, Piece.text, hbetween,
      String.toList_ofList]
    exact List.append_nil cs
  | cons x found ih =>
    obtain ⟨⟨start, stop⟩, ⟨bodyStart, bodyStop⟩, names⟩ := x
    obtain ⟨hafter, hordered⟩ := List.pairwise_cons.1 hplaced.ordered
    have hb := hplaced.standsIn _ (List.mem_cons_self ..)
    obtain rfl : bodyStop = stop := hb.ends
    have hstart : Text.IsBoundary content start := hb.start
    have hbodyStart : Text.IsBoundary content bodyStart := hb.body
    have hle : start ≤ bodyStart := Nat.le_of_lt hb.label
    -- The boundaries of the block cut the text into what stands in front, its label and its body.
    obtain ⟨before, cs, rfl, rfl, hlabel⟩ :=
      hcs.exists_front hstart (hcursor _ (List.mem_cons_self ..))
    obtain ⟨label, cs, rfl, rfl, hbody⟩ := hlabel.exists_front hbodyStart hle
    obtain ⟨body, cs, rfl, rfl, hrest⟩ := hbody.exists_front hb.stop hb.inside
    obtain ⟨parts, tail, rfl, hblocks, hcode⟩ := ih (id + 1)
      ⟨fun c hc => hplaced.standsIn c (List.mem_cons_of_mem _ hc), hordered⟩ hafter hrest
    refine ⟨⟨before, label, body⟩ :: parts, tail, ?_, ?_, ?_⟩
    · simp only [written, List.flatMap_cons, Part.written, List.append_assoc]
    · rw [blocksFrom, hblocks]
      rfl
    · rw [blocksFrom, bodyPieces, Splice.codeChars_append, hcode]
      simp only [blockPieces, Splice.codeChars_cons, Piece.text, hcs.between before,
        hbody.between body, replaced, Part.replaced, head, suffix, String.toList_ofList,
        List.append_assoc]
      rfl

theorem ids_blocksFrom (id : Nat) (found : List (Span × Span × List Name)) :
    (blocksFrom id found).map (·.id) = List.range' id found.length := by
  induction found generalizing id with
  | nil => rfl
  | cons x found ih => rw [blocksFrom, List.map_cons, ih, List.length_cons, List.range'_succ]

theorem length_blocksFrom (id : Nat) (found : List (Span × Span × List Name)) :
    (blocksFrom id found).length = found.length := by
  have h := congrArg List.length (ids_blocksFrom id found)
  rwa [List.length_map, List.length_range'] at h

theorem ids_blocksFrom_range (found : List (Span × Span × List Name)) :
    (blocksFrom 0 found).map (·.id) = List.range (blocksFrom 0 found).length := by
  rw [ids_blocksFrom, length_blocksFrom, List.range_eq_range']

theorem spans_blocksFrom (id : Nat) (found : List (Span × Span × List Name)) :
    (blocksFrom id found).map (fun b => (b.statement, b.body)) =
      found.map fun x => (x.1, x.2.1) := by
  induction found generalizing id with
  | nil => rfl
  | cons x found ih => rw [blocksFrom, List.map_cons, ih, List.map_cons]

theorem spans_statements (items : List Stmt) :
    (statements items).map (fun x => (x.1, x.2.1)) = items.filterMap reactive? := by
  rw [statements, List.map_filterMap]
  refine List.filterMap_congr fun item _ => ?_
  cases item with
  | labeled statement body n inner =>
    simp only [reactive?]
    split <;> rfl
  | _ => rfl

/-- The prologue of a rewritten script: the import, a line for each number of a block, and a line
for each name that gets a declaration. -/
def prologueLines (trackerModule : String) (count : Nat) (injected : List Name) : List String :=
  ("import \x7b createReactiveWrapper as " ++ creator ++ " \x7d from " ++ quoted trackerModule ++
      ";\n") ::
    ((List.range count).map fun id => "const " ++ tracker id ++ " = " ++ creator ++ "();\n") ++
    injected.map fun n => "let " ++ String.ofList n ++ ";\n"

theorem prologue_eq (trackerModule : String) {blocks : List Block} (injected : List Name)
    (h : blocks.map (·.id) = List.range blocks.length) :
    prologue trackerModule blocks injected =
      String.join (prologueLines trackerModule blocks.length injected) := by
  have hlines : (List.range blocks.length).map
      (fun id => "const " ++ tracker id ++ " = " ++ creator ++ "();\n") =
      blocks.map fun b => "const " ++ tracker b.id ++ " = " ++ creator ++ "();\n" := by
    rw [← h, List.map_map]
    rfl
  rw [prologueLines, hlines, List.cons_append, String.join_cons, String.join_append,
    ← String.append_assoc]
  rfl

/-- The line that the trackers come with. -/
def importLine : List Char :=
  Word.«import».chars ++ ' ' :: '\x7b' :: ' ' :: ("createReactiveWrapper".toList ++ ' ' ::
    (Word.as.chars ++ ' ' :: (creator.toList ++ ' ' :: '\x7d' :: ' ' ::
      (Word.«from».chars ++ ' ' :: ("\"melte/tracker\"".toList ++ [';', '\n'])))))

/-- The line that makes the tracker of a block. -/
def trackerLine (id : Nat) : List Char :=
  Word.const.chars ++ ' ' :: ((tracker id).toList ++ ' ' :: '=' :: ' ' :: (creator.toList ++
    ['(', ')', ';', '\n']))

/-- The line that declares a name. -/
def letLine (n : Name) : List Char := Word.«let».chars ++ ' ' :: (n ++ [';', '\n'])

theorem importLine_eq :
    ("import \x7b createReactiveWrapper as " ++ creator ++ " \x7d from " ++ quoted defaultModule ++
      ";\n").toList = importLine := by
  rw [importLine, quoted]
  simp only [String.toList_append, String.toList_ofList, List.append_assoc]
  rfl

theorem trackerLine_eq (id : Nat) :
    ("const " ++ tracker id ++ " = " ++ creator ++ "();\n").toList = trackerLine id := by
  rw [trackerLine]
  simp only [String.toList_append, List.append_assoc]
  rfl

theorem letLine_eq (n : Name) : ("let " ++ String.ofList n ++ ";\n").toList = letLine n := by
  rw [letLine]
  simp only [String.toList_append, String.toList_ofList, List.append_assoc]
  rfl

/-- The text of the prologue, line by line. -/
def prologueText (count : Nat) (injected : List Name) : List Char :=
  importLine ++ ((List.range count).flatMap trackerLine ++ injected.flatMap letLine)

theorem prologue_toList {blocks : List Block} (injected : List Name)
    (hids : blocks.map (·.id) = List.range blocks.length) :
    (prologue defaultModule blocks injected).toList = prologueText blocks.length injected := by
  rw [prologue_eq defaultModule injected hids, String.toList_join, prologueLines,
    List.cons_append, List.flatMap_cons, List.flatMap_append, List.flatMap_map, List.flatMap_map,
    importLine_eq]
  simp only [trackerLine_eq, letLine_eq, prologueText]

theorem code_toList {options : Options} {source : String} {o : Output}
    (h : rewrite options source = .ok o)
    (hmodule : options.trackerModule = defaultModule) (hblocks : o.blocks ≠ []) :
    o.code.toList = prologueText o.blocks.length o.injected ++
      Splice.codeChars (bodyPieces source.toList 0 o.blocks) := by
  rcases rewrite_cases h with rfl | ⟨items, -, -, rfl⟩
  · exact absurd rfl hblocks
  · rw [Splice.toList_code, pieces, Splice.codeChars_cons, hmodule, Piece.text,
      prologue_toList _ (ids_blocksFrom_range (statements items))]

/-- What a rewritten script is. The script of a module comes back as it is, even where it cannot be
parsed, and so does a script without reactive statements. The blocks of any other script are its
reactive statements, in order and numbered from 0. Where these are placed in the script one behind
the other, the new text is the prologue and the script with the label of each block replaced by the
start of a call and the end of the call put behind its body; and the spans of the blocks are enough
to undo that, given the labels. -/
theorem rewrite_restores (options : Options) (source : String) :
    (options.context = .perModule → rewrite options source = .ok ⟨source, none, [], []⟩) ∧
    (options.context = .perInstance → ∀ o, rewrite options source = .ok o →
      ∃ items, parse options.dialect source = .ok items ∧
        o.blocks.map (·.id) = List.range o.blocks.length ∧
        o.blocks.map (fun b => (b.statement, b.body)) = items.filterMap reactive? ∧
        (o.blocks = [] → o = ⟨source, none, [], []⟩) ∧
        (o.blocks ≠ [] → Placed source.toList o.blocks →
          ∃ parts tail, source.toList = written parts ++ tail ∧ o.blocks = blocksAt 0 0 parts ∧
            o.code =
              String.join (prologueLines options.trackerModule o.blocks.length o.injected) ++
                String.ofList (replaced 0 parts ++ tail) ∧
            o.restore options.trackerModule (labelIn source.toList) = some source.toList)) := by
  refine ⟨fun hcontext => rewrite_perModule hcontext source, fun hcontext o ho => ?_⟩
  cases hparse : parse options.dialect source with
  | error e =>
    unfold rewrite at ho
    simp [hcontext, hparse, bind, Except.bind] at ho
  | ok items =>
    refine ⟨items, rfl, ?_⟩
    by_cases hitems : statements items = []
    · have hrewrite := rewrite_of_no_statements hcontext hparse hitems
      obtain rfl := Except.ok.inj (hrewrite.symm.trans ho)
      refine ⟨rfl, ?_, fun _ => rfl, fun h => absurd rfl h⟩
      rw [← spans_statements, hitems]
      rfl
    · have hrewrite := rewrite_of_statements options hcontext hparse hitems
      obtain rfl := Except.ok.inj (hrewrite.symm.trans ho)
      have hids := ids_blocksFrom_range (statements items)
      refine ⟨hids, ?_, fun h => absurd h (blocksFrom_ne_nil 0 hitems), fun _ hplaced => ?_⟩
      · rw [spans_blocksFrom, spans_statements]
      · obtain ⟨parts, tail, hsource, hblocks, hcode⟩ := exists_parts (statements items) 0 hplaced
          (fun _ _ => Nat.zero_le _) (StandsAt.zero source.toList)
        have hprologue := prologue_eq options.trackerModule (injectedNames items) hids
        have hrestore := restoreFrom_replaced 0 parts tail (hsource ▸ StandsAt.zero source.toList)
        refine ⟨parts, tail, hsource, hblocks, ?_, ?_⟩
        · rw [← hprologue, Splice.code, pieces, Splice.codeChars_cons, hcode, String.ofList_append]
          simp only [Piece.text, String.ofList_toList]
        · unfold Output.restore
          simp only [Splice.code, pieces, Splice.codeChars_cons, hcode, Piece.text,
            String.toList_ofList]
          rw [dropFront?_append, Option.bind_some, hblocks, hsource]
          exact hrestore

/-- Two blocks, one without a semicolon and one behind a comment. -/
theorem rewrite_restores_of_two :
    ∃ o, rewrite {} "$m: a = 1\n/* é */ $m: \x7b f(a) \x7d\nlet b" = .ok o ∧
      o.blocks = [⟨0, ⟨0, 9⟩, ⟨4, 9⟩⟩, ⟨1, ⟨19, 31⟩, ⟨23, 31⟩⟩] ∧
      o.restore defaultModule (labelIn "$m: a = 1\n/* é */ $m: \x7b f(a) \x7d\nlet b".toList) =
        some "$m: a = 1\n/* é */ $m: \x7b f(a) \x7d\nlet b".toList := by
  let source := "$m: a = 1\n/* é */ $m: \x7b f(a) \x7d\nlet b"
  have hfound : (rewrite {} source).toOption.map (·.blocks) =
      some [⟨0, ⟨0, 9⟩, ⟨4, 9⟩⟩, ⟨1, ⟨19, 31⟩, ⟨23, 31⟩⟩] := by decide +kernel
  cases hrewrite : rewrite {} source with
  | error e =>
    rw [hrewrite] at hfound
    cases hfound
  | ok o =>
    rw [hrewrite] at hfound
    have hblocks : o.blocks = [⟨0, ⟨0, 9⟩, ⟨4, 9⟩⟩, ⟨1, ⟨19, 31⟩, ⟨23, 31⟩⟩] :=
      Option.some.inj hfound
    have hplaced : Placed source.toList o.blocks := by
      rw [hblocks]
      decide +kernel
    obtain ⟨_, _, _, _, _, hrest⟩ := (rewrite_restores {} source).2 rfl o hrewrite
    obtain ⟨_, _, _, _, _, hrestore⟩ := hrest (by rw [hblocks]; exact List.cons_ne_nil _ _) hplaced
    exact ⟨o, rfl, hblocks, hrestore⟩

end Script.Reactive

end ComponentBuild
