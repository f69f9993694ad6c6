import ComponentBuild.Proofs.Script.Injected
import ComponentBuild.Proofs.Script.Moved
import ComponentBuild.Proofs.Script.Prologue

namespace ComponentBuild.Script.Reactive

open Script.Part (declaredIn hoistedIn freeIn)

theorem tracker_injective {i j : Nat} (h : tracker i = tracker j) : i = j :=
  Nat.repr_injective ((String.append_right_inj _).1 h)

theorem creator_ne_tracker (id : Nat) : creator ≠ tracker id := by
  intro h
  have hprefix : "_m_tracker".toList <+: creator.toList := by
    rw [h, tracker, String.toList_append]
    exact List.prefix_append _ _
  exact absurd hprefix (by decide)

theorem nodup_ownNames (count : Nat) : (ownNames count).Nodup := by
  rw [ownNames, List.nodup_cons]
  constructor
  · intro hmem
    obtain ⟨id, _, hid⟩ := List.mem_map.1 hmem
    exact creator_ne_tracker id (String.toList_inj.1 hid.symm)
  · refine List.Nodup.map ?_ List.nodup_range
    intro i j hij
    exact tracker_injective (String.toList_inj.1 hij)

theorem tracker_mem_ownNames {count id : Nat} (h : id < count) :
    (tracker id).toList ∈ ownNames count :=
  List.mem_cons_of_mem _ (List.mem_map_of_mem (List.mem_range.2 h))

theorem hoistedIn_prologueParts (count : Nat) : hoistedIn (prologueParts count) = [] := by
  rw [hoistedIn_eq, prologueParts, List.flatMap_cons, List.flatMap_assoc]
  exact List.flatMap_eq_nil_iff.2 fun _ _ => rfl

theorem declaredIn_prologueParts (count : Nat) :
    declaredIn true (prologueParts count) = ownNames count := by
  rw [declaredIn, if_pos rfl, hoistedIn_prologueParts, List.append_nil, prologueParts,
    List.filterMap_cons, ownNames, List.filterMap_flatMap, List.map_eq_flatMap]
  rfl

/-- The lines of the prologue use nothing but what is imported. -/
theorem mem_ownNames_of_free {count : Nat} {n : Name} (h : n ∈ freeIn (prologueParts count)) :
    n ∈ ownNames count := by
  rw [Script.Part.freeIn_eq, prologueParts, List.flatMap_cons, List.flatMap_assoc] at h
  rcases List.mem_append.1 h with h | h
  · cases h
  · obtain ⟨id, _, hid⟩ := List.mem_flatMap.1 h
    obtain rfl : n = creator.toList := List.mem_singleton.1 hid
    exact List.mem_cons_self

section Rewritten

variable {options : Options} {source : String} {o : Output} {items items' : List Stmt}

/-- What a rewriting that changes something takes from its script. -/
theorem blocks_of_rewrite (h : rewrite options source = .ok o)
    (hparse : parse options.dialect source = .ok items) (hblocks : o.blocks ≠ []) :
    o.blocks.length = (items.filterMap reactive?).length ∧ o.injected = injectedNames items := by
  rcases rewrite_cases h with rfl | ⟨items', hparse', -, rfl⟩
  · exact absurd rfl hblocks
  · obtain rfl := Except.ok.inj (hparse'.symm.trans hparse)
    rw [length_blocksFrom, ← spans_statements, List.length_map]
    exact ⟨rfl, rfl⟩

theorem code_of_no_blocks (h : rewrite options source = .ok o) (hblocks : o.blocks = []) :
    o.code = source := by
  rcases rewrite_cases h with rfl | ⟨items, -, hitems, rfl⟩
  · rfl
  · exact absurd hblocks (blocksFrom_ne_nil 0 hitems)

/-- A name that gets a declaration and is bound all the same is one that is misread. -/
theorem mem_misreadNames_of_injected {n : Name} (hinjected : n ∈ injectedNames items)
    (hbound : n ∈ boundNames items) : n ∈ misreadNamesOf items := by
  rw [injectedNames_eq, List.mem_eraseDups, List.mem_filter, decide_eq_true_iff] at hinjected
  by_contra hread
  exact hinjected.2.2 ((mem_topLevelNames_iff_bound hread).2 hbound)

/-- What a rewritten script binds at its top are the names of the prologue, each once, and what
stands behind the lines of the import and of the trackers. -/
theorem boundNames_of_rewritten (h : rewrite options source = .ok o)
    (hmodule : options.trackerModule = defaultModule) (hblocks : o.blocks ≠ [])
    (hparse : parse options.dialect o.code = .ok items') :
    (boundNames items').Perm
      (ownNames o.blocks.length ++ boundNames (items'.drop (o.blocks.length + 1))) := by
  have hperm := boundNames_perm (o.blocks.length + 1) items'
  rwa [(lines_of_rewritten h hmodule hblocks hparse).2] at hperm

/-- What a rewritten script means for names where it is read again. -/
structure Rereading where
  moved : Bool
  bound : List Name
  free : List Name
  deriving DecidableEq

/-- What a script with reactive statements and its rewriting mean for names. -/
structure Reading where
  trackers : Nat
  injected : List Name
  bound : List Name
  free : List Name
  escaped : List Name
  again? : Option Rereading
  deriving DecidableEq

def Rereading.of (trackers : Nat) (injected : List Name) (items items' : List Stmt) : Rereading :=
  let behind := items'.drop (trackers + 1)
  ⟨decide (IsMoved injected items behind), boundNames behind, globals items'⟩

def Reading.of (trackers : Nat) (injected : List Name) (items : List Stmt) (code : List Char) :
    Reading :=
  ⟨trackers, injected, boundNames items, globals items, escapedNames items,
    (parseChars false (withoutMark code)).toOption.map (.of trackers injected items)⟩

/-- The text of a rewriting, from that of the script. -/
def rewrittenText (source : List Char) (items : List Stmt) : List Char :=
  let blocks := blocksFrom 0 (statements items)
  prologueText blocks.length (injectedNames items) ++
    Splice.codeChars (bodyPieces source 0 blocks)

def reading? (source : String) : Option Reading :=
  ((parseChars false (withoutMark source.toList)).toOption.filter fun items =>
    !(statements items).isEmpty).map fun items =>
      .of (blocksFrom 0 (statements items)).length (injectedNames items) items
        (rewrittenText source.toList items)

theorem toOption_parse (dialect : Dialect) (code : String) :
    (parse dialect code).toOption =
      (parseChars (dialect == .typescript) (withoutMark code.toList)).toOption := by
  rw [parse]
  cases parseChars (dialect == .typescript) (withoutMark code.toList) <;> rfl

theorem exists_of_reading {r : Reading} (h : reading? source = some r) :
    ∃ o items, rewrite {} source = .ok o ∧ parse .javascript source = .ok items ∧
      r = .of o.blocks.length o.injected items o.code.toList := by
  obtain ⟨items, hitems, rfl⟩ := Option.map_eq_some_iff.1 h
  obtain ⟨hitems, hstatements⟩ := Option.filter_eq_some_iff.1 hitems
  have hparse : parse .javascript source = .ok items :=
    ok_of_toOption ((toOption_parse .javascript source).trans hitems)
  have hne : statements items ≠ [] := by simpa using hstatements
  have hrewrite := rewrite_of_statements {} rfl hparse hne
  have hcode := code_toList hrewrite rfl (blocksFrom_ne_nil 0 hne)
  refine ⟨_, items, hrewrite, hparse, ?_⟩
  rw [hcode, rewrittenText]

theorem exists_of_rereading {r : Reading} {r' : Rereading} (h : reading? source = some r)
    (hagain : r.again? = some r') :
    ∃ o items items', rewrite {} source = .ok o ∧ parse .javascript source = .ok items ∧
      parse .javascript o.code = .ok items' ∧
      r = .of o.blocks.length o.injected items o.code.toList ∧
      r' = .of o.blocks.length o.injected items items' := by
  obtain ⟨o, items, ho, hitems, rfl⟩ := exists_of_reading h
  obtain ⟨items', hitems', hread⟩ := Option.map_eq_some_iff.1 hagain
  have hparse : parse .javascript o.code = .ok items' :=
    ok_of_toOption ((toOption_parse .javascript o.code).trans hitems')
  exact ⟨o, items, items', ho, hitems, hparse, rfl, hread.symm⟩

/-- A script that declares the name of its second tracker, leaves the name of the first one to
whatever runs it, and uses a variable of a block outside of that. -/
def namesTrackers : String := "let _m_tracker1;\n$m: _m_tracker0();\n$m: \x7b var y; \x7d\ny;"

/-- A script that assigns a function that it exports by default. -/
def assignsDefault : String := "export default function f() \x7b\x7d\n$m: f = 1;"

theorem readings :
    reading? namesTrackers =
        some ⟨2, [], ["_m_tracker1".toList, "y".toList], ["_m_tracker0".toList], ["y".toList],
          some ⟨true, ["_m_tracker1".toList], ["y".toList]⟩⟩ ∧
      reading? assignsDefault = some ⟨1, ["f".toList], ["f".toList], ["f".toList], [],
        some ⟨true, ["f".toList, "f".toList], []⟩⟩ ∧
      reading? "$m: await f();" = some ⟨1, [], [], ["f".toList], [], none⟩ ∧
      reading? "$m: \x7b var y = 1; \x7d\ny;" =
        some ⟨1, [], ["y".toList], [], ["y".toList], some ⟨true, [], ["y".toList]⟩⟩ ∧
      reading? "\uFEFF$m: abcd;" = some ⟨1, [], [], ["abcd".toList], [],
        some ⟨false, [], ["ab".toList, "cd".toList]⟩⟩ := by
  decide +kernel

theorem exists_counts_of_reading {r : Reading} {r' : Rereading} (n : Name)
    (h : reading? source = some r) (hagain : r.again? = some r') (hne : r.trackers ≠ 0) :
    ∃ o items items', rewrite {} source = .ok o ∧ parse .javascript source = .ok items ∧
      parse .javascript o.code = .ok items' ∧ (boundNames items).count n = r.bound.count n ∧
      (boundNames items').count n = (ownNames r.trackers ++ r'.bound).count n := by
  obtain ⟨o, items, items', ho, hitems, hitems', rfl, rfl⟩ := exists_of_rereading h hagain
  have hperm := boundNames_of_rewritten ho rfl (mt List.length_eq_zero_iff.2 hne) hitems'
  exact ⟨o, items, items', ho, hitems, hitems', rfl, hperm.count_eq n⟩

/-- Free in a rewritten script is what is free behind the lines of the import and of the trackers,
but for the names of these lines. -/
theorem mem_globals_of_rewritten (h : rewrite options source = .ok o)
    (hmodule : options.trackerModule = defaultModule) (hblocks : o.blocks ≠ [])
    (hparse : parse options.dialect o.code = .ok items') {n : Name} :
    n ∈ globals items' ↔
      n ∈ globals (items'.drop (o.blocks.length + 1)) ∧ n ∉ ownNames o.blocks.length := by
  have hlines := (lines_of_rewritten h hmodule hblocks hparse).1
  have hdeclared : n ∈ topLevelNames items' ↔ n ∈ ownNames o.blocks.length ∨
      n ∈ topLevelNames (items'.drop (o.blocks.length + 1)) := by
    conv_lhs => rw [← List.take_append_drop (o.blocks.length + 1) items']
    rw [mem_topLevelNames_append, topLevelNames, hlines, declaredIn_prologueParts]
  have hfree : n ∈ freeIn (partsOfStmts items') ↔ n ∈ freeIn (prologueParts o.blocks.length) ∨
      n ∈ freeIn (partsOfStmts (items'.drop (o.blocks.length + 1))) := by
    conv_lhs => rw [← List.take_append_drop (o.blocks.length + 1) items']
    rw [partsOfStmts_append, Script.Part.freeIn_append, List.mem_append, hlines]
  rw [mem_globals, mem_globals, hfree, hdeclared, not_or]
  constructor
  · rintro ⟨hmem | hmem, hown, hbehind⟩
    · exact absurd (mem_ownNames_of_free hmem) hown
    · exact ⟨⟨hmem, hbehind⟩, hown⟩
  · rintro ⟨⟨hmem, hbehind⟩, hown⟩
    exact ⟨.inr hmem, hown, hbehind⟩

/-- A rewriting leaves a name free or bound, but for one that gets a declaration. -/
def Keeps (o : Output) (items items' : List Stmt) (n : Name) : Prop :=
  n ∈ globals items' ↔ n ∈ globals items ∧ n ∉ o.injected

theorem exists_free_of_reading {r : Reading} {r' : Rereading} {n : Name}
    (h : reading? source = some r) (hagain : r.again? = some r') (hn : n ∈ r'.free)
    (hbound : n ∉ r.free) :
    ∃ o items items', rewrite {} source = .ok o ∧ parse .javascript source = .ok items ∧
      parse .javascript o.code = .ok items' ∧ n ∈ globals items' ∧ ¬ Keeps o items items' n := by
  obtain ⟨o, items, items', ho, hitems, hitems', rfl, rfl⟩ := exists_of_rereading h hagain
  exact ⟨o, items, items', ho, hitems, hitems', hn, fun hkeeps => hbound (hkeeps.1 hn).1⟩

end Rewritten

end ComponentBuild.Script.Reactive
