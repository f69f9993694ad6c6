import ComponentBuild.Proofs.Splice.Marks
import Mathlib.Data.List.DropRight

namespace ComponentBuild

/-- The search that answers the first of equal keys. -/
def BinarySearch.first : BinarySearch := .choosing (fun _ => 0) Nat.zero_le

theorem BinarySearch.first_find {front back : List Nat} {key : Nat} (h : ∀ k ∈ front, k < key) :
    first.find (front ++ key :: back) key = .ok front.length := by
  have hfront : (front ++ key :: back).takeWhile (· < key) = front := by
    rw [List.takeWhile_append_of_pos (by simpa using h), List.takeWhile_cons, if_neg (by simp),
      List.append_nil]
  simp only [first, choosing, hfront]
  split
  next hcount =>
    exact absurd (List.mem_append_right _ (.head _)) (List.count_eq_zero.1 hcount)
  next => rfl

namespace Splice

/-- Whether some pieces end in one that leaves nothing of a span, with no text behind it. -/
def EndsEmptied (before : List Piece) : Prop :=
  ∃ span, Piece.replaced span "" ∈ before.rtakeWhile (·.text = "")

theorem linksFrom_append (offset : Nat) (xs ys : List Piece) :
    linksFrom offset (xs ++ ys) = linksFrom offset xs ++ linksFrom (offset + size xs) ys := by
  induction xs generalizing offset with
  | nil => rfl
  | cons piece xs ih =>
    rw [size_cons, ← Nat.add_assoc]
    cases piece with
    | copied start text =>
      simp only [List.cons_append, linksFrom, ih]
      split <;> rfl
    | replaced span text => simp only [List.cons_append, linksFrom, ih]
    | generated text => simp only [List.cons_append, linksFrom, ih]
    | external text => simp only [List.cons_append, linksFrom, ih]

theorem linksFrom_within {offset : Nat} {pieces : List Piece} {link : Link}
    (h : link ∈ linksFrom offset pieces) :
    offset ≤ link.generated.start ∧ link.generated.start ≤ link.generated.stop ∧
      link.generated.stop ≤ offset + size pieces := by
  induction pieces generalizing offset with
  | nil => cases h
  | cons piece pieces ih =>
    have hrest (hl : link ∈ linksFrom (offset + Text.byteLength piece.text.toList) pieces) :
        offset ≤ link.generated.start ∧ link.generated.start ≤ link.generated.stop ∧
          link.generated.stop ≤ offset + size (piece :: pieces) := by
      have hbounds := ih hl
      rw [size_cons]
      omega
    have hhead (original : Span)
        (hl : link = ⟨⟨offset, offset + Text.byteLength piece.text.toList⟩, original⟩) :
        offset ≤ link.generated.start ∧ link.generated.start ≤ link.generated.stop ∧
          link.generated.stop ≤ offset + size (piece :: pieces) := by
      rw [hl, size_cons]
      dsimp only
      omega
    cases piece with
    | copied start text =>
      simp only [linksFrom] at h
      split at h
      · exact hrest h
      · rcases List.mem_cons.1 h with h | h
        · exact hhead _ h
        · exact hrest h
    | replaced span text =>
      rcases List.mem_cons.1 h with h | h
      · exact hhead _ h
      · exact hrest h
    | generated text => exact hrest h
    | external text => exact hrest h

theorem linksFrom_sorted (offset : Nat) (pieces : List Piece) :
    (linksFrom offset pieces).Pairwise fun a b => a.generated.start ≤ b.generated.start := by
  induction pieces generalizing offset with
  | nil => exact .nil
  | cons piece pieces ih =>
    have hrest := ih (offset + Text.byteLength piece.text.toList)
    have hcons (original : Span) :
        (⟨⟨offset, offset + Text.byteLength piece.text.toList⟩, original⟩ ::
          linksFrom (offset + Text.byteLength piece.text.toList) pieces).Pairwise
            fun a b => a.generated.start ≤ b.generated.start := by
      refine List.pairwise_cons.2 ⟨fun link hlink => ?_, hrest⟩
      have hwithin := linksFrom_within hlink
      dsimp only
      omega
    cases piece with
    | copied start text =>
      simp only [linksFrom]
      split
      · exact hrest
      · exact hcons _
    | replaced span text => exact hcons _
    | generated text => exact hrest
    | external text => exact hrest

theorem start_of_mem_own {n : Nat} {piece : Piece} {link : Link} (h : link ∈ linksFrom n [piece]) :
    link.generated.start = n := by
  cases piece with
  | copied start text =>
    simp only [linksFrom] at h
    split at h
    · cases h
    · rw [List.mem_singleton.1 h]
  | replaced span text => rw [List.mem_singleton.1 h]
  | generated text => cases h
  | external text => cases h

/-- The links that start where some pieces end are those of pieces that left nothing there. -/
theorem endsEmptied_iff (before : List Piece) :
    EndsEmptied before ↔ ∃ link ∈ linksFrom 0 before, link.generated.start = size before := by
  induction before using List.reverseRecOn with
  | nil => simp [EndsEmptied, linksFrom]
  | append_singleton before piece ih =>
    rw [linksFrom_append, Nat.zero_add, size_append, size_singleton, EndsEmptied]
    by_cases htext : piece.text = ""
    · rw [List.rtakeWhile_concat_pos _ _ _ (by simpa using htext), htext]
      simp only [List.mem_append, List.mem_singleton, or_and_right, exists_or]
      refine or_congr ih ?_
      cases piece with
      | replaced span text =>
        obtain rfl : text = "" := htext
        simp [linksFrom]
      | copied start text =>
        obtain rfl : text = "" := htext
        simp [linksFrom, Piece.text]
      | generated text => simp [linksFrom]
      | external text => simp [linksFrom]
    · rw [List.rtakeWhile_concat_neg _ _ _ (by simpa using htext)]
      have hpos : 0 < Text.byteLength piece.text.toList :=
        Nat.pos_of_ne_zero (mt Piece.byteLength_text_eq_zero.1 htext)
      refine iff_of_false (by simp) ?_
      rintro ⟨link, hlink, hstart⟩
      rcases List.mem_append.1 hlink with hlink | hlink
      · have hwithin := linksFrom_within hlink
        omega
      · have hown := start_of_mem_own hlink
        omega

/-- A search stops at a link that starts at the offset, if there is one, and else at the last in
front. -/
theorem linkAt?_cases (search : BinarySearch) (pieces : List Piece) (offset : Nat) :
    (∃ link ∈ links pieces, linkAt? search pieces offset = some link ∧
      link.generated.start = offset) ∨
    ∃ front back, links pieces = front ++ back ∧
      linkAt? search pieces offset = front.getLast? ∧
      (∀ link ∈ front, link.generated.start < offset) ∧
      ∀ link ∈ back, offset < link.generated.start := by
  have hsorted : ((links pieces).map (·.generated.start)).Pairwise (· ≤ ·) :=
    List.pairwise_map.2 (linksFrom_sorted 0 pieces)
  unfold linkAt?
  cases hfind : search.find ((links pieces).map (·.generated.start)) offset with
  | ok i =>
    have hkey := search.found hsorted hfind
    rw [List.getElem?_map] at hkey
    obtain ⟨link, hlink, hstart⟩ := Option.map_eq_some_iff.1 hkey
    exact .inl ⟨link, List.mem_of_getElem? hlink, hlink, hstart⟩
  | error i =>
    obtain ⟨keys, keys', hkeys, hlength, hfront, hback⟩ := search.missed hsorted hfind
    obtain ⟨front, back, hlinks, rfl, rfl⟩ := List.map_eq_append_iff.1 hkeys
    rw [List.length_map] at hlength
    refine .inr ⟨front, back, hlinks, ?_, fun link hlink => ?_, fun link hlink => ?_⟩
    · rw [List.getLast?_eq_getElem?, hlinks, hlength]
      cases i with
      | zero => simp [List.eq_nil_of_length_eq_zero hlength]
      | succ i => exact List.getElem?_append_left (by omega)
    · exact hfront _ (List.mem_map_of_mem hlink)
    · exact hback _ (List.mem_map_of_mem hlink)

section

variable {pieces before after : List Piece} {piece : Piece} {offset : Nat}

theorem links_of_piece (before after : List Piece) (piece : Piece) :
    links (before ++ piece :: after) =
      linksFrom 0 before ++ (linksFrom (size before) [piece] ++
        linksFrom (size before + Text.byteLength piece.text.toList) after) := by
  rw [links, List.append_cons, linksFrom_append, linksFrom_append, Nat.zero_add, Nat.zero_add,
    size_append, size_singleton, List.append_assoc]

theorem filter_of_parts {front back : List Link}
    (hfront : ∀ link ∈ front, link.generated.start ≤ offset)
    (hback : ∀ link ∈ back, offset < link.generated.start) :
    (front ++ back).filter (·.generated.start ≤ offset) = front := by
  rw [List.filter_append, List.filter_eq_self.2 (by simpa using hfront),
    List.filter_eq_nil_iff.2 (by simpa using hback), List.append_nil]

theorem originalOffset?_of_le {link : Link} (h : link.generated.stop ≤ offset) :
    link.originalOffset? offset = none := by
  rw [Link.originalOffset?, if_neg]
  simp only [Span.contains, Bool.and_eq_true, decide_eq_true_eq, not_and]
  omega

/-- In a piece a search stops at a link that starts at the offset, or else at the last of those up
to the piece. -/
theorem linkAt?_of_piece (after : List Piece) (hle : size before ≤ offset)
    (hlt : offset < size before + Text.byteLength piece.text.toList) (search : BinarySearch) :
    (∃ link ∈ linksFrom 0 before ++ linksFrom (size before) [piece],
      linkAt? search (before ++ piece :: after) offset = some link ∧
        link.generated.start = offset) ∨
    linkAt? search (before ++ piece :: after) offset =
      (linksFrom 0 before ++ linksFrom (size before) [piece]).getLast? := by
  have hlinks := links_of_piece before after piece
  rw [← List.append_assoc] at hlinks
  have hin : ∀ link ∈ linksFrom 0 before ++ linksFrom (size before) [piece],
      link.generated.start ≤ offset := by
    intro link hlink
    rcases List.mem_append.1 hlink with h | h
    · have hwithin := linksFrom_within h
      omega
    · have hstart := start_of_mem_own h
      omega
  have hout : ∀ link ∈ linksFrom (size before + Text.byteLength piece.text.toList) after,
      offset < link.generated.start := by
    intro link hlink
    have hwithin := linksFrom_within hlink
    omega
  rcases linkAt?_cases search (before ++ piece :: after) offset with
    ⟨link, hlink, hat, heq⟩ | ⟨front, back, hsplit, hat, hfront, hback⟩
  · rw [hlinks] at hlink
    rcases List.mem_append.1 hlink with hlink | hlink
    · exact .inl ⟨link, hlink, hat, heq⟩
    · exact absurd heq (Nat.ne_of_gt (hout link hlink))
  · have hfront' : ∀ link ∈ front, link.generated.start ≤ offset :=
      fun link hlink => Nat.le_of_lt (hfront link hlink)
    rw [← filter_of_parts hin hout, ← hlinks, hsplit, filter_of_parts hfront' hback]
    exact .inr hat

theorem originalOffset?_before {link : Link} (hle : size before ≤ offset)
    (hlink : link ∈ linksFrom 0 before) : link.originalOffset? offset = none := by
  have hwithin := linksFrom_within hlink
  exact originalOffset?_of_le (by omega)

/-- In a piece with a link a search stops at that link, or at one in front whose piece left nothing
there. -/
theorem originalOffset?_of_own (after : List Piece) {link : Link}
    (hown : linksFrom (size before) [piece] = [link]) (hle : size before ≤ offset)
    (hlt : offset < size before + Text.byteLength piece.text.toList) (search : BinarySearch) :
    originalOffset? search (before ++ piece :: after) offset = link.originalOffset? offset ∨
      originalOffset? search (before ++ piece :: after) offset = none ∧
        offset = size before ∧ EndsEmptied before := by
  have hcases := linkAt?_of_piece after hle hlt search
  rw [hown] at hcases
  rw [originalOffset?]
  rcases hcases with ⟨other, hother, hat, hstart⟩ | hat
  · rw [hat, Option.bind_some]
    rcases List.mem_append.1 hother with hother | hother
    · have hwithin := linksFrom_within hother
      have hoffset : offset = size before := by omega
      refine .inr ⟨originalOffset?_before hle hother, hoffset, (endsEmptied_iff before).2 ?_⟩
      exact ⟨other, hother, hstart.trans hoffset⟩
    · rw [List.mem_singleton.1 hother]
      exact .inl rfl
  · rw [hat, List.getLast?_concat]
    exact .inl rfl

/-- Behind a piece that left nothing, the first of the links at the place is that of such a
piece. -/
theorem originalOffset?_first (hbefore : EndsEmptied before) :
    originalOffset? .first (before ++ piece :: after) (size before) = none := by
  have hsome : ((linksFrom 0 before).find? (·.generated.start = size before)).isSome :=
    List.find?_isSome.2 (by simpa using (endsEmptied_iff before).1 hbefore)
  obtain ⟨found, hfound⟩ := Option.isSome_iff_exists.1 hsome
  obtain ⟨hstart, front, back, hsplit, hfront⟩ := List.find?_eq_some_iff_append.1 hfound
  have hbelow : ∀ k ∈ front.map (·.generated.start), k < size before := by
    intro k hk
    obtain ⟨link, hlink, rfl⟩ := List.mem_map.1 hk
    have hwithin := linksFrom_within (hsplit ▸ List.mem_append_left _ hlink)
    have hne : link.generated.start ≠ size before := by simpa using hfront link hlink
    omega
  have hlinks := links_of_piece before after piece
  rw [hsplit, List.append_assoc, List.cons_append] at hlinks
  have hat : linkAt? .first (before ++ piece :: after) (size before) = some found := by
    rw [linkAt?, hlinks, List.map_append, List.map_cons, of_decide_eq_true hstart,
      BinarySearch.first_find hbelow, List.length_map]
    simp
  rw [originalOffset?, hat, Option.bind_some]
  exact originalOffset?_before (Nat.le_refl _) (List.mem_of_find?_eq_some hfound)

/-- What a piece with a link is told to stand for, told by every search unless a piece in front left
nothing at the place. -/
theorem originalOffset?_of_piece {link : Link} {origin : Nat}
    (hown : linksFrom (size before) [piece] = [link]) (hle : size before ≤ offset)
    (hlt : offset < size before + Text.byteLength piece.text.toList)
    (horigin : link.originalOffset? offset = some origin) :
    (∀ search, originalOffset? search (before ++ piece :: after) offset = some origin ∨
      originalOffset? search (before ++ piece :: after) offset = none) ∧
    ((∀ search, originalOffset? search (before ++ piece :: after) offset = some origin) ↔
      ¬ (offset = size before ∧ EndsEmptied before)) := by
  have hcases := originalOffset?_of_own after hown hle hlt
  rw [horigin] at hcases
  refine ⟨fun search => (hcases search).imp_right And.left, fun hall hemptied => ?_,
    fun hnot search => (hcases search).resolve_right fun h => hnot h.2⟩
  obtain ⟨rfl, hbefore⟩ := hemptied
  cases (hall .first).symm.trans (originalOffset?_first hbefore)

/-- Where a piece has no link, no search finds a place of the original. -/
theorem originalOffset?_of_unlinked (hown : linksFrom (size before) [piece] = [])
    (hle : size before ≤ offset) (hlt : offset < size before + Text.byteLength piece.text.toList)
    (search : BinarySearch) :
    originalOffset? search (before ++ piece :: after) offset = none := by
  have hcases := linkAt?_of_piece after hle hlt search
  rw [hown, List.append_nil] at hcases
  refine Option.bind_eq_none_iff.2 fun link hlink => originalOffset?_before hle ?_
  rcases hcases with ⟨other, hother, hat, -⟩ | hat
  · rw [hat] at hlink
    cases hlink
    exact hother
  · rw [hat] at hlink
    exact List.mem_of_getLast? hlink

theorem originalOffset?_copied {start : Nat} {text : String}
    (hpieces : pieces = before ++ .copied start text :: after) (hle : size before ≤ offset)
    (hlt : offset < size before + Text.byteLength text.toList) :
    let origin := start + (offset - size before)
    (∀ search, originalOffset? search pieces offset = some origin ∨
      originalOffset? search pieces offset = none) ∧
    ((∀ search, originalOffset? search pieces offset = some origin) ↔
      ¬ (offset = size before ∧ EndsEmptied before)) := by
  have hown : linksFrom (size before) [.copied start text] =
      [⟨⟨size before, size before + Text.byteLength text.toList⟩,
        ⟨start, start + Text.byteLength text.toList⟩⟩] := by
    have hne : ¬ Text.byteLength text.toList = 0 := by omega
    simp [linksFrom, Piece.text, hne]
  rw [hpieces]
  refine originalOffset?_of_piece hown hle hlt ?_
  simp [Link.originalOffset?, Span.contains, Link.isVerbatim, Span.length, hle, hlt]

theorem originalOffset?_replaced {span : Span} {text : String}
    (hpieces : pieces = before ++ .replaced span text :: after) (hle : size before ≤ offset)
    (hlt : offset < size before + Text.byteLength text.toList) :
    let origin := if Text.byteLength text.toList = span.length then
      span.start + (offset - size before) else span.start
    (∀ search, originalOffset? search pieces offset = some origin ∨
      originalOffset? search pieces offset = none) ∧
    ((∀ search, originalOffset? search pieces offset = some origin) ↔
      ¬ (offset = size before ∧ EndsEmptied before)) := by
  have hown : linksFrom (size before) [.replaced span text] =
      [⟨⟨size before, size before + Text.byteLength text.toList⟩, span⟩] := rfl
  rw [hpieces]
  refine originalOffset?_of_piece hown hle hlt ?_
  have hin : Span.contains ⟨size before, size before + Text.byteLength text.toList⟩ offset =
      true := by
    simp [Span.contains, hle, hlt]
  rw [Link.originalOffset?, if_pos hin]
  simp only [Link.isVerbatim, beq_iff_eq]
  rw [Span.length, Nat.add_sub_cancel_left]

end

end Splice

end ComponentBuild
