import ComponentBuild.Host.Pool
import ComponentBuild.Proofs.Json.Compact
import ComponentBuild.Proofs.Transcript

namespace ComponentBuild

/-- The bytes of a text. -/
def Text.utf8 (s : String) : List UInt8 := s.toUTF8.data.toList

theorem Text.utf8_eq (s : String) : utf8 s = s.toList.flatMap String.utf8EncodeChar := by
  have hencode : s.toUTF8 = s.toList.utf8Encode := String.utf8Encode_toList.symm
  rw [utf8, hencode, List.utf8Encode, List.data_toByteArray]

theorem Text.utf8_injective : Function.Injective utf8 := by
  intro s t h
  exact String.toByteArray_inj.1 (ByteArray.ext (Array.toList_inj.1 h))

theorem Text.utf8_append (s t : String) : utf8 (s ++ t) = utf8 s ++ utf8 t := by
  rw [utf8_eq, utf8_eq, utf8_eq, String.toList_append, List.flatMap_append]

/-- Only control characters have bytes as small as they are. -/
theorem Text.le_utf8EncodeChar {c : Char} (h : 0x20 ≤ c.val) :
    ∀ b ∈ String.utf8EncodeChar c, 0x20 ≤ b := by
  have hc : 32 ≤ c.val.toNat := UInt32.le_iff_toNat_le.1 h
  have hbyte (n : Nat) (hlow : 32 ≤ n) (hhigh : n < 256) : (0x20 : UInt8) ≤ UInt8.ofNat n := by
    rw [UInt8.le_iff_toNat_le, UInt8.toNat_ofNat', Nat.mod_eq_of_lt hhigh]
    exact hlow
  unfold String.utf8EncodeChar
  dsimp only
  split_ifs
  · exact List.forall_mem_singleton.2 (hbyte _ hc (by omega))
  · simp only [List.forall_mem_cons]
    exact ⟨hbyte _ (by omega) (by omega), hbyte _ (by omega) (by omega), List.forall_mem_nil _⟩
  · simp only [List.forall_mem_cons]
    exact ⟨hbyte _ (by omega) (by omega), hbyte _ (by omega) (by omega),
      hbyte _ (by omega) (by omega), List.forall_mem_nil _⟩
  · simp only [List.forall_mem_cons]
    exact ⟨hbyte _ (by omega) (by omega), hbyte _ (by omega) (by omega),
      hbyte _ (by omega) (by omega), hbyte _ (by omega) (by omega), List.forall_mem_nil _⟩

theorem ScriptLanguage.name_injective : Function.Injective name := by
  rintro ⟨⟩ ⟨⟩ h <;> first | rfl | exact absurd h (by decide)

theorem StyleLanguage.name_injective : Function.Injective name := by
  rintro ⟨⟩ ⟨⟩ h <;> first | rfl | exact absurd h (by decide)

theorem Target.name_injective : Function.Injective name := by
  rintro ⟨⟩ ⟨⟩ h <;> first | rfl | exact absurd h (by decide)

theorem SectionLanguage.toJson_injective : Function.Injective toJson := by
  intro l l' h
  simp only [toJson, Json.object.injEq, List.cons.injEq, Prod.mk.injEq, Json.string.injEq, true_and,
    and_true] at h
  obtain ⟨hkind, hname⟩ := h
  cases l with
  | script l =>
    cases l' with
    | script l' => rw [ScriptLanguage.name_injective hname]
    | style l' => exact absurd hkind (by simp [kindName])
  | style l =>
    cases l' with
    | script l' => exact absurd hkind (by simp [kindName])
    | style l' => rw [StyleLanguage.name_injective hname]

theorem CompileOptions.toJson_injective : Function.Injective toJson := by
  rintro ⟨target, name, filename, dev, hydratable, css⟩ o' h
  simp only [toJson, Json.object.injEq, List.cons.injEq, Prod.mk.injEq, Json.string.injEq,
    Json.bool.injEq, true_and, and_true] at h
  obtain ⟨htarget, rfl, rfl, rfl, rfl, rfl⟩ := h
  rw [Target.name_injective htarget]

theorem CompileOptions.toJson_fits (o : CompileOptions) : Json.FitsDepth 126 o.toJson :=
  ⟨by decide, trivial, trivial, trivial, trivial, trivial, trivial, trivial⟩

namespace Request

theorem attributes_injective :
    Function.Injective fun attributes : List (String × String) =>
      attributes.map fun (name, value) => (name, Json.string value) := by
  refine List.map_injective_iff.2 fun a b h => ?_
  obtain ⟨hname, hvalue⟩ := Prod.mk.inj h
  exact Prod.ext hname (Json.string.inj hvalue)

theorem fields_injective {r r' : Request} (hoperation : r.operation = r'.operation)
    (h : r.fields = r'.fields) : r = r' := by
  cases r with
  | preprocess language content attributes filename =>
    cases r' with
    | preprocess language' content' attributes' filename' =>
      simp only [fields, List.cons.injEq, Prod.mk.injEq, Json.object.injEq, Json.string.injEq,
        true_and, and_true] at h
      obtain ⟨hlanguage, rfl, hattributes, rfl⟩ := h
      rw [SectionLanguage.toJson_injective hlanguage, attributes_injective hattributes]
    | compile | instrument | transpile => exact absurd hoperation (by simp [operation])
  | compile code options =>
    cases r' with
    | compile code' options' =>
      simp only [fields, List.cons.injEq, Prod.mk.injEq, Json.string.injEq, true_and, and_true] at h
      obtain ⟨rfl, hoptions⟩ := h
      rw [CompileOptions.toJson_injective hoptions]
    | preprocess | instrument | transpile => exact absurd hoperation (by simp [operation])
  | instrument code source options =>
    cases r' with
    | instrument code' source' options' =>
      simp only [fields, List.cons.injEq, Prod.mk.injEq, Json.string.injEq, true_and, and_true] at h
      obtain ⟨rfl, rfl, hoptions⟩ := h
      rw [CompileOptions.toJson_injective hoptions]
    | preprocess | compile | transpile => exact absurd hoperation (by simp [operation])
  | transpile code filename =>
    cases r' with
    | transpile code' filename' =>
      simp only [fields, List.cons.injEq, Prod.mk.injEq, Json.string.injEq, true_and, and_true] at h
      obtain ⟨rfl, rfl⟩ := h
      rfl
    | preprocess | compile | instrument => exact absurd hoperation (by simp [operation])

/-- A message says its number and its request. -/
theorem message_injective {id id' : Nat} {r r' : Request} (h : r.message id = r'.message id') :
    id = id' ∧ r = r' := by
  simp only [message, Json.object.injEq, List.cons.injEq, Prod.mk.injEq, Json.string.injEq,
    true_and] at h
  obtain ⟨hid, hoperation, hfields⟩ := h
  exact ⟨Json.Number.natural.inj (Json.number.inj hid), fields_injective hoperation hfields⟩

theorem fields_fit (r : Request) : Json.FieldsFitDepth 126 r.fields := by
  cases r with
  | preprocess language content attributes filename =>
    refine ⟨⟨by decide, trivial, trivial, trivial⟩, trivial, ⟨by decide, ?_⟩, trivial, trivial⟩
    rw [Json.fieldsFitDepth_iff]
    intro f hf
    obtain ⟨a, -, rfl⟩ := List.mem_map.1 hf
    trivial
  | compile code options => exact ⟨trivial, options.toJson_fits, trivial⟩
  | instrument code source options => exact ⟨trivial, trivial, options.toJson_fits, trivial⟩
  | transpile code filename => exact ⟨trivial, trivial, trivial⟩

theorem message_fits (id : Nat) (r : Request) : Json.FitsDepth 127 (r.message id) :=
  ⟨by decide, trivial, trivial, r.fields_fit⟩

end Request

/-- Lines that hold no separator come apart again at the separators behind them. -/
theorem splitOnP_lines {α : Type} {p : α → Bool} {separator : α} (hseparator : p separator = true)
    {lines : List (List α)} (hlines : ∀ line ∈ lines, ∀ a ∈ line, p a = false) :
    (lines.flatMap (· ++ [separator])).splitOnP p = lines ++ [[]] := by
  induction lines with
  | nil => rfl
  | cons line lines ih =>
    obtain ⟨hline, hlines⟩ := List.forall_mem_cons.1 hlines
    rw [List.flatMap_cons, List.append_assoc, List.singleton_append,
      List.splitOnP_append_cons _ _ hseparator, ih hlines, List.splitOnP_eq_singleton hline]
    rfl

/-- A byte that ends a line: a line feed or a carriage return. -/
def Text.endsLine (b : UInt8) : Bool := b == 10 || b == 13

namespace Worker

variable (w : Worker) (r : Request)

/-- The bytes of the line for a request. -/
def lineBytes : List UInt8 := Text.utf8 (w.requestLine r)

/-- What a process is sent for a request: the line and its end. -/
def written : List UInt8 := Text.utf8 (w.requestLine r ++ "\n")

theorem written_eq : w.written r = w.lineBytes r ++ [10] := Text.utf8_append _ _

theorem tight_requestLine : Json.Tight (w.requestLine r).toList := by
  rw [requestLine, Json.render, String.toList_ofList]
  exact Json.tight_write (r.message_fits w.next)

theorem parse?_requestLine :
    Json.parse? (w.requestLine r).toList = some (r.message w.next) :=
  Json.parse?_render (r.message_fits w.next)

theorem le_lineBytes : ∀ b ∈ w.lineBytes r, 0x20 ≤ b := by
  intro b hb
  rw [lineBytes, Text.utf8_eq] at hb
  obtain ⟨c, hc, hb⟩ := List.mem_flatMap.1 hb
  exact Text.le_utf8EncodeChar ((w.tight_requestLine r).printed c hc) b hb

theorem endsLine_lineBytes : ∀ b ∈ w.lineBytes r, Text.endsLine b = false := by
  intro b hb
  have hle := UInt8.le_iff_toNat_le.1 (w.le_lineBytes r b hb)
  rw [Text.endsLine, Bool.or_eq_false_iff, beq_eq_false_iff_ne, beq_eq_false_iff_ne]
  constructor
  · rintro rfl
    exact absurd hle (by decide)
  · rintro rfl
    exact absurd hle (by decide)

/-- What is written for a request, and what it is read as. -/
structure WritesLine : Prop where
  /-- Nothing in front of the line feed at the end is a control character that has to be escaped. -/
  bytes : ∃ line, w.written r = line ++ [10] ∧ ∀ b ∈ line, 0x20 ≤ b
  /-- Those that need not be stand as they do in the texts of the request. -/
  controls : (w.requestLine r).toList.filter Json.isPlainControl =
    (r.message w.next).texts.filter Json.isPlainControl
  compact : ∀ c ∈ Json.outside false (w.requestLine r).toList, Json.isBlank c = false
  parse? : Json.parse? (w.requestLine r).toList =
    some (.object (("id", .nat w.next) :: ("op", .string r.operation) :: r.fields))

theorem writesLine : w.WritesLine r where
  bytes := ⟨w.lineBytes r, w.written_eq r, w.le_lineBytes r⟩
  controls := by
    rw [requestLine, Json.render, String.toList_ofList]
    exact Json.filter_write (r.message_fits w.next)
  compact := by
    obtain ⟨kept, hkept, hread⟩ := (w.tight_requestLine r).outside
    have houtside := hread []
    rw [List.append_nil, Json.outside, List.append_nil] at houtside
    rw [houtside]
    exact hkept
  parse? := w.parse?_requestLine r

variable {w r} {w' : Worker} {r' : Request}

theorem requestLine_injective (h : w.requestLine r = w'.requestLine r') :
    w.next = w'.next ∧ r = r' := by
  have hparse := w.parse?_requestLine r
  rw [h, w'.parse?_requestLine r'] at hparse
  obtain ⟨hid, hr⟩ := Request.message_injective (Option.some.inj hparse)
  exact ⟨hid.symm, hr.symm⟩

theorem written_injective (h : w.written r = w'.written r') : w.next = w'.next ∧ r = r' := by
  rw [written_eq, written_eq] at h
  exact requestLine_injective (Text.utf8_injective (List.append_cancel_right h))

/-- An exchange sends one line and then waits for the reply. -/
theorem exchange_sends {log : List (Exchange CallStep CallStep.Answer)}
    {x : Except HostError Reply} (h : (Call.exchange w r).run.Transcript log x) :
    ∃ answer back, log = ⟨.host (.send w.process (w.requestLine r)), answer⟩ :: back ∧
      ∀ e ∈ back, e.question = .host (.receive w.process) := by
  cases h with
  | @ask _ _ answer back _ hback =>
    refine ⟨answer, back, rfl, ?_⟩
    match answer, hback with
    | .error cause, hback =>
      obtain ⟨rfl, -⟩ := Dialogue.transcript_done.1 hback
      exact List.forall_mem_nil _
    | .ok (), hback =>
      cases hback with
      | ask hend =>
        obtain ⟨rfl, -⟩ := Dialogue.transcript_done.1 hend
        exact List.forall_mem_singleton.2 rfl

end Worker

/-- Each request is sent as one compact line, which ends with its only line feed and holds no
control character of those that have to be escaped, while the others stand as they are. The line is
read as an object of the request's number, its operation and its own fields, in this order; other
requests or numbers have other lines; and lines sent one behind the other are cut at the ends of
lines into just these lines. This is all that is sent in an exchange. -/
theorem requests_in_lines :
    (∀ (w : Worker) (r : Request), w.WritesLine r) ∧
    (∀ (w w' : Worker) (r r' : Request),
      w.written r = w'.written r' → w.next = w'.next ∧ r = r') ∧
    (∀ sent : List (Worker × Request),
      (sent.flatMap fun (w, r) => w.written r).splitOnP Text.endsLine =
        (sent.map fun (w, r) => w.lineBytes r) ++ [[]]) ∧
    ∀ (w : Worker) (r : Request) (log : List (Exchange CallStep CallStep.Answer))
      (x : Except HostError Reply), (Call.exchange w r).run.Transcript log x →
        ∃ answer back, log = ⟨.host (.send w.process (w.requestLine r)), answer⟩ :: back ∧
          ∀ e ∈ back, e.question = .host (.receive w.process) := by
  refine ⟨Worker.writesLine, fun _ _ _ _ => Worker.written_injective, fun sent => ?_,
    fun _ _ _ _ => Worker.exchange_sends⟩
  have hlines : ∀ line ∈ sent.map fun (w, r) => w.lineBytes r, ∀ b ∈ line,
      Text.endsLine b = false := by
    intro line hline
    obtain ⟨⟨w, r⟩, -, rfl⟩ := List.mem_map.1 hline
    exact w.endsLine_lineBytes r
  rw [← splitOnP_lines (by decide : Text.endsLine 10 = true) hlines, List.flatMap_map]
  simp only [Worker.written_eq]

/-- Two requests that differ in a blank, the second one behind the first. -/
theorem requests_in_lines_of_two :
    let first : Worker := ⟨⟨0⟩, 1⟩
    let second : Worker := ⟨⟨0⟩, 2⟩
    first.requestLine (.transpile "a\n" "A") =
        "\x7b\"id\":1,\"op\":\"transpile\",\"code\":\"a\\n\",\"filename\":\"A\"\x7d" ∧
      first.WritesLine (.transpile "a\n" "A") ∧
      first.written (.transpile "a\n" "A") ≠ first.written (.transpile "a\r" "A") ∧
      (first.written (.transpile "a\n" "A") ++ second.written (.transpile "a\r" "A")).splitOnP
          Text.endsLine =
        [first.lineBytes (.transpile "a\n" "A"), second.lineBytes (.transpile "a\r" "A"), []] ∧
      ∃ log x, (Call.exchange first (.transpile "a\n" "A")).run.Transcript log x ∧
        ∃ answer back, log =
          ⟨.host (.send ⟨0⟩ (first.requestLine (.transpile "a\n" "A"))), answer⟩ :: back := by
  intro first second
  obtain ⟨hwrites, hinjective, hsent, hexchange⟩ := requests_in_lines
  refine ⟨by decide +kernel, hwrites _ _, fun h => ?_, ?_, ?_⟩
  · exact absurd (hinjective _ _ _ _ h).2 (by decide)
  · have hcut := hsent [(first, .transpile "a\n" "A"), (second, .transpile "a\r" "A")]
    rwa [List.flatMap_cons, List.flatMap_singleton] at hcut
  · have hlog : (Call.exchange first (.transpile "a\n" "A")).run.Transcript
        [⟨.host (.send ⟨0⟩ (first.requestLine (.transpile "a\n" "A"))),
          (.error "closed" : Except String Unit)⟩]
        (.error (.protocol "failed to write to bun stdin: closed")) := .ask (.done _)
    obtain ⟨a, back, h, -⟩ := hexchange _ _ _ _ hlog
    exact ⟨_, _, hlog, a, back, h⟩

/-- The control character behind the last letter is not escaped. -/
theorem requests_in_lines_delete :
    Worker.requestLine ⟨⟨0⟩, 1⟩ (.transpile "\x7f" "A") =
        "\x7b\"id\":1,\"op\":\"transpile\",\"code\":\"\x7f\",\"filename\":\"A\"\x7d" ∧
      0x7f ∈ Worker.written ⟨⟨0⟩, 1⟩ (.transpile "\x7f" "A") := by
  decide +kernel

end ComponentBuild
