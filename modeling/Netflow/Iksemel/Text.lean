import Netflow.Iksemel.Stream

set_option autoImplicit false

/-! # What is written is read back

The text of an element, with attribute values in apostrophes, and the stream parser on it: an element
whose names, values and texts have no character with a meaning in XML is reported as it is.
-/

namespace Netflow

/-! ## Texts -/

/-- An ASCII character without a meaning in values and between tags. -/
def plainByte (c : Byte) : Bool :=
  c ≠ 0 && c < 0x80 && c ≠ ascii '<' && c ≠ ascii '>' && c ≠ ascii '&' && c ≠ ascii '\'' &&
    c ≠ ascii '"'

/-- A character of a name. -/
def nameByte (c : Byte) : Bool :=
  plainByte c && !isWhitespace c && c ≠ ascii '/' && c ≠ ascii '=' && c ≠ ascii '?' && c ≠ ascii '!'

/-- A text whose characters stand for themselves. -/
def CStr.Plain (s : CStr) : Prop := ∀ c ∈ s.chars, plainByte c = true

structure CStr.Name (s : CStr) : Prop where
  ne_nil : s.chars ≠ []
  bytes : ∀ c ∈ s.chars, nameByte c = true

instance (s : CStr) : Decidable s.Plain := List.decidableBAll ..

instance (s : CStr) : Decidable s.Name :=
  haveI : Decidable (∀ c ∈ s.chars, nameByte c = true) := List.decidableBAll ..
  decidable_of_iff (s.chars ≠ [] ∧ ∀ c ∈ s.chars, nameByte c = true)
    ⟨fun h => ⟨h.1, h.2⟩, fun h => ⟨h.1, h.2⟩⟩

/-- An attribute in a start tag. -/
def attribText (att : CStr × CStr) : List Byte :=
  ascii ' ' :: att.1.chars ++ ascii '=' :: ascii '\'' :: att.2.chars ++ [ascii '\'']

namespace Iks

mutual

/-- The text of an element. -/
def text : Iks → List Byte
  | .tag name attribs children =>
      ascii '<' :: name.chars ++ attribs.flatMap attribText ++ ascii '>' :: texts children ++
        ascii '<' :: ascii '/' :: name.chars ++ [ascii '>']
  | .cdata text => text.chars

def texts : List Iks → List Byte
  | [] => []
  | x :: rest => x.text ++ texts rest

end

/-- No text follows another one. -/
def Apart : Iks → List Iks → Prop
  | .cdata _, .cdata _ :: _ => False
  | _, _ => True

mutual

/-- An element whose text says all about it. The array of the attributes has room for the mark of its
end as long as there are fewer than 12. -/
def Plain : Iks → Prop
  | .tag name attribs children =>
      name.Name ∧ attribs.length < 12 ∧ (attribs.map Prod.fst).Nodup ∧
        (∀ att ∈ attribs, att.1.Name ∧ att.2.Plain) ∧ AllPlain children
  | .cdata text => text.chars ≠ [] ∧ text.Plain

def AllPlain : List Iks → Prop
  | [] => True
  | x :: rest => x.Plain ∧ x.Apart rest ∧ AllPlain rest

end

end Iks

/-! ## Characters -/

/-- What holds of 256 bytes holds of all. -/
theorem forall_byte {P : Byte → Prop} (h : ∀ n : Fin 256, P (UInt8.ofNat n)) (c : Byte) : P c := by
  have hc := h ⟨c.toNat, c.toNat_lt⟩
  rw [UInt8.ofNat_toNat] at hc
  exact hc

theorem ascii_of_plainByte {c : Byte} (h : plainByte c = true) :
    ¬(c = 0 ∨ c = 0xFE ∨ c = 0xFF) ∧ c &&& 0x80 = 0 :=
  forall_byte (P := fun c => plainByte c = true → ¬(c = 0 ∨ c = 0xFE ∨ c = 0xFF) ∧ c &&& 0x80 = 0)
    (by decide +kernel) c h

/-- A plain character is none with a meaning. -/
theorem ne_of_plainByte {c d : Byte} (h : plainByte c = true) (hd : plainByte d = false) : c ≠ d := by
  rintro rfl
  rw [hd] at h
  cases h

theorem ne_of_nameByte {c d : Byte} (h : nameByte c = true) (hd : nameByte d = false) : c ≠ d := by
  rintro rfl
  rw [hd] at h
  cases h

theorem plainByte_of_nameByte {c : Byte} (h : nameByte c = true) :
    plainByte c = true ∧ isWhitespace c = false := by
  simp only [nameByte, Bool.and_eq_true, Bool.not_eq_true'] at h
  exact ⟨h.1.1.1.1.1, h.1.1.1.1.2⟩

/-- Attributes of different names are all kept. -/
theorem insert_attribs_eq {atts : List (CStr × CStr)} (h : (atts.map Prod.fst).Nodup) :
    insert_attribs atts = atts := by
  have hnew : ∀ (l : List (CStr × CStr)) (k v : CStr), k ∉ l.map Prod.fst →
      iks_insert_attrib k v l = l ++ [(k, v)] := by
    intro l k v hk
    induction l with
    | nil => rfl
    | cons y rest ih =>
        rw [List.map_cons, List.mem_cons, not_or] at hk
        rw [iks_insert_attrib, if_neg hk.1, ih hk.2]
        rfl
  have hall : ∀ (l done : List (CStr × CStr)), ((done ++ l).map Prod.fst).Nodup →
      l.foldl (fun attribs att => iks_insert_attrib att.1 att.2 attribs) done = done ++ l := by
    intro l
    induction l with
    | nil => intro done _; exact (List.append_nil done).symm
    | cons att rest ih =>
        intro done hdone
        have hfresh : att.1 ∉ done.map Prod.fst := by
          rw [List.map_append, List.nodup_append] at hdone
          exact fun hmem => hdone.2.2 att.1 hmem att.1 (by simp) rfl
        rw [List.foldl_cons, hnew done att.1 att.2 hfresh, ih _ (by simpa using hdone),
          List.append_assoc]
        rfl
  exact hall atts [] h

/-- A start tag that opens no stream opens an element. -/
theorem StreamData.tagHook_open {data : StreamData} {name : CStr} {attribs : List (CStr × CStr)}
    (hnodup : (attribs.map Prod.fst).Nodup)
    (hopen : data.current ≠ [] ∨ name ≠ CStr.lit "stream:stream") :
    data.tagHook name attribs .IKS_OPEN =
      { data with current := ⟨name, attribs, []⟩ :: data.current } := by
  have hneg : ¬(data.current = [] ∧ name = CStr.lit "stream:stream") := by
    rintro ⟨hnil, hstream⟩
    exact hopen.elim (fun h => h hnil) (fun h => h hstream)
  show data.openTag name attribs false = _
  rw [openTag, if_neg hneg, insert_attribs_eq hnodup]
  rfl

namespace IksParser

section Hooks

variable {σ : Type} [IksHooks σ] {p : IksParser σ}

/-- An ASCII character goes to its context. -/
theorem step_ascii {c : Byte} (hc : ¬(c = 0 ∨ c = 0xFE ∨ c = 0xFF) ∧ c &&& 0x80 = 0)
    (hu : p.uni_max = 0) : p.step c = p.onContext c := by
  rw [step, if_neg hc.1, if_neg (not_not.mpr hu), if_neg (not_not.mpr hc.2)]

/-- A character of a name in `C_TAG`. -/
theorem step_name {c : Byte} (hc : nameByte c = true) (hctx : p.context = .C_TAG)
    (hu : p.uni_max = 0) : p.step c = some (p.collect c) := by
  obtain ⟨hplain, hspace⟩ := plainByte_of_nameByte hc
  rw [step_ascii (ascii_of_plainByte hplain) hu, show p.onContext c = p.tag c by rw [onContext, hctx],
    tag, hspace, if_neg (by decide), if_neg (ne_of_nameByte hc (by decide)),
    if_neg (ne_of_nameByte hc (by decide))]

/-- The parser is inside no character of a name or a value. -/
def Whole (p : IksParser σ) : Prop := p.uni_max = 0 ∨ p.context.collects = false

/-- The bytes lead the parser from one state to another. In front of none of them it is inside a
character of a name or a value, where the text could not be cut. -/
inductive Reads : IksParser σ → List Byte → IksParser σ → Prop where
  | nil {p : IksParser σ} : Reads p [] p
  | cons {p q r : IksParser σ} {c : Byte} {l : List Byte} : p.Whole → p.step c = some q →
      Reads q l r → Reads p (c :: l) r

variable {q r : IksParser σ}

theorem Reads.trans {a b : List Byte} (h₁ : Reads p a q) (h₂ : Reads q b r) : Reads p (a ++ b) r := by
  induction h₁ with
  | nil => exact h₂
  | cons hwhole hstep _ ih => exact .cons hwhole hstep (ih h₂)

theorem Reads.single {c : Byte} (huni : p.uni_max = 0) (h : p.step c = some q) : Reads p [c] q :=
  .cons (Or.inl huni) h .nil

theorem Reads.step {c : Byte} (h : Reads p [c] q) : p.step c = some q := by
  obtain _ | ⟨-, hstep, hnil⟩ := h
  cases hnil
  exact hstep

theorem Reads.foldlM {l : List Byte} (h : Reads p l q) : l.foldlM IksParser.step p = some q := by
  induction h with
  | nil => rfl
  | cons _ hstep _ ih =>
      rw [List.foldlM_cons, hstep]
      exact ih

theorem Reads.split {a b : List Byte} (h : Reads p (a ++ b) q) : ∃ r, Reads p a r ∧ Reads r b q := by
  induction a generalizing p with
  | nil => exact ⟨p, .nil, h⟩
  | cons c a ih =>
      obtain _ | ⟨hwhole, hstep, hrest⟩ := h
      obtain ⟨r, hr, hend⟩ := ih hrest
      exact ⟨r, .cons hwhole hstep hr, hend⟩

theorem Reads.whole {l : List Byte} (h : Reads p l q) (hq : q.Whole) : p.Whole := by
  cases h with
  | nil => exact hq
  | cons hwhole _ _ => exact hwhole

/-- **A run** of characters that are collected one by one. -/
theorem reads_run {l : List Byte} {Q : List Byte → IksParser σ → Prop}
    (hstep : ∀ c ∈ l, ∀ t p, Q t p → p.Whole ∧ ∃ q, p.step c = some q ∧ Q (t ++ [c]) q)
    {t : List Byte} (hp : Q t p) : ∃ q, Reads p l q ∧ Q (t ++ l) q := by
  induction l generalizing t p with
  | nil =>
      rw [List.append_nil]
      exact ⟨p, .nil, hp⟩
  | cons c rest ih =>
      obtain ⟨hwhole, q, hq, hin⟩ := hstep c List.mem_cons_self t p hp
      obtain ⟨r, hr, hend⟩ := ih (fun d hd => hstep d (List.mem_cons_of_mem c hd)) hin
      rw [List.append_assoc] at hend
      exact ⟨r, .cons hwhole hq hr, hend⟩

end Hooks

variable {p q r : IksParser StreamData}

/-! ## Between tags -/

/-- The data once the text read so far is handed over. -/
def flushed (p : IksParser StreamData) : StreamData :=
  if p.cdata = [] then p.user_data else p.user_data.cdataHook p.cdata

theorem flush_eq (p : IksParser StreamData) :
    p.flush = some { p with user_data := p.flushed, cdata := [] } := by
  rw [flush, flushed]
  split
  · next h =>
      obtain ⟨⟩ := p
      cases h
      rfl
  · rfl

/-- The parser is between two tags and has read what leads to the data. -/
structure InContent (p : IksParser StreamData) (data : StreamData) : Prop where
  context : p.context = .C_CDATA
  uni_max : p.uni_max = 0
  atts : p.atts = []
  attmax : p.attmax = 0 ∨ 12 ≤ p.attmax
  cdata : p.cdata = []
  user_data : p.user_data = data

theorem InContent.unmark {data : StreamData} (h : p.InContent data) : p.unmark.InContent data :=
  ⟨h.context, h.uni_max, h.atts, h.attmax, h.cdata, h.user_data⟩

/-- As `InContent`, with a text behind it that is not handed over yet. -/
structure InText (p : IksParser StreamData) (data : StreamData) : Prop where
  context : p.context = .C_CDATA
  uni_max : p.uni_max = 0
  atts : p.atts = []
  attmax : p.attmax = 0 ∨ 12 ≤ p.attmax
  flushed : p.flushed = data

theorem InContent.inText {data : StreamData} (h : p.InContent data) : p.InText data where
  context := h.context
  uni_max := h.uni_max
  atts := h.atts
  attmax := h.attmax
  flushed := by rw [IksParser.flushed, if_pos h.cdata, h.user_data]

theorem step_cdata {c : Byte} (hc : plainByte c = true) (hctx : p.context = .C_CDATA)
    (hu : p.uni_max = 0) : p.step c = some { p with cdata := p.cdata ++ [c] } := by
  rw [step_ascii (ascii_of_plainByte hc) hu, onContext, hctx]
  show (if c = ascii '&' then _ else if c = ascii '<' then _ else _) = _
  rw [if_neg (ne_of_plainByte hc (by decide)), if_neg (ne_of_plainByte hc (by decide))]

/-- Plain characters are collected. -/
theorem reads_plain {l : List Byte} (hl : ∀ c ∈ l, plainByte c = true) (hctx : p.context = .C_CDATA)
    (hu : p.uni_max = 0) : p.Reads l { p with cdata := p.cdata ++ l } := by
  obtain ⟨q, hr, rfl⟩ := reads_run (p := p) (Q := fun t r => r = { p with cdata := t })
    (fun c hc t r hr => by
      subst hr
      exact ⟨Or.inl hu, _, step_cdata (hl c hc) hctx hu, rfl⟩) rfl
  exact hr

/-- **A text** that follows no other one. -/
theorem InContent.reads_text {data : StreamData} {l : List Byte} (h : p.InContent data)
    (hl : ∀ c ∈ l, plainByte c = true) (hne : l ≠ []) :
    ∃ q, p.Reads l q ∧ q.InText (data.cdataHook l) := by
  refine ⟨_, reads_plain hl h.context h.uni_max, h.context, h.uni_max, h.atts, h.attmax, ?_⟩
  show (if p.cdata ++ l = [] then p.user_data else p.user_data.cdataHook (p.cdata ++ l)) = _
  rw [h.cdata, List.nil_append, if_neg hne, h.user_data]

/-! ## Tags -/

/-- The parser is at the first character of a tag. -/
structure AtTag (p : IksParser StreamData) (data : StreamData) : Prop where
  context : p.context = .C_TAG_START
  uni_max : p.uni_max = 0
  atts : p.atts = []
  attmax : p.attmax = 0 ∨ 12 ≤ p.attmax
  user_data : p.user_data = data

theorem InText.reads_open {data : StreamData} (h : p.InText data) :
    ∃ q, p.Reads [ascii '<'] q ∧ q.AtTag data := by
  refine ⟨{ p with user_data := p.flushed, cdata := [], context := .C_TAG_START },
    Reads.single h.uni_max ?_, rfl, h.uni_max, h.atts, h.attmax, h.flushed⟩
  rw [step_ascii (by decide) h.uni_max, onContext, h.context]
  show (if ascii '<' = ascii '&' then _ else _) = _
  rw [if_neg (by decide), if_pos rfl, flush_eq]
  rfl

/-- The parser has read the beginning of the name of a tag. -/
structure InName (p : IksParser StreamData) (type : IksTagType) (text : List Byte)
    (data : StreamData) : Prop where
  context : p.context = .C_TAG
  uni_max : p.uni_max = 0
  atts : p.atts = []
  attmax : p.attmax = 0 ∨ 12 ≤ p.attmax
  tagtype : p.tagtype = type
  text : p.text = text
  user_data : p.user_data = data

theorem InName.reads_name {data : StreamData} {type : IksTagType} {text l : List Byte}
    (h : p.InName type text data) (hl : ∀ c ∈ l, nameByte c = true) :
    ∃ q, p.Reads l q ∧ q.InName type (text ++ l) data := by
  refine reads_run (Q := fun t p => p.InName type t data) (fun c hc t p hp => ?_) h
  exact ⟨Or.inl hp.uni_max, p.collect c, step_name (hl c hc) hp.context hp.uni_max, hp.context,
    hp.uni_max, hp.atts, hp.attmax, hp.tagtype, congrArg (· ++ [c]) hp.text, hp.user_data⟩

/-- The first character of a start tag is the first of its name. -/
theorem AtTag.reads_name {data : StreamData} {name : CStr} (h : p.AtTag data) (hname : name.Name) :
    ∃ q, p.Reads name.chars q ∧ q.InName .IKS_OPEN name.chars data := by
  obtain ⟨c, rest, hchars⟩ := List.exists_cons_of_ne_nil hname.ne_nil
  have hbytes := hname.bytes
  rw [hchars] at hbytes ⊢
  have hc := hbytes c List.mem_cons_self
  have hstep : p.step c = some { p with
      context := .C_TAG, tagtype := .IKS_OPEN, text := [c], stack_old := true } := by
    rw [step_ascii (ascii_of_plainByte (plainByte_of_nameByte hc).1) h.uni_max, onContext, h.context]
    show some (p.tagStart c) = _
    rw [tagStart, if_neg (ne_of_nameByte hc (by decide)), if_neg (ne_of_nameByte hc (by decide)),
      if_neg (ne_of_nameByte hc (by decide))]
  have hin : InName { p with
      context := .C_TAG, tagtype := .IKS_OPEN, text := [c], stack_old := true } .IKS_OPEN [c] data :=
    ⟨rfl, h.uni_max, h.atts, h.attmax, rfl, rfl, h.user_data⟩
  obtain ⟨q, hread, hq⟩ := hin.reads_name fun d hd => hbytes d (List.mem_cons_of_mem c hd)
  exact ⟨q, Reads.cons (Or.inl h.uni_max) hstep hread, hq⟩

/-- The slash of an end tag. -/
theorem AtTag.reads_close {data : StreamData} (h : p.AtTag data) :
    ∃ q, p.Reads [ascii '/'] q ∧ q.InName .IKS_CLOSE [] data := by
  refine ⟨{ p with context := .C_TAG, tagtype := .IKS_CLOSE, text := [] }, Reads.single h.uni_max ?_,
    rfl, h.uni_max, h.atts, h.attmax, rfl, rfl, h.user_data⟩
  rw [step_ascii (by decide) h.uni_max, onContext, h.context]
  rfl

/-- The end of a tag calls the hook. -/
theorem tagEnd_eq (p : IksParser StreamData) : p.tagEnd (ascii '>') = some { p with
    user_data := p.user_data.tagHook (CStr.ofChars p.tag_name) p.atts p.tagtype, atts := [],
    stack_old := false, context := .C_CDATA, cdata := [] } := by
  rw [tagEnd, if_neg (by decide)]
  rfl

/-- The end of a tag without attributes. -/
theorem InName.reads_end {data : StreamData} {type : IksTagType} {name : CStr}
    (h : p.InName type name.chars data) :
    ∃ q, p.Reads [ascii '>'] q ∧ q.InContent (data.tagHook name [] type) := by
  refine ⟨{ p with
    user_data := data.tagHook name [] type, atts := [], stack_old := false, context := .C_CDATA,
    cdata := [], tag_name := p.text }, Reads.single h.uni_max ?_, rfl, h.uni_max, rfl, h.attmax, rfl,
    rfl⟩
  rw [step_ascii (by decide) h.uni_max, onContext, h.context]
  show p.tag (ascii '>') = _
  rw [tag, if_neg (by decide), if_neg (by decide), if_pos rfl, tagEnd_eq]
  show some { p with
    user_data := p.user_data.tagHook (CStr.ofChars p.text) p.atts p.tagtype, atts := [],
    stack_old := false, context := .C_CDATA, cdata := [], tag_name := p.text } = _
  rw [h.text, h.atts, h.tagtype, h.user_data, CStr.ofChars_chars]

/-! ## Attributes -/

/-- The parser has read the name of a start tag and some of its attributes. -/
structure InAttribs (p : IksParser StreamData) (name : List Byte) (done : List (CStr × CStr))
    (data : StreamData) : Prop where
  context : p.context = .C_WHITESPACE
  oldcontext : p.oldcontext = .C_ATTRIBUTE ∨ p.oldcontext = .C_ATTRIBUTE_2 ∧ 12 ≤ p.attmax
  uni_max : p.uni_max = 0
  atts : p.atts = done
  few : done.length < 12
  attmax : p.attmax = 0 ∨ 12 ≤ p.attmax
  tagtype : p.tagtype = .IKS_OPEN
  tag_name : p.tag_name = name
  user_data : p.user_data = data

/-- White space between the name and the attributes or between two of them. -/
theorem InName.reads_space {data : StreamData} {name : List Byte} (h : p.InName .IKS_OPEN name data) :
    ∃ q, p.Reads [ascii ' '] q ∧ q.InAttribs name [] data := by
  refine ⟨{ p with
    oldcontext := .C_ATTRIBUTE, context := .C_WHITESPACE, tag_name := p.text, stack_old := false },
    Reads.single h.uni_max ?_, rfl, Or.inl rfl, h.uni_max, h.atts, by decide, h.attmax, h.tagtype,
    h.text, h.user_data⟩
  rw [step_ascii (by decide) h.uni_max, onContext, h.context]
  show p.tag (ascii ' ') = _
  rw [tag, if_pos (by decide), h.tagtype]
  rfl

theorem InAttribs.reads_space {data : StreamData} {name : List Byte} {atts : List (CStr × CStr)}
    (h : p.InAttribs name atts data) : p.Reads [ascii ' '] p := by
  refine Reads.single h.uni_max ?_
  rw [step_ascii (by decide) h.uni_max, onContext, h.context]
  show p.whitespace (ascii ' ') = _
  rw [whitespace, if_pos (by decide)]

theorem whitespace_attribute {c : Byte} (hc : isWhitespace c = false)
    (hold : p.oldcontext = .C_ATTRIBUTE) :
    p.whitespace c = { p with context := .C_ATTRIBUTE }.attribName c := by
  rw [whitespace, hc, if_neg (by decide), hold]

theorem whitespace_attribEnd {c : Byte} (hc : isWhitespace c = false)
    (hold : p.oldcontext = .C_ATTRIBUTE_2) :
    p.whitespace c = { p with context := .C_ATTRIBUTE_2 }.attribEnd c := by
  rw [whitespace, hc, if_neg (by decide), hold]

/-- The size of the array of the attributes once there is room for one more. -/
def roomFor (n attmax : Nat) : Nat :=
  if attmax = 0 then 12 else if attmax ≤ n then attmax + 12 else attmax

/-- The first character of the name of an attribute. -/
theorem InAttribs.step_attrib {data : StreamData} {name : List Byte} {atts : List (CStr × CStr)}
    {c : Byte} (h : p.InAttribs name atts data) (hc : nameByte c = true) :
    p.step c = some { p with
      attmax := roomFor p.atts.length p.attmax, text := [c], stack_old := true
      context := .C_ATTRIBUTE_1 } := by
  obtain ⟨hplain, hspace⟩ := plainByte_of_nameByte hc
  have hslash : c ≠ ascii '/' := ne_of_nameByte hc (by decide)
  have hgt : c ≠ ascii '>' := ne_of_nameByte hc (by decide)
  have hname : ∀ r : IksParser StreamData, r.attribName c = some { r with
      attmax := roomFor r.atts.length r.attmax, text := [c], stack_old := true
      context := .C_ATTRIBUTE_1 } := by
    intro r
    rw [attribName, if_neg hslash, if_neg hgt]
    rfl
  rw [step_ascii (ascii_of_plainByte hplain) h.uni_max,
    show p.onContext c = p.whitespace c by rw [onContext, h.context]]
  obtain hold | ⟨hold, -⟩ := h.oldcontext
  · rw [whitespace_attribute hspace hold]
    exact hname _
  · rw [whitespace_attribEnd hspace hold, attribEnd, if_neg hslash, if_neg hgt]
    exact hname _

/-- A character of the name of an attribute. -/
theorem step_attribName {c : Byte} (hc : nameByte c = true) (hctx : p.context = .C_ATTRIBUTE_1)
    (hu : p.uni_max = 0) : p.step c = some (p.collect c) := by
  rw [step_ascii (ascii_of_plainByte (plainByte_of_nameByte hc).1) hu,
    show p.onContext c = if c = ascii '=' then
      some { p with att := p.text, text := [], stack_old := false, context := .C_VALUE }
      else some (p.collect c) by rw [onContext, hctx],
    if_neg (ne_of_nameByte hc (by decide))]

/-- A character of a value. -/
theorem step_value {c : Byte} (hc : plainByte c = true) (hctx : p.context = .C_VALUE_APOS)
    (hu : p.uni_max = 0) : p.step c = some (p.collect c) := by
  rw [step_ascii (ascii_of_plainByte hc) hu,
    show p.onContext c = some (p.value (ascii '\'') c) by rw [onContext, hctx], value,
    if_neg (ne_of_plainByte hc (by decide))]

/-- The parser has read some attributes and is inside the next one. -/
structure InAttrib (p : IksParser StreamData) (context : IksContext) (name : List Byte)
    (done : List (CStr × CStr)) (att text : List Byte) (data : StreamData) : Prop where
  context : p.context = context
  uni_max : p.uni_max = 0
  atts : p.atts = done
  attmax : 12 ≤ p.attmax
  tagtype : p.tagtype = .IKS_OPEN
  tag_name : p.tag_name = name
  att : p.att = att
  text : p.text = text
  user_data : p.user_data = data

section Attribs

variable {data : StreamData} {name : List Byte} {done : List (CStr × CStr)} {k v : CStr}

/-- The characters of a name or a value are collected. -/
theorem InAttrib.reads_collect {context : IksContext} {att text l : List Byte}
    (h : p.InAttrib context name done att text data)
    (hl : ∀ c ∈ l, ∀ {t : List Byte} {q : IksParser StreamData},
      q.InAttrib context name done att t data → q.step c = some (q.collect c)) :
    ∃ q, p.Reads l q ∧ q.InAttrib context name done att (text ++ l) data := by
  refine reads_run (Q := fun t p => p.InAttrib context name done att t data) (fun c hc t p hp => ?_) h
  exact ⟨Or.inl hp.uni_max, p.collect c, hl c hc hp, hp.context, hp.uni_max, hp.atts, hp.attmax,
    hp.tagtype, hp.tag_name, hp.att, congrArg (· ++ [c]) hp.text, hp.user_data⟩

theorem InAttribs.reads_name (h : p.InAttribs name done data) (hk : k.Name) :
    ∃ q, p.Reads k.chars q ∧ q.InAttrib .C_ATTRIBUTE_1 name done p.att k.chars data := by
  obtain ⟨c, rest, hchars⟩ := List.exists_cons_of_ne_nil hk.ne_nil
  have hbytes := hk.bytes
  rw [hchars] at hbytes ⊢
  have hroom : 12 ≤ roomFor p.atts.length p.attmax := by
    have hattmax := h.attmax
    rw [roomFor]
    split
    · exact Nat.le_refl 12
    · split <;> omega
  obtain ⟨r, hr⟩ : ∃ r, r = { p with
      attmax := roomFor p.atts.length p.attmax, text := [c], stack_old := true
      context := .C_ATTRIBUTE_1 } := ⟨_, rfl⟩
  have hstep : p.step c = some r := hr ▸ h.step_attrib (hbytes c List.mem_cons_self)
  have hin : r.InAttrib .C_ATTRIBUTE_1 name done p.att [c] data := by
    rw [hr]
    exact ⟨rfl, h.uni_max, h.atts, hroom, h.tagtype, h.tag_name, rfl, rfl, h.user_data⟩
  obtain ⟨q, hrun, hq⟩ := hin.reads_collect fun d hd _ _ hd' =>
    step_attribName (hbytes d (List.mem_cons_of_mem c hd)) hd'.context hd'.uni_max
  exact ⟨q, Reads.cons (Or.inl h.uni_max) hstep hrun, hq⟩

theorem InAttrib.reads_equals {att : List Byte}
    (h : p.InAttrib .C_ATTRIBUTE_1 name done att k.chars data) :
    ∃ q, p.Reads [ascii '='] q ∧ q.InAttrib .C_VALUE name done k.chars [] data := by
  refine ⟨{ p with att := p.text, text := [], stack_old := false, context := .C_VALUE },
    Reads.single h.uni_max ?_, rfl, h.uni_max, h.atts, h.attmax, h.tagtype, h.tag_name, h.text, rfl,
    h.user_data⟩
  rw [step_ascii (by decide) h.uni_max, onContext, h.context]
  exact if_pos rfl

theorem InAttrib.reads_quote (h : p.InAttrib .C_VALUE name done k.chars [] data) :
    ∃ q, p.Reads [ascii '\''] q ∧ q.InAttrib .C_VALUE_APOS name done k.chars [] data := by
  refine ⟨{ p with context := .C_VALUE_APOS }, Reads.single h.uni_max ?_, rfl, h.uni_max, h.atts,
    h.attmax, h.tagtype, h.tag_name, h.att, h.text, h.user_data⟩
  rw [step_ascii (by decide) h.uni_max, onContext, h.context]
  exact if_pos rfl

theorem InAttrib.reads_value (h : p.InAttrib .C_VALUE_APOS name done k.chars [] data)
    (hv : v.Plain) :
    ∃ q, p.Reads v.chars q ∧ q.InAttrib .C_VALUE_APOS name done k.chars v.chars data :=
  h.reads_collect fun c hc _ _ hq => step_value (hv c hc) hq.context hq.uni_max

/-- The quote behind a value adds the attribute. -/
theorem InAttrib.reads_unquote (h : p.InAttrib .C_VALUE_APOS name done k.chars v.chars data)
    (hfew : done.length + 1 < 12) :
    ∃ q, p.Reads [ascii '\''] q ∧ q.InAttribs name (done ++ [(k, v)]) data := by
  refine ⟨{ p with
    atts := p.atts ++ [(k, v)], oldcontext := .C_ATTRIBUTE_2, context := .C_WHITESPACE
    stack_old := true }, Reads.single h.uni_max ?_, rfl, Or.inr ⟨rfl, h.attmax⟩, h.uni_max,
    congrArg (· ++ [(k, v)]) h.atts, ?_, Or.inr h.attmax, h.tagtype, h.tag_name, h.user_data⟩
  · rw [step_ascii (by decide) h.uni_max,
      show p.onContext (ascii '\'') = some (p.value (ascii '\'') (ascii '\'')) by
        rw [onContext, h.context], value, if_pos rfl, h.att, h.text, CStr.ofChars_chars,
      CStr.ofChars_chars]
  · rw [List.length_append, List.length_singleton]
    exact hfew

/-- **An attribute**, behind white space. -/
theorem InAttribs.reads_attrib (h : p.InAttribs name done data) (hk : k.Name) (hv : v.Plain)
    (hfew : done.length + 1 < 12) :
    ∃ q, p.Reads (k.chars ++ ascii '=' :: ascii '\'' :: v.chars ++ [ascii '\'']) q ∧
      q.InAttribs name (done ++ [(k, v)]) data := by
  obtain ⟨p₁, hr₁, h₁⟩ := h.reads_name hk
  obtain ⟨p₂, hr₂, h₂⟩ := h₁.reads_equals
  obtain ⟨p₃, hr₃, h₃⟩ := h₂.reads_quote
  obtain ⟨p₄, hr₄, h₄⟩ := h₃.reads_value hv
  obtain ⟨p₅, hr₅, h₅⟩ := h₄.reads_unquote hfew
  have hread := hr₁.trans (hr₂.trans (hr₃.trans (hr₄.trans hr₅)))
  rw [List.append_assoc]
  exact ⟨p₅, hread, h₅⟩

/-- The other attributes of a start tag. -/
theorem InAttribs.reads_attribs {atts : List (CStr × CStr)} (h : p.InAttribs name done data)
    (hatts : ∀ att ∈ atts, att.1.Name ∧ att.2.Plain) (hfew : (done ++ atts).length < 12) :
    ∃ q, p.Reads (atts.flatMap attribText) q ∧ q.InAttribs name (done ++ atts) data := by
  induction atts generalizing p done with
  | nil =>
      rw [List.append_nil]
      exact ⟨p, Reads.nil, h⟩
  | cons att rest ih =>
      rw [List.length_append, List.length_cons] at hfew
      obtain ⟨hk, hv⟩ := hatts att List.mem_cons_self
      obtain ⟨p₁, hr₁, h₁⟩ := h.reads_attrib hk hv (by omega)
      obtain ⟨q, hr, hq⟩ := ih h₁ (fun a ha => hatts a (List.mem_cons_of_mem att ha)) (by
        rw [List.length_append, List.length_append, List.length_singleton]
        omega)
      rw [List.append_assoc] at hq
      exact ⟨q, (h.reads_space.trans hr₁).trans hr, hq⟩

/-- The end of a start tag with attributes. -/
theorem InAttribs.reads_end {tagName : CStr} (h : p.InAttribs tagName.chars done data) :
    ∃ q, p.Reads [ascii '>'] q ∧ q.InContent (data.tagHook tagName done .IKS_OPEN) := by
  refine ⟨{ p with
    user_data := data.tagHook tagName done .IKS_OPEN, atts := [], stack_old := false
    context := .C_CDATA, cdata := [] },
    Reads.single h.uni_max ?_, rfl, h.uni_max, rfl, h.attmax, rfl, rfl⟩
  have hroom : p.atts.length < 12 := by
    rw [h.atts]
    exact h.few
  have hdata : p.user_data.tagHook (CStr.ofChars p.tag_name) p.atts p.tagtype =
      data.tagHook tagName done .IKS_OPEN := by
    rw [h.user_data, h.tag_name, h.atts, h.tagtype, CStr.ofChars_chars]
  rw [step_ascii (by decide) h.uni_max,
    show p.onContext (ascii '>') = p.whitespace (ascii '>') by rw [onContext, h.context], ← hdata]
  obtain hold | ⟨hold, hattmax⟩ := h.oldcontext
  · rw [whitespace_attribute (by decide) hold, attribName, if_neg (by decide), if_pos rfl, tagEnd_eq]
  · rw [whitespace_attribEnd (by decide) hold, attribEnd, if_neg (by decide), if_pos rfl,
      if_pos (Nat.lt_of_lt_of_le hroom hattmax), tagEnd_eq]

end Attribs

/-! ## Elements -/

/-- **A start tag.** -/
theorem AtTag.reads_start {data : StreamData} {name : CStr} {attribs : List (CStr × CStr)}
    (h : p.AtTag data) (hname : name.Name) (hatts : ∀ att ∈ attribs, att.1.Name ∧ att.2.Plain)
    (hfew : attribs.length < 12) :
    ∃ q, p.Reads (name.chars ++ attribs.flatMap attribText ++ [ascii '>']) q ∧
      q.InContent (data.tagHook name attribs .IKS_OPEN) := by
  obtain ⟨p₁, hr₁, h₁⟩ := h.reads_name hname
  cases attribs with
  | nil =>
      obtain ⟨q, hr, hq⟩ := h₁.reads_end
      rw [List.flatMap_nil, List.append_nil]
      exact ⟨q, hr₁.trans hr, hq⟩
  | cons att rest =>
      obtain ⟨hk, hv⟩ := hatts att List.mem_cons_self
      obtain ⟨p₂, hr₂, h₂⟩ := h₁.reads_space
      obtain ⟨p₃, hr₃, h₃⟩ := h₂.reads_attrib hk hv (by decide)
      obtain ⟨p₄, hr₄, h₄⟩ := h₃.reads_attribs (fun a ha => hatts a (List.mem_cons_of_mem att ha)) hfew
      obtain ⟨q, hr, hq⟩ := h₄.reads_end
      exact ⟨q, (hr₁.trans ((hr₂.trans hr₃).trans hr₄)).trans hr, hq⟩

/-- **An end tag.** -/
theorem InText.reads_endTag {data : StreamData} {name : CStr} (h : p.InText data)
    (hname : name.Name) :
    ∃ q, p.Reads (ascii '<' :: ascii '/' :: name.chars ++ [ascii '>']) q ∧
      q.InContent (data.close name) := by
  obtain ⟨p₁, hr₁, h₁⟩ := h.reads_open
  obtain ⟨p₂, hr₂, h₂⟩ := h₁.reads_close
  obtain ⟨p₃, hr₃, h₃⟩ := h₂.reads_name hname.bytes
  obtain ⟨q, hr, hq⟩ := h₃.reads_end
  exact ⟨q, hr₁.trans (hr₂.trans (hr₃.trans hr)), hq⟩

/-- The parser reads the children of an element that is open; a first text follows no other one. -/
def ReadsAll (l : List Iks) : Prop :=
  ∀ (p : IksParser StreamData) (x : OpenTag) (rest : List OpenTag)
    (reported : List (IksNodeType × Option Iks)), p.InText ⟨x :: rest, reported⟩ →
    (∀ t more, l = .cdata t :: more →
      p.InContent ⟨x :: rest, reported⟩ ∧ ∀ u, x.children.getLast? ≠ some (.cdata u)) →
    ∃ q, p.Reads (Iks.texts l) q ∧
      q.InText ⟨{ x with children := x.children ++ l } :: rest, reported⟩

/-- An element whose children are read. -/
theorem InText.reads_tag {data : StreamData} {name : CStr} {attribs : List (CStr × CStr)}
    {children : List Iks} (h : p.InText data) (hname : name.Name)
    (hatts : ∀ att ∈ attribs, att.1.Name ∧ att.2.Plain) (hfew : attribs.length < 12)
    (hnodup : (attribs.map Prod.fst).Nodup)
    (hopen : data.current ≠ [] ∨ name ≠ CStr.lit "stream:stream") (hchildren : ReadsAll children) :
    ∃ q, p.Reads (Iks.tag name attribs children).text q ∧
      q.InContent ((StreamData.mk (⟨name, attribs, children⟩ :: data.current) data.reported).close
        name) := by
  obtain ⟨p₁, hr₁, h₁⟩ := h.reads_open
  obtain ⟨p₂, hr₂, h₂⟩ := h₁.reads_start hname hatts hfew
  rw [StreamData.tagHook_open hnodup hopen] at h₂
  obtain ⟨p₃, hr₃, h₃⟩ := hchildren p₂ _ _ _ h₂.inText fun t more _ => ⟨h₂, fun u => nofun⟩
  obtain ⟨q, hr, hq⟩ := h₃.reads_endTag hname
  refine ⟨q, ?_, hq⟩
  have hread := hr₁.trans (hr₂.trans (hr₃.trans hr))
  simp only [Iks.text, List.append_assoc, List.cons_append, List.nil_append] at hread ⊢
  exact hread

theorem readsAll : ∀ l : List Iks, Iks.AllPlain l → ReadsAll l
  | [], _ => fun p x rest reported h _ => by
      rw [List.append_nil]
      exact ⟨p, Reads.nil, h⟩
  | .cdata t :: more, hl => fun p x rest reported h hsep => by
      rw [Iks.AllPlain, Iks.Plain] at hl
      obtain ⟨⟨hne, hplain⟩, hapart, hmore⟩ := hl
      obtain ⟨hin, hlast⟩ := hsep t more rfl
      obtain ⟨p₁, hr₁, h₁⟩ := hin.reads_text hplain hne
      have hinsert : (StreamData.mk (x :: rest) reported).cdataHook t.chars =
          ⟨x.insert (.cdata t) :: rest, reported⟩ := by
        show StreamData.mk (x.iks_insert_cdata t.chars :: rest) reported = _
        rw [OpenTag.iks_insert_cdata, CStr.ofChars_chars]
        split
        · next u hu => exact absurd hu (hlast u)
        · rfl
      rw [hinsert] at h₁
      obtain ⟨q, hr, hq⟩ := readsAll more hmore p₁ _ rest reported h₁ fun u later heq => by
        rw [heq] at hapart
        exact absurd hapart id
      refine ⟨q, hr₁.trans hr, ?_⟩
      rw [OpenTag.insert, List.append_assoc] at hq
      exact hq
  | .tag name attribs children :: more, hl => fun p x rest reported h hsep => by
      rw [Iks.AllPlain, Iks.Plain] at hl
      obtain ⟨⟨hname, hfew, hnodup, hatts, hchildren⟩, -, hmore⟩ := hl
      obtain ⟨p₁, hr₁, h₁⟩ := h.reads_tag hname hatts hfew hnodup (Or.inl (List.cons_ne_nil _ _))
        (readsAll children hchildren)
      obtain ⟨q, hr, hq⟩ := readsAll more hmore p₁ (x.insert (.tag name attribs children)) rest
        reported h₁.inText fun u later heq => ⟨h₁, fun v hv => by
          rw [OpenTag.insert, List.getLast?_concat] at hv
          cases hv⟩
      refine ⟨q, hr₁.trans hr, ?_⟩
      rw [OpenTag.insert, List.append_assoc] at hq
      exact hq

/-- The parser is between two stanzas of a stream. -/
def Idle (p : IksParser StreamData) (reported : List (IksNodeType × Option Iks)) : Prop :=
  p.InContent ⟨[], reported⟩

/-- **What is written is read back.** -/
theorem iks_parse_text {name : CStr} {attribs : List (CStr × CStr)} {children : List Iks}
    {reported : List (IksNodeType × Option Iks)} {data : CStr} (h : p.Idle reported)
    (hplain : (Iks.tag name attribs children).Plain)
    (hspecial : name ∉ [CStr.lit "stream:stream", CStr.lit "stream:error", CStr.lit "challenge"])
    (hdata : data.chars = (Iks.tag name attribs children).text) :
    ∃ q, p.iks_parse data = some q ∧
      q.Idle (reported ++ [(.IKS_NODE_NORMAL, some (.tag name attribs children))]) := by
  rw [Iks.Plain] at hplain
  obtain ⟨hname, hfew, hnodup, hatts, hchildren⟩ := hplain
  simp only [List.mem_cons, List.not_mem_nil, or_false, not_or] at hspecial
  obtain ⟨hstream, herror, hchallenge⟩ := hspecial
  obtain ⟨q, hr, hq⟩ := h.inText.reads_tag hname hatts hfew hnodup (Or.inr hstream)
    (readsAll children hchildren)
  have hclose : (StreamData.mk [⟨name, attribs, children⟩] reported).close name =
      ⟨[], reported ++ [(.IKS_NODE_NORMAL, some (.tag name attribs children))]⟩ := by
    show (if name = CStr.lit "challenge" then _
      else if name = CStr.lit "stream:error" then _ else _) = _
    rw [if_neg hchallenge, if_neg herror]
    rfl
  rw [hclose] at hq
  refine ⟨q.unmark, ?_, hq.unmark⟩
  rw [iks_parse, hdata, hr.foldlM]
  show q.finish = some q.unmark
  rw [finish, handOver, hq.context]
  show q.flush.map unmark = some q.unmark
  rw [flush, if_pos hq.cdata]
  rfl

theorem idle_new : (new ⟨[], []⟩ : IksParser StreamData).Idle [] :=
  ⟨rfl, rfl, rfl, Or.inl rfl, rfl, rfl⟩

end IksParser

end Netflow
