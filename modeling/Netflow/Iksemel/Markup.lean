import Netflow.Iksemel.Stanzas
import Netflow.Iksemel.Verbatim

set_option autoImplicit false

/-! # The ways to write an element (`iksemel/sax.c`)

The texts that the programs send were written by hand: `<iq type='set' >`, `<error id='OK'/>`,
`<query …></query>`. A `Markup` is an element with its white space, its quotes, its entities and the
processing instructions in it. `Markup.nodes` are the nodes it stands for, and the parser makes these of
every `Markup`.
-/

namespace Netflow

/-- An attribute with the white space in front of it. -/
structure AttribMarkup where
  blanks : List Byte
  name : CStr
  quote : Byte
  value : CStr

namespace AttribMarkup

def raw (x : AttribMarkup) : List Byte :=
  x.blanks ++ x.name.chars ++ ascii '=' :: x.quote :: x.value.chars ++ [x.quote]

/-- A value goes to its quote; the other characters stand for themselves, `<` and `&` too. They are
ASCII, so that the text can be cut between any two of them. -/
structure Valid (x : AttribMarkup) : Prop where
  ne_nil : x.blanks ≠ []
  blanks : ∀ c ∈ x.blanks, isWhitespace c = true
  name : x.name.Name
  quote : x.quote = ascii '\'' ∨ x.quote = ascii '"'
  value : ∀ c ∈ x.value.chars, c &&& 0x80 = 0 ∧ c ≠ x.quote

def att (x : AttribMarkup) : CStr × CStr := (x.name, x.value)

instance (x : AttribMarkup) : Decidable x.Valid :=
  haveI : Decidable (∀ c ∈ x.blanks, isWhitespace c = true) := List.decidableBAll ..
  haveI : Decidable (∀ c ∈ x.value.chars, c &&& 0x80 = 0 ∧ c ≠ x.quote) := List.decidableBAll ..
  decidable_of_iff (x.blanks ≠ [] ∧ (∀ c ∈ x.blanks, isWhitespace c = true) ∧ x.name.Name ∧
      (x.quote = ascii '\'' ∨ x.quote = ascii '"') ∧
      ∀ c ∈ x.value.chars, c &&& 0x80 = 0 ∧ c ≠ x.quote)
    ⟨fun ⟨h₁, h₂, h₃, h₄, h₅⟩ => ⟨h₁, h₂, h₃, h₄, h₅⟩,
      fun h => ⟨h.ne_nil, h.blanks, h.name, h.quote, h.value⟩⟩

end AttribMarkup

/-- An element or a part of one, as it is written. -/
inductive Markup where
  | element (name : CStr) (attribs : List AttribMarkup) (blanks : List Byte) (children : List Markup)
      (endBlanks : List Byte)
  | single (name : CStr) (attribs : List AttribMarkup) (blanks : List Byte)
  | text (s : CStr)
  | entity (name : CStr)
  | instruction (l : CStr)

namespace Markup

/-- The start of a tag up to the white space at its end. -/
def startRaw (name : CStr) (attribs : List AttribMarkup) (blanks : List Byte) : List Byte :=
  ascii '<' :: name.chars ++ attribs.flatMap AttribMarkup.raw ++ blanks

mutual

def raw : Markup → List Byte
  | .element name attribs blanks children endBlanks =>
      startRaw name attribs blanks ++ ascii '>' :: raws children ++
        ascii '<' :: ascii '/' :: name.chars ++ endBlanks ++ [ascii '>']
  | .single name attribs blanks => startRaw name attribs blanks ++ [ascii '/', ascii '>']
  | .text s => s.chars
  | .entity name => ascii '&' :: name.chars ++ [ascii ';']
  | .instruction l => ascii '<' :: ascii '?' :: l.chars ++ [ascii '>']

def raws : List Markup → List Byte
  | [] => []
  | x :: rest => x.raw ++ raws rest

end

/-- A text in front of nodes: it is joined to another text, and an empty one makes no node. -/
def joinText (l : List Byte) (rest : List Iks) : List Iks :=
  if l = [] then rest
  else match rest with
    | .cdata s :: rest => .cdata (CStr.ofChars l ++ s) :: rest
    | rest => .cdata (CStr.ofChars l) :: rest

mutual

/-- A part in front of nodes. -/
def node (rest : List Iks) : Markup → List Iks
  | .element name attribs _ children _ =>
      .tag name (attribs.map AttribMarkup.att) (nodes children) :: rest
  | .single name attribs _ => .tag name (attribs.map AttribMarkup.att) [] :: rest
  | .text s => joinText s.chars rest
  | .entity name => joinText [entityChar name.chars] rest
  | .instruction _ => rest

/-- The nodes a list of parts stands for. -/
def nodes : List Markup → List Iks
  | [] => []
  | x :: rest => x.node (nodes rest)

end

/-- The name and the attributes of a tag. -/
structure ValidTag (name : CStr) (attribs : List AttribMarkup) (blanks : List Byte) : Prop where
  name : name.Name
  valid : ∀ x ∈ attribs, x.Valid
  few : attribs.length < 12
  nodup : (attribs.map AttribMarkup.name).Nodup
  blanks : ∀ c ∈ blanks, isWhitespace c = true

instance (name : CStr) (attribs : List AttribMarkup) (blanks : List Byte) :
    Decidable (ValidTag name attribs blanks) :=
  haveI : Decidable (∀ x ∈ attribs, x.Valid) := List.decidableBAll ..
  haveI : Decidable (∀ c ∈ blanks, isWhitespace c = true) := List.decidableBAll ..
  decidable_of_iff (name.Name ∧ (∀ x ∈ attribs, x.Valid) ∧ attribs.length < 12 ∧
      (attribs.map AttribMarkup.name).Nodup ∧ ∀ c ∈ blanks, isWhitespace c = true)
    ⟨fun ⟨h₁, h₂, h₃, h₄, h₅⟩ => ⟨h₁, h₂, h₃, h₄, h₅⟩,
      fun h => ⟨h.name, h.valid, h.few, h.nodup, h.blanks⟩⟩

mutual

/-- The name of an entity has seven characters at most. -/
def Valid : Markup → Prop
  | .element name attribs blanks children endBlanks => ValidTag name attribs blanks ∧
      AllValid children ∧ ∀ c ∈ endBlanks, isWhitespace c = true
  | .single name attribs blanks => ValidTag name attribs blanks
  | .text s => s.Verbatim
  | .entity name => name.chars.length ≤ 7 ∧ ∀ c ∈ name.chars, nameByte c = true ∧ c ≠ ascii ';'
  | .instruction l => (∀ c ∈ l.chars, c ≠ ascii '>') ∧ uniLeft 0 l.chars = some 0

def AllValid : List Markup → Prop
  | [] => True
  | x :: rest => x.Valid ∧ AllValid rest

end

mutual

def decidableValid : (m : Markup) → Decidable m.Valid
  | .element name attribs blanks children endBlanks =>
      haveI := decidableAllValid children
      haveI : Decidable (∀ c ∈ endBlanks, isWhitespace c = true) := List.decidableBAll ..
      inferInstanceAs (Decidable (ValidTag name attribs blanks ∧ AllValid children ∧
        ∀ c ∈ endBlanks, isWhitespace c = true))
  | .single name attribs blanks => inferInstanceAs (Decidable (ValidTag name attribs blanks))
  | .text s => inferInstanceAs (Decidable s.Verbatim)
  | .entity name =>
      haveI : Decidable (∀ c ∈ name.chars, nameByte c = true ∧ c ≠ ascii ';') := List.decidableBAll ..
      inferInstanceAs (Decidable (name.chars.length ≤ 7 ∧
        ∀ c ∈ name.chars, nameByte c = true ∧ c ≠ ascii ';'))
  | .instruction l =>
      haveI : Decidable (∀ c ∈ l.chars, c ≠ ascii '>') := List.decidableBAll ..
      inferInstanceAs (Decidable ((∀ c ∈ l.chars, c ≠ ascii '>') ∧ uniLeft 0 l.chars = some 0))

def decidableAllValid : (l : List Markup) → Decidable (AllValid l)
  | [] => inferInstanceAs (Decidable True)
  | x :: rest =>
      haveI := decidableValid x
      haveI := decidableAllValid rest
      inferInstanceAs (Decidable (x.Valid ∧ AllValid rest))

end

instance (m : Markup) : Decidable m.Valid := m.decidableValid

instance (l : List Markup) : Decidable (AllValid l) := decidableAllValid l

/-- A part that is not an element. -/
def Quiet : Markup → Prop
  | .element .. | .single .. => False
  | .text _ | .entity _ | .instruction _ => True

instance : (m : Markup) → Decidable m.Quiet
  | .element .. | .single .. => inferInstanceAs (Decidable False)
  | .text _ | .entity _ | .instruction _ => inferInstanceAs (Decidable True)

end Markup

/-- A node that is reported as a stanza. -/
def Iks.Normal : Iks → Prop
  | .tag name _ _ =>
      name ≠ CStr.lit "stream:stream" ∧ name ≠ CStr.lit "stream:error" ∧ name ≠ CStr.lit "challenge"
  | .cdata _ => False

/-! ## Nodes behind nodes -/

namespace OpenTag

/-- A node behind the children that were read. -/
def insertNode (x : OpenTag) : Iks → OpenTag
  | .cdata s => x.iks_insert_cdata s.chars
  | y => x.insert y

def insertAll (x : OpenTag) (l : List Iks) : OpenTag := l.foldl insertNode x

/-- A text, if it is not empty. -/
def insertText (x : OpenTag) (l : List Byte) : OpenTag := if l = [] then x else x.iks_insert_cdata l

theorem insertAll_joinText (x : OpenTag) {l : List Byte} (hl : 0 ∉ l) (rest : List Iks) :
    x.insertAll (Markup.joinText l rest) = (x.insertText l).insertAll rest := by
  unfold Markup.joinText insertText
  split
  · rfl
  · have hchars : (CStr.ofChars l).chars = l := CStr.ofChars_chars_of_nul_free hl
    split
    · next s rest =>
        show (x.iks_insert_cdata (CStr.ofChars l ++ s).chars).insertAll rest =
          ((x.iks_insert_cdata l).iks_insert_cdata s.chars).insertAll rest
        rw [CStr.chars_append, hchars, x.iks_insert_cdata_append hl s.nul_free]
    · show (x.iks_insert_cdata (CStr.ofChars l).chars).insertAll _ = _
      rw [hchars]

/-- No text follows another one in a list of nodes. -/
def Apart : List Iks → Prop
  | [] => True
  | y :: rest => y.Apart rest ∧ Apart rest

theorem apart_joinText (l : List Byte) {rest : List Iks} (h : Apart rest) :
    Apart (Markup.joinText l rest) := by
  unfold Markup.joinText
  split
  · exact h
  · split
    · next s rest =>
        obtain ⟨happart, hrest⟩ := h
        refine ⟨?_, hrest⟩
        cases rest with
        | nil => trivial
        | cons y rest =>
            cases y with
            | cdata t => exact happart
            | tag name attribs children => trivial
    · next hnone =>
        refine ⟨?_, h⟩
        cases rest with
        | nil => trivial
        | cons y rest =>
            cases y with
            | cdata t => exact hnone t rest rfl
            | tag name attribs children => trivial

theorem apart_nodes (l : List Markup) : Apart (Markup.nodes l) := by
  have htag : ∀ name attribs children {rest}, Apart rest →
      Apart (Iks.tag name attribs children :: rest) := fun _ _ _ _ h => ⟨trivial, h⟩
  induction l with
  | nil => trivial
  | cons m rest ih =>
      cases m with
      | element name attribs blanks children endBlanks =>
          rw [Markup.nodes]
          exact htag _ _ _ ih
      | single name attribs blanks =>
          rw [Markup.nodes]
          exact htag _ _ _ ih
      | text s => exact apart_joinText _ ih
      | entity name => exact (apart_joinText [entityChar name.chars] ih :)
      | instruction l => exact ih

/-- Nodes that are apart stay as they are. -/
theorem insertAll_apart (x : OpenTag) {l : List Iks} (h : Apart l)
    (hfirst : ∀ s rest, l = .cdata s :: rest → ∀ t, x.children.getLast? ≠ some (.cdata t)) :
    x.insertAll l = { x with children := x.children ++ l } := by
  induction l generalizing x with
  | nil => rw [List.append_nil, insertAll, List.foldl_nil]
  | cons y rest ih =>
      obtain ⟨happart, hrest⟩ := h
      have hnode : x.insertNode y = { x with children := x.children ++ [y] } := by
        cases y with
        | tag name attribs children => rfl
        | cdata s =>
            have hlast := hfirst s rest rfl
            rw [insertNode, iks_insert_cdata]
            split
            · next t ht => exact absurd ht (hlast t)
            · rw [CStr.ofChars_chars]
      show (x.insertNode y).insertAll rest = _
      rw [hnode, ih _ hrest ?_, List.append_assoc]
      · rfl
      · rintro s rest rfl t hlast
        rw [List.getLast?_concat] at hlast
        cases hlast
        exact happart

theorem insertAll_nodes (name : CStr) (attribs : List (CStr × CStr)) (l : List Markup) :
    insertAll ⟨name, attribs, []⟩ (Markup.nodes l) = ⟨name, attribs, Markup.nodes l⟩ :=
  insertAll_apart _ (apart_nodes l) fun _ _ _ _ => nofun

end OpenTag

/-- A tag that is an element opens and ends it. -/
theorem StreamData.tagHook_single {data : StreamData} {name : CStr} {attribs : List (CStr × CStr)}
    (hnodup : (attribs.map Prod.fst).Nodup)
    (hopen : data.current ≠ [] ∨ name ≠ CStr.lit "stream:stream") :
    data.tagHook name attribs .IKS_SINGLE =
      StreamData.close name { data with current := ⟨name, attribs, []⟩ :: data.current } := by
  have hneg : ¬(data.current = [] ∧ name = CStr.lit "stream:stream") := by
    rintro ⟨hnil, hstream⟩
    exact hopen.elim (fun h => h hnil) (fun h => h hstream)
  show data.openTag name attribs true = _
  rw [openTag, if_neg hneg, insert_attribs_eq hnodup]
  rfl

/-! ## Characters that are kept -/

namespace IksParser

section Keeps

variable {σ : Type} [IksHooks σ]

/-- The states of a parser that collects characters outside of names and values, by what it has
collected and where it is in a sequence beyond ASCII. -/
structure Keeps (f : List Byte → Nat → Nat → IksParser σ) (ok : Byte → Prop) : Prop where
  outside : ∀ t max len, (f t max len).context.collects = false
  uni_max : ∀ t max len, (f t max len).uni_max = max
  uni_len : ∀ t max len, (f t max len).uni_len = len
  keep : ∀ t max len c max' len', { (f t max len).keep c with uni_max := max', uni_len := len' } =
    f (t ++ [c]) max' len'
  onContext : ∀ t len c, ok c → (f t 0 len).onContext c = some (f (t ++ [c]) 0 len)

/-- No byte of a sequence beyond ASCII is one of those that stop a parser. -/
theorem not_stop_of_high {c : Byte} (h : c &&& 0xC0 = 0x80 ∨ (uniLength c).isSome) :
    ¬(c = 0 ∨ c = 0xFE ∨ c = 0xFF) :=
  forall_byte (P := fun c => (c &&& 0xC0 = 0x80 ∨ (uniLength c).isSome) →
    ¬(c = 0 ∨ c = 0xFE ∨ c = 0xFF)) (by decide +kernel) c h

/-- **A text is kept** when its last sequence is whole. -/
theorem Keeps.reads_from {f : List Byte → Nat → Nat → IksParser σ} {ok : Byte → Prop} (h : Keeps f ok)
    {l : List Byte} (hl : ∀ c ∈ l, c ≠ 0 ∧ ok c) {t : List Byte} {max len : Nat}
    (hinside : max ≠ 0 → len < max) (hwhole : uniLeft (max - len) l = some 0) :
    ∃ len', (f t max len).Reads l (f (t ++ l) 0 len') := by
  induction l generalizing t max len with
  | nil =>
      have hmax : max = 0 := by
        have hleft : max - len = 0 := Option.some.inj hwhole
        omega
      rw [hmax, List.append_nil]
      exact ⟨len, .nil⟩
  | cons c l ih =>
      have hrest := fun d hd => hl d (List.mem_cons_of_mem c hd)
      obtain ⟨hnul, hok⟩ := hl c List.mem_cons_self
      have hout : (f t max len).Whole := Or.inr (h.outside t max len)
      -- the byte leads to the state from which the rest is read
      have hnext : ∀ max' len', (f t max len).step c = some (f (t ++ [c]) max' len') →
          (max' ≠ 0 → len' < max') → uniLeft (max' - len') l = some 0 →
          ∃ len', (f t max len).Reads (c :: l) (f (t ++ c :: l) 0 len') := by
        intro max' len' hstep hinside' hwhole'
        obtain ⟨n, hread⟩ := ih hrest (t := t ++ [c]) hinside' hwhole'
        rw [List.append_assoc] at hread
        exact ⟨n, .cons hout hstep hread⟩
      rw [uniLeft] at hwhole
      by_cases hmax : max = 0
      · rw [if_neg (not_not.mpr (by omega))] at hwhole
        by_cases hhigh : c &&& 0x80 = 0
        · -- an ASCII character
          have hmarks : ¬(c = 0 ∨ c = 0xFE ∨ c = 0xFF) := by
            rintro (rfl | rfl | rfl)
            · exact hnul rfl
            · exact absurd hhigh (by decide)
            · exact absurd hhigh (by decide)
          rw [if_pos hhigh] at hwhole
          refine hnext 0 len ?_ (fun hne => absurd rfl hne) (by rw [Nat.zero_sub]; exact hwhole)
          rw [step_ascii ⟨hmarks, hhigh⟩ ((h.uni_max t max len).trans hmax), hmax,
            h.onContext t len c hok]
        · -- the first byte of a sequence
          rw [if_neg hhigh] at hwhole
          obtain ⟨m, hm, hwhole⟩ := Option.bind_eq_some_iff.mp hwhole
          refine hnext m 1 ?_ (fun _ => two_le_uniLength hm) hwhole
          rw [step, h.uni_max, if_neg (not_stop_of_high (Or.inr (by rw [hm]; rfl))),
            if_neg (not_not.mpr hmax), if_pos hhigh, hm, Option.map_some,
            mark_of_not_collects (h.outside t max len), h.keep]
      · -- a byte inside a sequence
        have hlt := hinside hmax
        rw [if_pos (by omega)] at hwhole
        obtain ⟨hmark, hwhole⟩ := Option.ite_none_right_eq_some.mp hwhole
        refine hnext (if len + 1 = max then 0 else max) (len + 1) ?_ ?_ ?_
        · rw [step, h.uni_max, h.uni_len, if_neg (not_stop_of_high (Or.inl hmark)), if_pos hmax,
            if_neg (not_not.mpr hmark)]
          dsimp only
          rw [h.keep]
        · intro hne
          split at hne
          · exact absurd rfl hne
          · next hlast =>
              rw [if_neg hlast]
              omega
        · rw [← hwhole]
          congr 1
          split
          · omega
          · omega

theorem Keeps.reads {f : List Byte → Nat → Nat → IksParser σ} {ok : Byte → Prop} (h : Keeps f ok)
    {p : IksParser σ} {l : List Byte} {t : List Byte} {len : Nat} (hp : f t 0 len = p)
    (hl : ∀ c ∈ l, c ≠ 0 ∧ ok c) (hwhole : uniLeft 0 l = some 0) :
    ∃ len', p.Reads l (f (t ++ l) 0 len') := by
  have hnone : uniLeft (0 - len) l = some 0 := by
    rw [Nat.zero_sub]
    exact hwhole
  obtain ⟨len', hread⟩ := h.reads_from hl (t := t) (fun hne => absurd rfl hne) hnone
  rw [hp] at hread
  exact ⟨len', hread⟩

variable {p : IksParser σ}

omit [IksHooks σ] in
theorem eta_uni_max (h : p.uni_max = 0) : { p with uni_max := 0 } = p := by
  obtain ⟨⟩ := p
  cases h
  rfl

theorem keeps_cdata (hctx : p.context = .C_CDATA) :
    Keeps (fun t max len => { p with cdata := t, uni_max := max, uni_len := len })
      (fun c => c ≠ ascii '<' ∧ c ≠ ascii '&') where
  outside _ _ _ := by
    show p.context.collects = false
    rw [hctx]
    rfl
  uni_max _ _ _ := rfl
  uni_len _ _ _ := rfl
  keep t max len c max' len' := by simp only [keep, hctx]
  onContext t len c hc := by simp only [onContext, hctx, if_neg hc.1, if_neg hc.2]

theorem keeps_instruction (hctx : p.context = .C_PI) :
    Keeps (fun _ max len => { p with uni_max := max, uni_len := len }) (fun c => c ≠ ascii '>') where
  outside _ _ _ := by
    show p.context.collects = false
    rw [hctx]
    rfl
  uni_max _ _ _ := rfl
  uni_len _ _ _ := rfl
  keep t max len c max' len' := by simp only [keep, hctx]
  onContext t len c hc := by simp only [onContext, hctx, if_neg hc]

end Keeps

variable {p q r : IksParser StreamData} {data : StreamData} {name : CStr}
  {done : List (CStr × CStr)}

/-! ## Tags -/

theorem plainByte_of_isWhitespace {c : Byte} (h : isWhitespace c = true) : plainByte c = true :=
  forall_byte (P := fun c => isWhitespace c = true → plainByte c = true) (by decide +kernel) c h

/-- White space is skipped. -/
theorem reads_blanks {l : List Byte} (hctx : p.context = .C_WHITESPACE) (huni : p.uni_max = 0)
    (hl : ∀ c ∈ l, isWhitespace c = true) : p.Reads l p := by
  induction l with
  | nil => exact Reads.nil
  | cons c l ih =>
      refine Reads.cons (Or.inl huni) ?_ (ih fun d hd => hl d (List.mem_cons_of_mem c hd))
      have hc := hl c List.mem_cons_self
      rw [step_ascii (ascii_of_plainByte (plainByte_of_isWhitespace hc)) huni, onContext, hctx]
      show p.whitespace c = some p
      rw [whitespace, if_pos hc]

/-- The first white space behind the name of a tag. -/
theorem InName.step_blank {type : IksTagType} {text : List Byte} {c : Byte}
    (h : p.InName type text data) (hc : isWhitespace c = true) :
    p.step c = some { p with
      oldcontext := if p.tagtype = .IKS_CLOSE then .C_TAG_END else .C_ATTRIBUTE
      context := .C_WHITESPACE
      tag_name := p.text
      stack_old := false } := by
  rw [step_ascii (ascii_of_plainByte (plainByte_of_isWhitespace hc)) h.uni_max, onContext, h.context]
  show p.tag c = _
  rw [tag, if_pos hc]

/-- White space behind the name of a start tag. -/
theorem InName.reads_blanks {c : Byte} {l : List Byte} (h : p.InName .IKS_OPEN name.chars data)
    (hl : ∀ d ∈ c :: l, isWhitespace d = true) :
    ∃ q, p.Reads (c :: l) q ∧ q.InAttribs name.chars [] data := by
  refine ⟨_, Reads.cons (Or.inl h.uni_max) (h.step_blank (hl c List.mem_cons_self))
    (IksParser.reads_blanks rfl h.uni_max fun d hd => hl d (List.mem_cons_of_mem c hd)), rfl,
    Or.inl ?_, h.uni_max, h.atts, by decide, h.attmax, h.tagtype, h.text, h.user_data⟩
  show (if p.tagtype = .IKS_CLOSE then IksContext.C_TAG_END else .C_ATTRIBUTE) = .C_ATTRIBUTE
  rw [h.tagtype, if_neg (by decide)]

/-- The character that ends a value in a context. -/
def Quotes (context : IksContext) (quote : Byte) : Prop :=
  context = .C_VALUE_APOS ∧ quote = ascii '\'' ∨ context = .C_VALUE_QUOT ∧ quote = ascii '"'

theorem Quotes.ascii {context : IksContext} {quote : Byte} (h : Quotes context quote) :
    ¬(quote = 0 ∨ quote = 0xFE ∨ quote = 0xFF) ∧ quote &&& 0x80 = 0 := by
  obtain ⟨-, rfl⟩ | ⟨-, rfl⟩ := h
  · decide
  · decide

section Attrib

variable {k v : CStr} {quote : Byte} {context : IksContext}

theorem InAttrib.reads_open (h : p.InAttrib .C_VALUE name.chars done k.chars [] data)
    (hquote : Quotes context quote) :
    ∃ q, p.Reads [quote] q ∧ q.InAttrib context name.chars done k.chars [] data := by
  refine ⟨{ p with context := context }, Reads.single h.uni_max ?_, rfl, h.uni_max, h.atts,
    h.attmax, h.tagtype, h.tag_name, h.att, h.text, h.user_data⟩
  rw [step_ascii hquote.ascii h.uni_max, onContext, h.context]
  obtain ⟨rfl, rfl⟩ | ⟨rfl, rfl⟩ := hquote
  · exact if_pos rfl
  · show (if Netflow.ascii '"' = Netflow.ascii '\'' then _ else _) = _
    rw [if_neg (by decide)]
    exact if_pos rfl

/-- The characters of a value. -/
theorem InAttrib.reads_chars (h : p.InAttrib context name.chars done k.chars [] data)
    (hquote : Quotes context quote) (hv : ∀ c ∈ v.chars, c &&& 0x80 = 0 ∧ c ≠ quote) :
    ∃ q, p.Reads v.chars q ∧ q.InAttrib context name.chars done k.chars v.chars data := by
  refine h.reads_collect fun c hc _ q hq => ?_
  obtain ⟨hascii, hne⟩ := hv c hc
  have hmarks : ¬(c = 0 ∨ c = 0xFE ∨ c = 0xFF) := by
    rintro (rfl | rfl | rfl)
    · exact v.nul_free hc
    · exact absurd hascii (by decide)
    · exact absurd hascii (by decide)
  have hvalue : q.onContext c = some (q.value quote c) := by
    rw [onContext, hq.context]
    obtain ⟨rfl, rfl⟩ | ⟨rfl, rfl⟩ := hquote
    · rfl
    · rfl
  rw [step_ascii ⟨hmarks, hascii⟩ hq.uni_max, hvalue, value, if_neg hne]

/-- The quote behind a value adds the attribute. -/
theorem InAttrib.reads_close (h : p.InAttrib context name.chars done k.chars v.chars data)
    (hquote : Quotes context quote) (hfew : done.length + 1 < 12) :
    ∃ q, p.Reads [quote] q ∧ q.InAttribs name.chars (done ++ [(k, v)]) data := by
  refine ⟨{ p with
    atts := p.atts ++ [(k, v)], oldcontext := .C_ATTRIBUTE_2, context := .C_WHITESPACE
    stack_old := true }, Reads.single h.uni_max ?_, rfl, Or.inr ⟨rfl, h.attmax⟩, h.uni_max,
    congrArg (· ++ [(k, v)]) h.atts, ?_, Or.inr h.attmax, h.tagtype, h.tag_name, h.user_data⟩
  · have hvalue : p.onContext quote = some (p.value quote quote) := by
      rw [onContext, h.context]
      obtain ⟨rfl, rfl⟩ | ⟨rfl, rfl⟩ := hquote
      · rfl
      · rfl
    rw [step_ascii hquote.ascii h.uni_max, hvalue, value, if_pos rfl, h.att, h.text,
      CStr.ofChars_chars, CStr.ofChars_chars]
  · rw [List.length_append, List.length_singleton]
    exact hfew

/-- **An attribute**, behind its white space. -/
theorem InAttribs.reads_markup {x : AttribMarkup} (h : p.InAttribs name.chars done data)
    (hx : x.Valid) (hfew : done.length + 1 < 12) :
    ∃ q, p.Reads (x.name.chars ++ ascii '=' :: x.quote :: x.value.chars ++ [x.quote]) q ∧
      q.InAttribs name.chars (done ++ [x.att]) data := by
  obtain ⟨context, hquote⟩ : ∃ context, Quotes context x.quote :=
    hx.quote.elim (fun hq => ⟨.C_VALUE_APOS, Or.inl ⟨rfl, hq⟩⟩) fun hq => ⟨.C_VALUE_QUOT, Or.inr ⟨rfl, hq⟩⟩
  obtain ⟨p₁, hr₁, h₁⟩ := h.reads_name hx.name
  obtain ⟨p₂, hr₂, h₂⟩ := h₁.reads_equals
  obtain ⟨p₃, hr₃, h₃⟩ := h₂.reads_open hquote
  obtain ⟨p₄, hr₄, h₄⟩ := h₃.reads_chars hquote hx.value
  obtain ⟨q, hr₅, hq⟩ := h₄.reads_close hquote hfew
  have hread := hr₁.trans (hr₂.trans (hr₃.trans (hr₄.trans hr₅)))
  rw [List.append_assoc]
  exact ⟨q, hread, hq⟩

end Attrib

/-- The attributes behind the first white space. -/
theorem InAttribs.reads_markups {xs : List AttribMarkup} (h : p.InAttribs name.chars done data)
    (hxs : ∀ x ∈ xs, x.Valid) (hfew : (done ++ xs.map AttribMarkup.att).length < 12) :
    ∃ q, p.Reads (xs.flatMap AttribMarkup.raw) q ∧
      q.InAttribs name.chars (done ++ xs.map AttribMarkup.att) data := by
  induction xs generalizing p done with
  | nil =>
      rw [List.map_nil, List.append_nil]
      exact ⟨p, Reads.nil, h⟩
  | cons x rest ih =>
      rw [List.map_cons, List.length_append, List.length_cons] at hfew
      have hx := hxs x List.mem_cons_self
      obtain ⟨p₁, hr₁, h₁⟩ := h.reads_markup hx (by omega)
      obtain ⟨q, hr, hq⟩ := ih h₁ (fun y hy => hxs y (List.mem_cons_of_mem x hy)) (by
        rw [List.length_append, List.length_append, List.length_singleton]
        omega)
      rw [List.append_assoc] at hq
      have hraw : x.raw = x.blanks ++
          (x.name.chars ++ ascii '=' :: x.quote :: x.value.chars ++ [x.quote]) := by
        rw [AttribMarkup.raw]
        simp only [List.append_assoc]
      rw [List.flatMap_cons, hraw]
      exact ⟨q, ((reads_blanks h.context h.uni_max hx.blanks).trans hr₁).trans hr, hq⟩

/-- The next character ends a tag, which leads from one state of the data to another. -/
def AtEnd (p : IksParser StreamData) (data data' : StreamData) : Prop :=
  p.user_data = data ∧ ∃ q, p.Reads [ascii '>'] q ∧ q.InContent data'

/-- **A tag that starts and ends an element**, at its slash. -/
theorem atEnd_single {atts : List (CStr × CStr)} (hctx : p.context = .C_TAG_END)
    (htype : p.tagtype = .IKS_SINGLE) (huni : p.uni_max = 0) (hatts : p.atts = atts)
    (hattmax : p.attmax = 0 ∨ 12 ≤ p.attmax) (hname : p.tag_name = name.chars)
    (hdata : p.user_data = data) : p.AtEnd data (data.tagHook name atts .IKS_SINGLE) := by
  refine ⟨hdata, { p with
    user_data := data.tagHook name atts .IKS_SINGLE, atts := [], stack_old := false
    context := .C_CDATA, cdata := [] }, Reads.single huni ?_, rfl, huni, rfl, hattmax, rfl, rfl⟩
  rw [step_ascii (by decide) huni, onContext, hctx]
  show p.tagEnd (ascii '>') = _
  rw [tagEnd_eq, hatts, htype, hname, hdata, CStr.ofChars_chars]

theorem InName.reads_slash (h : p.InName .IKS_OPEN name.chars data) :
    ∃ q, p.Reads [ascii '/'] q ∧ q.AtEnd data (data.tagHook name [] .IKS_SINGLE) := by
  refine ⟨{ p with
    tagtype := .IKS_SINGLE, context := .C_TAG_END, tag_name := p.text, stack_old := false },
    Reads.single h.uni_max ?_, atEnd_single rfl rfl h.uni_max h.atts h.attmax h.text h.user_data⟩
  rw [step_ascii (by decide) h.uni_max, onContext, h.context]
  show p.tag (ascii '/') = _
  rw [tag, if_neg (by decide), if_pos rfl, h.tagtype, if_neg (by decide)]

theorem InAttribs.reads_slash (h : p.InAttribs name.chars done data) :
    ∃ q, p.Reads [ascii '/'] q ∧ q.AtEnd data (data.tagHook name done .IKS_SINGLE) := by
  refine ⟨{ p with tagtype := .IKS_SINGLE, context := .C_TAG_END },
    Reads.single h.uni_max ?_, atEnd_single rfl rfl h.uni_max h.atts h.attmax h.tag_name h.user_data⟩
  have hroom : p.atts.length < 12 := by
    rw [h.atts]
    exact h.few
  rw [step_ascii (by decide) h.uni_max,
    show p.onContext (ascii '/') = p.whitespace (ascii '/') by rw [onContext, h.context]]
  obtain hold | ⟨hold, hattmax⟩ := h.oldcontext
  · rw [whitespace_attribute (by decide) hold, attribName, if_pos rfl]
  · rw [whitespace_attribEnd (by decide) hold, attribEnd, if_pos rfl,
      if_pos (Nat.lt_of_lt_of_le hroom hattmax)]

/-- What follows the name and the attributes of a start tag. -/
theorem AtTag.reads_head {attribs : List AttribMarkup} {blanks : List Byte} (h : p.AtTag data)
    (hvalid : Markup.ValidTag name attribs blanks) :
    (∃ q, p.Reads (name.chars ++ attribs.flatMap AttribMarkup.raw ++ blanks) q ∧
        q.AtEnd data (data.tagHook name (attribs.map AttribMarkup.att) .IKS_OPEN)) ∧
      ∃ q, p.Reads (name.chars ++ attribs.flatMap AttribMarkup.raw ++ blanks ++ [ascii '/']) q ∧
        q.AtEnd data (data.tagHook name (attribs.map AttribMarkup.att) .IKS_SINGLE) := by
  have hattribs : ∀ q : IksParser StreamData, ∀ atts, q.InAttribs name.chars atts data →
      q.AtEnd data (data.tagHook name atts .IKS_OPEN) := by
    intro q atts hq
    obtain ⟨r, hr, hend⟩ := hq.reads_end
    exact ⟨hq.user_data, r, hr, hend⟩
  obtain ⟨p₁, hr₁, h₁⟩ := h.reads_name hvalid.name
  obtain ⟨hname, hall, hfew, -, hblanks⟩ := hvalid
  cases attribs with
  | nil =>
      rw [List.flatMap_nil, List.append_nil]
      cases blanks with
      | nil =>
          rw [List.append_nil]
          constructor
          · obtain ⟨q, hr, hq⟩ := h₁.reads_end
            exact ⟨p₁, hr₁, ⟨h₁.user_data, q, hr, hq⟩⟩
          · obtain ⟨q, hr, hq⟩ := h₁.reads_slash
            exact ⟨q, hr₁.trans hr, hq⟩
      | cons c l =>
          obtain ⟨p₂, hr₂, h₂⟩ := h₁.reads_blanks hblanks
          constructor
          · exact ⟨p₂, hr₁.trans hr₂, hattribs p₂ [] h₂⟩
          · obtain ⟨q, hr, hq⟩ := h₂.reads_slash
            exact ⟨q, (hr₁.trans hr₂).trans hr, hq⟩
  | cons x rest =>
      have hx := hall x List.mem_cons_self
      obtain ⟨c, l, hl⟩ := List.exists_cons_of_ne_nil hx.ne_nil
      obtain ⟨p₂, hr₂, h₂⟩ := h₁.reads_blanks (hl ▸ hx.blanks)
      -- the white space in front of the first attribute is read already, and may be read again
      obtain ⟨p₃, hr₃, h₃⟩ := h₂.reads_markup hx (by decide)
      obtain ⟨p₄, hr₄, h₄⟩ := h₃.reads_markups (fun y hy => hall y (List.mem_cons_of_mem x hy)) (by
        rw [List.nil_append, List.length_append, List.length_map]
        rw [List.length_cons] at hfew
        rw [List.length_singleton]
        omega)
      have hr₅ := reads_blanks h₄.context h₄.uni_max hblanks
      have hraw : (x :: rest).flatMap AttribMarkup.raw = (c :: l) ++
          ((x.name.chars ++ ascii '=' :: x.quote :: x.value.chars ++ [x.quote]) ++
            rest.flatMap AttribMarkup.raw) := by
        rw [List.flatMap_cons, AttribMarkup.raw, hl]
        simp only [List.append_assoc, List.cons_append]
      have hread : p.Reads (name.chars ++ (x :: rest).flatMap AttribMarkup.raw ++ blanks) p₄ := by
        rw [hraw]
        exact (hr₁.trans (hr₂.trans (hr₃.trans hr₄))).trans hr₅
      constructor
      · exact ⟨p₄, hread, hattribs p₄ _ h₄⟩
      · obtain ⟨q, hr, hq⟩ := h₄.reads_slash
        exact ⟨q, hread.trans hr, hq⟩

theorem atEnd_close (hctx : p.context = .C_WHITESPACE) (hold : p.oldcontext = .C_TAG_END)
    (huni : p.uni_max = 0) (hatts : p.atts = []) (hattmax : p.attmax = 0 ∨ 12 ≤ p.attmax)
    (htype : p.tagtype = .IKS_CLOSE) (hname : p.tag_name = name.chars) (hdata : p.user_data = data) :
    p.AtEnd data (data.close name) := by
  refine ⟨hdata, { p with
    user_data := data.close name, atts := [], stack_old := false, context := .C_CDATA, cdata := [] },
    Reads.single huni ?_, rfl, huni, rfl, hattmax, rfl, rfl⟩
  have hwhite : p.whitespace (ascii '>') = { p with context := .C_TAG_END }.tagEnd (ascii '>') := by
    rw [whitespace, if_neg (by decide), hold]
  rw [step_ascii (by decide) huni, onContext, hctx]
  show p.whitespace (ascii '>') = _
  rw [hwhite, tagEnd_eq, hatts, htype, hname, hdata, CStr.ofChars_chars]
  rfl

/-- White space in an end tag. -/
theorem InName.reads_endBlanks {blanks : List Byte} (h : p.InName .IKS_CLOSE name.chars data)
    (hl : ∀ c ∈ blanks, isWhitespace c = true) :
    ∃ q, p.Reads blanks q ∧ q.AtEnd data (data.close name) := by
  cases blanks with
  | nil =>
      obtain ⟨q, hr, hq⟩ := h.reads_end
      exact ⟨p, Reads.nil, ⟨h.user_data, q, hr, hq⟩⟩
  | cons c l =>
      have hblank := h.step_blank (hl c List.mem_cons_self)
      rw [if_pos h.tagtype] at hblank
      exact ⟨_, Reads.cons (Or.inl h.uni_max) hblank (IksParser.reads_blanks rfl h.uni_max
        fun d hd => hl d (List.mem_cons_of_mem c hd)), atEnd_close rfl rfl h.uni_max h.atts h.attmax
          h.tagtype h.text h.user_data⟩

/-! ## Texts -/

/-- What a text does to the data; an empty one is not handed over. -/
def addText (data : StreamData) (l : List Byte) : StreamData :=
  if l = [] then data else data.cdataHook l

theorem addText_append (data : StreamData) {a b : List Byte} (ha : 0 ∉ a) (hb : 0 ∉ b) :
    addText data (a ++ b) = addText (addText data a) b := by
  obtain rfl | hne := eq_or_ne a []
  · rfl
  · obtain rfl | hne' := eq_or_ne b []
    · rw [List.append_nil]
      rfl
    · have hboth : a ++ b ≠ [] := fun h => hne (List.append_eq_nil_iff.mp h).1
      rw [addText, addText, addText, if_neg hboth, if_neg hne, if_neg hne']
      obtain ⟨_ | ⟨x, rest⟩, reported⟩ := data
      · rfl
      · show StreamData.mk (x.iks_insert_cdata (a ++ b) :: rest) reported = _
        rw [x.iks_insert_cdata_append ha hb]
        rfl

theorem addText_cons (x : OpenTag) (rest : List OpenTag) (reported : List (IksNodeType × Option Iks))
    (l : List Byte) : addText ⟨x :: rest, reported⟩ l = ⟨x.insertText l :: rest, reported⟩ := by
  unfold addText OpenTag.insertText
  split
  · rfl
  · rfl

theorem addText_nil (reported : List (IksNodeType × Option Iks)) (l : List Byte) :
    addText ⟨[], reported⟩ l = ⟨[], reported⟩ := ite_self _

theorem flushed_eq (p : IksParser StreamData) : p.flushed = addText p.user_data p.cdata := rfl

/-- As `InText`, with no NUL in the text. -/
structure InMarkup (p : IksParser StreamData) (data : StreamData) : Prop extends p.InText data where
  nulFree : p.NulFree

theorem InContent.inMarkup (h : p.InContent data) : p.InMarkup data where
  toInText := h.inText
  nulFree := by
    rw [NulFree, h.cdata]
    exact List.not_mem_nil

/-- **A text without markup.** -/
theorem InMarkup.reads_text {s : CStr} (h : p.InMarkup data) (hs : s.Verbatim) :
    ∃ q, p.Reads s.chars q ∧ q.InMarkup (addText data s.chars) := by
  obtain ⟨len, hread⟩ := (keeps_cdata h.context).reads (eta_uni_max h.uni_max)
    (fun c hc => ⟨fun hzero => s.nul_free (hzero ▸ hc), hs.unmarked c hc⟩)
    hs.whole
  refine ⟨_, hread, ⟨h.context, rfl, h.atts, h.attmax, ?_⟩, ?_⟩
  · show addText p.user_data (p.cdata ++ s.chars) = _
    rw [addText_append _ h.nulFree s.nul_free, ← flushed_eq, h.flushed]
  · exact fun hzero => (List.mem_append.mp hzero).elim h.nulFree s.nul_free

theorem entityChar_ne (entity : List Byte) : entityChar entity ≠ 0 := by
  unfold entityChar
  repeat' split
  all_goals decide

/-- The characters of the name of an entity. -/
theorem reads_entityName {l : List Byte} (hctx : p.context = .C_ENTITY) (huni : p.uni_max = 0)
    (hl : ∀ c ∈ l, nameByte c = true ∧ c ≠ ascii ';') (hlen : p.entity.length + l.length ≤ 7) :
    p.Reads l { p with entity := p.entity ++ l } := by
  induction l generalizing p with
  | nil =>
      rw [List.append_nil]
      exact Reads.nil
  | cons c l ih =>
      obtain ⟨hname, hend⟩ := hl c List.mem_cons_self
      rw [List.length_cons] at hlen
      have hstep : p.step c = some { p with entity := p.entity ++ [c] } := by
        rw [step_ascii (ascii_of_plainByte (plainByte_of_nameByte hname).1) huni, onContext, hctx]
        show (if c = ascii ';' then _ else if 7 < p.entity.length + 1 then _ else _) = _
        rw [if_neg hend, if_neg (by omega)]
      have hrest := ih (p := { p with entity := p.entity ++ [c] }) hctx huni
        (fun d hd => hl d (List.mem_cons_of_mem c hd)) (by
          show (p.entity ++ [c]).length + l.length ≤ 7
          rw [List.length_append, List.length_singleton]
          omega)
      have hassoc : p.entity ++ [c] ++ l = p.entity ++ c :: l := List.append_assoc ..
      rw [← hassoc]
      exact Reads.cons (Or.inl huni) hstep hrest

theorem step_entityEnd (hctx : p.context = .C_ENTITY) (huni : p.uni_max = 0) :
    p.step (ascii ';') = some { p with
      user_data := p.user_data.cdataHook [entityChar p.entity], context := .C_CDATA, cdata := [] } := by
  rw [step_ascii (by decide) huni, onContext, hctx]
  exact if_pos rfl

/-- **An entity** is handed over as its character. -/
theorem InMarkup.reads_entity {e : CStr} (h : p.InMarkup data) (hlen : e.chars.length ≤ 7)
    (he : ∀ c ∈ e.chars, nameByte c = true ∧ c ≠ ascii ';') :
    ∃ q, p.Reads (ascii '&' :: e.chars ++ [ascii ';']) q ∧
      q.InMarkup (addText data [entityChar e.chars]) := by
  obtain ⟨r, hr⟩ : ∃ r, r = { p with
      user_data := p.flushed, cdata := [], context := IksContext.C_ENTITY, entity := [] } := ⟨_, rfl⟩
  have hopen : p.step (ascii '&') = some r := by
    rw [step_ascii (by decide) h.uni_max, onContext, h.context]
    show (if ascii '&' = ascii '&' then _ else _) = _
    rw [if_pos rfl, flush_eq, hr]
    rfl
  have hname := reads_entityName (p := r) (l := e.chars) (by rw [hr]) (by rw [hr]; exact h.uni_max)
    he (by rw [hr]; exact hlen.trans' (Nat.le_of_eq (Nat.zero_add _)))
  have huni : r.uni_max = 0 := by
    rw [hr]
    exact h.uni_max
  refine ⟨_, (Reads.cons (Or.inl h.uni_max) hopen hname).trans
    (Reads.single huni (step_entityEnd ?_ huni)), InContent.inMarkup ⟨rfl, huni, ?_, ?_, rfl, ?_⟩⟩
  · rw [hr]
  · rw [hr]
    exact h.atts
  · rw [hr]
    exact h.attmax
  · rw [hr, ← h.flushed]
    rfl

/-- **A processing instruction** is skipped. -/
theorem InMarkup.reads_instruction {l : CStr} (h : p.InMarkup data)
    (hl : ∀ c ∈ l.chars, c ≠ ascii '>') (hwhole : uniLeft 0 l.chars = some 0) :
    ∃ q, p.Reads (ascii '<' :: ascii '?' :: l.chars ++ [ascii '>']) q ∧ q.InMarkup data := by
  obtain ⟨r, hr, htag⟩ := h.toInText.reads_open
  have hmark : r.step (ascii '?') = some { r with context := .C_PI } := by
    rw [step_ascii (by decide) htag.uni_max, onContext, htag.context]
    show some (r.tagStart (ascii '?')) = _
    rw [tagStart, if_neg (by decide), if_pos rfl]
  obtain ⟨len, hread⟩ := (keeps_instruction (p := { r with context := .C_PI }) rfl).reads (t := [])
    (eta_uni_max (p := { r with context := .C_PI }) htag.uni_max)
    (fun c hc => ⟨fun hzero => l.nul_free (hzero ▸ hc), hl c hc⟩) hwhole
  refine ⟨_, (hr.trans (Reads.cons (Or.inl htag.uni_max) hmark hread)).trans
    (Reads.single rfl ?_), InContent.inMarkup (p := { r with
    context := .C_CDATA, cdata := [], uni_max := 0, uni_len := len })
    ⟨rfl, rfl, htag.atts, htag.attmax, rfl, htag.user_data⟩⟩
  rw [step_ascii (by decide) rfl, onContext]
  show some (if ascii '>' = ascii '>' then _ else _) = _
  rw [if_pos rfl]

/-! ## Elements -/

theorem AtEnd.reads {data' : StreamData} (h : p.AtEnd data data') :
    ∃ q, p.Reads [ascii '>'] q ∧ q.InMarkup data' := by
  obtain ⟨-, q, hr, hq⟩ := h
  exact ⟨q, hr, hq.inMarkup⟩

/-- The parser reads the parts of an element that is open. -/
def ReadsParts (l : List Markup) : Prop :=
  ∀ (p : IksParser StreamData) (x : OpenTag) (rest : List OpenTag)
    (reported : List (IksNodeType × Option Iks)), p.InMarkup ⟨x :: rest, reported⟩ →
      ∃ q, p.Reads (Markup.raws l) q ∧ q.InMarkup ⟨x.insertAll (Markup.nodes l) :: rest, reported⟩

variable {attribs : List AttribMarkup} {blanks : List Byte}

theorem map_fst_att (attribs : List AttribMarkup) :
    (attribs.map AttribMarkup.att).map Prod.fst = attribs.map AttribMarkup.name := List.map_map

/-- An element before the last character of its end tag. -/
theorem InMarkup.reads_element {children : List Markup} {endBlanks : List Byte} (h : p.InMarkup data)
    (hvalid : Markup.ValidTag name attribs blanks) (hend : ∀ c ∈ endBlanks, isWhitespace c = true)
    (hopen : data.current ≠ [] ∨ name ≠ CStr.lit "stream:stream") (hchildren : ReadsParts children) :
    let x : OpenTag := ⟨name, attribs.map AttribMarkup.att, Markup.nodes children⟩
    ∃ q, p.Reads (Markup.startRaw name attribs blanks ++ ascii '>' :: Markup.raws children ++
        ascii '<' :: ascii '/' :: name.chars ++ endBlanks) q ∧
      q.AtEnd ⟨x :: data.current, data.reported⟩
        (StreamData.close name ⟨x :: data.current, data.reported⟩) := by
  intro x
  obtain ⟨p₁, hr₁, h₁⟩ := h.toInText.reads_open
  obtain ⟨⟨p₂, hr₂, h₂⟩, -⟩ := h₁.reads_head hvalid
  obtain ⟨p₃, hr₃, h₃⟩ := h₂.reads
  rw [StreamData.tagHook_open (by rw [map_fst_att]; exact hvalid.nodup) hopen] at h₃
  obtain ⟨p₄, hr₄, h₄⟩ := hchildren p₃ _ _ _ h₃
  rw [OpenTag.insertAll_nodes] at h₄
  obtain ⟨p₅, hr₅, h₅⟩ := h₄.toInText.reads_open
  obtain ⟨p₆, hr₆, h₆⟩ := h₅.reads_close
  obtain ⟨p₇, hr₇, h₇⟩ := h₆.reads_name hvalid.name.bytes
  obtain ⟨q, hr₈, hq⟩ := h₇.reads_endBlanks hend
  refine ⟨q, ?_, hq⟩
  have hread := hr₁.trans (hr₂.trans (hr₃.trans (hr₄.trans (hr₅.trans (hr₆.trans (hr₇.trans hr₈))))))
  simp only [Markup.startRaw, List.append_assoc, List.cons_append, List.nil_append] at hread ⊢
  exact hread

/-- A tag that is an element, before its last character. -/
theorem InMarkup.reads_single (h : p.InMarkup data) (hvalid : Markup.ValidTag name attribs blanks)
    (hopen : data.current ≠ [] ∨ name ≠ CStr.lit "stream:stream") :
    ∃ q, p.Reads (Markup.startRaw name attribs blanks ++ [ascii '/']) q ∧
      q.AtEnd data (StreamData.close name
        ⟨⟨name, attribs.map AttribMarkup.att, []⟩ :: data.current, data.reported⟩) := by
  obtain ⟨p₁, hr₁, h₁⟩ := h.toInText.reads_open
  obtain ⟨-, q, hr₂, hq⟩ := h₁.reads_head hvalid
  rw [StreamData.tagHook_single (by rw [map_fst_att]; exact hvalid.nodup) hopen] at hq
  refine ⟨q, ?_, hq⟩
  have hread := hr₁.trans hr₂
  simp only [Markup.startRaw, List.append_assoc, List.cons_append, List.nil_append] at hread ⊢
  exact hread

/-- **The parts of an element** are read into it. -/
theorem readsParts : ∀ l : List Markup, Markup.AllValid l → ReadsParts l
  | [], _ => fun p _ _ _ h => ⟨p, Reads.nil, h⟩
  | .element name attribs blanks children endBlanks :: rest, hl => by
      intro p x more reported h
      rw [Markup.AllValid, Markup.Valid] at hl
      obtain ⟨⟨hvalid, hchildren, hend⟩, hrest⟩ := hl
      obtain ⟨p₁, hr₁, h₁⟩ := h.reads_element hvalid hend (Or.inl nofun) (readsParts children hchildren)
      obtain ⟨p₂, hr₂, h₂⟩ := h₁.reads
      obtain ⟨q, hr, hq⟩ := readsParts rest hrest p₂ _ _ _ h₂
      exact ⟨q, by
        have hread := (hr₁.trans hr₂).trans hr
        rw [Markup.raws, Markup.raw]
        exact hread, hq⟩
  | .single name attribs blanks :: rest, hl => by
      intro p x more reported h
      rw [Markup.AllValid, Markup.Valid] at hl
      obtain ⟨hvalid, hrest⟩ := hl
      obtain ⟨p₁, hr₁, h₁⟩ := h.reads_single hvalid (Or.inl nofun)
      obtain ⟨p₂, hr₂, h₂⟩ := h₁.reads
      obtain ⟨q, hr, hq⟩ := readsParts rest hrest p₂ _ _ _ h₂
      exact ⟨q, by
        have hread := (hr₁.trans hr₂).trans hr
        simp only [Markup.raws, Markup.raw, List.append_assoc, List.cons_append,
          List.nil_append] at hread ⊢
        exact hread, hq⟩
  | .text s :: rest, hl => by
      intro p x more reported h
      rw [Markup.AllValid, Markup.Valid] at hl
      obtain ⟨p₁, hr₁, h₁⟩ := h.reads_text hl.1
      rw [addText_cons] at h₁
      obtain ⟨q, hr, hq⟩ := readsParts rest hl.2 p₁ _ _ _ h₁
      rw [Markup.nodes, Markup.node, OpenTag.insertAll_joinText _ s.nul_free]
      exact ⟨q, hr₁.trans hr, hq⟩
  | .entity name :: rest, hl => by
      intro p x more reported h
      rw [Markup.AllValid, Markup.Valid] at hl
      obtain ⟨p₁, hr₁, h₁⟩ := h.reads_entity hl.1.1 hl.1.2
      rw [addText_cons] at h₁
      obtain ⟨q, hr, hq⟩ := readsParts rest hl.2 p₁ _ _ _ h₁
      rw [Markup.nodes, Markup.node, OpenTag.insertAll_joinText _ (by
        rw [List.mem_singleton]
        exact (entityChar_ne _).symm)]
      exact ⟨q, hr₁.trans hr, hq⟩
  | .instruction l :: rest, hl => by
      intro p x more reported h
      rw [Markup.AllValid, Markup.Valid] at hl
      obtain ⟨p₁, hr₁, h₁⟩ := h.reads_instruction hl.1.1 hl.1.2
      obtain ⟨q, hr, hq⟩ := readsParts rest hl.2 p₁ _ _ _ h₁
      exact ⟨q, hr₁.trans hr, hq⟩

/-! ## Streams -/

/-- Between two stanzas a text is not kept. -/
theorem InMarkup.reads_quiet {reported : List (IksNodeType × Option Iks)} {l : List Markup}
    (h : p.InMarkup ⟨[], reported⟩) (hl : Markup.AllValid l) (hquiet : ∀ m ∈ l, m.Quiet) :
    ∃ q, p.Reads (Markup.raws l) q ∧ q.InMarkup ⟨[], reported⟩ := by
  induction l generalizing p with
  | nil => exact ⟨p, Reads.nil, h⟩
  | cons m rest ih =>
      rw [Markup.AllValid] at hl
      obtain ⟨hm, hrest⟩ := hl
      have hread : ∃ q, p.Reads m.raw q ∧ q.InMarkup ⟨[], reported⟩ := by
        cases m with
        | element name attribs blanks children endBlanks => exact (hquiet _ List.mem_cons_self).elim
        | single name attribs blanks => exact (hquiet _ List.mem_cons_self).elim
        | text s =>
            obtain ⟨q, hr, hq⟩ := h.reads_text hm
            exact ⟨q, hr, addText_nil reported _ ▸ hq⟩
        | entity name =>
            rw [Markup.Valid] at hm
            obtain ⟨q, hr, hq⟩ := h.reads_entity hm.1 hm.2
            exact ⟨q, hr, addText_nil reported _ ▸ hq⟩
        | instruction l =>
            rw [Markup.Valid] at hm
            exact h.reads_instruction hm.1 hm.2
      obtain ⟨p₁, hr₁, h₁⟩ := hread
      obtain ⟨q, hr, hq⟩ := ih h₁ hrest fun m' hm' => hquiet m' (List.mem_cons_of_mem m hm')
      exact ⟨q, hr₁.trans hr, hq⟩

/-- **The start tag of a stream**, before its last character. -/
theorem InMarkup.reads_header {reported : List (IksNodeType × Option Iks)}
    (h : p.InMarkup ⟨[], reported⟩)
    (hvalid : Markup.ValidTag (CStr.lit "stream:stream") attribs blanks) :
    ∃ q, p.Reads (Markup.startRaw (CStr.lit "stream:stream") attribs blanks) q ∧
      q.AtEnd ⟨[], reported⟩ ⟨[], reported ++ [(.IKS_NODE_START,
        some (.tag (CStr.lit "stream:stream") (attribs.map AttribMarkup.att) []))]⟩ := by
  obtain ⟨p₁, hr₁, h₁⟩ := h.toInText.reads_open
  obtain ⟨⟨q, hr₂, hq⟩, -⟩ := h₁.reads_head hvalid
  have hhook : StreamData.tagHook ⟨[], reported⟩ (CStr.lit "stream:stream")
      (attribs.map AttribMarkup.att) .IKS_OPEN = ⟨[], reported ++ [(.IKS_NODE_START,
        some (.tag (CStr.lit "stream:stream") (attribs.map AttribMarkup.att) []))]⟩ := by
    show StreamData.openTag (CStr.lit "stream:stream") (attribs.map AttribMarkup.att) false
      ⟨[], reported⟩ = _
    rw [StreamData.openTag, if_pos ⟨rfl, rfl⟩, insert_attribs_eq (by
      rw [map_fst_att]
      exact hvalid.nodup)]
    rfl
  rw [hhook] at hq
  exact ⟨q, hr₁.trans hr₂, hq⟩

/-- An element that is reported when it ends. -/
theorem close_normal {attribs : List (CStr × CStr)} {children : List Iks}
    {reported : List (IksNodeType × Option Iks)}
    (hnormal : (Iks.tag name attribs children).Normal) :
    StreamData.close name ⟨[⟨name, attribs, children⟩], reported⟩ =
      ⟨[], reported ++ [(.IKS_NODE_NORMAL, some (.tag name attribs children))]⟩ := by
  show (if name = CStr.lit "challenge" then _ else if name = CStr.lit "stream:error" then _ else _) = _
  rw [if_neg hnormal.2.2, if_neg hnormal.2.1]
  rfl

/-- **An element between two others**, before its last character. -/
theorem InMarkup.reads_top {reported : List (IksNodeType × Option Iks)} {m : Markup} {x : Iks}
    (h : p.InMarkup ⟨[], reported⟩) (hm : m.node [] = [x]) (hloud : ¬m.Quiet) (hvalid : m.Valid)
    (hnormal : x.Normal) : ∃ init q, m.raw = init ++ [ascii '>'] ∧ p.Reads init q ∧
      q.user_data.reported = reported ∧ ∃ r, q.Reads [ascii '>'] r ∧
        r.InContent ⟨[], reported ++ [(.IKS_NODE_NORMAL, some x)]⟩ := by
  cases m with
  | element name attribs blanks children endBlanks =>
      rw [Markup.node] at hm
      cases hm
      rw [Markup.Valid] at hvalid
      obtain ⟨htag, hchildren, hend⟩ := hvalid
      obtain ⟨q, hr, hdata, r, hstep, hq⟩ := h.reads_element htag hend (Or.inr hnormal.1)
        (readsParts children hchildren)
      rw [close_normal hnormal] at hq
      exact ⟨_, q, by rw [Markup.raw], hr, by rw [hdata], r, hstep, hq⟩
  | single name attribs blanks =>
      rw [Markup.node] at hm
      cases hm
      rw [Markup.Valid] at hvalid
      obtain ⟨q, hr, hdata, r, hstep, hq⟩ := h.reads_single hvalid (Or.inr hnormal.1)
      rw [close_normal hnormal] at hq
      refine ⟨_, q, ?_, hr, by rw [hdata], r, hstep, hq⟩
      rw [Markup.raw, List.append_assoc]
      rfl
  | text s => exact (hloud trivial).elim
  | entity name => exact (hloud trivial).elim
  | instruction l => exact (hloud trivial).elim

end IksParser

/-! ## Stanzas -/

namespace IksStanza

open IksParser

theorem quiet_nil : ∀ m ∈ ([] : List Markup), m.Quiet := fun _ hm => absurd hm List.not_mem_nil

/-- An element, with what stands in front of it. -/
def ofMarkup (lead : List Markup) (m : Markup) (x : Iks) (hlead : Markup.AllValid lead)
    (hquiet : ∀ m ∈ lead, m.Quiet) (hm : m.node [] = [x]) (hloud : ¬m.Quiet) (hvalid : m.Valid)
    (hnormal : x.Normal) : IksStanza where
  text := Markup.raws lead ++ m.raw
  node := (.IKS_NODE_NORMAL, some x)
  reads {p reported} h := by
    obtain ⟨p₁, hr₁, h₁⟩ := (InContent.inMarkup h).reads_quiet hlead hquiet
    obtain ⟨init, q, hraw, hr₂, hreported, r, hstep, hr⟩ := h₁.reads_top hm hloud hvalid hnormal
    exact ⟨_, ascii '>', q, r, by rw [hraw, ← List.append_assoc], hr₁.trans hr₂, hreported, hstep, hr⟩

/-- The start tag of a stream, with what stands in front of it. -/
def header (lead : List Markup) (attribs : List AttribMarkup) (blanks : List Byte)
    (hlead : Markup.AllValid lead) (hquiet : ∀ m ∈ lead, m.Quiet)
    (hvalid : Markup.ValidTag (CStr.lit "stream:stream") attribs blanks) : IksStanza where
  text := Markup.raws lead ++ (Markup.startRaw (CStr.lit "stream:stream") attribs blanks ++ [ascii '>'])
  node := (.IKS_NODE_START,
    some (.tag (CStr.lit "stream:stream") (attribs.map AttribMarkup.att) []))
  reads {p reported} h := by
    obtain ⟨p₁, hr₁, h₁⟩ := (InContent.inMarkup h).reads_quiet hlead hquiet
    obtain ⟨q, hr₂, hdata, r, hstep, hr⟩ := h₁.reads_header hvalid
    exact ⟨_, ascii '>', q, r, (List.append_assoc ..).symm, hr₁.trans hr₂, by rw [hdata], hstep, hr⟩

end IksStanza

end Netflow
