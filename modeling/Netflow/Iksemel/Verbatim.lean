import Netflow.Iksemel.Contexts
import Mathlib.Algebra.GroupWithZero.Nat

set_option autoImplicit false

/-! # Texts that are read back as they were written

A text between two tags is not always handed over as it stands: an entity becomes one character,
comments and the marks of a CDATA section become none, and a tag in it is a tag. `SaxEvent` are the
calls of the hooks. What was written by `TextTag.raw` is read back as `TextTag.events` exactly when
its texts are `CStr.Verbatim`.

For the converse the calls are weighed: a call weighs no more than the bytes it was read from, and as
much as the bytes it is written with. When nothing is lost, all texts were read byte by byte.
-/

namespace Netflow

/-- A call of a hook; a text is one call for each of its bytes. -/
inductive SaxEvent where
  | tag (name : CStr) (atts : List (CStr × CStr)) (type : IksTagType)
  | char (c : Byte)
deriving DecidableEq

instance : IksHooks (List SaxEvent) where
  tagHook log name atts type := some (log ++ [.tag name atts type])
  cdataHook log cdata := some (log ++ cdata.map .char)

/-- The calls a document leads to, when it is read to its end and the end is between two tags. -/
def saxEvents (data : CStr) : Option (List SaxEvent) :=
  ((IksParser.new ([] : List SaxEvent)).iks_parse data).bind fun p =>
    if p.context = .C_CDATA ∧ p.uni_max = 0 then some p.user_data else none

/-! ## Sequences beyond ASCII -/

/-- How many bytes of a sequence are missing behind a text, when `left` are missing before it. -/
def uniLeft (left : Nat) : List Byte → Option Nat
  | [] => some left
  | c :: l =>
      if left ≠ 0 then if c &&& 0xC0 = 0x80 then uniLeft (left - 1) l else none
      else if c &&& 0x80 = 0 then uniLeft 0 l
      else (uniLength c).bind fun max => uniLeft (max - 1) l

/-- A text without markup that ends with a whole sequence. -/
structure CStr.Verbatim (s : CStr) : Prop where
  unmarked : ∀ c ∈ s.chars, c ≠ ascii '<' ∧ c ≠ ascii '&'
  whole : uniLeft 0 s.chars = some 0

instance (s : CStr) : Decidable s.Verbatim :=
  haveI : Decidable (∀ c ∈ s.chars, c ≠ ascii '<' ∧ c ≠ ascii '&') := List.decidableBAll ..
  decidable_of_iff ((∀ c ∈ s.chars, c ≠ ascii '<' ∧ c ≠ ascii '&') ∧ uniLeft 0 s.chars = some 0)
    ⟨fun h => ⟨h.1, h.2⟩, fun h => ⟨h.1, h.2⟩⟩

/-- A text and the tag behind it, which has no attributes. -/
structure TextTag where
  text : CStr
  close : Bool
  name : CStr

namespace TextTag

def type (x : TextTag) : IksTagType := if x.close then .IKS_CLOSE else .IKS_OPEN

def tag (x : TextTag) : List Byte :=
  ascii '<' :: (if x.close then [ascii '/'] else []) ++ x.name.chars ++ [ascii '>']

def raw (x : TextTag) : List Byte := x.text.chars ++ x.tag

def events (x : TextTag) : List SaxEvent :=
  x.text.chars.map .char ++ [.tag x.name [] x.type]

end TextTag

/-- The bytes a call is written with at least. -/
def SaxEvent.weight : SaxEvent → Nat
  | .tag name _ type => (if type = .IKS_OPEN then 2 else 3) + name.chars.length
  | .char _ => 1

/-- What a list of calls weighs. -/
def weight (log : List SaxEvent) : Nat := (log.map SaxEvent.weight).sum

theorem weight_append (log log' : List SaxEvent) : weight (log ++ log') = weight log + weight log' := by
  rw [weight, List.map_append, List.sum_append]
  rfl

theorem weight_chars (l : List Byte) : weight (l.map .char) = l.length := by
  induction l with
  | nil => rfl
  | cons c l ih =>
      show 1 + weight (l.map .char) = l.length + 1
      rw [ih, Nat.add_comm]

theorem weight_tag (name : CStr) (atts : List (CStr × CStr)) (type : IksTagType) :
    weight [.tag name atts type] = (if type = .IKS_OPEN then 2 else 3) + name.chars.length :=
  Nat.add_zero _

theorem TextTag.weight_events (x : TextTag) : weight x.events = x.raw.length := by
  rw [events, weight_append, weight_chars, weight_tag]
  obtain ⟨text, close, name⟩ := x
  cases close <;> simp [raw, tag, type] <;> omega

theorem weight_flatMap_events (xs : List TextTag) :
    weight (xs.flatMap TextTag.events) = (xs.flatMap TextTag.raw).length := by
  induction xs with
  | nil => rfl
  | cons x rest ih =>
      rw [List.flatMap_cons, List.flatMap_cons, weight_append, ih, List.length_append,
        x.weight_events]

/-- The texts among some calls hold no markup. -/
def Unmarked (log : List SaxEvent) : Prop := ∀ c, .char c ∈ log → c ≠ ascii '<' ∧ c ≠ ascii '&'

theorem Unmarked.append {log log' : List SaxEvent} (h : Unmarked log) (h' : Unmarked log') :
    Unmarked (log ++ log') := by
  intro c hc
  rcases List.mem_append.mp hc with hc | hc
  · exact h c hc
  · exact h' c hc

theorem unmarked_chars {l : List Byte} (h : ∀ c ∈ l, c ≠ ascii '<' ∧ c ≠ ascii '&') :
    Unmarked (l.map .char) := by
  intro c hc
  obtain ⟨d, hd, heq⟩ := List.mem_map.mp hc
  cases heq
  exact h c hd

theorem unmarked_tag (name : CStr) (atts : List (CStr × CStr)) (type : IksTagType) :
    Unmarked [.tag name atts type] := by
  intro c hc
  cases List.mem_singleton.mp hc

namespace IksParser

variable {p q r : IksParser (List SaxEvent)}

/-- The bytes of a tag before its name. -/
def tagHead (p : IksParser (List SaxEvent)) : Nat := if p.tagtype = .IKS_OPEN then 1 else 2

/-- What the part of the text weighs that is read and not handed over yet. -/
def held (p : IksParser (List SaxEvent)) : Nat :=
  match p.context with
  | .C_CDATA | .C_SECT_CDATA_C => p.cdata.length
  | .C_TAG_START | .C_SECT_CDATA_E => 1
  | .C_SECT_CDATA_E2 => 2
  | .C_TAG => p.tagHead + p.text.length
  | .C_TAG_END | .C_ATTRIBUTE | .C_ATTRIBUTE_1 | .C_ATTRIBUTE_2 | .C_VALUE | .C_VALUE_APOS
  | .C_VALUE_QUOT | .C_WHITESPACE => p.tagHead + p.tag_name.length
  | _ => 0

/-- What was handed over and what is held. -/
def total (p : IksParser (List SaxEvent)) : Nat := weight p.user_data + p.held

theorem flush_log (p : IksParser (List SaxEvent)) :
    p.flush = some { p with user_data := p.user_data ++ p.cdata.map .char, cdata := [] } := by
  rw [flush]
  split
  · next h =>
      obtain ⟨⟩ := p
      cases h
      simp
  · rfl

theorem length_ofChars_le (l : List Byte) : (CStr.ofChars l).chars.length ≤ l.length :=
  (List.takeWhile_prefix _).length_le

/-- The end of a tag hands the tag over. -/
theorem total_tagEnd {c : Byte} (h : p.tagEnd c = some q) (hctx : p.context = .C_TAG_END) :
    q.total ≤ p.total + 1 := by
  unfold tagEnd at h
  split at h
  · cases h
  · have hq : some { p with
        user_data := p.user_data ++ [.tag (CStr.ofChars p.tag_name) p.atts p.tagtype], atts := [],
        stack_old := false, context := .C_CDATA, cdata := [] } = some q := h
    cases hq
    have hname := length_ofChars_le p.tag_name
    have hp : p.total = weight p.user_data + (p.tagHead + p.tag_name.length) := by
      rw [total, held, hctx]
    show weight (p.user_data ++ [.tag (CStr.ofChars p.tag_name) p.atts p.tagtype]) + 0 ≤ _
    rw [hp, weight_append, weight_tag, tagHead]
    split <;> omega

/-- What a tag weighs whose name was read. -/
def tagTotal (p : IksParser (List SaxEvent)) : Nat :=
  weight p.user_data + (p.tagHead + p.tag_name.length)

theorem tagHead_le (p : IksParser (List SaxEvent)) : 1 ≤ p.tagHead ∧ p.tagHead ≤ 2 := by
  rw [tagHead]
  split <;> decide

theorem total_attribName {c : Byte} (h : p.attribName c = some q) : q.total ≤ p.tagTotal + 1 := by
  have hhead := p.tagHead_le
  unfold attribName at h
  split at h
  · cases h
    show weight p.user_data + (2 + p.tag_name.length) ≤ _
    rw [tagTotal]
    omega
  · split at h
    · exact total_tagEnd h rfl
    · cases h
      exact Nat.le_succ _

theorem total_attribEnd {c : Byte} (h : p.attribEnd c = some q) : q.total ≤ p.tagTotal + 1 := by
  have hhead := p.tagHead_le
  unfold attribEnd at h
  split at h
  · split at h
    · cases h
      show weight p.user_data + (2 + p.tag_name.length) ≤ _
      rw [tagTotal]
      omega
    · cases h
  · split at h
    · split at h
      · exact total_tagEnd h rfl
      · cases h
    · exact total_attribName h

theorem total_whitespace {c : Byte} (h : p.whitespace c = some q) (hctx : p.context = .C_WHITESPACE) :
    q.total ≤ p.tagTotal + 1 := by
  unfold whitespace at h
  split at h
  · cases h
    rw [total, held, hctx]
    exact Nat.le_succ _
  · split at h
    · exact total_tagEnd h rfl
    · exact total_attribName h
    · exact total_attribEnd h
    · cases h

theorem total_tag {c : Byte} (h : p.tag c = some q) (hctx : p.context = .C_TAG) :
    q.total ≤ p.total + 1 := by
  have hhead := p.tagHead_le
  have hp : p.total = weight p.user_data + (p.tagHead + p.text.length) := by rw [total, held, hctx]
  unfold tag at h
  split at h
  · cases h
    rw [hp]
    exact Nat.le_succ _
  · split at h
    · split at h
      · cases h
      · cases h
        show weight p.user_data + (2 + p.text.length) ≤ _
        omega
    · split at h
      · rw [hp]
        exact total_tagEnd h rfl
      · cases h
        have hcollect : (p.collect c).context = .C_TAG := hctx
        rw [hp, total, held, hcollect]
        show weight p.user_data + (p.tagHead + (p.text ++ [c]).length) ≤ _
        rw [List.length_append, List.length_singleton]
        omega

theorem total_le (hdata : q.user_data = p.user_data) (hheld : q.held ≤ p.held + 1) :
    q.total ≤ p.total + 1 := by
  rw [total, total, hdata]
  omega

/-- The characters of an attribute were held with the tag already. -/
theorem total_collect {c : Byte} (hctx : p.context = .C_ATTRIBUTE_1 ∨ p.context = .C_VALUE_APOS ∨
    p.context = .C_VALUE_QUOT) : (p.collect c).total ≤ p.total + 1 := by
  have hsame : (p.collect c).context = p.context := rfl
  refine total_le rfl ?_
  obtain hctx | hctx | hctx := hctx
  · rw [held, held, hsame, hctx]
    exact Nat.le_succ _
  · rw [held, held, hsame, hctx]
    exact Nat.le_succ _
  · rw [held, held, hsame, hctx]
    exact Nat.le_succ _

theorem total_value {quote c : Byte}
    (hctx : p.context = .C_VALUE_APOS ∨ p.context = .C_VALUE_QUOT) :
    (p.value quote c).total ≤ p.total + 1 := by
  unfold value
  split
  · refine total_le rfl ?_
    obtain hctx | hctx := hctx
    · rw [held, held, hctx]
      exact Nat.le_succ _
    · rw [held, held, hctx]
      exact Nat.le_succ _
  · exact total_collect (Or.inr hctx)

/-- A context that is left by one character only, for one that holds nothing more. -/
theorem total_expect {c expected : Byte} {context : IksContext}
    (h : p.expect c expected context = some q)
    (hheld : held { p with context := context } ≤ p.held + 1) : q.total ≤ p.total + 1 := by
  unfold expect at h
  split at h
  · cases h
    exact total_le rfl hheld
  · cases h

/-- A context that is left for a text. -/
theorem total_expectText {c expected : Byte} {context : IksContext}
    (h : ((p.expect c expected context).map fun r => { r with cdata := [] }) = some q)
    (hheld : held { p with context := context, cdata := [] } ≤ p.held + 1) : q.total ≤ p.total + 1 := by
  obtain ⟨r, hr, rfl⟩ := Option.map_eq_some_iff.mp h
  unfold expect at hr
  split at hr
  · cases hr
    exact total_le rfl hheld
  · cases hr

/-- The text that is held is handed over. -/
theorem total_flush (hheld : p.held = p.cdata.length) {context : IksContext} {entity : List Byte}
    (hnext : held { p with context := context, cdata := [] } ≤ 1) :
    total { p with
      user_data := p.user_data ++ p.cdata.map .char, cdata := [], context := context
      entity := entity } ≤ p.total + 1 := by
  have hnext' : held { p with
      user_data := p.user_data ++ p.cdata.map .char, cdata := [], context := context
      entity := entity } ≤ 1 := hnext
  rw [total, total, hheld]
  show weight (p.user_data ++ p.cdata.map .char) + _ ≤ _
  rw [weight_append, weight_chars]
  omega

section Contexts

variable {c : Byte} (h : p.onContext c = some q)

include h

theorem total_cdata (hctx : p.context = .C_CDATA) : q.total ≤ p.total + 1 := by
  have hheld : p.held = p.cdata.length := by rw [held, hctx]
  rw [onContext, hctx] at h
  dsimp only at h
  split at h
  · -- the ampersand of an entity is held nowhere
    rw [flush_log] at h
    cases h
    exact total_flush hheld (Nat.zero_le _)
  · split at h
    · -- the bracket of a tag is held until the tag is handed over
      rw [flush_log] at h
      cases h
      exact total_flush hheld (Nat.le_refl _)
    · cases h
      refine total_le rfl ?_
      rw [hheld]
      exact Nat.le_of_eq List.length_append

theorem total_tagStart (hctx : p.context = .C_TAG_START) : q.total ≤ p.total + 1 := by
  have hheld : p.held = 1 := by rw [held, hctx]
  rw [onContext, hctx] at h
  dsimp only at h
  cases h
  unfold tagStart
  split
  · exact total_le rfl (by rw [hheld]; exact Nat.le_refl _)
  · split
    · exact total_le rfl (Nat.zero_le _)
    · split
      · exact total_le rfl (Nat.zero_le _)
      · exact total_le rfl (by rw [hheld]; exact Nat.le_refl _)

theorem total_attribText (hctx : p.context = .C_ATTRIBUTE_1) : q.total ≤ p.total + 1 := by
  have hheld : p.held = p.tagHead + p.tag_name.length := by rw [held, hctx]
  rw [onContext, hctx] at h
  dsimp only at h
  split at h
  · cases h
    exact total_le rfl (by rw [hheld]; exact Nat.le_succ _)
  · cases h
    exact total_collect (Or.inl hctx)

theorem total_quote (hctx : p.context = .C_VALUE) : q.total ≤ p.total + 1 := by
  have hheld : p.held = p.tagHead + p.tag_name.length := by rw [held, hctx]
  rw [onContext, hctx] at h
  dsimp only at h
  split at h
  · cases h
    exact total_le rfl (by rw [hheld]; exact Nat.le_succ _)
  · split at h
    · cases h
      exact total_le rfl (by rw [hheld]; exact Nat.le_succ _)
    · cases h

theorem total_entity (hctx : p.context = .C_ENTITY) : q.total ≤ p.total + 1 := by
  rw [onContext, hctx] at h
  dsimp only at h
  split at h
  · cases h
    show weight (p.user_data ++ [.char _]) + 0 ≤ _
    rw [weight_append, total]
    exact Nat.add_le_add_right (Nat.le_add_right _ _) 1
  · split at h
    · cases h
    · cases h
      exact total_le rfl (Nat.zero_le _)

/-! Comments, CDATA markers and instructions hold nothing: their bytes are for free. -/

theorem total_comment (hctx : p.context = .C_COMMENT_1 ∨ p.context = .C_COMMENT_2) :
    q.total ≤ p.total + 1 := by
  obtain hctx | hctx := hctx
  · rw [onContext, hctx] at h
    cases h
    split
    · exact total_le rfl (Nat.zero_le _)
    · exact total_le rfl (Nat.le_succ _)
  · rw [onContext, hctx] at h
    cases h
    refine total_le rfl ?_
    split
    · exact Nat.zero_le _
    · exact Nat.zero_le _

theorem total_markup (hctx : p.context = .C_MARKUP) : q.total ≤ p.total + 1 := by
  rw [onContext, hctx] at h
  dsimp only at h
  split at h
  · cases h
    exact total_le rfl (Nat.zero_le _)
  · split at h
    · cases h
      exact total_le rfl (Nat.zero_le _)
    · split at h
      · cases h
        exact total_le rfl (Nat.zero_le _)
      · cases h
        exact total_le rfl (Nat.zero_le _)

/-- What is skipped up to a bracket. -/
theorem total_instruction (hctx : p.context = .C_MARKUP_1 ∨ p.context = .C_PI) :
    q.total ≤ p.total + 1 := by
  rw [onContext_instruction hctx] at h
  cases h
  split
  · exact total_le rfl (Nat.zero_le _)
  · exact total_le rfl (Nat.le_succ _)

theorem total_section (hctx : p.context = .C_SECT_CDATA_C) : q.total ≤ p.total + 1 := by
  have hheld : p.held = p.cdata.length := by rw [held, hctx]
  rw [onContext, hctx] at h
  dsimp only at h
  split at h
  · rw [flush_log] at h
    cases h
    exact total_flush hheld (Nat.le_refl _)
  · cases h
    refine total_le rfl ?_
    rw [hheld]
    exact Nat.le_of_eq List.length_append

/-- A bracket in a CDATA section is held until it is known not to end it. -/
theorem total_sectionEnd (hctx : p.context = .C_SECT_CDATA_E ∨ p.context = .C_SECT_CDATA_E2) :
    q.total ≤ p.total + 1 := by
  obtain hctx | hctx := hctx
  · have hheld : p.held = 1 := by rw [held, hctx]
    rw [onContext, hctx] at h
    dsimp only at h
    split at h
    · cases h
      exact total_le rfl (by rw [hheld]; exact Nat.le_refl _)
    · cases h
      show weight (p.user_data ++ [.char _]) + 1 ≤ _
      rw [weight_append, total, hheld]
      exact Nat.le_refl _
  · have hheld : p.held = 2 := by rw [held, hctx]
    rw [onContext, hctx] at h
    dsimp only at h
    split at h
    · cases h
      exact total_le rfl (Nat.zero_le _)
    · cases h
      show weight (p.user_data ++ [.char _, .char _]) + 1 ≤ _
      rw [weight_append, total, hheld]
      exact Nat.le_refl _

/-- The contexts of a tag behind its name. -/
theorem total_tagged (hctx : p.context = .C_ATTRIBUTE ∨ p.context = .C_ATTRIBUTE_2 ∨
    p.context = .C_WHITESPACE) : q.total ≤ p.total + 1 := by
  have hp : p.total = p.tagTotal := by
    rw [total, held, tagTotal]
    rcases hctx with hctx | hctx | hctx <;> rw [hctx]
  rw [hp]
  rcases hctx with hctx | hctx | hctx
  · rw [onContext, hctx] at h
    exact total_attribName h
  · rw [onContext, hctx] at h
    exact total_attribEnd h
  · rw [onContext, hctx] at h
    exact total_whitespace h hctx

/-- **No call weighs more than it was read from**: a byte adds one at most. -/
theorem total_onContext : q.total ≤ p.total + 1 := by
  cases hctx : p.context with
  | C_CDATA => exact total_cdata h hctx
  | C_TAG_START => exact total_tagStart h hctx
  | C_ATTRIBUTE_1 => exact total_attribText h hctx
  | C_VALUE => exact total_quote h hctx
  | C_ENTITY => exact total_entity h hctx
  | C_COMMENT_1 => exact total_comment h (Or.inl hctx)
  | C_COMMENT_2 => exact total_comment h (Or.inr hctx)
  | C_MARKUP => exact total_markup h hctx
  | C_MARKUP_1 => exact total_instruction h (Or.inl hctx)
  | C_PI => exact total_instruction h (Or.inr hctx)
  | C_SECT_CDATA_C => exact total_section h hctx
  | C_SECT_CDATA_E => exact total_sectionEnd h (Or.inl hctx)
  | C_SECT_CDATA_E2 => exact total_sectionEnd h (Or.inr hctx)
  | C_ATTRIBUTE => exact total_tagged h (Or.inl hctx)
  | C_ATTRIBUTE_2 => exact total_tagged h (Or.inr (Or.inl hctx))
  | C_WHITESPACE => exact total_tagged h (Or.inr (Or.inr hctx))
  | C_TAG =>
      rw [onContext, hctx] at h
      exact total_tag h hctx
  | C_TAG_END =>
      rw [onContext, hctx] at h
      exact total_tagEnd h hctx
  | C_VALUE_APOS =>
      rw [onContext, hctx] at h
      cases h
      exact total_value (Or.inl hctx)
  | C_VALUE_QUOT =>
      rw [onContext, hctx] at h
      cases h
      exact total_value (Or.inr hctx)
  | C_COMMENT_3 | C_SECT_CDATA_4 =>
      rw [onContext, hctx] at h
      exact total_expectText h (Nat.zero_le _)
  | C_COMMENT | C_SECT | C_SECT_CDATA | C_SECT_CDATA_1 | C_SECT_CDATA_2 | C_SECT_CDATA_3 =>
      rw [onContext, hctx] at h
      exact total_expect h (Nat.zero_le _)

end Contexts

theorem total_keep (c : Byte) (p : IksParser (List SaxEvent)) (uni_max uni_len : Nat) :
    total { p.keep c with uni_max := uni_max, uni_len := uni_len } ≤ p.total + 1 := by
  unfold keep
  cases hctx : p.context with
  | C_CDATA | C_SECT_CDATA_C =>
      exact total_le rfl (by rw [held, held, hctx]; exact Nat.le_of_eq List.length_append)
  | C_TAG =>
      dsimp only
      split
      · refine total_le rfl ?_
        rw [held, held, hctx]
        show p.tagHead + (p.text ++ [c]).length ≤ _
        rw [List.length_append, List.length_singleton, ← Nat.add_assoc]
      · exact total_le rfl (by rw [held, held, hctx]; exact Nat.le_succ _)
  | C_ATTRIBUTE_1 | C_VALUE_APOS | C_VALUE_QUOT =>
      dsimp only
      split
      · exact total_le rfl (by rw [held, held, hctx]; exact Nat.le_succ _)
      · exact total_le rfl (by rw [held, held, hctx]; exact Nat.le_succ _)
  | _ => exact total_le rfl (by rw [held, held, hctx]; exact Nat.le_succ _)

/-- A mark weighs nothing. -/
theorem total_mark (p : IksParser (List SaxEvent)) : p.mark.total = p.total := by
  rw [mark]
  split
  · rfl
  · rfl

theorem total_step {c : Byte} (h : p.step c = some q) : q.total ≤ p.total + 1 := by
  unfold step at h
  split at h
  · cases h
  · split at h
    · split at h
      · cases h
      · cases h
        exact total_keep c p _ _
    · split at h
      · obtain ⟨max, -, rfl⟩ := Option.map_eq_some_iff.mp h
        exact p.total_mark ▸ total_keep c p.mark _ _
      · exact total_onContext h

/-! ## Nothing is lost -/

/-- The parser is in a text or in a tag without attributes, and no text it read holds markup. -/
structure Clean (p : IksParser (List SaxEvent)) : Prop where
  context : p.context = .C_CDATA ∨ p.context = .C_TAG_START ∨ p.context = .C_TAG ∨
    p.context = .C_TAG_END
  log : Unmarked p.user_data
  cdata : ∀ c ∈ p.cdata, c ≠ ascii '<' ∧ c ≠ ascii '&'

theorem Clean.tagEnd {c : Byte} (h : p.Clean) (hstep : p.tagEnd c = some q) : q.Clean := by
  unfold IksParser.tagEnd at hstep
  split at hstep
  · cases hstep
  · have hq : some { p with
        user_data := p.user_data ++ [.tag (CStr.ofChars p.tag_name) p.atts p.tagtype], atts := [],
        stack_old := false, context := .C_CDATA, cdata := [] } = some q := hstep
    cases hq
    exact ⟨Or.inl rfl, h.log.append (unmarked_tag _ _ _), nofun⟩

/-- A byte of a text or of a tag. White space in a tag is lost. -/
theorem Clean.onContext {c : Byte} (h : p.Clean) (hstep : p.onContext c = some q) :
    q.Clean ∨ q.total ≤ p.total := by
  obtain hctx | hctx | hctx | hctx := h.context
  · have hheld : p.held = p.cdata.length := by rw [held, hctx]
    rw [IksParser.onContext, hctx] at hstep
    dsimp only at hstep
    split at hstep
    · -- an entity: its ampersand is never made up for
      rw [flush_log] at hstep
      cases hstep
      right
      show weight (p.user_data ++ p.cdata.map .char) + 0 ≤ _
      rw [weight_append, weight_chars, total, hheld]
      exact Nat.le_refl _
    · next hamp =>
        split at hstep
        · rw [flush_log] at hstep
          cases hstep
          exact Or.inl ⟨Or.inr (Or.inl rfl), h.log.append (unmarked_chars h.cdata), fun d hd => by cases hd⟩
        · next hlt =>
            cases hstep
            refine Or.inl ⟨Or.inl rfl, h.log, fun d hd => ?_⟩
            rcases List.mem_append.mp hd with hd | hd
            · exact h.cdata d hd
            · cases List.mem_singleton.mp hd
              exact ⟨hlt, hamp⟩
  · have hheld : p.held = 1 := by rw [held, hctx]
    rw [IksParser.onContext, hctx] at hstep
    cases hstep
    unfold tagStart
    split
    · exact Or.inl ⟨Or.inr (Or.inr (Or.inl rfl)), h.log, h.cdata⟩
    · split
      · -- a processing instruction
        right
        show weight p.user_data + 0 ≤ weight p.user_data + p.held
        exact Nat.add_le_add_left (Nat.zero_le _) _
      · split
        · -- a comment or a CDATA section
          right
          show weight p.user_data + 0 ≤ weight p.user_data + p.held
          exact Nat.add_le_add_left (Nat.zero_le _) _
        · exact Or.inl ⟨Or.inr (Or.inr (Or.inl rfl)), h.log, h.cdata⟩
  · have hp : p.total = weight p.user_data + (p.tagHead + p.text.length) := by rw [total, held, hctx]
    rw [IksParser.onContext, hctx] at hstep
    dsimp only at hstep
    unfold tag at hstep
    split at hstep
    · -- white space behind the name
      cases hstep
      right
      rw [hp]
      exact Nat.le_refl _
    · split at hstep
      · split at hstep
        · cases hstep
        · cases hstep
          exact Or.inl ⟨Or.inr (Or.inr (Or.inr rfl)), h.log, h.cdata⟩
      · split at hstep
        · have hend : Clean { p with context := .C_TAG_END, tag_name := p.text } :=
            ⟨Or.inr (Or.inr (Or.inr rfl)), h.log, h.cdata⟩
          exact Or.inl (hend.tagEnd hstep)
        · cases hstep
          exact Or.inl ⟨h.context, h.log, h.cdata⟩
  · -- behind the `/` of an empty tag
    rw [IksParser.onContext, hctx] at hstep
    exact Or.inl (h.tagEnd hstep)

/-- A byte beyond ASCII is no markup. -/
theorem unmarked_of_high {c : Byte} (h : c &&& 0xC0 = 0x80 ∨ c &&& 0x80 ≠ 0) :
    c ≠ ascii '<' ∧ c ≠ ascii '&' := by
  constructor
  · rintro rfl
    revert h
    decide
  · rintro rfl
    revert h
    decide

theorem Clean.keep {c : Byte} (h : p.Clean) (hc : c ≠ ascii '<' ∧ c ≠ ascii '&')
    (uni_max uni_len : Nat) : Clean { p.keep c with uni_max := uni_max, uni_len := uni_len } := by
  obtain hctx | hctx | hctx | hctx := h.context
  · rw [IksParser.keep, hctx]
    refine ⟨Or.inl rfl, h.log, fun d hd => ?_⟩
    rcases List.mem_append.mp hd with hd | hd
    · exact h.cdata d hd
    · cases List.mem_singleton.mp hd
      exact hc
  · rw [IksParser.keep, hctx]
    exact ⟨Or.inr (Or.inl hctx), h.log, h.cdata⟩
  · rw [IksParser.keep, hctx]
    dsimp only
    split
    · exact ⟨Or.inr (Or.inr (Or.inl rfl)), h.log, h.cdata⟩
    · exact ⟨Or.inr (Or.inr (Or.inl hctx)), h.log, h.cdata⟩
  · rw [IksParser.keep, hctx]
    exact ⟨Or.inr (Or.inr (Or.inr hctx)), h.log, h.cdata⟩

theorem Clean.mark (h : p.Clean) : p.mark.Clean := by
  rw [IksParser.mark]
  split
  · exact ⟨h.context, h.log, h.cdata⟩
  · exact h

/-- **A byte is lost or leaves all texts free of markup.** -/
theorem Clean.step {c : Byte} (h : p.Clean) (hstep : p.step c = some q) :
    q.Clean ∨ q.total ≤ p.total := by
  unfold IksParser.step at hstep
  split at hstep
  · cases hstep
  · split at hstep
    · split at hstep
      · cases hstep
      · next hhigh =>
          cases hstep
          exact Or.inl (h.keep (unmarked_of_high (Or.inl (not_not.mp hhigh))) _ _)
    · split at hstep
      · next hhigh =>
          obtain ⟨max, -, rfl⟩ := Option.map_eq_some_iff.mp hstep
          exact Or.inl (h.mark.keep (unmarked_of_high (Or.inr hhigh)) _ _)
      · exact h.onContext hstep

/-- **The weight of a run**: it grows by the bytes read at most, and by as many only when no text
holds markup. -/
theorem total_reads {l : List Byte} (h : l.foldlM step p = some q) :
    q.total ≤ p.total + l.length ∧
      (p.Clean → q.total = p.total + l.length → q.Clean) := by
  induction l generalizing p with
  | nil =>
      cases h
      exact ⟨Nat.le_refl _, fun hclean _ => hclean⟩
  | cons c l ih =>
      rw [List.foldlM_cons] at h
      obtain ⟨r, hr, hrest⟩ := Option.bind_eq_some_iff.mp h
      obtain ⟨hle, hkeep⟩ := ih hrest
      have hone := total_step hr
      rw [List.length_cons]
      refine ⟨by omega, fun hclean hall => ?_⟩
      obtain hr' | hlost := hclean.step hr
      · exact hkeep hr' (by omega)
      · -- a byte that is lost is missing at the end
        omega

/-! ## Texts and tags -/

/-- The parser is in a text between two tags, of which `text` is not handed over yet. -/
structure InChars (p : IksParser (List SaxEvent)) (log : List SaxEvent) (text : List Byte) : Prop where
  context : p.context = .C_CDATA
  atts : p.atts = []
  user_data : p.user_data = log
  cdata : p.cdata = text
  inside : p.uni_max ≠ 0 → p.uni_len < p.uni_max

/-- The bytes of a sequence that are missing. -/
def left (p : IksParser (List SaxEvent)) : Nat := p.uni_max - p.uni_len

theorem InChars.left_eq_zero {log : List SaxEvent} {text : List Byte} (h : p.InChars log text) :
    p.left = 0 ↔ p.uni_max = 0 := by
  have hinside := h.inside
  rw [left]
  omega

theorem two_le_uniLength {c : Byte} {max : Nat} (h : uniLength c = some max) : 2 ≤ max := by
  unfold uniLength at h
  dsimp only at h
  repeat' split at h
  all_goals cases h
  all_goals decide

theorem uniLength_mark {c : Byte} (h : c = 0xFE ∨ c = 0xFF) :
    uniLength c = none ∧ c &&& 0xC0 ≠ 0x80 ∧ c &&& 0x80 ≠ 0 := by
  rcases h with rfl | rfl
  · decide
  · decide

theorem uniLeft_cons (n : Nat) (c : Byte) (l : List Byte) :
    uniLeft n (c :: l) = (uniLeft n [c]).bind fun m => uniLeft m l := by
  simp only [uniLeft]
  split
  · split
    · rfl
    · rfl
  · split
    · rfl
    · cases uniLength c with
      | none => rfl
      | some max => rfl

/-- A byte of the text is kept, whatever is noted about the sequence it is in. -/
theorem InChars.kept {log : List SaxEvent} {text : List Byte} (h : p.InChars log text) (c : Byte)
    {max len : Nat} (hinside : max ≠ 0 → len < max) :
    { p.keep c with uni_max := max, uni_len := len }.InChars log (text ++ [c]) := by
  have hkeep : p.keep c = { p with cdata := p.cdata ++ [c] } := by rw [keep, h.context]
  rw [hkeep]
  exact ⟨h.context, h.atts, h.user_data, congrArg (· ++ [c]) h.cdata, hinside⟩

/-- **A byte of a text without markup.** -/
theorem InChars.step {log : List SaxEvent} {text : List Byte} (h : p.InChars log text) {c : Byte}
    (hnul : c ≠ 0) (hc : c ≠ ascii '<' ∧ c ≠ ascii '&') :
    (p.step c = none ∧ uniLeft p.left [c] = none) ∨
      ∃ q, p.step c = some q ∧ q.InChars log (text ++ [c]) ∧ uniLeft p.left [c] = some q.left := by
  by_cases hmark : c = 0xFE ∨ c = 0xFF
  · -- the parser refuses these two bytes anywhere, and no sequence has them
    obtain ⟨hlength, hnext, hhigh⟩ := uniLength_mark hmark
    left
    constructor
    · rw [IksParser.step, if_pos (Or.inr hmark)]
    · rw [uniLeft, if_neg hnext, if_neg hhigh, hlength, Option.bind_none, ite_self]
  have hmarks : ¬(c = 0 ∨ c = 0xFE ∨ c = 0xFF) := by
    rintro (h0 | hm)
    · exact hnul h0
    · exact hmark hm
  have hmark' : p.mark = p := mark_of_not_collects (by rw [h.context]; rfl)
  rw [IksParser.step, if_neg hmarks, hmark', uniLeft]
  by_cases huni : p.uni_max = 0
  · rw [if_neg (not_not.mpr huni), if_neg (not_not.mpr (h.left_eq_zero.mpr huni))]
    by_cases hhigh : c &&& 0x80 = 0
    · -- an ASCII character
      rw [if_neg (not_not.mpr hhigh), if_pos hhigh]
      right
      refine ⟨{ p with cdata := p.cdata ++ [c] }, ?_,
        ⟨h.context, h.atts, h.user_data, ?_, h.inside⟩, ?_⟩
      · rw [onContext, h.context]
        show (if c = ascii '&' then _ else if c = ascii '<' then _ else _) = _
        rw [if_neg hc.2, if_neg hc.1]
      · exact congrArg (· ++ [c]) h.cdata
      · show some 0 = some (p.uni_max - p.uni_len)
        rw [huni, Nat.zero_sub]
    · -- the first byte of a sequence
      rw [if_pos hhigh, if_neg hhigh]
      cases hlength : uniLength c with
      | none => exact Or.inl ⟨rfl, rfl⟩
      | some max =>
          have hmax := two_le_uniLength hlength
          exact Or.inr ⟨_, rfl, h.kept c fun _ => hmax, rfl⟩
  · -- a byte inside a sequence
    have hinside := h.inside huni
    rw [if_pos huni, if_pos (fun h0 => huni (h.left_eq_zero.mp h0))]
    by_cases hnext : c &&& 0xC0 = 0x80
    · rw [if_neg (not_not.mpr hnext), if_pos hnext]
      right
      refine ⟨_, rfl, h.kept c fun hne => ?_, ?_⟩
      · -- behind its last byte the sequence is forgotten
        show p.uni_len + 1 < (if p.uni_len + 1 = p.uni_max then 0 else p.uni_max)
        have hne' : (if p.uni_len + 1 = p.uni_max then 0 else p.uni_max) ≠ 0 := hne
        split at hne'
        · exact absurd rfl hne'
        · next hlast =>
            rw [if_neg hlast]
            omega
      · show some (p.uni_max - p.uni_len - 1) =
          some ((if p.uni_len + 1 = p.uni_max then 0 else p.uni_max) - (p.uni_len + 1))
        split
        · next hlast => rw [show p.uni_max - p.uni_len - 1 = 0 by omega, Nat.zero_sub]
        · rw [Nat.sub_sub]
    · rw [if_pos hnext, if_neg hnext]
      exact Or.inl ⟨rfl, rfl⟩

/-- **A text without markup** is read as far as its sequences go. -/
theorem InChars.reads {log : List SaxEvent} {text l : List Byte} (h : p.InChars log text)
    (hnul : (0 : Byte) ∉ l) (hl : ∀ c ∈ l, c ≠ ascii '<' ∧ c ≠ ascii '&') :
    (l.foldlM IksParser.step p = none ∧ uniLeft p.left l = none) ∨
      ∃ q, l.foldlM IksParser.step p = some q ∧ q.InChars log (text ++ l) ∧
        uniLeft p.left l = some q.left := by
  induction l generalizing p text with
  | nil =>
      right
      rw [List.append_nil]
      exact ⟨p, rfl, h, rfl⟩
  | cons c l ih =>
      rw [List.mem_cons, not_or] at hnul
      rw [List.foldlM_cons, uniLeft_cons]
      obtain ⟨hnone, hleft⟩ | ⟨r, hr, hin, hleft⟩ := h.step (Ne.symm hnul.1) (hl c List.mem_cons_self)
      · rw [hnone, hleft]
        exact Or.inl ⟨rfl, rfl⟩
      · rw [hr, hleft]
        have hrest := ih hin hnul.2 fun d hd => hl d (List.mem_cons_of_mem c hd)
        rw [List.append_assoc] at hrest
        exact hrest

/-- The parser is between two tags and has handed over what it read. -/
structure Between (p : IksParser (List SaxEvent)) (log : List SaxEvent) : Prop
    extends p.InChars log [] where
  uni_max : p.uni_max = 0

/-- The parser is at the first character of a tag. -/
structure TagStart (p : IksParser (List SaxEvent)) (log : List SaxEvent) : Prop where
  context : p.context = .C_TAG_START
  uni_max : p.uni_max = 0
  atts : p.atts = []
  user_data : p.user_data = log

/-- The parser has read the name of a tag. -/
structure TagNamed (p : IksParser (List SaxEvent)) (log : List SaxEvent) (type : IksTagType)
    (name : List Byte) : Prop where
  context : p.context = .C_TAG
  uni_max : p.uni_max = 0
  atts : p.atts = []
  tagtype : p.tagtype = type
  text : p.text = name
  user_data : p.user_data = log

section Tags

variable {log : List SaxEvent}

/-- The text is handed over. -/
theorem InChars.step_open {text : List Byte} (h : p.InChars log text) (huni : p.uni_max = 0) :
    ∃ q, p.step (ascii '<') = some q ∧ q.TagStart (log ++ text.map .char) := by
  refine ⟨{ p with
    user_data := p.user_data ++ p.cdata.map .char, cdata := [], context := .C_TAG_START }, ?_,
    rfl, huni, h.atts, ?_⟩
  · rw [step_ascii (by decide) huni, onContext, h.context]
    show (if ascii '<' = ascii '&' then _ else _) = _
    rw [if_neg (by decide), if_pos rfl, flush_log]
    rfl
  · show p.user_data ++ p.cdata.map .char = _
    rw [h.user_data, h.cdata]

/-- More characters of a name. -/
theorem TagNamed.reads_name {type : IksTagType} {text l : List Byte} (h : p.TagNamed log type text)
    (hl : ∀ c ∈ l, nameByte c = true) :
    ∃ q, l.foldlM IksParser.step p = some q ∧ q.TagNamed log type (text ++ l) := by
  obtain ⟨q, hr, hq⟩ := reads_run (Q := fun t p => p.TagNamed log type t) (fun c hc t p hp =>
    ⟨Or.inl hp.uni_max, p.collect c, step_name (hl c hc) hp.context hp.uni_max, hp.context, hp.uni_max,
      hp.atts, hp.tagtype, congrArg (· ++ [c]) hp.text, hp.user_data⟩) h
  exact ⟨q, hr.foldlM, hq⟩

theorem TagStart.reads_open {name : CStr} (h : p.TagStart log) (hname : name.Name) :
    ∃ q, name.chars.foldlM IksParser.step p = some q ∧ q.TagNamed log .IKS_OPEN name.chars := by
  obtain ⟨c, rest, hchars⟩ := List.exists_cons_of_ne_nil hname.ne_nil
  have hbytes := hname.bytes
  rw [hchars] at hbytes ⊢
  have hc := hbytes c List.mem_cons_self
  have hfirst : p.step c = some { p with
      context := .C_TAG, tagtype := .IKS_OPEN, text := [c], stack_old := true } := by
    rw [step_ascii (ascii_of_plainByte (plainByte_of_nameByte hc).1) h.uni_max, onContext, h.context]
    show some (p.tagStart c) = _
    rw [tagStart, if_neg (ne_of_nameByte hc (by decide)), if_neg (ne_of_nameByte hc (by decide)),
      if_neg (ne_of_nameByte hc (by decide))]
  have hin : TagNamed { p with
      context := .C_TAG, tagtype := .IKS_OPEN, text := [c], stack_old := true } log .IKS_OPEN [c] :=
    ⟨rfl, h.uni_max, h.atts, rfl, rfl, h.user_data⟩
  obtain ⟨q, hrest, hq⟩ := hin.reads_name fun d hd => hbytes d (List.mem_cons_of_mem c hd)
  refine ⟨q, ?_, hq⟩
  rw [List.foldlM_cons, hfirst]
  exact hrest

theorem TagStart.reads_close {name : CStr} (h : p.TagStart log) (hname : name.Name) :
    ∃ q, (ascii '/' :: name.chars).foldlM IksParser.step p = some q ∧
      q.TagNamed log .IKS_CLOSE name.chars := by
  have hslash : p.step (ascii '/') = some { p with
      context := .C_TAG, tagtype := .IKS_CLOSE, text := [] } := by
    rw [step_ascii (by decide) h.uni_max, onContext, h.context]
    rfl
  have hin : TagNamed { p with context := .C_TAG, tagtype := .IKS_CLOSE, text := [] } log .IKS_CLOSE [] :=
    ⟨rfl, h.uni_max, h.atts, rfl, rfl, h.user_data⟩
  obtain ⟨q, hrest, hq⟩ := hin.reads_name hname.bytes
  refine ⟨q, ?_, hq⟩
  rw [List.foldlM_cons, hslash]
  exact hrest

/-- The end of a tag hands it over. -/
theorem TagNamed.step_end {type : IksTagType} {name : CStr} (h : p.TagNamed log type name.chars) :
    ∃ q, p.step (ascii '>') = some q ∧ q.Between (log ++ [.tag name [] type]) := by
  have htag : SaxEvent.tag (CStr.ofChars p.text) p.atts p.tagtype = .tag name [] type := by
    rw [h.text, h.atts, h.tagtype, CStr.ofChars_chars]
  refine ⟨{ p with
    user_data := p.user_data ++ [.tag (CStr.ofChars p.text) p.atts p.tagtype], atts := [],
    stack_old := false, context := .C_CDATA, cdata := [], tag_name := p.text }, ?_,
    ⟨rfl, rfl, ?_, rfl, fun hne => absurd h.uni_max hne⟩, h.uni_max⟩
  · rw [step_ascii (by decide) h.uni_max, onContext, h.context]
    show p.tag (ascii '>') = _
    rw [tag, if_neg (by decide), if_neg (by decide), if_pos rfl, tagEnd, if_neg (by decide)]
    rfl
  · show p.user_data ++ [_] = _
    rw [htag, h.user_data]

/-- **A tag without attributes** behind a text. -/
theorem InChars.reads_tag {text : List Byte} (h : p.InChars log text) (huni : p.uni_max = 0)
    {x : TextTag} (hname : x.name.Name) :
    ∃ q, x.tag.foldlM IksParser.step p = some q ∧
      q.Between (log ++ text.map .char ++ [.tag x.name [] x.type]) := by
  obtain ⟨r, hr, hstart⟩ := h.step_open huni
  obtain ⟨t, ht, hnamed⟩ : ∃ t,
      ((if x.close then [ascii '/'] else []) ++ x.name.chars).foldlM IksParser.step r = some t ∧
        t.TagNamed (log ++ text.map .char) x.type x.name.chars := by
    rw [TextTag.type]
    cases x.close with
    | true => exact hstart.reads_close hname
    | false => exact hstart.reads_open hname
  obtain ⟨q, hq, hbetween⟩ := hnamed.step_end
  refine ⟨q, ?_, hbetween⟩
  rw [TextTag.tag, List.cons_append, List.cons_append, List.foldlM_cons, hr]
  show List.foldlM IksParser.step r _ = _
  rw [List.foldlM_append, ht]
  show List.foldlM IksParser.step t [ascii '>'] = _
  rw [List.foldlM_cons, hq]
  rfl

/-- A sequence that is not whole runs into the tag. -/
theorem uni_max_of_step_open (h : p.step (ascii '<') = some q) : p.uni_max = 0 := by
  by_contra huni
  unfold IksParser.step at h
  rw [if_neg (by decide), if_pos huni, if_pos (by decide)] at h
  cases h

/-! ## What is written and what is read -/

/-- A text and a tag: read to the end, the text is whole. -/
theorem Between.reads_raw (h : p.Between log) {x : TextTag} (hname : x.name.Name)
    (hx : ∀ c ∈ x.text.chars, c ≠ ascii '<' ∧ c ≠ ascii '&') :
    (x.raw.foldlM IksParser.step p = none ∧ ¬x.text.Verbatim) ∨
      ∃ q, x.raw.foldlM IksParser.step p = some q ∧ q.Between (log ++ x.events) ∧ x.text.Verbatim := by
  have hleft : p.left = 0 := h.left_eq_zero.mpr h.uni_max
  rw [TextTag.raw, List.foldlM_append]
  obtain ⟨hnone, hcut⟩ | ⟨r, hr, hin, hscan⟩ := h.toInChars.reads x.text.nul_free hx
  · left
    rw [hnone]
    rw [hleft] at hcut
    refine ⟨rfl, fun hv => ?_⟩
    rw [hv.whole] at hcut
    cases hcut
  · rw [hr]
    rw [hleft] at hscan
    rw [List.nil_append] at hin
    by_cases huni : r.uni_max = 0
    · right
      obtain ⟨q, hq, hbetween⟩ := hin.reads_tag huni hname
      rw [List.append_assoc] at hbetween
      exact ⟨q, hq, hbetween, hx, by rw [hscan, hin.left_eq_zero.mpr huni]⟩
    · -- the bracket of the tag is taken for a byte of the sequence
      left
      constructor
      · show x.tag.foldlM IksParser.step r = none
        rw [TextTag.tag, List.cons_append, List.cons_append, List.foldlM_cons]
        cases hstep : r.step (ascii '<') with
        | none => rfl
        | some q => exact absurd (uni_max_of_step_open hstep) huni
      · intro hv
        rw [hv.whole] at hscan
        exact huni (hin.left_eq_zero.mp (Option.some.inj hscan).symm)

/-- Texts without markup, each with a tag behind it. -/
theorem Between.reads_all {xs : List TextTag} (h : p.Between log) (hxs : ∀ x ∈ xs, x.name.Name)
    (hun : ∀ x ∈ xs, ∀ c ∈ x.text.chars, c ≠ ascii '<' ∧ c ≠ ascii '&') :
    ((xs.flatMap TextTag.raw).foldlM IksParser.step p = none ∧ ¬∀ x ∈ xs, x.text.Verbatim) ∨
      ∃ q, (xs.flatMap TextTag.raw).foldlM IksParser.step p = some q ∧
        q.Between (log ++ xs.flatMap TextTag.events) ∧ ∀ x ∈ xs, x.text.Verbatim := by
  induction xs generalizing p log with
  | nil =>
      right
      refine ⟨p, rfl, ?_, nofun⟩
      rw [List.flatMap_nil, List.append_nil]
      exact h
  | cons x rest ih =>
      rw [List.flatMap_cons, List.flatMap_cons, List.foldlM_append]
      obtain ⟨hnone, hbad⟩ | ⟨r, hr, hin, hv⟩ := h.reads_raw (hxs x List.mem_cons_self)
        (hun x List.mem_cons_self)
      · rw [hnone]
        exact Or.inl ⟨rfl, fun hall => hbad (hall x List.mem_cons_self)⟩
      · rw [hr, ← List.append_assoc]
        obtain ⟨hnone, hbad⟩ | ⟨q, hq, hbetween, hall⟩ := ih hin
          (fun y hy => hxs y (List.mem_cons_of_mem x hy))
          (fun y hy => hun y (List.mem_cons_of_mem x hy))
        · exact Or.inl ⟨hnone, fun hall => hbad fun y hy => hall y (List.mem_cons_of_mem x hy)⟩
        · exact Or.inr ⟨q, hq, hbetween, List.forall_mem_cons.mpr ⟨hv, hall⟩⟩

end Tags

end IksParser

/-! ## Documents -/

section Documents

variable {data : CStr} {log log' : List SaxEvent}

/-- A document that leads to some calls is read to its end, which is between two tags. -/
theorem saxEvents_eq_some : saxEvents data = some log ↔
    ∃ q, data.chars.foldlM IksParser.step (IksParser.new []) = some q ∧ q.context = .C_CDATA ∧
      q.uni_max = 0 ∧ q.user_data ++ q.cdata.map .char = log := by
  rw [saxEvents, IksParser.iks_parse, Option.bind_assoc, Option.bind_eq_some_iff]
  refine exists_congr fun q => and_congr_right fun _ => ?_
  by_cases hctx : q.context = .C_CDATA
  · have hfinish : q.finish = some { q with
        user_data := q.user_data ++ q.cdata.map .char, cdata := [], stack_old := false } := by
      have hover : q.handOver = q.flush := by rw [IksParser.handOver, hctx]
      rw [IksParser.finish, hover, IksParser.flush_log]
      rfl
    rw [hfinish]
    show (if q.context = .C_CDATA ∧ q.uni_max = 0 then _ else _) = _ ↔ _
    by_cases huni : q.uni_max = 0
    · rw [if_pos ⟨hctx, huni⟩, Option.some_inj, and_iff_right hctx, and_iff_right huni]
    · rw [if_neg fun h => huni h.2]
      exact iff_of_false (fun h => by cases h) fun h => huni h.2.1
  · refine iff_of_false (fun h => ?_) fun h => hctx h.1
    obtain ⟨r, hr, hlast⟩ := Option.bind_eq_some_iff.mp h
    have hsame : r.context = q.context := by
      obtain ⟨t, ht, rfl⟩ := Option.map_eq_some_iff.mp hr
      show t.context = q.context
      unfold IksParser.handOver at ht
      split at ht
      · next heq => exact absurd heq hctx
      · rw [IksParser.flush_log] at ht
        cases ht
        rfl
      · cases ht
        rfl
    rw [if_neg fun hand => hctx (hsame.symm.trans hand.1)] at hlast
    cases hlast

/-- The beginning of a document, up to a tag, and the calls it leads to. -/
def Heads (pre : List Byte) (log : List SaxEvent) : Prop :=
  ∃ p, pre.foldlM IksParser.step (IksParser.new []) = some p ∧ p.Between log

theorem heads_of_run {pre : List Byte} (h : (pre.foldlM IksParser.step (IksParser.new [])).any
    (fun p => p.context = .C_CDATA && p.atts = [] && p.user_data = log && p.cdata = [] &&
      p.uni_max = 0) = true) : Heads pre log := by
  obtain ⟨p, hp, hall⟩ := (Option.any_eq_true _ _).mp h
  simp only [Bool.and_eq_true, decide_eq_true_eq] at hall
  obtain ⟨⟨⟨⟨hctx, hatts⟩, hdata⟩, hcdata⟩, huni⟩ := hall
  exact ⟨p, hp, ⟨hctx, hatts, hdata, hcdata, fun hne => absurd huni hne⟩, huni⟩

variable {pre : List Byte} (hpre : Heads pre log)

include hpre

/-- **The calls weigh no more than the document.** -/
theorem weight_le_of_saxEvents {l : List Byte} (hdata : data.chars = pre ++ l)
    (h : saxEvents data = some log') : weight log' ≤ weight log + l.length := by
  obtain ⟨q, hrun, hctx, -, rfl⟩ := saxEvents_eq_some.mp h
  obtain ⟨p, hp, hin⟩ := hpre
  rw [hdata, List.foldlM_append, hp] at hrun
  have hle := (IksParser.total_reads hrun).1
  rw [IksParser.total, IksParser.total, IksParser.held, IksParser.held, hctx, hin.context,
    hin.user_data, hin.cdata] at hle
  rw [weight_append, weight_chars]
  exact hle

/-- A message that was cut is not read back. -/
theorem saxEvents_ne_of_cut {l : List Byte} (hdata : data.chars = pre ++ l) {xs : List TextTag}
    (hcut : l.length < (xs.flatMap TextTag.raw).length) :
    saxEvents data ≠ some (log ++ xs.flatMap TextTag.events) := by
  intro h
  have hle := weight_le_of_saxEvents hpre hdata h
  rw [weight_append, weight_flatMap_events] at hle
  omega

/-- **What is written is read back exactly when its texts are verbatim.** -/
theorem saxEvents_iff (hlog : Unmarked log) {xs : List TextTag} (hxs : ∀ x ∈ xs, x.name.Name)
    (hdata : data.chars = pre ++ xs.flatMap TextTag.raw) :
    saxEvents data = some (log ++ xs.flatMap TextTag.events) ↔ ∀ x ∈ xs, x.text.Verbatim := by
  obtain ⟨p, hp, hin⟩ := hpre
  have hsplit : data.chars.foldlM IksParser.step (IksParser.new []) =
      (xs.flatMap TextTag.raw).foldlM IksParser.step p := by
    rw [hdata, List.foldlM_append, hp]
    rfl
  rw [saxEvents_eq_some, hsplit]
  constructor
  · rintro ⟨q, hrun, hctx, huni, hcalls⟩
    -- nothing was lost, so no text holds markup
    obtain ⟨-, hkeep⟩ := IksParser.total_reads hrun
    have hp0 : p.total = weight log := by
      rw [IksParser.total, IksParser.held, hin.context, hin.cdata, hin.user_data]
      rfl
    have hall : q.total = p.total + (xs.flatMap TextTag.raw).length := by
      rw [hp0, ← weight_flatMap_events, ← weight_append, ← hcalls, weight_append, weight_chars,
        IksParser.total, IksParser.held, hctx]
    have hclean := hkeep ⟨Or.inl hin.context, by rw [hin.user_data]; exact hlog,
      by rw [hin.cdata]; exact nofun⟩ hall
    have hunmarked := hclean.log.append (unmarked_chars hclean.cdata)
    rw [hcalls] at hunmarked
    have hun : ∀ x ∈ xs, ∀ c ∈ x.text.chars, c ≠ ascii '<' ∧ c ≠ ascii '&' := by
      intro x hx c hc
      refine hunmarked c (List.mem_append_right log (List.mem_flatMap.mpr ⟨x, hx, ?_⟩))
      exact List.mem_append_left _ (List.mem_map_of_mem hc)
    obtain ⟨hnone, -⟩ | ⟨-, -, -, hv⟩ := hin.reads_all hxs hun
    · rw [hnone] at hrun
      cases hrun
    · exact hv
  · intro hv
    obtain ⟨-, hbad⟩ | ⟨q, hq, hbetween, -⟩ := hin.reads_all hxs fun x hx => (hv x hx).unmarked
    · exact absurd hv hbad
    · refine ⟨q, hq, hbetween.context, hbetween.uni_max, ?_⟩
      rw [hbetween.user_data, hbetween.cdata]
      exact List.append_nil _

end Documents

end Netflow
