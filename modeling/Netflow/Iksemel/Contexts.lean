import Netflow.Iksemel.Text

set_option autoImplicit false

/-! # What a byte does to the parser (`iksemel/sax.c`)

A byte calls one hook at most (`Called`). The mark that `sax_core` sets in a name or a value counts for
the bytes of a sequence beyond ASCII only, so parsers that differ in it stay alike until one of them
is inside such a sequence (`Alike`).
-/

namespace Netflow

/-- What a byte does to the data of the hooks and to the text that is held back: one hook is called at
most. -/
inductive Called {σ : Type} [IksHooks σ] (d : σ) (cdata : List Byte) (c : Byte) (q : IksParser σ) :
    Prop where
  | nothing : q.user_data = d → (∀ b ∈ q.cdata, b ∈ cdata ∨ b = c) → Called d cdata c q
  | cdataHook (l : List Byte) : IksHooks.cdataHook d l = some q.user_data → (∀ b ∈ q.cdata, b = c) →
      Called d cdata c q
  | tagHook (name : CStr) (atts : List (CStr × CStr)) (type : IksTagType) :
      IksHooks.tagHook d name atts type = some q.user_data → q.cdata = [] → Called d cdata c q

namespace IksParser

variable {σ : Type} [IksHooks σ] {p q : IksParser σ} {c : Byte}

/-! ## One byte -/

/-- Handing over leaves the rest of the parser as it is. -/
theorem flush_eq_some (h : p.flush = some q) : q.cdata = [] ∧ q.context = p.context ∧
    q.uni_max = p.uni_max ∧ q.uni_len = p.uni_len ∧
      (q.user_data = p.user_data ∨ IksHooks.cdataHook p.user_data p.cdata = some q.user_data) := by
  rw [flush] at h
  split at h
  · next hnil =>
      cases h
      exact ⟨hnil, rfl, rfl, rfl, Or.inl rfl⟩
  · rw [callCdata, Option.map_map] at h
    obtain ⟨d, hd, rfl⟩ := Option.map_eq_some_iff.mp h
    exact ⟨rfl, rfl, rfl, rfl, Or.inr hd⟩

/-- A character calls one hook at most and stands in no sequence beyond ASCII. -/
structure Takes (p : IksParser σ) (c : Byte) (q : IksParser σ) : Prop where
  called : Called p.user_data p.cdata c q
  uni_max : q.uni_max = p.uni_max

theorem takes_flush {next : IksParser σ → IksParser σ} (h : p.flush.map next = some q)
    (hnext : ∀ r : IksParser σ, (next r).user_data = r.user_data ∧ (next r).cdata = r.cdata ∧
      (next r).uni_max = r.uni_max) : p.Takes c q := by
  obtain ⟨r, hr, rfl⟩ := Option.map_eq_some_iff.mp h
  obtain ⟨hcdata, -, hmax, -, hdata⟩ := flush_eq_some hr
  obtain ⟨hdata', hcdata', hmax'⟩ := hnext r
  rw [hcdata] at hcdata'
  refine ⟨?_, hmax'.trans hmax⟩
  obtain hdata | hdata := hdata
  · refine .nothing (hdata'.trans hdata) fun b hb => ?_
    rw [hcdata'] at hb
    cases hb
  · refine .cdataHook p.cdata (hdata'.symm ▸ hdata) fun b hb => ?_
    rw [hcdata'] at hb
    cases hb

theorem takes_callCdata {l : List Byte} {next : IksParser σ → IksParser σ}
    (h : (p.callCdata l).map next = some q)
    (hnext : ∀ r : IksParser σ, (next r).user_data = r.user_data ∧ (next r).uni_max = r.uni_max)
    (hcdata : ∀ r : IksParser σ, ∀ b ∈ (next r).cdata, b = c) : p.Takes c q := by
  rw [callCdata, Option.map_map] at h
  obtain ⟨d, hd, rfl⟩ := Option.map_eq_some_iff.mp h
  refine ⟨.cdataHook l ?_ (hcdata _), (hnext _).2⟩
  show _ = some (next _).user_data
  rw [hd, (hnext _).1]

/-- A byte that calls no hook and is no text. -/
theorem called_nothing (hdata : q.user_data = p.user_data)
    (hcdata : q.cdata = p.cdata ∨ q.cdata = []) : Called p.user_data p.cdata c q := by
  refine .nothing hdata fun b hb => ?_
  obtain hcdata | hcdata := hcdata
  · exact Or.inl (hcdata ▸ hb)
  · rw [hcdata] at hb
    cases hb

/-- A character of a tag, a comment or an instruction. -/
theorem takes_skip (hdata : q.user_data = p.user_data) (hcdata : q.cdata = p.cdata ∨ q.cdata = [])
    (huni : q.uni_max = p.uni_max) : p.Takes c q :=
  ⟨called_nothing hdata hcdata, huni⟩

/-- A byte of the text. -/
theorem called_concat (hdata : q.user_data = p.user_data) (hcdata : q.cdata = p.cdata ++ [c]) :
    Called p.user_data p.cdata c q := by
  refine .nothing hdata fun b hb => ?_
  rw [hcdata] at hb
  exact (List.mem_append.mp hb).imp_right List.mem_singleton.mp

/-- The function of a context is called from another one. -/
theorem Takes.moved {r : IksParser σ} (h : r.Takes c q) (hdata : r.user_data = p.user_data)
    (hcdata : r.cdata = p.cdata) (huni : r.uni_max = p.uni_max) : p.Takes c q :=
  ⟨hdata ▸ hcdata ▸ h.called, h.uni_max.trans huni⟩

theorem takes_tagEnd (h : p.tagEnd c = some q) : p.Takes c q := by
  rw [tagEnd] at h
  split at h
  · cases h
  · obtain ⟨d, hd, rfl⟩ := Option.map_eq_some_iff.mp h
    exact ⟨.tagHook _ _ _ hd rfl, rfl⟩

theorem takes_attribName (h : p.attribName c = some q) : p.Takes c q := by
  rw [attribName] at h
  split at h
  · cases h
    exact takes_skip rfl (Or.inl rfl) rfl
  · split at h
    · exact (takes_tagEnd h).moved rfl rfl rfl
    · cases h
      exact takes_skip rfl (Or.inl rfl) rfl

theorem takes_attribEnd (h : p.attribEnd c = some q) : p.Takes c q := by
  rw [attribEnd] at h
  split at h
  · split at h
    · cases h
      exact takes_skip rfl (Or.inl rfl) rfl
    · cases h
  · split at h
    · split at h
      · exact (takes_tagEnd h).moved rfl rfl rfl
      · cases h
    · exact (takes_attribName h).moved rfl rfl rfl

theorem takes_whitespace (h : p.whitespace c = some q) : p.Takes c q := by
  rw [whitespace] at h
  split at h
  · cases h
    exact takes_skip rfl (Or.inl rfl) rfl
  · split at h
    · exact (takes_tagEnd h).moved rfl rfl rfl
    · exact (takes_attribName h).moved rfl rfl rfl
    · exact (takes_attribEnd h).moved rfl rfl rfl
    · cases h

theorem takes_tag (h : p.tag c = some q) : p.Takes c q := by
  rw [tag] at h
  split at h
  · cases h
    exact takes_skip rfl (Or.inl rfl) rfl
  · split at h
    · split at h
      · cases h
      · cases h
        exact takes_skip rfl (Or.inl rfl) rfl
    · split at h
      · exact (takes_tagEnd h).moved rfl rfl rfl
      · cases h
        exact takes_skip rfl (Or.inl rfl) rfl

theorem takes_tagStart : p.Takes c (p.tagStart c) := by
  rw [tagStart]
  split
  · exact takes_skip rfl (Or.inl rfl) rfl
  · split
    · exact takes_skip rfl (Or.inl rfl) rfl
    · split
      · exact takes_skip rfl (Or.inl rfl) rfl
      · exact takes_skip rfl (Or.inl rfl) rfl

theorem takes_value {quote : Byte} : p.Takes c (p.value quote c) := by
  rw [value]
  split
  · exact takes_skip rfl (Or.inl rfl) rfl
  · exact takes_skip rfl (Or.inl rfl) rfl

theorem takes_expect {expected : Byte} {context : IksContext}
    (h : p.expect c expected context = some q) : p.Takes c q := by
  rw [expect] at h
  split at h
  · cases h
    exact takes_skip rfl (Or.inl rfl) rfl
  · cases h

/-- A context that is left for a text. -/
theorem takes_expectText {expected : Byte} {context : IksContext}
    (h : ((p.expect c expected context).map fun r => { r with cdata := [] }) = some q) :
    p.Takes c q := by
  obtain ⟨r, hr, rfl⟩ := Option.map_eq_some_iff.mp h
  rw [expect] at hr
  split at hr
  · cases hr
    exact takes_skip rfl (Or.inr rfl) rfl
  · cases hr

/-- An instruction goes to its bracket. -/
theorem onContext_instruction (hctx : p.context = .C_MARKUP_1 ∨ p.context = .C_PI) : p.onContext c =
    some (if c = ascii '>' then { p with context := .C_CDATA, cdata := [] } else p) := by
  obtain hctx | hctx := hctx
  · rw [onContext, hctx]
  · rw [onContext, hctx]

section Contexts

variable (h : p.onContext c = some q)

include h

theorem takes_cdata (hctx : p.context = .C_CDATA) : p.Takes c q := by
  rw [onContext, hctx] at h
  dsimp only at h
  split at h
  · exact takes_flush h fun _ => ⟨rfl, rfl, rfl⟩
  · split at h
    · exact takes_flush h fun _ => ⟨rfl, rfl, rfl⟩
    · cases h
      exact ⟨called_concat rfl rfl, rfl⟩

theorem takes_attribText (hctx : p.context = .C_ATTRIBUTE_1) : p.Takes c q := by
  rw [onContext, hctx] at h
  dsimp only at h
  split at h
  · cases h
    exact takes_skip rfl (Or.inl rfl) rfl
  · cases h
    exact takes_skip rfl (Or.inl rfl) rfl

theorem takes_quote (hctx : p.context = .C_VALUE) : p.Takes c q := by
  rw [onContext, hctx] at h
  dsimp only at h
  split at h
  · cases h
    exact takes_skip rfl (Or.inl rfl) rfl
  · split at h
    · cases h
      exact takes_skip rfl (Or.inl rfl) rfl
    · cases h

theorem takes_entity (hctx : p.context = .C_ENTITY) : p.Takes c q := by
  rw [onContext, hctx] at h
  dsimp only at h
  split at h
  · exact takes_callCdata h (fun _ => ⟨rfl, rfl⟩) fun _ b hb => by cases hb
  · split at h
    · cases h
    · cases h
      exact takes_skip rfl (Or.inl rfl) rfl

theorem takes_comment (hctx : p.context = .C_COMMENT_1 ∨ p.context = .C_COMMENT_2) : p.Takes c q := by
  obtain hctx | hctx := hctx
  · rw [onContext, hctx] at h
    cases h
    split
    · exact takes_skip rfl (Or.inl rfl) rfl
    · exact takes_skip rfl (Or.inl rfl) rfl
  · rw [onContext, hctx] at h
    cases h
    exact takes_skip rfl (Or.inl rfl) rfl

theorem takes_markup (hctx : p.context = .C_MARKUP) : p.Takes c q := by
  rw [onContext, hctx] at h
  dsimp only at h
  split at h
  · cases h
    exact takes_skip rfl (Or.inl rfl) rfl
  · split at h
    · cases h
      exact takes_skip rfl (Or.inl rfl) rfl
    · split at h
      · cases h
        exact takes_skip rfl (Or.inr rfl) rfl
      · cases h
        exact takes_skip rfl (Or.inl rfl) rfl

/-- What is skipped up to a bracket. -/
theorem takes_instruction (hctx : p.context = .C_MARKUP_1 ∨ p.context = .C_PI) : p.Takes c q := by
  rw [onContext_instruction hctx] at h
  cases h
  split
  · exact takes_skip rfl (Or.inr rfl) rfl
  · exact takes_skip rfl (Or.inl rfl) rfl

theorem takes_section (hctx : p.context = .C_SECT_CDATA_C) : p.Takes c q := by
  rw [onContext, hctx] at h
  dsimp only at h
  split at h
  · exact takes_flush h fun _ => ⟨rfl, rfl, rfl⟩
  · cases h
    exact ⟨called_concat rfl rfl, rfl⟩

/-- Behind one or two brackets that may end a CDATA section. -/
theorem takes_sectionEnd (hctx : p.context = .C_SECT_CDATA_E ∨ p.context = .C_SECT_CDATA_E2) :
    p.Takes c q := by
  obtain hctx | hctx := hctx
  · rw [onContext, hctx] at h
    dsimp only at h
    split at h
    · cases h
      exact takes_skip rfl (Or.inl rfl) rfl
    · exact takes_callCdata h (fun _ => ⟨rfl, rfl⟩) fun _ b hb => List.mem_singleton.mp hb
  · rw [onContext, hctx] at h
    dsimp only at h
    split at h
    · cases h
      exact takes_skip rfl (Or.inr rfl) rfl
    · exact takes_callCdata h (fun _ => ⟨rfl, rfl⟩) fun _ b hb => List.mem_singleton.mp hb

/-- **A character** of any context. -/
theorem takes_onContext : p.Takes c q := by
  cases hctx : p.context with
  | C_CDATA => exact takes_cdata h hctx
  | C_ATTRIBUTE_1 => exact takes_attribText h hctx
  | C_VALUE => exact takes_quote h hctx
  | C_ENTITY => exact takes_entity h hctx
  | C_COMMENT_1 => exact takes_comment h (Or.inl hctx)
  | C_COMMENT_2 => exact takes_comment h (Or.inr hctx)
  | C_MARKUP => exact takes_markup h hctx
  | C_MARKUP_1 => exact takes_instruction h (Or.inl hctx)
  | C_PI => exact takes_instruction h (Or.inr hctx)
  | C_SECT_CDATA_C => exact takes_section h hctx
  | C_SECT_CDATA_E => exact takes_sectionEnd h (Or.inl hctx)
  | C_SECT_CDATA_E2 => exact takes_sectionEnd h (Or.inr hctx)
  | C_TAG_START =>
      rw [onContext, hctx] at h
      cases h
      exact takes_tagStart
  | C_TAG =>
      rw [onContext, hctx] at h
      exact takes_tag h
  | C_TAG_END =>
      rw [onContext, hctx] at h
      exact takes_tagEnd h
  | C_ATTRIBUTE =>
      rw [onContext, hctx] at h
      exact takes_attribName h
  | C_ATTRIBUTE_2 =>
      rw [onContext, hctx] at h
      exact takes_attribEnd h
  | C_WHITESPACE =>
      rw [onContext, hctx] at h
      exact takes_whitespace h
  | C_VALUE_APOS | C_VALUE_QUOT =>
      rw [onContext, hctx] at h
      cases h
      exact takes_value
  | C_COMMENT_3 | C_SECT_CDATA_4 =>
      rw [onContext, hctx] at h
      exact takes_expectText h
  | C_COMMENT | C_SECT | C_SECT_CDATA | C_SECT_CDATA_1 | C_SECT_CDATA_2 | C_SECT_CDATA_3 =>
      rw [onContext, hctx] at h
      exact takes_expect h

end Contexts

theorem called_keep {r : IksParser σ} (hdata : r.user_data = p.user_data) (hcdata : r.cdata = p.cdata)
    {uni_max uni_len : Nat} : Called p.user_data p.cdata c
    { r.keep c with uni_max := uni_max, uni_len := uni_len } := by
  cases hctx : r.context with
  | C_CDATA | C_SECT_CDATA_C =>
      rw [keep, hctx]
      exact called_concat hdata (congrArg (· ++ [c]) hcdata)
  | C_TAG | C_ATTRIBUTE_1 | C_VALUE_APOS | C_VALUE_QUOT =>
      rw [keep, hctx]
      dsimp only
      split
      · exact called_nothing hdata (Or.inl hcdata)
      · exact called_nothing hdata (Or.inl hcdata)
  | _ =>
      rw [keep, hctx]
      exact called_nothing hdata (Or.inl hcdata)

/-- **A byte** is no NUL and calls one hook at most. -/
theorem called_step (h : p.step c = some q) : c ≠ 0 ∧ Called p.user_data p.cdata c q := by
  rw [step] at h
  split at h
  · cases h
  · next hc =>
      refine ⟨fun hzero => hc (Or.inl hzero), ?_⟩
      split at h
      · split at h
        · cases h
        · cases h
          exact called_keep rfl rfl
      · split at h
        · obtain ⟨max, -, rfl⟩ := Option.map_eq_some_iff.mp h
          exact called_keep (by rw [mark]; split <;> rfl) (by rw [mark]; split <;> rfl)
        · exact (takes_onContext h).called

/-- No NUL is held back. -/
def NulFree (p : IksParser σ) : Prop := 0 ∉ p.cdata

theorem NulFree.step (h : p.NulFree) (hstep : p.step c = some q) : q.NulFree := by
  intro hzero
  obtain ⟨hc, hcalled⟩ := called_step hstep
  cases hcalled with
  | nothing _ hcdata => exact (hcdata 0 hzero).elim h (Ne.symm hc)
  | cdataHook l _ hcdata => exact hc (hcdata 0 hzero).symm
  | tagHook name atts type _ hcdata =>
      rw [hcdata] at hzero
      cases hzero

/-! ## The mark -/

theorem unmark_attribName (p : IksParser σ) (c : Byte) :
    (p.unmark.attribName c).map unmark = (p.attribName c).map unmark := by
  rw [attribName, attribName]
  split
  · rfl
  · split
    · rfl
    · rfl

theorem unmark_attribEnd (p : IksParser σ) (c : Byte) :
    (p.unmark.attribEnd c).map unmark = (p.attribEnd c).map unmark := by
  rw [attribEnd, attribEnd]
  split
  · show Option.map unmark (if p.atts.length < p.attmax then _ else _) = _
    split
    · rfl
    · rfl
  · split
    · rfl
    · exact unmark_attribName { p with context := .C_ATTRIBUTE } c

theorem unmark_whitespace (p : IksParser σ) (c : Byte) :
    (p.unmark.whitespace c).map unmark = (p.whitespace c).map unmark := by
  have hold : p.unmark.oldcontext = p.oldcontext := rfl
  rw [whitespace, whitespace, hold]
  split
  · rfl
  · cases p.oldcontext with
    | C_ATTRIBUTE =>
        exact unmark_attribName { p with context := .C_ATTRIBUTE, oldcontext := .C_ATTRIBUTE } c
    | C_ATTRIBUTE_2 =>
        exact unmark_attribEnd { p with context := .C_ATTRIBUTE_2, oldcontext := .C_ATTRIBUTE_2 } c
    | _ => rfl

theorem unmark_tag (p : IksParser σ) (c : Byte) :
    (p.unmark.tag c).map unmark = (p.tag c).map unmark := by
  rw [tag, tag]
  split
  · rfl
  · split
    · show Option.map unmark (if p.tagtype = .IKS_CLOSE then _ else _) = _
      split
      · rfl
      · rfl
    · split
      · rfl
      · rfl

omit [IksHooks σ] in
theorem unmark_tagStart (p : IksParser σ) (c : Byte) :
    (p.unmark.tagStart c).unmark = (p.tagStart c).unmark := by
  rw [tagStart, tagStart]
  split
  · rfl
  · split
    · rfl
    · split
      · rfl
      · rfl

omit [IksHooks σ] in
theorem unmark_value (p : IksParser σ) (quote c : Byte) :
    (p.unmark.value quote c).unmark = (p.value quote c).unmark := by
  rw [value, value]
  split
  · rfl
  · rfl

theorem unmark_flush (p : IksParser σ) : p.unmark.flush = p.flush.map unmark := by
  rw [flush, flush]
  show (if p.cdata = [] then _ else _) = _
  split
  · rfl
  · rw [callCdata, callCdata, Option.map_map, Option.map_map, Option.map_map]
    rfl

/-- A context that hands over the text. -/
theorem unmark_map_flush (p : IksParser σ) {next : IksParser σ → IksParser σ}
    (hnext : ∀ r : IksParser σ, (next r.unmark).unmark = (next r).unmark) :
    (p.unmark.flush.map next).map unmark = (p.flush.map next).map unmark := by
  rw [unmark_flush, Option.map_map, Option.map_map, Option.map_map]
  refine congrArg (fun f => p.flush.map f) (funext fun r => ?_)
  exact hnext r

/-- A context that hands over something else. -/
theorem unmark_map_callCdata (p : IksParser σ) {l : List Byte} {next : IksParser σ → IksParser σ}
    (hnext : ∀ r : IksParser σ, (next r.unmark).unmark = (next r).unmark) :
    ((p.unmark.callCdata l).map next).map unmark = ((p.callCdata l).map next).map unmark := by
  rw [callCdata, callCdata]
  show (((IksHooks.cdataHook p.user_data l).map _).map next).map unmark = _
  rw [Option.map_map, Option.map_map, Option.map_map, Option.map_map]
  refine congrArg (fun f => (IksHooks.cdataHook p.user_data l).map f) (funext fun d => ?_)
  exact hnext { p with user_data := d }

/-- **No context looks at the mark.** -/
theorem unmark_onContext (p : IksParser σ) (c : Byte) :
    (p.unmark.onContext c).map unmark = (p.onContext c).map unmark := by
  have hunmark : p.unmark.context = p.context := rfl
  cases hctx : p.context with
  | C_CDATA =>
      rw [onContext, onContext, hunmark, hctx]
      dsimp only
      split
      · exact unmark_map_flush p fun _ => rfl
      · split
        · exact unmark_map_flush p fun _ => rfl
        · rfl
  | C_TAG_START =>
      rw [onContext, onContext, hunmark, hctx]
      exact congrArg some (unmark_tagStart p c)
  | C_TAG =>
      rw [onContext, onContext, hunmark, hctx]
      exact unmark_tag p c
  | C_TAG_END =>
      rw [onContext, onContext, hunmark, hctx]
      rfl
  | C_ATTRIBUTE =>
      rw [onContext, onContext, hunmark, hctx]
      exact unmark_attribName p c
  | C_ATTRIBUTE_2 =>
      rw [onContext, onContext, hunmark, hctx]
      exact unmark_attribEnd p c
  | C_WHITESPACE =>
      rw [onContext, onContext, hunmark, hctx]
      exact unmark_whitespace p c
  | C_VALUE_APOS | C_VALUE_QUOT =>
      rw [onContext, onContext, hunmark, hctx]
      exact congrArg some (unmark_value p _ c)
  | C_SECT_CDATA_C =>
      rw [onContext, onContext, hunmark, hctx]
      dsimp only
      split
      · exact unmark_map_flush p fun _ => rfl
      · rfl
  | C_ENTITY =>
      rw [onContext, onContext, hunmark, hctx]
      dsimp only
      split
      · exact unmark_map_callCdata p fun _ => rfl
      · show Option.map unmark (if 7 < p.entity.length + 1 then _ else _) = _
        split
        · rfl
        · rfl
  | C_SECT_CDATA_E | C_SECT_CDATA_E2 =>
      rw [onContext, onContext, hunmark, hctx]
      dsimp only
      split
      · rfl
      · exact unmark_map_callCdata p fun _ => rfl
  | C_COMMENT | C_SECT | C_SECT_CDATA | C_SECT_CDATA_1 | C_SECT_CDATA_2 | C_SECT_CDATA_3
  | C_COMMENT_3 | C_SECT_CDATA_4 =>
      rw [onContext, onContext, hunmark, hctx]
      dsimp only
      rw [expect, expect]
      split
      · rfl
      · rfl
  | C_COMMENT_1 | C_MARKUP_1 | C_PI | C_ATTRIBUTE_1 =>
      rw [onContext, onContext, hunmark, hctx]
      dsimp only
      split
      · rfl
      · rfl
  | C_COMMENT_2 =>
      rw [onContext, onContext, hunmark, hctx]
      rfl
  | C_VALUE =>
      rw [onContext, onContext, hunmark, hctx]
      dsimp only
      split
      · rfl
      · split
        · rfl
        · rfl
  | C_MARKUP =>
      rw [onContext, onContext, hunmark, hctx]
      dsimp only
      split
      · rfl
      · split
        · rfl
        · split
          · rfl
          · rfl

omit [IksHooks σ] in
theorem mark_of_not_collects (h : p.context.collects = false) : p.mark = p := by
  rw [mark, h]
  rfl

omit [IksHooks σ] in
theorem mark_of_collects (h : p.context.collects = true) :
    p.mark = { p.unmark with stack_old := true } := by
  rw [mark, h]
  rfl

omit [IksHooks σ] in
theorem unmark_keep (p : IksParser σ) (c : Byte) (h : p.context.collects = false) :
    (p.keep c).unmark = p.unmark.keep c := by
  have hunmark : p.unmark.context = p.context := rfl
  rw [keep, keep, hunmark]
  cases hctx : p.context with
  | C_TAG | C_ATTRIBUTE_1 | C_VALUE_APOS | C_VALUE_QUOT =>
      rw [hctx] at h
      cases h
  | _ => rfl

omit [IksHooks σ] in
theorem keep_frame (p : IksParser σ) (c : Byte) :
    (p.keep c).context = p.context ∧ (p.keep c).user_data = p.user_data := by
  rw [keep]
  repeat' split
  all_goals exact ⟨rfl, rfl⟩

/-- The parsers differ in a mark at most, and not inside a character of a name or a value. -/
inductive Alike (p q : IksParser σ) : Prop where
  | same : p = q → Alike p q
  | marked : p.Whole → p.unmark = q.unmark → Alike p q

/-- **No byte tells them apart.** -/
theorem Alike.step (h : Alike p q) (c : Byte) : Option.Rel Alike (p.step c) (q.step c) := by
  cases h with
  | same h =>
      rw [h]
      cases q.step c with
      | none => exact .none
      | some r => exact .some (.same rfl)
  | marked hwhole h =>
      have hctx : p.context = q.context := show p.unmark.context = q.unmark.context by rw [h]
      have hmax : p.uni_max = q.uni_max := show p.unmark.uni_max = q.unmark.uni_max by rw [h]
      have hlen : p.uni_len = q.uni_len := show p.unmark.uni_len = q.unmark.uni_len by rw [h]
      -- a byte beyond ASCII outside of names and values
      have hkeep : p.context.collects = false → ∀ m n,
          Alike { p.keep c with uni_max := m, uni_len := n }
            { q.keep c with uni_max := m, uni_len := n } := by
        intro hout m n
        have hsame : (p.keep c).unmark = (q.keep c).unmark := by
          rw [unmark_keep p c hout, unmark_keep q c (hctx ▸ hout), h]
        refine .marked (Or.inr ?_)
          (congrArg (fun r : IksParser σ => { r with uni_max := m, uni_len := n }) hsame)
        show (p.keep c).context.collects = false
        rw [(keep_frame p c).1, hout]
      rw [IksParser.step, IksParser.step, ← hmax, ← hlen]
      by_cases hbad : c = 0 ∨ c = 0xFE ∨ c = 0xFF
      · rw [if_pos hbad, if_pos hbad]
        exact .none
      rw [if_neg hbad, if_neg hbad]
      by_cases huni : p.uni_max = 0
      · rw [if_neg (not_not.mpr huni), if_neg (not_not.mpr huni)]
        by_cases hhigh : c &&& 0x80 = 0
        · rw [if_neg (not_not.mpr hhigh), if_neg (not_not.mpr hhigh)]
          have hon : (p.onContext c).map unmark = (q.onContext c).map unmark := by
            rw [← unmark_onContext p c, h, unmark_onContext]
          cases hp : p.onContext c with
          | none =>
              rw [hp] at hon
              rw [Option.map_eq_none_iff.mp hon.symm]
              exact .none
          | some p' =>
              rw [hp] at hon
              obtain ⟨q', hq, hsame⟩ := Option.map_eq_some_iff.mp hon.symm
              rw [hq]
              exact .some (.marked (Or.inl ((takes_onContext hp).uni_max.trans huni)) hsame.symm)
        · rw [if_pos hhigh, if_pos hhigh]
          cases uniLength c with
          | none => exact .none
          | some max =>
              refine .some ?_
              cases hout : p.context.collects with
              | true =>
                  refine .same ?_
                  rw [mark_of_collects hout, mark_of_collects (hctx ▸ hout), h]
              | false =>
                  rw [mark_of_not_collects hout, mark_of_not_collects (hctx ▸ hout)]
                  exact hkeep hout max 1
      · have hout := hwhole.resolve_left huni
        rw [if_pos huni, if_pos huni]
        by_cases hnext : c &&& 0xC0 = 0x80
        · rw [if_neg (not_not.mpr hnext), if_neg (not_not.mpr hnext)]
          exact .some (hkeep hout _ _)
        · rw [if_pos hnext, if_pos hnext]
          exact .none

end IksParser

end Netflow
