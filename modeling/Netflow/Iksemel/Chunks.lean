import Netflow.Iksemel.Contexts
import Netflow.Lib.Chunks
import Mathlib.Data.List.Infix

set_option autoImplicit false

/-! # A document in pieces (`iksemel/sax.c`)

A document comes in the pieces the network makes of it, and `iks_parse` is called for each of them. At
the end of a piece it hands over the text read so far, and the hook joins texts that follow each other.
It forgets its mark, too, which loses bytes when the piece ends inside a character of a name or a value.
-/

namespace Netflow

/-- Hooks that do not tell a text from its pieces. -/
class LawfulIksHooks (σ : Type) [IksHooks σ] : Prop where
  cdataHook_concat : ∀ (d : σ) (l : List Byte) (c : Byte), 0 ∉ l → c ≠ 0 →
    IksHooks.cdataHook d (l ++ [c]) =
      (IksHooks.cdataHook d l).bind fun d => IksHooks.cdataHook d [c]

/-- A text is the text of its parts. -/
theorem CStr.ofChars_append {l l' : List Byte} (h : 0 ∉ l) (h' : 0 ∉ l') :
    CStr.ofChars (l ++ l') = CStr.ofChars l ++ CStr.ofChars l' := by
  have hboth : (0 : Byte) ∉ l ++ l' := fun hmem => (List.mem_append.mp hmem).elim h h'
  apply CStr.ext
  rw [CStr.chars_append, CStr.ofChars_chars_of_nul_free hboth, CStr.ofChars_chars_of_nul_free h,
    CStr.ofChars_chars_of_nul_free h']

theorem OpenTag.iks_insert_cdata_append (x : OpenTag) {l l' : List Byte} (h : 0 ∉ l) (h' : 0 ∉ l') :
    x.iks_insert_cdata (l ++ l') = (x.iks_insert_cdata l).iks_insert_cdata l' := by
  have hlast : ∀ (y : OpenTag) (text : CStr), y.children.getLast? = some (.cdata text) →
      ∀ m, y.iks_insert_cdata m =
        { y with children := y.children.dropLast ++ [.cdata (text ++ CStr.ofChars m)] } := by
    intro y text hy m
    rw [iks_insert_cdata, hy]
  have hjoin : ∀ (y : OpenTag) (text : CStr) (before : List Iks),
      y.children = before ++ [.cdata text] →
      y.iks_insert_cdata l' = { y with children := before ++ [.cdata (text ++ CStr.ofChars l')] } := by
    intro y text before hy
    rw [hlast y text (by rw [hy, List.getLast?_concat]), hy, List.dropLast_concat]
  by_cases hcase : ∃ text, x.children.getLast? = some (.cdata text)
  · obtain ⟨text, htext⟩ := hcase
    rw [hlast x text htext, hlast x text htext, hjoin _ _ _ rfl, CStr.ofChars_append h h']
    have hassoc : text ++ (CStr.ofChars l ++ CStr.ofChars l') =
        text ++ CStr.ofChars l ++ CStr.ofChars l' := CStr.ext (List.append_assoc ..).symm
    rw [hassoc]
  · have hnew : ∀ m, x.iks_insert_cdata m =
        { x with children := x.children ++ [.cdata (CStr.ofChars m)] } := by
      intro m
      rw [iks_insert_cdata]
      split
      · next text htext => exact absurd ⟨text, htext⟩ hcase
      · rfl
    rw [hnew, hnew, hjoin _ _ _ rfl, CStr.ofChars_append h h']

instance : LawfulIksHooks StreamData where
  cdataHook_concat d l c hl hc := by
    show some (d.cdataHook (l ++ [c])) = some ((d.cdataHook l).cdataHook [c])
    congr 1
    obtain ⟨_ | ⟨x, rest⟩, reported⟩ := d
    · rfl
    · show StreamData.mk (x.iks_insert_cdata (l ++ [c]) :: rest) reported = _
      rw [x.iks_insert_cdata_append hl (by simpa using Ne.symm hc)]
      rfl

namespace IksParser

variable {σ : Type} [IksHooks σ] {p q : IksParser σ} {c : Byte}

/-! ## The end of a piece -/

/-- The two contexts in which text is held back. -/
def InCdata (p : IksParser σ) : Prop := p.context = .C_CDATA ∨ p.context = .C_SECT_CDATA_C

theorem handOver_of_inCdata (h : p.InCdata) : p.handOver = p.flush := by
  obtain hctx | hctx := h
  · rw [handOver, hctx]
  · rw [handOver, hctx]

theorem handOver_of_not_inCdata (h : ¬p.InCdata) : p.handOver = some p := by
  rw [handOver]
  split
  · next hctx => exact absurd (Or.inl hctx) h
  · next hctx => exact absurd (Or.inr hctx) h
  · rfl

theorem flush_of_nil (h : p.cdata = []) : p.flush = some p := by rw [flush, if_pos h]

theorem handOver_handOver (h : p.handOver = some q) : q.handOver = some q := by
  by_cases hin : p.InCdata
  · rw [handOver_of_inCdata hin] at h
    have hin' : q.InCdata := by
      rw [InCdata, (flush_eq_some h).2.1]
      exact hin
    rw [handOver_of_inCdata hin', flush_of_nil (flush_eq_some h).1]
  · rw [handOver_of_not_inCdata hin] at h
    cases h
    exact handOver_of_not_inCdata hin

theorem nulFree_handOver (hp : p.NulFree) (h : p.handOver = some q) : q.NulFree := by
  by_cases hin : p.InCdata
  · rw [handOver_of_inCdata hin] at h
    rw [NulFree, (flush_eq_some h).1]
    exact List.not_mem_nil
  · rw [handOver_of_not_inCdata hin] at h
    cases h
    exact hp

section Step

variable (hin : p.InCdata)

include hin

/-- A byte that is an error is one behind a text that was handed over, too. -/
theorem handOver_step_of_none (h : ∀ r : IksParser σ, r.context = p.context → r.uni_max = p.uni_max →
    r.uni_len = p.uni_len → r.step c = none) :
    (p.handOver.bind fun r => (r.step c).bind handOver) = (p.step c).bind handOver := by
  rw [handOver_of_inCdata hin, h p rfl rfl rfl]
  cases hflush : p.flush with
  | none => rfl
  | some r =>
      obtain ⟨-, hctx, hmax, hlen, -⟩ := flush_eq_some hflush
      show (r.step c).bind handOver = none
      rw [h r hctx hmax hlen]
      rfl

/-- A character that ends the text. -/
theorem handOver_step_of_flush {next : IksParser σ → IksParser σ}
    (h : ∀ r : IksParser σ, r.context = p.context → r.uni_max = p.uni_max → r.uni_len = p.uni_len →
      r.step c = r.flush.map next) :
    (p.handOver.bind fun r => (r.step c).bind handOver) = (p.step c).bind handOver := by
  rw [handOver_of_inCdata hin, h p rfl rfl rfl, Option.bind_map]
  refine Option.bind_congr fun r hr => ?_
  obtain ⟨hcdata, hctx, hmax, hlen, -⟩ := flush_eq_some hr
  rw [h r hctx hmax hlen, flush_of_nil hcdata]
  rfl

end Step

section Lawful

variable [LawfulIksHooks σ]

/-- A character behind a text that was handed over is handed over after it. -/
theorem flush_concat (hp : p.NulFree) (hc : c ≠ 0) (m n : Nat) :
    (p.flush.bind fun r => flush { r with cdata := r.cdata ++ [c], uni_max := m, uni_len := n }) =
      flush { p with cdata := p.cdata ++ [c], uni_max := m, uni_len := n } := by
  have hne : ∀ l : List Byte, l ++ [c] ≠ [] := fun l => List.append_ne_nil_of_right_ne_nil l (by simp)
  by_cases hnil : p.cdata = []
  · rw [flush_of_nil hnil]
    rfl
  · rw [flush, if_neg hnil, flush, if_neg (hne _), callCdata, callCdata]
    show _ = ((IksHooks.cdataHook p.user_data (p.cdata ++ [c])).map _).map _
    rw [LawfulIksHooks.cdataHook_concat _ _ _ hp hc]
    cases IksHooks.cdataHook p.user_data p.cdata with
    | none => rfl
    | some d =>
        show (flush { p with user_data := d, cdata := [c], uni_max := m, uni_len := n }) =
          ((IksHooks.cdataHook d [c]).map _).map _
        rw [flush, if_neg (List.cons_ne_nil _ _), callCdata]
        cases IksHooks.cdataHook d [c] with
        | none => rfl
        | some d => rfl

/-- A byte of the text. -/
theorem handOver_step_of_concat (hin : p.InCdata) (hp : p.NulFree) (hc : c ≠ 0)
    (m n : Nat)
    (h : ∀ r : IksParser σ, r.context = p.context → r.uni_max = p.uni_max → r.uni_len = p.uni_len →
      r.step c = some { r with cdata := r.cdata ++ [c], uni_max := m, uni_len := n }) :
    (p.handOver.bind fun r => (r.step c).bind handOver) = (p.step c).bind handOver := by
  have hread : ∀ r : IksParser σ, r.context = p.context → r.uni_max = p.uni_max →
      r.uni_len = p.uni_len → (r.step c).bind handOver =
        flush { r with cdata := r.cdata ++ [c], uni_max := m, uni_len := n } := by
    intro r hctx hmax hlen
    rw [h r hctx hmax hlen]
    refine handOver_of_inCdata ?_
    show r.context = _ ∨ r.context = _
    rw [hctx]
    exact hin
  rw [handOver_of_inCdata hin, hread p rfl rfl rfl, ← flush_concat hp hc]
  refine Option.bind_congr fun r hr => ?_
  obtain ⟨-, hctx, hmax, hlen, -⟩ := flush_eq_some hr
  exact hread r hctx hmax hlen

/-- Handing the text over in front of a byte makes no difference once it is handed over behind it. -/
theorem handOver_step (hp : p.NulFree) (c : Byte) :
    (p.handOver.bind fun r => (r.step c).bind handOver) = (p.step c).bind handOver := by
  by_cases hin : p.InCdata
  swap
  · rw [handOver_of_not_inCdata hin]
    rfl
  have hkeep : ∀ r : IksParser σ, r.context = p.context →
      r.keep c = { r with cdata := r.cdata ++ [c] } := by
    intro r hctx
    rw [keep, hctx]
    obtain h | h := hin
    · rw [h]
    · rw [h]
  have hmark : ∀ r : IksParser σ, r.context = p.context → r.mark = r := by
    intro r hctx
    refine mark_of_not_collects ?_
    obtain h | h := hin
    · rw [hctx, h]
      rfl
    · rw [hctx, h]
      rfl
  by_cases hbad : c = 0 ∨ c = 0xFE ∨ c = 0xFF
  · exact handOver_step_of_none hin fun r _ _ _ => by rw [step, if_pos hbad]
  have hc : c ≠ 0 := fun hzero => hbad (Or.inl hzero)
  by_cases huni : p.uni_max = 0
  · by_cases hhigh : c &&& 0x80 = 0
    · -- an ASCII character goes to the context
      have hstep : ∀ r : IksParser σ, r.uni_max = p.uni_max → r.step c = r.onContext c :=
        fun r hmax => step_ascii ⟨hbad, hhigh⟩ (hmax.trans huni)
      obtain hctx | hctx := hin
      · have hon : ∀ r : IksParser σ, r.context = p.context → r.onContext c =
            if c = ascii '&' then r.flush.map fun p => { p with context := .C_ENTITY, entity := [] }
            else if c = ascii '<' then r.flush.map fun p => { p with context := .C_TAG_START }
            else some { r with cdata := r.cdata ++ [c] } := by
          intro r hr
          rw [onContext, hr, hctx]
        by_cases hamp : c = ascii '&'
        · exact handOver_step_of_flush (Or.inl hctx) fun r hr hmax _ => by
            rw [hstep r hmax, hon r hr, if_pos hamp]
        · by_cases hlt : c = ascii '<'
          · exact handOver_step_of_flush (Or.inl hctx) fun r hr hmax _ => by
              rw [hstep r hmax, hon r hr, if_neg hamp, if_pos hlt]
          · exact handOver_step_of_concat (Or.inl hctx) hp hc p.uni_max p.uni_len fun r hr hmax hlen => by
              rw [hstep r hmax, hon r hr, if_neg hamp, if_neg hlt, ← hmax, ← hlen]
      · have hon : ∀ r : IksParser σ, r.context = p.context → r.onContext c =
            if c = ascii ']' then r.flush.map fun p => { p with context := .C_SECT_CDATA_E }
            else some { r with cdata := r.cdata ++ [c] } := by
          intro r hr
          rw [onContext, hr, hctx]
        by_cases hend : c = ascii ']'
        · exact handOver_step_of_flush (Or.inr hctx) fun r hr hmax _ => by
            rw [hstep r hmax, hon r hr, if_pos hend]
        · exact handOver_step_of_concat (Or.inr hctx) hp hc p.uni_max p.uni_len fun r hr hmax hlen => by
            rw [hstep r hmax, hon r hr, if_neg hend, ← hmax, ← hlen]
    · -- the first byte of a sequence
      have hstep : ∀ r : IksParser σ, r.uni_max = p.uni_max → r.step c =
          (uniLength c).map fun max => { r.mark.keep c with uni_max := max, uni_len := 1 } := by
        intro r hmax
        rw [step, if_neg hbad, if_neg (not_not.mpr (hmax.trans huni)), if_pos hhigh]
      cases hlong : uniLength c with
      | none => exact handOver_step_of_none hin fun r _ hmax _ => by rw [hstep r hmax, hlong]; rfl
      | some max =>
          exact handOver_step_of_concat hin hp hc max 1 fun r hr hmax _ => by
            rw [hstep r hmax, hlong, hmark r hr, hkeep r hr]
            rfl
  · -- a byte inside a sequence
    by_cases hmark : c &&& 0xC0 = 0x80
    · exact handOver_step_of_concat hin hp hc
        (if p.uni_len + 1 = p.uni_max then 0 else p.uni_max) (p.uni_len + 1) fun r hr hmax hlen => by
        rw [step, if_neg hbad, if_pos (by rw [hmax]; exact huni), if_neg (not_not.mpr hmark),
          hkeep r hr, hmax, hlen]
    · exact handOver_step_of_none hin fun r _ hmax _ => by
        rw [step, if_neg hbad, if_pos (by rw [hmax]; exact huni), if_pos hmark]

/-- **The parser tidies up at the end of a piece.** -/
theorem tidy_handOver : Tidy (step (σ := σ)) handOver NulFree where
  inv_step := NulFree.step
  inv_tidy := nulFree_handOver
  tidy_tidy _ := handOver_handOver
  tidy_step c hp := handOver_step hp c

end Lawful

/-! ## Pieces -/

/-- What is left of two parsers that are alike is the same. -/
theorem Alike.finish (h : Alike p q) : p.finish = q.finish := by
  have hunmark : ∀ r : IksParser σ, r.unmark.finish = r.finish := by
    intro r
    rw [IksParser.finish, IksParser.finish, handOver, handOver,
      show r.unmark.context = r.context from rfl]
    cases r.context with
    | C_CDATA | C_SECT_CDATA_C =>
        dsimp only
        rw [unmark_flush, Option.map_map]
        rfl
    | _ => rfl
  cases h with
  | same h => rw [h]
  | marked _ h => rw [← hunmark p, h, hunmark]

theorem handOver_frame (h : p.handOver = some q) : q.context = p.context ∧ q.uni_max = p.uni_max := by
  by_cases hin : p.InCdata
  · rw [handOver_of_inCdata hin] at h
    obtain ⟨-, hctx, hmax, -, -⟩ := flush_eq_some h
    exact ⟨hctx, hmax⟩
  · rw [handOver_of_not_inCdata hin] at h
    cases h
    exact ⟨rfl, rfl⟩

section Pieces

variable {f : IksParser σ → Byte → Option (IksParser σ)} (hf : Tidy f handOver NulFree)
  (halike : ∀ {p q : IksParser σ} (c : Byte), Alike p q → Option.Rel Alike (f p c) (f q c))

include hf halike

/-- **The end of a piece** makes no difference when it is inside no character of a name or a value. -/
theorem finish_readPiece (hp : p.NulFree) (hwhole : p.Whole) (l : List Byte) :
    (p.finish.bind fun r => readPiece f finish r l) = readPiece f finish p l := by
  have hread : ∀ r : IksParser σ, readPiece f finish r l = (readPiece f handOver r l).map unmark :=
    fun _ => (Option.map_bind ..).symm
  have hforget : ∀ r, p.handOver = some r → readPiece f finish r.unmark l = readPiece f finish r l := by
    intro r hr
    obtain ⟨hctx, hmax⟩ := handOver_frame hr
    have hwhole' : r.unmark.Whole := by
      show r.uni_max = 0 ∨ r.context.collects = false
      rw [hctx, hmax]
      exact hwhole
    exact readPiece_congr halike Alike.finish (Alike.marked (q := r) hwhole' rfl) l
  rw [IksParser.finish, Option.bind_map, hread p, ← hf.tidy_readPiece hp l, Option.map_bind]
  refine Option.bind_congr fun r hr => ?_
  exact (hforget r hr).trans (hread r)

/-- The pieces of a text that was read from the end of an earlier one on. -/
theorem foldlM_readPiece_finish (hp : p.NulFree) (hfinish : p.finish = some p) {pieces : List CStr}
    (hcut : ∀ before l after, pieces = before ++ l :: after → ∀ q,
      (before.flatMap CStr.chars).foldlM f p = some q → q.Whole) :
    pieces.foldlM (fun p data => readPiece f finish p data.chars) p =
      readPiece f finish p (pieces.flatMap CStr.chars) := by
  rw [List.flatMap_def, ← foldlM_readPiece hfinish, List.foldlM_map]
  intro before l after hpieces q hq
  obtain ⟨before, rest, rfl, rfl, hrest⟩ := List.map_eq_append_iff.mp hpieces
  obtain ⟨l, after, rfl, rfl, rfl⟩ := List.map_eq_cons_iff.mp hrest
  rw [← List.flatMap_def] at hq
  exact finish_readPiece hf halike (hf.inv_foldlM hp hq) (hcut before l after rfl q hq) l.chars

end Pieces

/-- No piece ends inside a character of a name or a value. -/
def Uncut (p : IksParser σ) (pieces : List CStr) : Prop :=
  ∀ before l after, pieces = before ++ l :: after → ∀ q,
    (before.flatMap CStr.chars).foldlM IksParser.step p = some q → q.Whole

theorem uncut_of_inits {pieces : List CStr} (h : ∀ before ∈ pieces.inits,
    ((before.flatMap CStr.chars).foldlM IksParser.step p).all
      (fun q => q.uni_max = 0 || !q.context.collects) = true) : p.Uncut pieces := by
  intro before l after hpieces q hq
  have hall := h before ((List.mem_inits _ _).mpr ⟨l :: after, hpieces.symm⟩)
  rw [hq, Option.all_some, Bool.or_eq_true, decide_eq_true_eq, Bool.not_eq_true'] at hall
  exact hall

omit [IksHooks σ] in
theorem nulFree_new (data : σ) : (new data).NulFree := List.not_mem_nil

section Lawful

variable [LawfulIksHooks σ]

/-- The pieces of a text that was read from the end of an earlier one on. -/
theorem foldlM_iks_parse (hp : p.NulFree) (hfinish : p.finish = some p) {pieces : List CStr}
    (hcut : p.Uncut pieces) : pieces.foldlM iks_parse p =
      ((pieces.flatMap CStr.chars).foldlM IksParser.step p).bind IksParser.finish :=
  foldlM_readPiece_finish tidy_handOver (fun c h => h.step c) hp hfinish hcut

/-- **A document is read to the same end however it is cut into pieces**, in its texts anywhere, and
in its names and values between the characters. -/
theorem iks_parse_pieces (data : σ) {pieces pieces' : List CStr}
    (h : pieces.flatMap CStr.chars = pieces'.flatMap CStr.chars) (hcut : (new data).Uncut pieces)
    (hcut' : (new data).Uncut pieces') :
    pieces.foldlM iks_parse (new data) = pieces'.foldlM iks_parse (new data) := by
  rw [foldlM_iks_parse (nulFree_new data) rfl hcut, foldlM_iks_parse (nulFree_new data) rfl hcut', h]

end Lawful

/-- An entity, a tag and a character beyond ASCII in a text are cut, and a value in front of one. -/
theorem iks_parse_pieces_cut :
    ([CStr.lit "<m a='1", CStr.lit "\xc3\xa4'>x&am", CStr.lit "p;y\xc3", CStr.lit "\xa4</",
        CStr.lit "m>"].foldlM iks_parse (new (⟨[], []⟩ : StreamData))).map (fun p =>
      p.user_data.reported.map fun r => r.2.map Iks.text) =
    some [some (CStr.lit "<m a='1\xc3\xa4'>x&y\xc3\xa4</m>").chars] := by
  have hbytes : [CStr.lit "<m a='1", CStr.lit "\xc3\xa4'>x&am", CStr.lit "p;y\xc3", CStr.lit "\xa4</",
      CStr.lit "m>"].flatMap CStr.chars =
        [CStr.lit "<m a='1\xc3\xa4'>x&amp;y\xc3\xa4</m>"].flatMap CStr.chars := by
    decide +kernel
  rw [iks_parse_pieces (⟨[], []⟩ : StreamData) hbytes (uncut_of_inits (by decide +kernel))
    (uncut_of_inits (by decide +kernel))]
  decide +kernel

/-- Inside a value the second byte of the character is lost. -/
example : ([CStr.lit "<m a='1\xc3", CStr.lit "\xa4'/>"].foldlM iks_parse
      (new (⟨[], []⟩ : StreamData))).map (fun p =>
    p.user_data.reported.map fun r => r.2.map Iks.text) =
    some [some (CStr.lit "<m a='1\xc3'></m>").chars] := by
  decide +kernel

end IksParser

end Netflow
