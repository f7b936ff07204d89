import Netflow.Iksemel.Chunks

set_option autoImplicit false

/-! # The stanzas of a stream (`iksemel/stream.c`, `CuteCatDlg.cpp`)

A stream is one stanza behind the other, and what comes over the network ends anywhere. A stanza is
reported when its last byte has come and not before. `IOProcessDogMsg` of the client resets the parser
from within the report of a big stanza (`IKS_RESET`), which loses nothing.
-/

namespace Netflow

/-- A text that a parser between two stanzas takes for one: it reports a node at the last byte, and
nothing before it. The start and the end of a stream are such texts, too. -/
structure IksStanza where
  text : List Byte
  node : IksNodeType × Option Iks
  reads : ∀ {p : IksParser StreamData} {reported : List (IksNodeType × Option Iks)}, p.Idle reported →
    ∃ init c q r, text = init ++ [c] ∧ p.Reads init q ∧ q.user_data.reported = reported ∧
      q.Reads [c] r ∧ r.Idle (reported ++ [node])

/-- The stanzas that are whole in the first `n` bytes of their text. -/
def IksStanza.arrived (n : Nat) (xs : List IksStanza) : List IksStanza :=
  Netflow.arrived (fun x => x.text.length) n xs

theorem IksStanza.arrived_cons (n : Nat) (x : IksStanza) (rest : List IksStanza) :
    IksStanza.arrived n (x :: rest) =
      if x.text.length ≤ n then x :: IksStanza.arrived (n - x.text.length) rest else [] := rfl

namespace IksParser

/-- `iks_parser_reset` with the `deleteHook` of a stream. -/
def iks_parser_reset (p : IksParser StreamData) : IksParser StreamData :=
  { p with
    user_data := { p.user_data with current := [] }
    context := .C_CDATA
    oldcontext := .C_CDATA
    tagtype := .IKS_OPEN
    atts := []
    text := []
    cdata := []
    entity := []
    uni_max := 0
    uni_len := 0 }

/-- The nodes reported between two states. -/
def newNodes (p q : IksParser StreamData) : List (IksNodeType × Option Iks) :=
  q.user_data.reported.drop p.user_data.reported.length

/-- A turn of the loop of `sax_core` with a `streamHook` that resets the parser when the stack of the
node is big. -/
def stepReset (big : Iks → Bool) (p : IksParser StreamData) (c : Byte) :
    Option (IksParser StreamData) :=
  (p.step c).map fun q =>
    if (p.newNodes q).any fun node => node.2.any big then q.iks_parser_reset else q

/-- `iks_parse` with such a hook. -/
def iks_parse_reset (big : Iks → Bool) (p : IksParser StreamData) (data : CStr) :
    Option (IksParser StreamData) :=
  readPiece (stepReset big) finish p data.chars

variable {p q r : IksParser StreamData} {c : Byte}

/-! ## What is reported stays -/

theorem reported_close (data : StreamData) (name : CStr) :
    data.reported <+: (data.close name).reported := by
  unfold StreamData.close
  split
  · exact List.prefix_append _ _
  · split
    · exact List.prefix_rfl
    · split
      · exact List.prefix_append _ _
      · exact List.prefix_append _ _
  · exact List.prefix_rfl

theorem reported_tagHook (data : StreamData) (name : CStr) (atts : List (CStr × CStr))
    (type : IksTagType) : data.reported <+: (data.tagHook name atts type).reported := by
  have hopen : ∀ single, data.reported <+: (data.openTag name atts single).reported := by
    intro single
    rw [StreamData.openTag]
    dsimp only
    split
    · exact List.prefix_append _ _
    · cases single with
      | false => exact List.prefix_rfl
      | true => exact reported_close (StreamData.mk (_ :: data.current) data.reported) name
  cases type with
  | IKS_OPEN => exact hopen false
  | IKS_SINGLE => exact hopen true
  | IKS_CLOSE => exact reported_close data name

theorem reported_cdataHook (data : StreamData) (l : List Byte) :
    (data.cdataHook l).reported = data.reported := by
  obtain ⟨_ | ⟨x, rest⟩, reported⟩ := data
  · rfl
  · rfl

/-- A byte takes no report back. -/
theorem reported_step (h : p.step c = some q) : p.user_data.reported <+: q.user_data.reported := by
  cases (called_step h).2 with
  | nothing hdata => rw [hdata]
  | cdataHook l hdata =>
      rw [← Option.some.inj hdata]
      show _ <+: (p.user_data.cdataHook l).reported
      rw [reported_cdataHook]
  | tagHook name atts type hdata =>
      rw [← Option.some.inj hdata]
      exact reported_tagHook p.user_data name atts type

theorem Reads.reported_prefix {l : List Byte} (h : p.Reads l q) :
    p.user_data.reported <+: q.user_data.reported := by
  induction h with
  | nil => exact List.prefix_rfl
  | cons _ hstep _ ih => exact (reported_step hstep).trans ih

/-- Between tags nothing is reported. -/
theorem reported_step_of_inCdata (hin : p.InCdata) (h : p.step c = some q) :
    q.user_data.reported = p.user_data.reported := by
  have hflush : ∀ r, p.flush = some r → r.user_data.reported = p.user_data.reported := by
    intro r hr
    obtain ⟨-, -, -, -, hdata | hdata⟩ := flush_eq_some hr
    · rw [hdata]
    · rw [← Option.some.inj hdata]
      exact reported_cdataHook _ _
  have hkeep : (p.keep c).user_data = p.user_data := (keep_frame p c).2
  have hmark : p.mark = p := by
    refine mark_of_not_collects ?_
    obtain hctx | hctx := hin
    · rw [hctx]
      rfl
    · rw [hctx]
      rfl
  rw [step] at h
  split at h
  · cases h
  · split at h
    · split at h
      · cases h
      · cases h
        exact congrArg _ hkeep
    · split at h
      · rw [hmark] at h
        obtain ⟨max, -, rfl⟩ := Option.map_eq_some_iff.mp h
        exact congrArg _ hkeep
      · obtain hctx | hctx := hin
        · rw [onContext, hctx] at h
          dsimp only at h
          split at h
          · obtain ⟨r, hr, rfl⟩ := Option.map_eq_some_iff.mp h
            exact hflush r hr
          · split at h
            · obtain ⟨r, hr, rfl⟩ := Option.map_eq_some_iff.mp h
              exact hflush r hr
            · cases h
              rfl
        · rw [onContext, hctx] at h
          dsimp only at h
          split at h
          · obtain ⟨r, hr, rfl⟩ := Option.map_eq_some_iff.mp h
            exact hflush r hr
          · cases h
            rfl

/-- The end of a piece reports nothing. -/
theorem reported_finish (h : p.finish = some q) : q.user_data.reported = p.user_data.reported := by
  obtain ⟨r, hr, rfl⟩ := Option.map_eq_some_iff.mp h
  show r.user_data.reported = _
  by_cases hin : p.InCdata
  · rw [handOver_of_inCdata hin] at hr
    obtain ⟨-, -, -, -, hdata | hdata⟩ := flush_eq_some hr
    · rw [hdata]
    · rw [← Option.some.inj hdata]
      exact reported_cdataHook _ _
  · rw [handOver_of_not_inCdata hin] at hr
    cases hr
    rfl

/-! ## The parser that is reset -/

theorem Alike.user_data (h : Alike p q) : p.user_data = q.user_data := by
  cases h with
  | same h => rw [h]
  | marked _ h => exact show p.unmark.user_data = q.unmark.user_data by rw [h]

/-- A reset leaves the parser inside no character. -/
theorem Alike.reset (h : Alike p q) : Alike p.iks_parser_reset q.iks_parser_reset := by
  cases h with
  | same h => exact .same (by rw [h])
  | marked _ h =>
      exact .marked (Or.inl rfl)
        (show p.unmark.iks_parser_reset = q.unmark.iks_parser_reset by rw [h])

variable {big : Iks → Bool}

/-- Without a report there is no reset. -/
theorem stepReset_eq_step (h : ∀ q, p.step c = some q → q.user_data.reported = p.user_data.reported) :
    p.stepReset big c = p.step c := by
  rw [stepReset]
  cases hstep : p.step c with
  | none => rfl
  | some q =>
      have hnone : p.newNodes q = [] := by
        rw [newNodes, h q hstep]
        exact List.drop_length
      show some (if (p.newNodes q).any _ = true then _ else q) = some q
      rw [hnone]
      rfl

theorem stepReset_of_inCdata (hin : p.InCdata) : p.stepReset big c = p.step c :=
  stepReset_eq_step fun _ => reported_step_of_inCdata hin

theorem tidy_stepReset (big : Iks → Bool) : Tidy (stepReset big) handOver NulFree where
  inv_step hp h := by
    obtain ⟨q, hq, rfl⟩ := Option.map_eq_some_iff.mp h
    split
    · exact List.not_mem_nil
    · exact hp.step hq
  inv_tidy := nulFree_handOver
  tidy_tidy _ := handOver_handOver
  tidy_step {p} c hp := by
    by_cases hin : p.InCdata
    · rw [stepReset_of_inCdata hin, ← handOver_step hp c]
      refine Option.bind_congr fun r hr => ?_
      have hin' : r.InCdata := by
        rw [InCdata, (handOver_frame hr).1]
        exact hin
      rw [stepReset_of_inCdata hin']
    · rw [handOver_of_not_inCdata hin]
      rfl

/-- Parsers that are alike are reset alike. -/
theorem Alike.stepReset (h : Alike p q) (c : Byte) :
    Option.Rel Alike (p.stepReset big c) (q.stepReset big c) := by
  have hdata : p.user_data = q.user_data := h.user_data
  have hrel := h.step c
  rw [IksParser.stepReset, IksParser.stepReset]
  generalize p.step c = a at hrel ⊢
  generalize q.step c = b at hrel ⊢
  cases hrel with
  | none => exact .none
  | @some p' q' h' =>
      have hnodes : p.newNodes p' = q.newNodes q' := by
        rw [newNodes, newNodes, hdata, h'.user_data]
      rw [Option.map_some, Option.map_some, hnodes]
      refine .some ?_
      split
      · exact h'.reset
      · exact h'

/-- A run that reports nothing is one with resets, too. -/
theorem Reads.foldlM_stepReset {l : List Byte} (h : p.Reads l q)
    (hreported : q.user_data.reported = p.user_data.reported) :
    l.foldlM (stepReset big) p = some q := by
  induction h with
  | nil => rfl
  | @cons p r q c l _ hr hrest ih =>
      -- what was reported by the first byte would still be there
      have hfirst : r.user_data.reported = p.user_data.reported := by
        have hle := hrest.reported_prefix.length_le
        rw [hreported] at hle
        exact ((reported_step hr).eq_of_length_le hle).symm
      rw [List.foldlM_cons, stepReset_eq_step fun s hs => by
        rw [hr] at hs
        cases hs
        exact hfirst, hr]
      exact ih (hreported.trans hfirst.symm)

/-- A parser between two stanzas is between them after a reset. -/
theorem Idle.reset {reported : List (IksNodeType × Option Iks)} (h : p.Idle reported) :
    p.iks_parser_reset.Idle reported where
  context := rfl
  uni_max := rfl
  atts := rfl
  attmax := h.attmax
  cdata := rfl
  user_data := by
    show StreamData.mk [] p.user_data.reported = _
    rw [h.user_data]

/-- The byte that ends a stanza. -/
theorem stepReset_of_idle {reported : List (IksNodeType × Option Iks)} (h : p.step c = some q)
    (hidle : q.Idle reported) : ∃ q', p.stepReset big c = some q' ∧ q'.Idle reported := by
  refine ⟨_, by rw [stepReset, h, Option.map_some], ?_⟩
  split
  · exact hidle.reset
  · exact hidle

/-! ## One stanza -/

/-- **A stanza**, with resets. -/
theorem Idle.foldlM_stanza {reported : List (IksNodeType × Option Iks)} (h : p.Idle reported)
    (x : IksStanza) : ∃ q, x.text.foldlM (stepReset big) p = some q ∧ q.Idle (reported ++ [x.node]) := by
  obtain ⟨init, c, q, r, htext, hinit, hreported, hlast, hidle⟩ := x.reads h
  obtain ⟨q', hq', hidle'⟩ := stepReset_of_idle hlast.step hidle
  refine ⟨q', ?_, hidle'⟩
  have hrun : init.foldlM (stepReset big) p = some q :=
    hinit.foldlM_stepReset (by rw [hreported, h.user_data])
  rw [htext, List.foldlM_append, hrun]
  show List.foldlM (stepReset big) q [c] = some q'
  rw [List.foldlM_cons, hq']
  rfl

/-- **A stanza that is not whole** is not reported, and may be cut where it ends. -/
theorem Idle.foldlM_part {reported : List (IksNodeType × Option Iks)} (h : p.Idle reported)
    (x : IksStanza) {l : List Byte} (hl : l <+: x.text) (hlt : l.length < x.text.length) :
    ∃ q, l.foldlM (stepReset big) p = some q ∧ q.user_data.reported = reported ∧ q.Whole := by
  obtain ⟨init, c, q, r, htext, hinit, hreported, hlast, hidle⟩ := x.reads h
  have hpart : l <+: init := by
    rw [htext] at hl hlt
    rw [List.length_append, List.length_singleton] at hlt
    exact List.prefix_of_prefix_length_le hl (List.prefix_append _ _) (by omega)
  obtain ⟨rest, rfl⟩ := hpart
  obtain ⟨s, hs, hrest⟩ := hinit.split
  have hp : p.user_data.reported = reported := by rw [h.user_data]
  -- what is reported on the way is still there at the end
  have hs' : s.user_data.reported = reported := by
    have hle := hrest.reported_prefix.length_le
    rw [hreported, ← hp] at hle
    exact (hs.reported_prefix.eq_of_length_le hle).symm.trans hp
  exact ⟨s, hs.foldlM_stepReset (hs'.trans hp.symm), hs',
    hrest.whole (hlast.whole (Or.inl hidle.uni_max))⟩

/-! ## Streams -/

/-- **The beginning of a stream**: what is whole is reported. -/
theorem Idle.foldlM_stanzas {reported : List (IksNodeType × Option Iks)} (h : p.Idle reported)
    {xs : List IksStanza} {l : List Byte} (hl : l <+: xs.flatMap IksStanza.text) :
    ∃ q, l.foldlM (stepReset big) p = some q ∧ q.Whole ∧
      q.user_data.reported = reported ++ (IksStanza.arrived l.length xs).map IksStanza.node ∧
      (l.length = (xs.flatMap IksStanza.text).length → q.Idle (reported ++ xs.map IksStanza.node)) := by
  induction xs generalizing p l reported with
  | nil =>
      rw [List.flatMap_nil, List.prefix_nil] at hl
      rw [hl]
      refine ⟨p, rfl, Or.inl h.uni_max, ?_, fun _ => ?_⟩
      · rw [h.user_data]
        exact (List.append_nil _).symm
      · rw [List.map_nil, List.append_nil]
        exact h
  | cons x rest ih =>
      rw [List.flatMap_cons] at hl ⊢
      obtain ⟨hpart, hlt⟩ | ⟨l', rfl, hrest⟩ := prefix_append_cases hl
      · obtain ⟨q, hq, hreported, hwhole⟩ := h.foldlM_part x hpart hlt
        refine ⟨q, hq, hwhole, ?_, fun hlen => ?_⟩
        · rw [hreported, IksStanza.arrived_cons, if_neg (not_le.mpr hlt), List.map_nil, List.append_nil]
        · rw [List.length_append] at hlen
          omega
      · obtain ⟨r, hr, hidle⟩ := h.foldlM_stanza x
        obtain ⟨q, hq, hwhole, hreported, hend⟩ := ih hidle hrest
        refine ⟨q, ?_, hwhole, ?_, fun hlen => ?_⟩
        · rw [List.foldlM_append, hr]
          exact hq
        · rw [hreported, IksStanza.arrived_cons, List.length_append, if_pos (Nat.le_add_right _ _),
            Nat.add_sub_cancel_left, List.map_cons, List.append_assoc]
          rfl
        · rw [List.length_append, List.length_append] at hlen
          have hidle' := hend (by omega)
          rw [List.append_assoc] at hidle'
          exact hidle'

theorem isSome_finish (p : IksParser StreamData) : ∃ q, p.finish = some q := by
  have hsome : ∃ q, p.handOver = some q := by
    rw [handOver]
    split
    · exact ⟨_, flush_eq p⟩
    · exact ⟨_, flush_eq p⟩
    · exact ⟨p, rfl⟩
  obtain ⟨q, hq⟩ := hsome
  exact ⟨q.unmark, by rw [finish, hq, Option.map_some]⟩

/-- **What has come is reported**: after any pieces of a stream of stanzas exactly those whose last
byte has come were reported, in their order; resets behind big nodes lose nothing. -/
theorem reported_of_pieces (big : Iks → Bool) {xs : List IksStanza} {pieces : List CStr}
    (hpieces : pieces.flatMap CStr.chars <+: xs.flatMap IksStanza.text) :
    ∃ q, pieces.foldlM (iks_parse_reset big) (new ⟨[], []⟩) = some q ∧
      q.user_data.reported =
        (IksStanza.arrived (pieces.flatMap CStr.chars).length xs).map IksStanza.node := by
  obtain ⟨q, hq, -, hreported, -⟩ := idle_new.foldlM_stanzas hpieces
  obtain ⟨r, hr⟩ := isSome_finish q
  -- the beginning of a stream may be cut anywhere
  have hread : pieces.foldlM (iks_parse_reset big) (new ⟨[], []⟩) =
      readPiece (stepReset big) finish (new ⟨[], []⟩) (pieces.flatMap CStr.chars) := by
    refine foldlM_readPiece_finish (tidy_stepReset big) (fun c h => h.stepReset c) (nulFree_new _) rfl ?_
    rintro before l after rfl s hs
    rw [List.flatMap_append] at hpieces
    obtain ⟨t, ht, hwhole, -⟩ := idle_new.foldlM_stanzas ((List.prefix_append _ _).trans hpieces)
    rw [hs] at ht
    cases ht
    exact hwhole
  refine ⟨r, ?_, (reported_finish hr).trans hreported⟩
  rw [hread, readPiece, hq]
  exact hr

end IksParser

/-! ## Plain elements -/

/-- The text of a plain element. -/
theorem IksParser.Idle.reads_plain {p : IksParser StreamData}
    {reported : List (IksNodeType × Option Iks)} {name : CStr} {attribs : List (CStr × CStr)}
    {children : List Iks} (hplain : (Iks.tag name attribs children).Plain)
    (hnormal : name ∉ [CStr.lit "stream:stream", CStr.lit "stream:error", CStr.lit "challenge"])
    (h : p.Idle reported) : ∃ init c q r, (Iks.tag name attribs children).text = init ++ [c] ∧
      p.Reads init q ∧ q.user_data.reported = reported ∧ q.Reads [c] r ∧
        r.Idle (reported ++ [(.IKS_NODE_NORMAL, some (.tag name attribs children))]) := by
  rw [Iks.Plain] at hplain
  obtain ⟨hname, hfew, hnodup, hatts, hchildren⟩ := hplain
  simp only [List.mem_cons, List.not_mem_nil, or_false, not_or] at hnormal
  obtain ⟨hstream, herror, hchallenge⟩ := hnormal
  obtain ⟨p₁, hr₁, h₁⟩ := h.inText.reads_open
  obtain ⟨p₂, hr₂, h₂⟩ := h₁.reads_start hname hatts hfew
  rw [StreamData.tagHook_open hnodup (Or.inr hstream)] at h₂
  obtain ⟨p₃, hr₃, h₃⟩ := IksParser.readsAll children hchildren p₂ _ _ _ h₂.inText
    fun t more _ => ⟨h₂, fun u hu => by cases hu⟩
  obtain ⟨p₄, hr₄, h₄⟩ := h₃.reads_open
  obtain ⟨p₅, hr₅, h₅⟩ := h₄.reads_close
  obtain ⟨q, hr₆, hq⟩ := h₅.reads_name hname.bytes
  obtain ⟨r, hr, hidle⟩ := hq.reads_end
  have hclose : (StreamData.mk [⟨name, attribs, children⟩] reported).close name =
      ⟨[], reported ++ [(.IKS_NODE_NORMAL, some (.tag name attribs children))]⟩ := by
    show (if name = CStr.lit "challenge" then _
      else if name = CStr.lit "stream:error" then _ else _) = _
    rw [if_neg hchallenge, if_neg herror]
    rfl
  have hend : r.InContent ((StreamData.mk [⟨name, attribs, children⟩] reported).close name) := hidle
  rw [hclose] at hend
  refine ⟨_, ascii '>', q, r, ?_, hr₁.trans (hr₂.trans (hr₃.trans (hr₄.trans (hr₅.trans hr₆)))), ?_, hr,
    hend⟩
  · simp only [Iks.text, List.append_assoc, List.cons_append, List.nil_append]
  · rw [hq.user_data]

end Netflow
