import Netflow.CuteCat.Print
import Netflow.CuteCat.Stanza

set_option autoImplicit false

/-! # The trace lists each packet once

`find_and_printf_sn` on stanzas behind each other: the inner loop stops once at the `sn=` of each of them
and lists its number, and behind the last one no text is left that the outer loop could stop in.
-/

namespace Netflow

namespace SnTrace

/-- The trace behind the numbers of some stanzas, wherever `head` and `sn` are then. -/
structure Listed (stanzas : List Stanza) (t t' : SnTrace) : Prop where
  sn : t'.sn.length = 16
  stored : t'.stored = t.stored ++ stanzas.map fun st => st.snText.chars.length + 1
  printed : t'.printed = t.printed ++ stanzas.flatMap fun st => snLine st.snText

/-- **A turn of the inner loop** on a number stops at the apostrophe in front of it. -/
theorem hit_spec (st : Stanza) (done junk : List Byte) (after : CStr) {t : SnTrace}
    (hsn : t.sn.length = 16) :
    ∃ t', t.hit (done ++ ((CStr.lit "sn=" ++
        (CStr.lit "'" ++ st.snText ++ CStr.lit "'" ++ after)).chars ++ 0 :: junk)) done.length = some t' ∧
      t'.head = done.length + 3 ∧ Listed [st] t t' := by
  obtain ⟨hquote, hne, hlength⟩ := snText_spec st
  obtain ⟨str, hstr⟩ : ∃ str, str = CStr.lit "sn=" ++
    (CStr.lit "'" ++ st.snText ++ CStr.lit "'" ++ after) := ⟨_, rfl⟩
  have hliterals : (CStr.lit "sn='").chars = (CStr.lit "sn=").chars ++ (CStr.lit "'").chars ∧
      (CStr.lit "'").chars = [ascii '\''] ∧
      (CStr.lit "sn='").chars.idxOf? (ascii '\'') = some 3 := by
    decide +kernel
  have hchars : str.chars = (CStr.lit "sn='").chars ++ (st.snText.chars ++ ascii '\'' :: after.chars) := by
    simp only [hstr, CStr.chars_append, hliterals.1, hliterals.2.1, List.append_assoc,
      List.cons_append, List.nil_append]
  have hroom : 0 + (st.snText.chars ++ [0]).length ≤ t.sn.length := by
    rw [List.length_append, List.length_singleton]
    omega
  have hshown : readString (overlay t.sn 0 (st.snText.chars ++ [0])) 0 = some st.snText := by
    rw [overlay, List.take_zero, List.nil_append, List.append_assoc, List.singleton_append]
    exact readString_append [] _ _
  have htmp : str.strchr (ascii '\'') = some 3 := by
    rw [CStr.strchr, hchars, List.idxOf?, List.findIdx?_append]
    show ((CStr.lit "sn='").chars.idxOf? (ascii '\'')).or _ = _
    rw [hliterals.2.2, Option.some_or]
  rw [← hstr]
  refine ⟨{
    head := done.length + 3
    sn := overlay t.sn 0 (st.snText.chars ++ [0])
    stored := t.stored ++ [st.snText.chars.length + 1]
    printed := t.printed ++ snLine st.snText }, ?_, rfl, ?_, rfl, ?_⟩
  · rw [hit, readString_append, Option.bind_eq_bind, Option.bind_some,
      sscanfSn_eq hchars hquote hne (by omega)]
    simp only [htmp, hshown, Option.bind_eq_bind, Option.bind_some]
  · rw [length_overlay hroom, hsn]
  · rw [List.flatMap_singleton]

theorem Listed.trans {stanzas stanzas' : List Stanza} {t t' t'' : SnTrace} (h : Listed stanzas t t')
    (h' : Listed stanzas' t' t'') : Listed (stanzas ++ stanzas') t t'' where
  sn := h'.sn
  stored := by rw [h'.stored, h.stored, List.map_append, List.append_assoc]
  printed := by rw [h'.printed, h.printed, List.flatMap_append, List.append_assoc]

section Loops

variable {buf done junk : List Byte} {gap : CStr} {t : SnTrace} {turns : Nat}

/-- **The inner loop** lists the stanzas that are left and stops in a text without another number. -/
theorem hits_spec (stanzas : List Stanza)
    (hbuf : buf = done ++ ((gap ++ received stanzas).chars ++ 0 :: junk)) (hgap : Quiet gap)
    (hhead : t.head = done.length) (hsn : t.sn.length = 16) (hturns : stanzas.length < turns) :
    ∃ t' done' gap', t.hits buf turns = some t' ∧ Listed stanzas t t' ∧ Quiet gap' ∧
      buf = done' ++ (gap'.chars ++ 0 :: junk) ∧ t'.head = done'.length := by
  induction stanzas generalizing done gap t turns with
  | nil =>
      obtain ⟨left, rfl⟩ : ∃ left, turns = left + 1 := ⟨turns - 1, by omega⟩
      have hend : gap ++ received [] = gap := CStr.ext (List.append_nil _)
      rw [hend] at hbuf
      refine ⟨t, done, gap, ?_, ⟨hsn, (List.append_nil _).symm, (List.append_nil _).symm⟩, hgap, hbuf,
        hhead⟩
      rw [hits, hhead, hbuf, readString_append, Option.bind_eq_bind, Option.bind_some,
        CStr.strstr_eq_none (sn_absent hgap.apart)]
  | cons st stanzas ih =>
      obtain ⟨left, rfl⟩ : ∃ left, turns = left + 1 := ⟨turns - 1, by omega⟩
      obtain ⟨before, after, hbefore, hafter, hmessage⟩ := st.split
      obtain ⟨number, hnumber⟩ : ∃ number, number = CStr.lit "'" ++ st.snText ++ CStr.lit "'" ++ after :=
        ⟨_, rfl⟩
      rw [← hnumber] at hafter hmessage
      -- the string at `head`, split at the next `sn=`
      have hstring : gap ++ received (st :: stanzas) =
          gap ++ before ++ CStr.lit "sn=" ++ (number ++ received stanzas) := by
        apply CStr.ext
        simp only [received, hmessage, CStr.chars_append, List.append_assoc]
      have hread : readString buf t.head =
          some (gap ++ before ++ CStr.lit "sn=" ++ (number ++ received stanzas)) := by
        rw [hhead, hbuf, hstring, readString_append]
      have hfirst : ¬(CStr.lit "sn=").chars <:+: (gap ++ before).chars ++ (CStr.lit "sn=").chars.dropLast :=
        sn_absent ((hgap.append hbefore).append_apart (by decide +kernel))
      -- the turn on it
      have hnext : buf = done ++ (gap ++ before).chars ++
          ((CStr.lit "sn=" ++ (number ++ received stanzas)).chars ++ 0 :: junk) := by
        rw [hbuf, hstring]
        simp only [CStr.chars_append, List.append_assoc]
      have hapostrophe : number ++ received stanzas =
          CStr.lit "'" ++ st.snText ++ CStr.lit "'" ++ (after ++ received stanzas) := by
        rw [hnumber]
        exact CStr.ext (List.append_assoc _ _ _)
      obtain ⟨t₁, hhit, hhead₁, hlisted⟩ :=
        hit_spec st (done ++ (gap ++ before).chars) junk (after ++ received stanzas) hsn
      rw [← hapostrophe, ← hnext, List.length_append, ← hhead] at hhit
      -- the other stanzas, behind the `sn=` of this one
      have hthree : (CStr.lit "sn=").chars.length = 3 := by decide +kernel
      have hbuf₁ : buf = done ++ (gap ++ before).chars ++ (CStr.lit "sn=").chars ++
          ((number ++ received stanzas).chars ++ 0 :: junk) := by
        rw [hnext]
        simp only [CStr.chars_append, List.append_assoc]
      have hstart : t₁.head = (done ++ (gap ++ before).chars ++ (CStr.lit "sn=").chars).length := by
        rw [hhead₁, List.length_append, List.length_append, List.length_append, hthree]
      obtain ⟨t', done', gap', hrest, hlisted', hquiet, hbuf', hhead'⟩ :=
        ih hbuf₁ hafter hstart hlisted.sn (Nat.lt_of_succ_lt_succ hturns)
      refine ⟨t', done', gap', ?_, hlisted.trans hlisted', hquiet, hbuf', hhead'⟩
      rw [hits, hread, Option.bind_eq_bind, Option.bind_some, CStr.strstr_append hfirst]
      show (t.hit buf (t.head + (gap ++ before).chars.length)).bind (hits buf left) = some t'
      rw [hhit, Option.bind_some, hrest]

/-- **The outer loop** does nothing more in a text without another number. -/
theorem scan_quiet (limit turns left : Nat) (hbuf : buf = done ++ (gap.chars ++ 0 :: junk))
    (hgap : Quiet gap) (hlimit : limit ≤ (done ++ gap.chars).length) (hhead : done.length ≤ t.head)
    (hleft : limit - t.head < left) :
    t.scan buf limit (turns + 1) left = some { t with head := max t.head limit } := by
  induction left generalizing t with
  | zero => omega
  | succ left ih =>
      rw [scan]
      by_cases hlt : t.head < limit
      · obtain ⟨k, hk⟩ := Nat.exists_eq_add_of_le hhead
        rw [List.length_append] at hlimit
        have hread : readString buf t.head = some (gap.drop k) := by
          rw [hk, hbuf, readString_drop done junk (by omega)]
        have hnone : t.hits buf (turns + 1) = some t := by
          rw [hits, hread, Option.bind_eq_bind, Option.bind_some,
            CStr.strstr_eq_none (sn_absent (hgap.apart.drop _))]
        rw [if_pos hlt, hnone, Option.bind_eq_bind, Option.bind_some,
          ih (Nat.le_succ_of_le hhead) (show limit - (t.head + 1) < left by omega)]
        show some { t with head := max (t.head + 1) limit } = _
        rw [Nat.max_eq_right (Nat.succ_le_of_lt hlt), Nat.max_eq_right (Nat.le_of_lt hlt)]
      · rw [if_neg hlt, Nat.max_eq_left (Nat.le_of_not_lt hlt)]

/-- **Both loops** on stanzas behind each other list all of them. -/
theorem scan_received (stanzas : List Stanza) (hne : stanzas ≠ []) (junk : List Byte)
    (hturns : (received stanzas).chars.length < turns) (hhead : t.head = 0) (hsn : t.sn.length = 16) :
    ∃ t', t.scan ((received stanzas).chars ++ 0 :: junk) ((received stanzas).chars.length - 1) turns
      turns = some t' ∧ Listed stanzas t t' := by
  obtain ⟨left, rfl⟩ : ∃ left, turns = left + 1 := ⟨turns - 1, by omega⟩
  have hlength := length_received stanzas
  have hpos := List.length_pos_iff.mpr hne
  have hquiet : Quiet (CStr.ofChars []) := .of_not_mem List.not_mem_nil
  have hbuf₀ : (received stanzas).chars ++ 0 :: junk =
    [] ++ ((CStr.ofChars [] ++ received stanzas).chars ++ 0 :: junk) := rfl
  -- the first turn of the outer loop lists all numbers, the other ones none
  obtain ⟨t₁, done, gap, hhits, hlisted, hgap, hbuf, hhead₁⟩ :=
    hits_spec stanzas hbuf₀ hquiet hhead hsn (show stanzas.length < left + 1 by omega)
  have hsame : (received stanzas).chars.length = (done ++ gap.chars).length := by
    have htotal := congrArg List.length hbuf
    simp only [List.length_append, List.length_cons] at htotal ⊢
    omega
  have hrest := scan_quiet (t := { t₁ with head := t₁.head + 1 })
    ((received stanzas).chars.length - 1) left left hbuf hgap (by omega)
    (show done.length ≤ t₁.head + 1 by omega)
    (show (received stanzas).chars.length - 1 - (t₁.head + 1) < left by omega)
  refine ⟨{ t₁ with head := max (t₁.head + 1) ((received stanzas).chars.length - 1) }, ?_,
    ⟨hlisted.sn, hlisted.stored, hlisted.printed⟩⟩
  rw [scan, hhead, if_pos (by omega), hhits, Option.bind_eq_bind, Option.bind_some, hrest]

end Loops

end SnTrace

/-- **The trace lists each packet once**: on stanzas behind each other in one buffer, `find_and_printf_sn`
is done when its loops make more turns than the text has characters, prints the numbers of the stanzas
in order, and stores at most 16 bytes in `sn` for each. No body has `sn=` in it, whatever the payload. -/
theorem sn_listed_once (stanzas : List Stanza) (hne : stanzas ≠ []) (junk : List Byte) (turns : Nat)
    (hturns : (received stanzas).chars.length < turns) :
    (∃ t, find_and_printf_sn turns ((received stanzas).chars ++ 0 :: junk)
        (received stanzas).chars.length = some ((received stanzas).chars ++ 0 :: junk, t) ∧
      t.printed = (stanzas.flatMap fun st => snLine (CStr.percentD st.iMsgNumID.toNat)) ∧
      t.sn.length = 16 ∧ ∀ n ∈ t.stored, n ≤ 16) ∧
    ∀ buf len pEnBody, base64_encode buf len = some pEnBody →
      pEnBody.contains (CStr.lit "sn=") = false := by
  have hlength := length_received stanzas
  have hpos := List.length_pos_iff.mpr hne
  obtain ⟨start, hstart⟩ : ∃ start : SnTrace, start =
    { head := 0, sn := List.replicate 16 0, stored := [], printed := [] } := ⟨_, rfl⟩
  have hsn : start.sn.length = 16 := by rw [hstart, List.length_replicate]
  obtain ⟨t, hscan, hlisted⟩ :=
    SnTrace.scan_received stanzas hne junk hturns (by rw [hstart]) hsn
  refine ⟨⟨t, ?_, ?_, hlisted.sn, fun n hn => ?_⟩, fun buf len pEnBody hencode => ?_⟩
  · rw [find_and_printf_sn, if_pos (by omega), store_nul, Option.bind_eq_bind, Option.bind_some,
      ← hstart, hscan, Option.bind_eq_bind, Option.bind_some]
  · rw [hlisted.printed, hstart]
    rfl
  · rw [hlisted.stored, hstart, List.nil_append, List.mem_map] at hn
    obtain ⟨st, -, rfl⟩ := hn
    have hlong := (snText_spec st).2.2
    omega
  · rw [Bool.eq_false_iff, ne_eq, CStr.contains_iff]
    exact sn_absent (apart_base64 hencode).1

/-- Two payloads; the second one is sent as `ssnD0g==`. -/
theorem sn_listed_once_two :
    let first := Stanza.ofPayload ⟨10, 0, 0, 1⟩ ⟨10, 0, 0, 2⟩ 1234 80 7 [71, 69, 84] 3 (by decide)
      (by decide)
    let second := Stanza.ofPayload ⟨10, 0, 0, 2⟩ ⟨10, 0, 0, 1⟩ 80 1234 8 [178, 201, 195, 210] 4
      (by decide) (by decide)
    let text := received [first, second]
    (∃ t, find_and_printf_sn (text.chars.length + 1) (text.chars ++ [0]) text.chars.length =
        some (text.chars ++ [0], t) ∧
      t.printed = snLine (CStr.lit "7") ++ snLine (CStr.lit "8") ∧ ∀ n ∈ t.stored, n ≤ 16) ∧
    base64_encode [178, 201, 195, 210] 4 = some (CStr.lit "ssnD0g==") ∧
      (CStr.lit "ssnD0g==").contains (CStr.lit "sn=") = false := by
  intro first second text
  obtain ⟨⟨t, hfind, hprinted, -, hstored⟩, hbody⟩ := sn_listed_once [first, second]
    (List.cons_ne_nil _ _) [] (text.chars.length + 1) (Nat.lt_succ_self _)
  have hencode : base64_encode [178, 201, 195, 210] 4 = some (CStr.lit "ssnD0g==") := by
    decide +kernel
  refine ⟨⟨t, hfind, ?_, hstored⟩, hencode, hbody _ _ _ hencode⟩
  rw [hprinted]
  decide +kernel

end Netflow
