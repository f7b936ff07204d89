import Netflow.CuteCat.Delivery
import Netflow.Lib.Search

set_option autoImplicit false

/-! # The messages as text

`sn=` stands once in a message: in front of its number. The addresses, the ports and the numbers have
neither letters nor `=`, and in an encoded payload no `=` stands behind an `n`: the last character in
front of the padding is one of few, since its low bits are zero.

A message of `SendTcp2Cats` that ends with its end tag was not cut (`message_of_complete`); `Stanza` is
such a message, and `Stanza.split` shows where its `sn=` is.
-/

namespace Netflow

/-! ## The pieces of a message -/

/-- The message up to the number. -/
def packetHead (p : Packet) (size1 : Nat) : CStr :=
  CStr.lit "<message from='" ++ p.source ++ CStr.lit "' fp='" ++ p.fp ++ CStr.lit "' to='" ++
    p.dest ++ CStr.lit "' tp='" ++ p.tp ++ CStr.lit "'><body size='" ++ CStr.percentD size1 ++
    CStr.lit "' rawsize='" ++ CStr.percentD p.size ++ CStr.lit "' "

/-- The number in its apostrophes and the body. -/
def packetBody (iMsgNumID : Nat) (pEnBody : CStr) : CStr :=
  CStr.lit "'" ++ CStr.percentD iMsgNumID ++ CStr.lit "'>" ++ pEnBody

theorem packetText_split (p : Packet) (size1 iMsgNumID : Nat) (pEnBody : CStr) :
    packetText p size1 iMsgNumID pEnBody =
      packetHead p size1 ++ CStr.lit "sn=" ++ packetBody iMsgNumID pEnBody ++
        CStr.lit "</body></message>" := by
  have hsn : (CStr.lit "' sn='").chars =
      (CStr.lit "' ").chars ++ ((CStr.lit "sn=").chars ++ (CStr.lit "'").chars) := by
    decide +kernel
  apply CStr.ext
  simp only [packetText, packetHead, packetBody, CStr.chars_append, hsn, List.append_assoc]

section Pieces

variable {x y : Byte} {p : Packet} {size1 iMsgNumID : Nat} {pEnBody : CStr}

/-- The parts of the format that `packetHead` and `packetBody` are put together from. -/
def formatPieces : List CStr :=
  [CStr.lit "<message from='", CStr.lit "' fp='", CStr.lit "' to='", CStr.lit "' tp='",
    CStr.lit "'><body size='", CStr.lit "' rawsize='", CStr.lit "' ", CStr.lit "'", CStr.lit "'>"]

theorem CStr.Numeric.sealed {s : CStr} (h : s.Numeric) (hx : numeric x = false) :
    Sealed x y s.chars :=
  .of_not_mem (h.not_mem hx)

theorem sealed_packetHead (hp : p.Numeric) (hx : numeric x = false)
    (hpieces : ∀ l ∈ formatPieces, Sealed x y l.chars) : Sealed x y (packetHead p size1).chars := by
  simp only [formatPieces, List.forall_mem_cons] at hpieces
  obtain ⟨hfrom, hfp, hto, htp, hsize, hraw, hsn, -⟩ := hpieces
  have hsource := hfrom.append (hp.source.sealed hx)
  have hport := (hsource.append hfp).append (hp.fp.sealed hx)
  have hdest := (hport.append hto).append (hp.dest.sealed hx)
  have hdestPort := (hdest.append htp).append (hp.tp.sealed hx)
  have hlen := (hdestPort.append hsize).append ((numeric_percentD size1).sealed hx)
  exact ((hlen.append hraw).append ((numeric_percentD p.size).sealed hx)).append hsn

theorem apart_packetBody (hx : numeric x = false) (hpieces : ∀ l ∈ formatPieces, Sealed x y l.chars)
    (hbody : Apart x y pEnBody.chars) : Apart x y (packetBody iMsgNumID pEnBody).chars := by
  have hquote := hpieces (CStr.lit "'") (by decide +kernel)
  have hend := hpieces (CStr.lit "'>") (by decide +kernel)
  exact ((hquote.append ((numeric_percentD iMsgNumID).sealed hx)).append hend).append_apart hbody

end Pieces

/-! ## The bodies -/

theorem base64Char_ne_pad (t : Byte) : base64Char t ≠ base64Pad := by
  have hall : ∀ n : Fin 256, base64Char (UInt8.ofNat n) ≠ base64Pad := by
    decide +kernel
  have ht := hall ⟨t.toNat, t.toNat_lt⟩
  rwa [UInt8.ofNat_toNat] at ht

/-- **The last character in front of the padding** has zeros in its low bits, so it is no `n`. -/
theorem base64Char_last_ne (b : Byte) :
    base64Char ((b &&& 0x0F) <<< 2) ≠ ascii 'n' ∧ base64Char ((b &&& 0x03) <<< 4) ≠ ascii 'n' := by
  have hall : ∀ n : Fin 256, base64Char ((UInt8.ofNat n &&& 0x0F) <<< 2) ≠ ascii 'n' ∧
      base64Char ((UInt8.ofNat n &&& 0x03) <<< 4) ≠ ascii 'n' := by
    decide +kernel
  have hb := hall ⟨b.toNat, b.toNat_lt⟩
  rwa [UInt8.ofNat_toNat] at hb

/-- **No padding stands behind an `n`.** -/
theorem apart_base64Groups (l : List Byte) : Apart (ascii 'n') base64Pad (base64Groups l) := by
  have hpad : base64Pad ≠ ascii 'n' := by decide +kernel
  have hone : Apart (ascii 'n') base64Pad [base64Pad] :=
    .of_not_mem fun h => hpad (List.mem_singleton.mp h).symm
  induction l using base64Groups.induct with
  | case1 b0 b1 b2 l ih =>
      -- the characters of a whole group are none of the padding, and the next group starts with one
      have hnext : (base64Groups l).head? ≠ some base64Pad := by
        cases l using base64Groups.induct with
        | case1 b0 b1 b2 l => exact fun h => base64Char_ne_pad _ (Option.some.inj h)
        | case2 b0 b1 => exact fun h => base64Char_ne_pad _ (Option.some.inj h)
        | case3 b0 => exact fun h => base64Char_ne_pad _ (Option.some.inj h)
        | case4 => exact fun h => by cases h
      rw [base64Groups_cons]
      refine Apart.append_of_head (.of_not_mem_right fun hmem => ?_) ih hnext
      simp only [List.mem_cons, List.not_mem_nil, or_false] at hmem
      rcases hmem with h | h | h | h
      · exact base64Char_ne_pad _ h.symm
      · exact base64Char_ne_pad _ h.symm
      · exact base64Char_ne_pad _ h.symm
      · exact base64Char_ne_pad _ h.symm
  | case2 b0 b1 =>
      rw [base64Groups, apart_cons_cons, apart_cons_cons, apart_cons_cons]
      exact ⟨fun h => base64Char_ne_pad _ h.2, fun h => base64Char_ne_pad _ h.2,
        fun h => (base64Char_last_ne b1).1 h.1, hone⟩
  | case3 b0 =>
      rw [base64Groups, apart_cons_cons, apart_cons_cons, apart_cons_cons]
      exact ⟨fun h => base64Char_ne_pad _ h.2, fun h => (base64Char_last_ne b0).2 h.1,
        fun h => hpad h.1, hone⟩
  | case4 => exact .of_not_mem List.not_mem_nil

/-- What `base64_encode` returns is an encoding, also for a length that is not positive. -/
theorem base64_encode_chars {buf : List Byte} {len : Nat} {str : CStr}
    (h : base64_encode buf len = some str) : ∃ l, str.chars = base64Groups l := by
  obtain ⟨n, hn⟩ : ∃ n, (if n ≤ buf.length then some (CStr.ofChars (base64Groups (buf.take n)))
      else none) = some str := by
    rw [base64_encode] at h
    split at h
    · exact ⟨len, h⟩
    · obtain ⟨n, -, h⟩ := Option.bind_eq_some_iff.mp h
      exact ⟨n, h⟩
  split at hn
  · cases hn
    exact ⟨buf.take n, CStr.ofChars_chars_of_nul_free (base64Groups_nul_free _)⟩
  · cases hn

theorem apart_base64 {buf : List Byte} {len : Nat} {str : CStr} (h : base64_encode buf len = some str) :
    Apart (ascii 'n') (ascii '=') str.chars ∧ Apart (ascii 'e') (ascii '>') str.chars := by
  obtain ⟨l, hchars⟩ := base64_encode_chars h
  rw [hchars]
  refine ⟨apart_base64Groups l, .of_not_mem_right fun hmem => ?_⟩
  have htable : ascii '>' ∉ base64_charset ∧ ascii '>' ≠ base64Pad := by decide +kernel
  exact (mem_base64Groups hmem).elim htable.1 htable.2

/-! ## Messages that are not cut -/

section Complete

variable {p : Packet} {iMsgNumID : Nat} {message : CStr}

/-- Up to its last character no `>` of the text stands behind an `e`. -/
theorem apart_dropLast_packetText {size1 : Nat} {pEnBody : CStr} (hp : p.Numeric)
    (hbody : Apart (ascii 'e') (ascii '>') pEnBody.chars) :
    Apart (ascii 'e') (ascii '>') (packetText p size1 iMsgNumID pEnBody).chars.dropLast := by
  have hx : numeric (ascii 'e') = false := by decide +kernel
  have hpieces : ∀ l ∈ formatPieces, Sealed (ascii 'e') (ascii '>') l.chars := by decide +kernel
  have hsn : Sealed (ascii 'e') (ascii '>') (CStr.lit "sn=").chars := by decide +kernel
  have hclose : (CStr.lit "</body></message>").chars ≠ [] ∧
      Apart (ascii 'e') (ascii '>') (CStr.lit "</body></message>").chars.dropLast ∧
      (CStr.lit "</body></message>").chars.dropLast.head? ≠ some (ascii '>') := by
    decide +kernel
  have hfront : Apart (ascii 'e') (ascii '>')
      (packetHead p size1 ++ CStr.lit "sn=" ++ packetBody iMsgNumID pEnBody).chars :=
    ((sealed_packetHead hp hx hpieces).append hsn).append_apart (apart_packetBody hx hpieces hbody)
  rw [packetText_split, CStr.chars_append, List.dropLast_append_of_ne_nil hclose.1]
  exact hfront.append_of_head hclose.2.1 hclose.2.2

/-- **A message that ends with its end tag** is the whole text: the end tag stands nowhere else in it. -/
theorem message_of_complete (hp : p.Numeric) (h : p.message iMsgNumID = some message)
    (hcomplete : (CStr.lit "</message>").chars <:+ message.chars) :
    ∃ pEnBody, base64_encode p.tcpData p.size1 = some pEnBody ∧
      message = packetText p p.size1 iMsgNumID pEnBody := by
  obtain ⟨pEnBody, hencode, rfl⟩ := Option.map_eq_some_iff.mp h
  refine ⟨pEnBody, hencode, ?_⟩
  by_cases hfits : (packetText p p.size1 iMsgNumID pEnBody).chars.length < 4096 + 512
  · exact packetMessage_eq hfits
  · exfalso
    -- a message that was cut lacks the last character of the text at least
    have hcut : (Server.packetMessage p p.size1 iMsgNumID pEnBody).chars <+:
        (packetText p p.size1 iMsgNumID pEnBody).chars.dropLast := by
      rw [chars_packetMessage, List.dropLast_eq_take]
      exact List.take_prefix_take_left (by omega)
    have hclose : (CStr.lit "</message>").chars =
        (CStr.lit "</messag").chars ++ ascii 'e' :: ascii '>' :: [] := by
      decide +kernel
    have hin := hcomplete.isInfix.trans hcut.isInfix
    rw [hclose] at hin
    exact (apart_dropLast_packetText hp (apart_base64 hencode).2).absent hin

end Complete

/-! ## The received text -/

/-- A message for a captured packet that was not cut. -/
structure Stanza where
  source : in_addr
  dest : in_addr
  source_port : UInt16
  destination_port : UInt16
  tcpData : List Byte
  size : Nat
  iMsgNumID : UInt32
  message : CStr
  composed : (capturedPacket source dest source_port destination_port tcpData size).message
    iMsgNumID.toNat = some message
  complete : (CStr.lit "</message>").chars <:+ message.chars

def Stanza.packet (st : Stanza) : Packet :=
  capturedPacket st.source st.dest st.source_port st.destination_port st.tcpData st.size

/-- The text of the number in a stanza. -/
def Stanza.snText (st : Stanza) : CStr := CStr.percentD st.iMsgNumID.toNat

/-- Every captured payload has a stanza. -/
def Stanza.ofPayload (source dest : in_addr) (source_port destination_port : UInt16)
    (iMsgNumID : UInt32) (tcpData : List Byte) (size : Nat) (hpos : 0 < size)
    (hsize : size ≤ tcpData.length) : Stanza where
  source := source
  dest := dest
  source_port := source_port
  destination_port := destination_port
  tcpData := tcpData
  size := size
  iMsgNumID := iMsgNumID
  message :=
    packetText (capturedPacket source dest source_port destination_port tcpData size) (min size 3072)
      iMsgNumID.toNat (CStr.ofChars (base64Groups (tcpData.take (min size 3072))))
  composed := by
    obtain ⟨pEnBody, -, hchars, hmessage⟩ := message_captured source dest source_port destination_port
      iMsgNumID.toNat tcpData size hpos hsize
    rw [hmessage, ← hchars, CStr.ofChars_chars]
  complete := by
    have htag : (CStr.lit "</body></message>").chars =
        (CStr.lit "</body>").chars ++ (CStr.lit "</message>").chars := by
      decide +kernel
    rw [packetText_split, CStr.chars_append, htag, ← List.append_assoc]
    exact List.suffix_append _ _

/-- Stanzas, one behind the other. -/
def received : List Stanza → CStr
  | [] => CStr.ofChars []
  | st :: stanzas => st.message ++ received stanzas

/-- A text in which no `sn=` begins and none is continued. -/
def Quiet (s : CStr) : Prop := Sealed (ascii 'n') (ascii '=') s.chars

theorem Quiet.append {s t : CStr} (hs : Quiet s) (ht : Quiet t) : Quiet (s ++ t) := Sealed.append hs ht

/-- The last two characters of `sn=` keep it out of a quiet text. -/
theorem sn_absent {l : List Byte} (h : Apart (ascii 'n') (ascii '=') l) :
    ¬(CStr.lit "sn=").chars <:+: l := by
  have hsn : (CStr.lit "sn=").chars = [ascii 's'] ++ ascii 'n' :: ascii '=' :: [] := by decide +kernel
  rw [hsn]
  exact h.absent

/-- **A stanza** has `sn=` once, with its number behind. -/
theorem Stanza.split (st : Stanza) : ∃ before after : CStr, Quiet before ∧
    Quiet (CStr.lit "'" ++ st.snText ++ CStr.lit "'" ++ after) ∧
    st.message = before ++ CStr.lit "sn=" ++ (CStr.lit "'" ++ st.snText ++ CStr.lit "'" ++ after) := by
  have hx : numeric (ascii 'n') = false := by decide +kernel
  have hpieces : ∀ l ∈ formatPieces, Sealed (ascii 'n') (ascii '=') l.chars := by decide +kernel
  have hclose : Sealed (ascii 'n') (ascii '=') (CStr.lit "</body></message>").chars ∧
      (CStr.lit "</body></message>").chars.head? ≠ some (ascii '=') ∧
      (CStr.lit "</body></message>").chars ≠ [] := by
    decide +kernel
  have hend : CStr.lit "'>" = CStr.lit "'" ++ CStr.lit ">" := by decide +kernel
  have hp : st.packet.Numeric := numeric_capturedPacket _ _ _ _ _ _
  obtain ⟨pEnBody, hencode, hmessage⟩ := message_of_complete hp st.composed st.complete
  have hafter : packetBody st.iMsgNumID.toNat pEnBody ++ CStr.lit "</body></message>" =
      CStr.lit "'" ++ st.snText ++ CStr.lit "'" ++
        (CStr.lit ">" ++ pEnBody ++ CStr.lit "</body></message>") := by
    apply CStr.ext
    simp only [packetBody, Stanza.snText, hend, CStr.chars_append, List.append_assoc]
  refine ⟨packetHead st.packet st.packet.size1,
    CStr.lit ">" ++ pEnBody ++ CStr.lit "</body></message>", sealed_packetHead hp hx hpieces, ?_, ?_⟩
  · rw [← hafter]
    exact (apart_packetBody hx hpieces (apart_base64 hencode).1).append_sealed hclose.1 hclose.2.1
      hclose.2.2
  · rw [hmessage, packetText_split, ← hafter]
    exact CStr.ext (List.append_assoc _ _ _)

theorem snText_spec (st : Stanza) : ascii '\'' ∉ st.snText.chars ∧ st.snText.chars ≠ [] ∧
    st.snText.chars.length ≤ 11 := by
  refine ⟨(numeric_percentD _).not_mem (by decide +kernel), ?_, CStr.length_percentD_le _⟩
  obtain ⟨m, -, h | h⟩ := CStr.percentD_cases st.iMsgNumID.toNat
  · rw [Stanza.snText, h]
    exact digitBytes_ne_nil m
  · rw [Stanza.snText, h]
    exact List.cons_ne_nil _ _

theorem Stanza.length_message (st : Stanza) : 10 ≤ st.message.chars.length := by
  have htag : (CStr.lit "</message>").chars.length = 10 := by decide +kernel
  exact htag ▸ st.complete.length_le

theorem length_received (stanzas : List Stanza) :
    10 * stanzas.length ≤ (received stanzas).chars.length := by
  induction stanzas with
  | nil => exact Nat.zero_le _
  | cons st stanzas ih =>
      have hmessage := st.length_message
      rw [received, CStr.chars_append, List.length_append, List.length_cons]
      omega

end Netflow
