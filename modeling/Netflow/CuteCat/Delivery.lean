import Netflow.CuteCat.Message
import Netflow.Nose.Captured

set_option autoImplicit false

/-! # The payload at the client (`CuteCatDlg.cpp`)

`IOXMLMessage` takes the payload out of the element its parser builds from a message. Following a NULL
pointer and reading behind the decoded block is undefined behaviour and gives `none`; memory is taken
to be there.
-/

namespace Netflow

/-! ## The client -/

structure CAPELEMENT where
  iLen : Nat
  pBuf : List Byte

/-- A row of the list of messages, by column; a NULL text shows nothing. -/
structure MsgItem where
  Sn : Option CStr
  From : Option CStr
  Fp : Option CStr
  To : Option CStr
  Tp : Option CStr
  Len : Option CStr
  Data : CStr

/-- The members of `CCuteCatDlg` that the messages fill. -/
structure CCuteCatDlg where
  m_ListMsg : List MsgItem
  m_CapElement : List CAPELEMENT

/-- `memcpy(dst, src, n)`: the bytes read from the block at `src`. -/
def memcpyFrom (src : List Byte) (n : Nat) : Option (List Byte) :=
  if n ≤ src.length then some (src.take n) else none

namespace CCuteCatDlg

/-- `size_t` has 32 bits in the client. An element without a payload leaves `pCapEle` NULL, and its
buffer is read nevertheless. -/
def IOXMLMessage {ι : Type} [Iksemel ι] (node : ι) (pDlg : CCuteCatDlg) : Option CCuteCatDlg := do
  let body := Iksemel.iks_find (some node) (CStr.lit "body")
  let Len := Iksemel.iks_find_attrib body (CStr.lit "size")
  let data := Iksemel.iks_find_cdata (some node) (CStr.lit "body")
  let iLen := ((← atoi (← Len)) % 4294967296).toNat
  if iLen = 0 then none
  else if 4096 < iLen then some pDlg
  else do
    let pDataDecode ← iks_base64_decode (← data)
    let pBuf := (← memcpyFrom pDataDecode iLen) ++ [0]
    some {
      m_ListMsg := pDlg.m_ListMsg ++ [{
        Sn := Iksemel.iks_find_attrib body (CStr.lit "sn")
        From := Iksemel.iks_find_attrib (some node) (CStr.lit "from")
        Fp := Iksemel.iks_find_attrib (some node) (CStr.lit "fp")
        To := Iksemel.iks_find_attrib (some node) (CStr.lit "to")
        Tp := Iksemel.iks_find_attrib (some node) (CStr.lit "tp")
        Len := Len
        Data := CStr.ofChars pBuf }]
      m_CapElement := pDlg.m_CapElement ++ [{ iLen := iLen, pBuf := pBuf }] }

end CCuteCatDlg

/-! ## Plain texts -/

/-- Numbers and addresses have no character with a meaning in XML. -/
theorem CStr.Numeric.plain {s : CStr} (h : s.Numeric) : s.Plain := by
  have hall : ∀ n : Fin 256, numeric (UInt8.ofNat n) = true → plainByte (UInt8.ofNat n) = true := by
    decide +kernel
  intro c hc
  have hplain := hall ⟨c.toNat, c.toNat_lt⟩
  rw [UInt8.ofNat_toNat] at hplain
  exact hplain (h c hc)

theorem plain_base64 {s : CStr} {l : List Byte} (h : s.chars = base64Groups l) : s.Plain := by
  have htable : (∀ c ∈ base64_charset, plainByte c = true) ∧ plainByte base64Pad = true := by
    decide +kernel
  intro c hc
  rw [h] at hc
  obtain hmem | rfl := mem_base64Groups hc
  · exact htable.1 c hmem
  · exact htable.2

/-! ## The way of a payload -/

/-- What `IOXMLMessage` looks up in the element of a message. -/
theorem lookups_packetNode (p : Packet) (size1 iMsgNumID : Nat) (pEnBody : CStr) :
    let node := packetNode p size1 iMsgNumID pEnBody
    let body := Iks.find (some node) (CStr.lit "body")
    Iks.findAttrib body (CStr.lit "size") = some (CStr.percentD size1) ∧
      Iks.findAttrib body (CStr.lit "sn") = some (CStr.percentD iMsgNumID) ∧
      Iks.findAttrib (some node) (CStr.lit "from") = some p.source ∧
      Iks.findAttrib (some node) (CStr.lit "fp") = some p.fp ∧
      Iks.findAttrib (some node) (CStr.lit "to") = some p.dest ∧
      Iks.findAttrib (some node) (CStr.lit "tp") = some p.tp ∧
      Iks.findCdata (some node) (CStr.lit "body") = some pEnBody := by
  have hne : CStr.lit "size" ≠ CStr.lit "sn" ∧ CStr.lit "rawsize" ≠ CStr.lit "sn" ∧
      CStr.lit "from" ≠ CStr.lit "fp" ∧ CStr.lit "from" ≠ CStr.lit "to" ∧
      CStr.lit "fp" ≠ CStr.lit "to" ∧ CStr.lit "from" ≠ CStr.lit "tp" ∧
      CStr.lit "fp" ≠ CStr.lit "tp" ∧ CStr.lit "to" ≠ CStr.lit "tp" := by
    decide +kernel
  obtain ⟨h1, h2, h3, h4, h5, h6, h7, h8⟩ := hne
  simp [packetNode, Iks.find, Iks.findAttrib, Iks.findCdata, Iks.children, Iks.named, h1, h2, h3, h4,
    h5, h6, h7, h8]

theorem iks_packet_packetNode (p : Packet) (size1 iMsgNumID : Nat) (pEnBody : CStr) :
    Iksemel.iks_packet (packetNode p size1 iMsgNumID pEnBody) = .IKS_PAK_MESSAGE := by
  show Iks.packet (.tag (CStr.lit "message") _ _) = _
  rw [Iks.packet, if_neg (by decide +kernel), if_pos rfl]

/-- **The client takes out what the server wrote.** -/
theorem IOXMLMessage_packetNode {p : Packet} {size1 iMsgNumID : Nat} {pEnBody : CStr}
    {block : List Byte} (pDlg : CCuteCatDlg) (hpos : 0 < size1) (hsize : size1 ≤ 4096)
    (hblock : iks_base64_decode pEnBody = some block) (hlen : size1 ≤ block.length) :
    pDlg.IOXMLMessage (packetNode p size1 iMsgNumID pEnBody) = some {
      m_ListMsg := pDlg.m_ListMsg ++ [{
        Sn := some (CStr.percentD iMsgNumID)
        From := some p.source
        Fp := some p.fp
        To := some p.dest
        Tp := some p.tp
        Len := some (CStr.percentD size1)
        Data := CStr.ofChars (block.take size1 ++ [0]) }]
      m_CapElement := pDlg.m_CapElement ++ [{ iLen := size1, pBuf := block.take size1 ++ [0] }] } := by
  obtain ⟨hLen, hSn, hFrom, hFp, hTo, hTp, hdata⟩ := lookups_packetNode p size1 iMsgNumID pEnBody
  have hatoi : atoi (CStr.percentD size1) = some (size1 : Int) := atoi_percentD (by omega)
  have hiLen : ((size1 : Int) % 4294967296).toNat = size1 := by omega
  have hzero : size1 ≠ 0 := by omega
  have hbig : ¬4096 < size1 := by omega
  simp only [CCuteCatDlg.IOXMLMessage, Iksemel.iks_find, Iksemel.iks_find_attrib,
    Iksemel.iks_find_cdata, hLen, hSn, hFrom, hFp, hTo, hTp, hdata, hatoi, hiLen, hblock, memcpyFrom,
    if_pos hlen, if_neg hzero, if_neg hbig, Option.bind_eq_bind, Option.bind_some]

/-- The element of a message says all about it in its text when its values do. -/
theorem plain_packetNode {p : Packet} {size1 iMsgNumID : Nat} {pEnBody : CStr}
    (hsource : p.source.Plain) (hfp : p.fp.Plain) (hdest : p.dest.Plain) (htp : p.tp.Plain)
    (hbody : pEnBody.Plain) (hne : pEnBody.chars ≠ []) :
    (packetNode p size1 iMsgNumID pEnBody).Plain := by
  have hnames : (CStr.lit "message").Name ∧ (CStr.lit "body").Name ∧ (CStr.lit "from").Name ∧
      (CStr.lit "fp").Name ∧ (CStr.lit "to").Name ∧ (CStr.lit "tp").Name ∧ (CStr.lit "size").Name ∧
      (CStr.lit "rawsize").Name ∧ (CStr.lit "sn").Name := by
    decide +kernel
  obtain ⟨hmessage, hbodyName, hfrom, hfpName, hto, htpName, hsize, hraw, hsn⟩ := hnames
  have hnodup : [CStr.lit "from", CStr.lit "fp", CStr.lit "to", CStr.lit "tp"].Nodup ∧
      [CStr.lit "size", CStr.lit "rawsize", CStr.lit "sn"].Nodup := by
    decide +kernel
  have houter : ∀ att ∈ [(CStr.lit "from", p.source), (CStr.lit "fp", p.fp), (CStr.lit "to", p.dest),
      (CStr.lit "tp", p.tp)], att.1.Name ∧ att.2.Plain := by
    simp only [List.forall_mem_cons, List.not_mem_nil, false_imp_iff, implies_true, and_true]
    exact ⟨⟨hfrom, hsource⟩, ⟨hfpName, hfp⟩, ⟨hto, hdest⟩, ⟨htpName, htp⟩⟩
  have hinner : ∀ att ∈ [(CStr.lit "size", CStr.percentD size1),
      (CStr.lit "rawsize", CStr.percentD p.size), (CStr.lit "sn", CStr.percentD iMsgNumID)],
      att.1.Name ∧ att.2.Plain := by
    simp only [List.forall_mem_cons, List.not_mem_nil, false_imp_iff, implies_true, and_true]
    exact ⟨⟨hsize, (numeric_percentD _).plain⟩, ⟨hraw, (numeric_percentD _).plain⟩,
      ⟨hsn, (numeric_percentD _).plain⟩⟩
  rw [packetNode, Iks.Plain]
  refine ⟨hmessage, by simp, hnodup.1, houter, ?_⟩
  rw [Iks.AllPlain, Iks.Plain]
  refine ⟨⟨hbodyName, by simp, hnodup.2, hinner, ?_⟩, trivial, trivial⟩
  rw [Iks.AllPlain, Iks.Plain]
  exact ⟨⟨hne, hbody⟩, trivial, trivial⟩

section Captured

variable (source dest : in_addr) (source_port destination_port : UInt16) (iMsgNumID : Nat)
  (tcpData : List Byte) (size : Nat)

/-- **The message for a payload** of at most 3072 bytes fits the buffer. -/
theorem fits_captured {size1 : Nat} {pEnBody : CStr} (hsize1 : size1 ≤ 3072)
    (hchars : pEnBody.chars = base64Groups (tcpData.take size1)) :
    (packetText (capturedPacket source dest source_port destination_port tcpData size) size1 iMsgNumID
      pEnBody).chars.length < 4096 + 512 := by
  have hbody : pEnBody.chars.length ≤ 4096 := by
    rw [hchars, length_base64Groups, List.length_take]
    omega
  exact length_packetText_le (length_inet_ntoa_le _) (length_port_le _) (length_inet_ntoa_le _)
    (length_port_le _) hbody

/-- What `SendTcp2Cats` writes for a captured payload. -/
theorem message_captured (hpos : 0 < size) (hsize : size ≤ tcpData.length) :
    ∃ pEnBody, base64_encode tcpData (min size 3072) = some pEnBody ∧
      pEnBody.chars = base64Groups (tcpData.take (min size 3072)) ∧
      (capturedPacket source dest source_port destination_port tcpData size).message iMsgNumID =
        some (packetText (capturedPacket source dest source_port destination_port tcpData size)
          (min size 3072) iMsgNumID pEnBody) := by
  obtain ⟨pEnBody, hencode, hchars⟩ :=
    base64_encode_eq (show 0 < min size 3072 by omega) (show min size 3072 ≤ tcpData.length by omega)
  refine ⟨pEnBody, hencode, hchars, ?_⟩
  have hsize1 := size1_eq (capturedPacket source dest source_port destination_port tcpData size)
  rw [Packet.message, hsize1, show (capturedPacket source dest source_port destination_port tcpData
    size).tcpData = tcpData from rfl, show (capturedPacket source dest source_port destination_port
    tcpData size).size = size from rfl, hencode, Option.map_some,
    packetMessage_eq (fits_captured source dest source_port destination_port iMsgNumID tcpData size
      (Nat.min_le_right _ _) hchars)]

end Captured

/-- **A payload arrives.** The message for a payload is not cut, its values have no character with a
meaning in XML, and the client's parser and `IOXMLMessage` take out of it the texts of the addresses,
the ports and the number, the size and the bytes of the payload that were sent. -/
theorem payload_delivered (source dest : in_addr) (source_port destination_port : UInt16)
    (iMsgNumID : UInt32) (tcpData : List Byte) (size : Nat) (hpos : 0 < size)
    (hsize : size ≤ tcpData.length) {prs : IksParser StreamData}
    {reported : List (IksNodeType × Option Iks)} (hprs : prs.Idle reported) (pDlg : CCuteCatDlg) :
    let p := capturedPacket source dest source_port destination_port tcpData size
    let size1 := min size 3072
    ∃ message pEnBody block prs' pBuf,
      p.message iMsgNumID.toNat = some message ∧
      message = packetText p size1 iMsgNumID.toNat pEnBody ∧
      message.chars.length < 4096 + 512 ∧
      message.chars = (packetNode p size1 iMsgNumID.toNat pEnBody).text ∧
      (packetNode p size1 iMsgNumID.toNat pEnBody).Plain ∧
      prs.iks_parse message = some prs' ∧
      prs'.Idle (reported ++ [(.IKS_NODE_NORMAL, some (packetNode p size1 iMsgNumID.toNat pEnBody))]) ∧
      Iksemel.iks_packet (packetNode p size1 iMsgNumID.toNat pEnBody) = .IKS_PAK_MESSAGE ∧
      iks_base64_decode pEnBody = some block ∧ size1 ≤ block.length ∧
      pDlg.IOXMLMessage (packetNode p size1 iMsgNumID.toNat pEnBody) = some {
        m_ListMsg := pDlg.m_ListMsg ++ [{
          Sn := some (CStr.percentD iMsgNumID.toNat)
          From := some (inet_ntoa source)
          Fp := some (CStr.percentD source_port.toNat)
          To := some (inet_ntoa dest)
          Tp := some (CStr.percentD destination_port.toNat)
          Len := some (CStr.percentD size1)
          Data := CStr.ofChars pBuf }]
        m_CapElement := pDlg.m_CapElement ++ [{ iLen := size1, pBuf := pBuf }] } ∧
      pBuf.take size1 = tcpData.take size1 := by
  intro p size1
  have hsize1 : 0 < size1 ∧ size1 ≤ tcpData.length ∧ size1 ≤ 3072 := by omega
  obtain ⟨pEnBody, -, hchars, hmessage⟩ := message_captured source dest source_port destination_port
    iMsgNumID.toNat tcpData size hpos hsize
  have hpayload : (tcpData.take size1).length = size1 := by
    rw [List.length_take]
    omega
  have hbody : pEnBody.chars.length = 4 * ((size1 + 2) / 3) := by
    rw [hchars, length_base64Groups, hpayload]
  have hdecode := iks_base64_decode_groups hchars
  rw [hpayload] at hdecode
  obtain ⟨block, hblock⟩ : ∃ block, block = tcpData.take size1 ++
      List.replicate (Decoder.groupBytes size1 - size1 + 1) (0 : Byte) := ⟨_, rfl⟩
  rw [← hblock] at hdecode
  have hlen : size1 ≤ block.length := by
    rw [hblock, List.length_append, hpayload]
    omega
  -- behind the payload the block has only the padding of the last group
  have hbytes : block.take size1 = tcpData.take size1 := by
    rw [hblock, List.take_append_of_le_length (by omega), List.take_of_length_le (by omega)]
  have hfits : (packetText p size1 iMsgNumID.toNat pEnBody).chars.length < 4096 + 512 :=
    fits_captured source dest source_port destination_port _ tcpData size hsize1.2.2 hchars
  -- no value of the message has markup: numbers, addresses and base64 digits
  have hplain : (packetNode p size1 iMsgNumID.toNat pEnBody).Plain :=
    plain_packetNode (numeric_inet_ntoa _).plain (numeric_percentD _).plain (numeric_inet_ntoa _).plain
      (numeric_percentD _).plain (plain_base64 hchars) (by
        intro hnil
        rw [hnil, List.length_nil] at hbody
        omega)
  obtain ⟨prs', hparse, hidle⟩ := IksParser.iks_parse_text hprs hplain (by decide +kernel)
    (text_packetNode p size1 iMsgNumID.toNat pEnBody)
  refine ⟨packetText p size1 iMsgNumID.toNat pEnBody, pEnBody, block, prs', block.take size1 ++ [0],
    hmessage, rfl, hfits, text_packetNode _ _ _ _, hplain, hparse, hidle, ?_, hdecode, hlen,
    IOXMLMessage_packetNode pDlg hsize1.1 (by omega) hdecode hlen, ?_⟩
  · exact iks_packet_packetNode _ _ _ _
  · rw [List.take_append_of_le_length (by rw [List.length_take]; omega), List.take_take, Nat.min_self,
      hbytes]

/-- Four bytes on their way to a client that has read nothing yet. -/
theorem payload_delivered_four : ∃ message node prs' item pBuf,
    (capturedPacket ⟨10, 0, 0, 1⟩ ⟨10, 0, 0, 2⟩ 1234 80 [71, 0, 255, 60] 4).message 1 = some message ∧
      (IksParser.new ⟨[], []⟩).iks_parse message = some prs' ∧
      prs'.Idle [(.IKS_NODE_NORMAL, some node)] ∧
      CCuteCatDlg.IOXMLMessage node { m_ListMsg := [], m_CapElement := [] } =
        some { m_ListMsg := [item], m_CapElement := [{ iLen := 4, pBuf := pBuf }] } ∧
      pBuf.take 4 = [71, 0, 255, 60] := by
  obtain ⟨message, pEnBody, block, prs', pBuf, hmessage, -, -, -, -, hparse, hidle, -, -, -, hclient,
    hbytes⟩ := payload_delivered ⟨10, 0, 0, 1⟩ ⟨10, 0, 0, 2⟩ 1234 80 1 [71, 0, 255, 60] 4
      (by decide) (by decide) IksParser.idle_new { m_ListMsg := [], m_CapElement := [] }
  exact ⟨message, _, prs', _, pBuf, hmessage, hparse, hidle, hclient, hbytes⟩

end Netflow
