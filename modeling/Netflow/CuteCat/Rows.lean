import Netflow.CuteCat.Delivery
import Netflow.CuteCat.FilterList
import Netflow.Iksemel.Markup

set_option autoImplicit false

/-! # The rows of the client (`cdogEar.c`, `CuteCatDlg.cpp`)

`SendTcp2Cats` writes a message for each packet, and the messages and the answers of the server come to
the client in one stream, cut anywhere. `IOProcessDogMsg` of the client adds a row for each message its
parser reports, and keeps the bytes of its payload.
-/

namespace Netflow

open IksParser

namespace CCuteCatDlg

/-- `IOXMLIQ` as far as it touches no row: it compares the two attributes with `strcmp`. -/
def passIQ (node : Iks) (pDlg : CCuteCatDlg) : Option CCuteCatDlg :=
  (catIqHandler (Iks.findAttrib (some node) (CStr.lit "type"))
    (Iks.findAttrib (Iks.find (some node) (CStr.lit "query")) (CStr.lit "xmlns"))).map fun _ => pDlg

/-- `IOProcessDogMsg` as far as the rows go. -/
def IOProcessDogMsg (pDlg : CCuteCatDlg) : IksNodeType × Option Iks → Option CCuteCatDlg
  | (.IKS_NODE_NORMAL, some node) =>
      match Iks.packet node with
      | .IKS_PAK_MESSAGE => pDlg.IOXMLMessage node
      | .IKS_PAK_IQ => pDlg.passIQ node
      | _ => some pDlg
  | _ => some pDlg

end CCuteCatDlg

/-! ## A packet -/

/-- A packet that was captured, with the number of its message. -/
structure Sniffed where
  source : in_addr
  dest : in_addr
  source_port : UInt16
  destination_port : UInt16
  iMsgNumID : UInt32
  tcpData : List Byte
  size : Nat
  pos : 0 < size
  le : size ≤ tcpData.length

namespace Sniffed

variable (x : Sniffed)

def packet : Packet := capturedPacket x.source x.dest x.source_port x.destination_port x.tcpData x.size

/-- The bytes that are sent of the payload. -/
def payload : List Byte := x.tcpData.take (min x.size 3072)

/-- The message `SendTcp2Cats` writes. -/
def message : Option CStr := x.packet.message x.iMsgNumID.toNat

def pEnBody : CStr := CStr.ofChars (base64Groups x.payload)

def node : Iks := packetNode x.packet (min x.size 3072) x.iMsgNumID.toNat x.pEnBody

/-- The row of a message. -/
def row : MsgItem where
  Sn := some (CStr.percentD x.iMsgNumID.toNat)
  From := some (inet_ntoa x.source)
  Fp := some (CStr.percentD x.source_port.toNat)
  To := some (inet_ntoa x.dest)
  Tp := some (CStr.percentD x.destination_port.toNat)
  Len := some (CStr.percentD (min x.size 3072))
  Data := CStr.ofChars (x.payload ++ [0])

/-- What is kept of a payload, with the zero behind it. -/
def capElement : CAPELEMENT where
  iLen := min x.size 3072
  pBuf := x.payload ++ [0]

theorem size1_bounds : 0 < min x.size 3072 ∧ min x.size 3072 ≤ x.tcpData.length ∧
    min x.size 3072 ≤ 3072 := by
  have hpos := x.pos
  have hle := x.le
  omega

theorem length_payload : x.payload.length = min x.size 3072 := by
  have hbounds := x.size1_bounds
  rw [payload, List.length_take]
  omega

theorem chars_pEnBody : x.pEnBody.chars = base64Groups x.payload :=
  CStr.ofChars_chars_of_nul_free (base64Groups_nul_free _)

/-- **The message of a packet** is the text of its element. -/
theorem message_eq : ∃ text, x.message = some text ∧ text.chars = x.node.text := by
  obtain ⟨pEnBody, -, hchars, hmessage⟩ := message_captured x.source x.dest x.source_port
    x.destination_port x.iMsgNumID.toNat x.tcpData x.size x.pos x.le
  have hbody : pEnBody = x.pEnBody := CStr.ext (hchars.trans x.chars_pEnBody.symm)
  rw [hbody] at hmessage
  exact ⟨_, hmessage, text_packetNode _ _ _ _⟩

/-- No value in it has a character with a meaning. -/
theorem plain_node : x.node.Plain := by
  refine plain_packetNode (numeric_inet_ntoa _).plain (numeric_percentD _).plain
    (numeric_inet_ntoa _).plain (numeric_percentD _).plain (plain_base64 x.chars_pEnBody) fun hnil => ?_
  have hlength := congrArg List.length hnil
  rw [x.chars_pEnBody, length_base64Groups, x.length_payload, List.length_nil] at hlength
  have hbounds := x.size1_bounds
  omega

/-- **The row of a packet.** -/
theorem IOProcessDogMsg_node (pDlg : CCuteCatDlg) :
    pDlg.IOProcessDogMsg (.IKS_NODE_NORMAL, some x.node) = some {
      m_ListMsg := pDlg.m_ListMsg ++ [x.row]
      m_CapElement := pDlg.m_CapElement ++ [x.capElement] } := by
  have hbounds := x.size1_bounds
  have hdecode := iks_base64_decode_groups x.chars_pEnBody
  rw [x.length_payload] at hdecode
  obtain ⟨block, hblock⟩ : ∃ block, block = x.payload ++ List.replicate
      (Decoder.groupBytes (min x.size 3072) - min x.size 3072 + 1) (0 : Byte) := ⟨_, rfl⟩
  rw [← hblock] at hdecode
  have hlen : min x.size 3072 ≤ block.length := by
    rw [hblock, List.length_append, x.length_payload]
    omega
  have hbytes : block.take (min x.size 3072) = x.payload := by
    have hlength := x.length_payload
    rw [hblock, List.take_append_of_le_length (by omega), List.take_of_length_le (by omega)]
  have hpacket : Iks.packet x.node = .IKS_PAK_MESSAGE := iks_packet_packetNode _ _ _ _
  rw [CCuteCatDlg.IOProcessDogMsg, hpacket]
  refine (IOXMLMessage_packetNode pDlg hbounds.1 (by omega) hdecode hlen).trans ?_
  rw [hbytes]
  rfl

/-- The message as a stanza. -/
def stanza : IksStanza where
  text := x.node.text
  node := (.IKS_NODE_NORMAL, some x.node)
  reads h := h.reads_plain x.plain_node (by decide +kernel)

end Sniffed

/-! ## What is sent to a client -/

/-- A message, or something that makes no row. -/
inductive SentStanza where
  | packet (x : Sniffed)
  | other (x : IksStanza)
      (quiet : ∀ pDlg : CCuteCatDlg, pDlg.IOProcessDogMsg x.node = some pDlg)

namespace SentStanza

def stanza : SentStanza → IksStanza
  | .packet x => x.stanza
  | .other x _ => x

def packet? : SentStanza → Option Sniffed
  | .packet x => some x
  | .other _ _ => none

/-- What has come in whole in the first `n` bytes. -/
def arrived (n : Nat) (sent : List SentStanza) : List SentStanza :=
  Netflow.arrived (fun x => x.stanza.text.length) n sent

/-- **The rows** of what was reported. -/
theorem foldlM_IOProcessDogMsg (sent : List SentStanza) (pDlg : CCuteCatDlg) :
    (sent.map fun x => x.stanza.node).foldlM CCuteCatDlg.IOProcessDogMsg pDlg = some {
      m_ListMsg := pDlg.m_ListMsg ++ (sent.filterMap packet?).map Sniffed.row
      m_CapElement := pDlg.m_CapElement ++ (sent.filterMap packet?).map Sniffed.capElement } := by
  induction sent generalizing pDlg with
  | nil =>
      show some pDlg = _
      rw [List.filterMap_nil, List.map_nil, List.map_nil, List.append_nil, List.append_nil]
  | cons x rest ih =>
      rw [List.map_cons, List.foldlM_cons]
      cases x with
      | packet x =>
          rw [List.filterMap_cons_some (show packet? (.packet x) = some x from rfl), List.map_cons,
            List.map_cons, show (SentStanza.packet x).stanza.node = (.IKS_NODE_NORMAL, some x.node) from
              rfl, x.IOProcessDogMsg_node]
          refine (ih _).trans ?_
          rw [List.append_assoc, List.append_assoc]
          rfl
      | other x quiet =>
          rw [List.filterMap_cons_none (show packet? (.other x quiet) = none from rfl),
            show (SentStanza.other x quiet).stanza.node = x.node from rfl, quiet]
          exact ih pDlg

end SentStanza

/-- **One row for each packet**: whatever pieces the stream of the server comes in and whatever resets
`IKS_RESET` makes, the client has a row for each message whose last byte has come, in their order, with
the addresses, the ports, the number and the bytes that were captured, and none for anything else. -/
theorem rows_of_pieces (big : Iks → Bool) {sent : List SentStanza} {pieces : List CStr}
    (hpieces : pieces.flatMap CStr.chars <+: sent.flatMap fun x => x.stanza.text)
    (pDlg : CCuteCatDlg) :
    let rows := (SentStanza.arrived (pieces.flatMap CStr.chars).length sent).filterMap SentStanza.packet?
    ∃ prs, pieces.foldlM (iks_parse_reset big) (new ⟨[], []⟩) = some prs ∧
      prs.user_data.reported.foldlM CCuteCatDlg.IOProcessDogMsg pDlg = some {
        m_ListMsg := pDlg.m_ListMsg ++ rows.map Sniffed.row
        m_CapElement := pDlg.m_CapElement ++ rows.map Sniffed.capElement } := by
  intro rows
  have hstanzas : pieces.flatMap CStr.chars <+: (sent.map SentStanza.stanza).flatMap IksStanza.text := by
    rw [List.flatMap_map]
    exact hpieces
  obtain ⟨prs, hprs, hreported⟩ := reported_of_pieces big hstanzas
  refine ⟨prs, hprs, ?_⟩
  rw [hreported, IksStanza.arrived, ← map_arrived, List.map_map]
  exact SentStanza.foldlM_IOProcessDogMsg _ _

/-- A start of a stream and two messages, the second one but for its last byte, in three pieces. -/
example :
    let header : IksStanza := .header [] [⟨[ascii ' '], CStr.lit "from", ascii '\'', CStr.lit "dog"⟩] []
      trivial (by decide) (by decide +kernel)
    let x : Sniffed := ⟨⟨10, 0, 0, 1⟩, ⟨10, 0, 0, 2⟩, 1234, 80, 1, [71, 0, 255, 60], 4, by decide, by decide⟩
    let bytes := header.text ++ x.stanza.text ++ x.stanza.text.dropLast
    ∃ prs pDlg, [CStr.ofChars (bytes.take 40), CStr.ofChars ((bytes.take 150).drop 40),
        CStr.ofChars (bytes.drop 150)].foldlM (iks_parse_reset fun _ => true) (new ⟨[], []⟩) = some prs ∧
      prs.user_data.reported.foldlM CCuteCatDlg.IOProcessDogMsg ⟨[], []⟩ = some pDlg ∧
      pDlg.m_CapElement.map CAPELEMENT.pBuf = [[71, 0, 255, 60, 0]] := by
  intro header x bytes
  let sent : List SentStanza := [.other header (fun _ => rfl), .packet x, .packet x]
  have hpieces : [CStr.ofChars (bytes.take 40), CStr.ofChars ((bytes.take 150).drop 40),
      CStr.ofChars (bytes.drop 150)].flatMap CStr.chars <+: sent.flatMap fun x => x.stanza.text :=
    List.isPrefixOf_iff_prefix.mp (by decide +kernel)
  obtain ⟨prs, hprs, hrows⟩ := rows_of_pieces (fun _ => true) hpieces ⟨[], []⟩
  exact ⟨prs, _, hprs, hrows, by decide +kernel⟩

end Netflow
