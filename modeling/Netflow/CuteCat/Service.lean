import Netflow.Transport.Answered
import Netflow.Transport.Serving

set_option autoImplicit false

/-! # From the server to the client

The parts put together: what the handlers put, what the transport sends on a connection, and what the
parser and the dialog of the client at its end make of it.
-/

namespace Netflow

open Iksemel IksParser Format

/-! ## The texts of the server are messages -/

/-- The texts of a dog can stand between two tags, and its row fits. -/
structure CleanTexts (Name Filter : CStr) : Prop where
  name : Name.Verbatim
  filter : Filter.Verbatim
  fits : Name.chars.length + Filter.chars.length ≤ 85

/-- A packet that was captured. -/
def IsSniffed (p : Packet) : Prop := ∃ x : Sniffed, p = x.packet

/-- A row that is not cut. -/
theorem listText_eq {dog : CUTEDOG} (h : dog.Name.chars.length + dog.Filter.chars.length ≤ 85)
    (blank : Bool) : listText blank dog = (CatAnswer.filters blank (some (dog.Name, dog.Filter))).text := by
  have hlengths : (CStr.lit "<name>").chars.length = 6 ∧
      (CStr.lit "</name><filterstring>").chars.length = 21 ∧
      (CStr.lit "</filterstring>").chars.length = 15 ∧ (CStr.lit "</query></iq>").chars.length = 13 := by
    decide +kernel
  have hhead : (if blank then CStr.lit "<iq type='result'><query xmlns='filter:show' >"
      else CStr.lit "<iq type='result'><query xmlns='filter:show'>").chars.length ≤ 46 := by
    cases blank <;> decide +kernel
  have hrow : Server.filterRow dog = CStr.lit "<name>" ++ dog.Name ++
      CStr.lit "</name><filterstring>" ++ dog.Filter ++ CStr.lit "</filterstring>" := by
    refine CStr.snprintf_of_fits ?_
    simp only [CStr.chars_append, List.length_append, hlengths]
    omega
  have hlen : (Server.filterRow dog).chars.length ≤ 127 := List.length_take_le _ _
  rw [listText, CStr.snprintf_of_fits (Nat.lt_of_le_of_lt hlen (by decide)), CStr.snprintf_of_fits]
  · rw [hrow]
    rfl
  · simp only [CStr.chars_append, List.length_append, hlengths]
    omega

theorem loseNotice_eq {dog : CUTEDOG} (h : dog.Name.chars.length ≤ 85) :
    Server.loseNotice dog = (CatAnswer.lose dog.Name).text := by
  have hlengths : (CStr.lit
      "<iq type='set'><query xmlns='filter:notice' action='lose'><username>").chars.length = 68 ∧
      (CStr.lit "</username></query></iq>").chars.length = 24 := by decide +kernel
  refine CStr.snprintf_of_fits ?_
  simp only [CStr.chars_append, List.length_append, hlengths]
  omega

/-- **The texts of the server are messages.** -/
theorem ServerText.message {str : CStr} (h : ServerText CleanTexts IsSniffed str) :
    ∃ x : DogMessage, x.text = str.chars := by
  cases h with
  | handShake => exact ⟨.handShake, rfl⟩
  | answer a ha =>
      have hclean : a.Clean := by
        cases a with
        | login ok | hook ok | unhook ok | create ok | cancel ok => trivial
        | filters blank row => cases ha
        | lose Name => cases ha
      exact ⟨.answer ⟨a, hclean⟩, rfl⟩
  | noFilters =>
      refine ⟨.answer ⟨.filters true none, trivial⟩, ?_⟩
      rw [CStr.snprintf_of_fits (by decide +kernel)]
      decide +kernel
  | filters blank dog hdog =>
      rw [listText_eq hdog.fits]
      exact ⟨.answer ⟨.filters blank (some (dog.Name, dog.Filter)), hdog.name, hdog.filter⟩, rfl⟩
  | lose dog hdog =>
      have hfits := hdog.fits
      rw [loseNotice_eq (by omega)]
      exact ⟨.answer ⟨.lose dog.Name, hdog.name, by omega⟩, rfl⟩
  | packet p iMsgNumID message hp hmessage =>
      obtain ⟨x, rfl⟩ := hp
      obtain ⟨text, htext, hchars⟩ := Sniffed.message_eq { x with iMsgNumID := iMsgNumID }
      refine ⟨.packet { x with iMsgNumID := iMsgNumID }, ?_⟩
      rw [show str = text from Option.some.inj (hmessage.symm.trans htext), hchars]
      rfl

/-- Messages are messages of the client. -/
theorem exists_messages {ms : List Msg} (h : ∀ m ∈ ms, ServerText CleanTexts IsSniffed m.text) :
    ∃ sent : List DogMessage, sent.map DogMessage.text = ms.map fun m => m.text.chars := by
  induction ms with
  | nil => exact ⟨[], rfl⟩
  | cons m rest ih =>
      obtain ⟨x, hx⟩ := (h m List.mem_cons_self).message
      obtain ⟨sent, hsent⟩ := ih fun m' hm' => h m' (List.mem_cons_of_mem _ hm')
      exact ⟨x :: sent, by rw [List.map_cons, List.map_cons, hx, hsent]⟩

/-! ## End to end -/

/-- The rows of messages whose bytes come in pieces. -/
theorem DogMessage.rows_arrive (big : Iks → Bool) {sent : List DogMessage} {pieces : List CStr}
    (hpieces : pieces.flatMap CStr.chars <+: sent.flatMap DogMessage.text) (pDlg : CCuteCatDlg) :
    let rows := (DogMessage.arrived (pieces.flatMap CStr.chars).length sent).filterMap DogMessage.packet?
    ∃ prs, pieces.foldlM (iks_parse_reset big) (new ⟨[], []⟩) = some prs ∧
      prs.user_data.reported.foldlM CCuteCatDlg.IOProcessDogMsg pDlg = some {
        m_ListMsg := pDlg.m_ListMsg ++ rows.map Sniffed.row
        m_CapElement := pDlg.m_CapElement ++ rows.map Sniffed.capElement } := by
  have hbytes : pieces.flatMap CStr.chars <+:
      (sent.map DogMessage.sentStanza).flatMap fun x => x.stanza.text := by
    rw [List.flatMap_map]
    simpa only [DogMessage.stanza_sentStanza, DogMessage.text_stanza] using hpieces
  have hrows := rows_of_pieces big hbytes pDlg
  rw [SentStanza.arrived, ← map_arrived, List.filterMap_map] at hrows
  simp only [DogMessage.stanza_sentStanza, DogMessage.text_stanza] at hrows
  have hpacket : SentStanza.packet? ∘ DogMessage.sentStanza = DogMessage.packet? :=
    funext DogMessage.packet?_sentStanza
  rw [hpacket] at hrows
  exact hrows

section Runs

variable {ι : Type} [Iksemel ι] {align : MsgCell → Nat} {s : Server}

/-- The connections are served cleanly, the texts of the create requests are clean and the packets were
captured. -/
def Served (s : Server) (a : ServerAction ι) : Prop :=
  CleanServing s a ∧ Worded CleanTexts IsSniffed s a

/-- **What was put for a connection is what its client does**: whatever the server does in a run, the
messages it put for a connection are messages of the client, in their order, and whatever pieces the
bytes it has sent come in and whatever resets `IKS_RESET` makes, the dialog has done what the messages
that came in whole are for, and has a row for each packet among them. -/
theorem client_served (h : Reach serverStep (Served (ι := ι)) (InitServer align) s) (n : Nat) :
    ∃ sent : List DogMessage, sent.map DogMessage.text = (s.putFor n).map (fun m => m.text.chars) ∧
      ∀ (big : Iks → Bool) (pieces : List CStr) (stopped : Bool) (d : Dialog) (pDlg : CCuteCatDlg),
        pieces.flatMap CStr.chars <+: s.sentTo n →
        ∃ prs, pieces.foldlM (iks_parse_reset big) (new ⟨[], []⟩) = some prs ∧
          let seen := DogMessage.arrived (pieces.flatMap CStr.chars).length sent
          prs.user_data.reported.foldlM (Dialog.IOProcessDogMsg stopped) d =
            some (seen.foldl DogMessage.effect d) ∧
          prs.user_data.reported.foldlM CCuteCatDlg.IOProcessDogMsg pDlg = some {
            m_ListMsg := pDlg.m_ListMsg ++ (seen.filterMap DogMessage.packet?).map Sniffed.row
            m_CapElement := pDlg.m_CapElement ++
              (seen.filterMap DogMessage.packet?).map Sniffed.capElement } := by
  have hcarried := carried_reach (h.mono fun _ _ hserved => hserved.1)
  obtain ⟨-, htexts⟩ := texts_reach (h.mono fun _ _ hserved => hserved.2)
  have hput : ∀ m ∈ s.putFor n, ServerText CleanTexts IsSniffed m.text :=
    fun m hm => htexts m (List.mem_of_mem_filter hm)
  obtain ⟨sent, hsent⟩ := exists_messages hput
  refine ⟨sent, hsent, fun big pieces stopped d pDlg hpieces => ?_⟩
  have hbytes : pieces.flatMap CStr.chars <+: sent.flatMap DogMessage.text := by
    have hput : s.sentTo n <+: bytesOf (s.putFor n) :=
      (hcarried.sending.sent_pre n).trans (bytesOf_mono (hcarried.mail.pre n))
    have hall : bytesOf (s.putFor n) = sent.flatMap DogMessage.text := by
      rw [List.flatMap_def, hsent, bytesOf, List.flatMap_def]
    exact hall ▸ hpieces.trans hput
  obtain ⟨prs, hprs, hdialog⟩ := answers_arrive big hbytes stopped d
  obtain ⟨prs', hprs', hrows⟩ := DogMessage.rows_arrive big hbytes pDlg
  rw [hprs] at hprs'
  cases hprs'
  exact ⟨prs, hprs, hdialog, hrows⟩

end Runs

/-! ## A connection -/

/-- What the receive thread does with the messages puts none. -/
theorem served_receives {ι : Type} [Iksemel ι] (i : Slot) : Receives (Served (ι := ι)) i := by
  have hclean : ∀ {s s' : Server}, s'.hist.put = s.hist.put → s.RoomForTexts s' := by
    intro s s' hput c _ _ hm
    rw [newMessages, hput, List.drop_length] at hm
    cases hm
  refine ⟨fun s => ⟨fun s' hstep => ?_, trivial⟩, fun s _ => ⟨fun s' hstep => ?_, trivial⟩,
    fun s n => ⟨fun s' hstep => ?_, trivial⟩⟩
  · cases serverStep_eq_some hstep with
    | drain hpop => exact hclean (Server.put_popDogMsg hpop)
  · cases serverStep_eq_some hstep with
    | pickUp _ _ _ => exact hclean (Server.put_firstPass s i)
  · cases serverStep_eq_some hstep with
    | send _ _ _ _ _ => exact hclean (Server.put_sendPump s i n)

/-- A client connects and its stream is answered; all of the handshake is sent. -/
theorem handShake_sent_filled {filled : FifoRing MsgCell × List Ret} (hfilled : filled.1.contents ≠ []) :
    ∃ s : Server, Reach serverStep (Served (ι := Iks)) (initialServer (fun _ => 0) filled) s ∧
      s.sentTo 1 = dogHandShake.chars := by
  set s := (initialServer (fun _ => 0) filled).acceptClient 7 with hs
  have hfits : dogHandShake.chars.length ≤ MSGINITSIZE := by decide +kernel
  have haccept : Served (ι := Iks) (initialServer (fun _ => 0) filled) (.accept 7) := by
    refine ⟨⟨?_, fun _ _ => rfl⟩, trivial⟩
    intro i _ d hd
    rw [show (initialServer (fun _ => 0) filled).pool.srv.pFifoDogMsg.contents = [] from
      contents_newRing] at hd
    cases hd
  have hstep : serverStep s (.stanza 15 .IKS_NODE_START (Iks.cdata (CStr.lit "")) .allSucceed) =
      some (s.answer 15 dogHandShake).2 := by
    rw [serverStep, if_pos ⟨List.mem_cons_self, rfl, fun h => CLIENTSTATUS.noConfusion h⟩]
    rfl
  have hserved : Served s (.stanza 15 .IKS_NODE_START (Iks.cdata (CStr.lit "")) .allSucceed) := by
    refine ⟨fun s' hs' c _ _ hm => ?_, fun F N m hreq => ?_⟩
    · -- the answer is the handshake
      obtain ⟨ms, hput, htexts⟩ := Server.Deeds.put
        (Server.deeds_answer (T := fun str => str = dogHandShake) rfl 15 s)
      cases hstep.symm.trans hs'
      rw [newMessages, hput, List.drop_left] at hm
      rw [htexts _ hm]
      exact pushable_init hfits none
    · cases hreq
  obtain ⟨s', hreach, hsent⟩ := first_answer _ _ hfilled haccept hserved hstep hfits (by decide +kernel)
    (served_receives 15)
  refine ⟨s', hreach, ?_⟩
  rw [Server.sentTo, hsent]
  exact List.append_nil _

/-- The handshake is sent, and it was put. -/
theorem server_output_handShake :
    ∃ s : Server, s.sentTo 1 = dogHandShake.chars ∧ dogHandShake.chars <+: bytesOf (s.putFor 1) := by
  obtain ⟨s, hreach, hsent⟩ := handShake_sent_filled fillFree_ne_nil
  obtain ⟨-, hpre⟩ := server_output (hreach.mono fun _ _ hserved => hserved.1)
  exact ⟨s, hsent, hsent ▸ hpre 1⟩

/-- The handshake in two pieces: the client logs in. -/
theorem client_served_handShake :
    let pieces := [CStr.ofChars (dogHandShake.chars.take 40), CStr.ofChars (dogHandShake.chars.drop 40)]
    ∃ (s : Server) (prs : IksParser StreamData), s.sentTo 1 = dogHandShake.chars ∧
      pieces.foldlM (iks_parse_reset fun _ => true) (new ⟨[], []⟩) = some prs ∧
      prs.user_data.reported.foldlM (Dialog.IOProcessDogMsg false) Dialog.new =
        some { Dialog.new with pushed := [.login (CStr.lit "")] } := by
  intro pieces
  obtain ⟨s, hreach, hsent⟩ := handShake_sent_filled fillFree_ne_nil
  have hbytes : pieces.flatMap CStr.chars = dogHandShake.chars := by decide +kernel
  obtain ⟨sent, -, hserved⟩ := client_served hreach 1
  obtain ⟨prs, hprs, hdialog, -⟩ := hserved (fun _ => true) pieces false Dialog.new ⟨[], []⟩ (by
    rw [hbytes, hsent])
  refine ⟨s, prs, hsent, hprs, ?_⟩
  -- what the bytes mean to the parser does not depend on who sent them
  have hone : pieces.flatMap CStr.chars <+: [DogMessage.handShake].flatMap DogMessage.text := by
    rw [hbytes]
    exact List.isPrefixOf_iff_prefix.mp (by decide +kernel)
  obtain ⟨prs', hprs', hfold⟩ := answers_arrive (fun _ => true) hone false Dialog.new
  cases hprs.symm.trans hprs'
  rw [hfold]
  decide +kernel

end Netflow
