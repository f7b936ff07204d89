import Netflow.CuteCat.Answers
import Netflow.Registry.UserText

set_option autoImplicit false

/-! # What the server says

Every text the server puts is one of few kinds: the handshake, a fixed answer, the list of filters
with the row of one dog, the notice that a dog is lost, or the message for a packet. The handlers, the
end of a session and the fan-out of a packet are made of deeds: an answer with such a text, a cell that
is obtained and not put, and a change of what the transport of messages does not look at.
-/

namespace Netflow

open Iksemel Relation

/-- The list of filters with the row of a dog; in the answer to `filter:show` a blank stands in the
start tag of its `query`. -/
def listText (blank : Bool) (dog : CUTEDOG) : CStr :=
  CStr.snprintf 1152 ((if blank then CStr.lit "<iq type='result'><query xmlns='filter:show' >"
    else CStr.lit "<iq type='result'><query xmlns='filter:show'>") ++
      CStr.snprintf 1024 (Server.filterRow dog) ++ CStr.lit "</query></iq>")

/-- The texts of the server, for dogs with `P` of their name and their filter and packets with `Q`. -/
inductive ServerText (P : CStr → CStr → Prop) (Q : Packet → Prop) : CStr → Prop where
  | handShake : ServerText P Q dogHandShake
  | answer (a : CatAnswer) : a.ok?.isSome = true → ServerText P Q a.text
  | noFilters : ServerText P Q (CStr.snprintf 1152
      (CStr.lit "<iq type='result'><query xmlns='filter:show' ></query></iq>"))
  | filters (blank : Bool) (dog : CUTEDOG) : P dog.Name dog.Filter → ServerText P Q (listText blank dog)
  | lose (dog : CUTEDOG) : P dog.Name dog.Filter → ServerText P Q (Server.loseNotice dog)
  | packet (p : Packet) (iMsgNumID : UInt32) (message : CStr) : Q p →
      p.message iMsgNumID.toNat = some message → ServerText P Q message

namespace Server

/-- The dogs have `P` of their name and their filter. -/
def DogsHave (P : CStr → CStr → Prop) (s : Server) : Prop :=
  ∀ d dog, s.dogs d = some dog → P dog.Name dog.Filter

/-- What the transport of messages looks at is the same. -/
structure Aside (s s' : Server) : Prop extends Quiet s s' where
  cells : s'.cells = s.cells
  msgs : s'.pFifoDogMsg = s.pFifoDogMsg
  freeRing : s'.pFifoDogMsgFree = s.pFifoDogMsgFree
  heap : s'.heap = s.heap
  hist : s'.hist = s.hist

/-- The deeds: an answer with a text of `T`, a cell that is not put, and a change aside. -/
inductive Deed (T : CStr → Prop) (s : Server) : Server → Prop where
  | answer (i : Slot) (str : CStr) : T str → Deed T s (s.answer i str).2
  | obtain (i : Slot) : Deed T s (s.IoGetSendMsgCell i).2
  | aside {s' : Server} : Aside s s' → Deed T s s'

abbrev Deeds (T : CStr → Prop) : Server → Server → Prop := ReflTransGen (Deed T)

section Deeds

variable {T : CStr → Prop} {s s' : Server}

theorem aside_world (s : Server) (links : LinkMem HookNode) (CuteDogList : List DogPtr)
    (dogs : DogPtr → Option CUTEDOG) (FunCallBack : CallBack) (pcap_handle : Option PcapHandle)
    (tidp : ThreadId) (threads : List Capture) (opened : List PcapHandle) :
    Aside s { s with
      links := links, CuteDogList := CuteDogList, dogs := dogs, FunCallBack := FunCallBack
      pcap_handle := pcap_handle, tidp := tidp, threads := threads, opened := opened } :=
  ⟨⟨fun _ => rfl, rfl, rfl, rfl⟩, rfl, rfl, rfl, rfl, rfl⟩

theorem aside_setClient (s : Server) (i : Slot) {f : CLIENTINFO → CLIENTINFO}
    (hf : ∀ ci, (f ci).recv = ci.recv) : Aside s (s.setClient i f) :=
  ⟨(Move.client i f hf : Move s _).quiet, rfl, rfl, rfl, rfl, rfl⟩

theorem deeds_aside (h : Aside s s') : Deeds T s s' := .single (.aside h)

theorem deeds_answer {str : CStr} (hstr : T str) (i : Slot) (s : Server) :
    Deeds T s (s.answer i str).2 := .single (.answer i str hstr)

theorem deeds_of_answer {i : Slot} {str : CStr} {b : Bool} (hstr : T str)
    (h : s.answer i str = (b, s')) : Deeds T s s' := by
  have hanswer := deeds_answer hstr i s
  rwa [h] at hanswer

theorem deeds_links (links : LinkMem HookNode) (s : Server) : Deeds T s { s with links := links } :=
  deeds_aside (aside_world s links _ _ _ _ _ _ _)

theorem deeds_setCuteDog (i : Slot) (d : Option DogPtr) (s : Server) :
    Deeds T s (s.setCuteDog i d) := deeds_aside (aside_setClient s i fun _ => rfl)

theorem deeds_setType (i : Slot) (lType : CLIENTTYPE) (s : Server) : Deeds T s (s.setType i lType) :=
  deeds_aside (aside_setClient s i fun _ => rfl)

/-- A cell that is obtained, written and put is an answer. -/
theorem deeds_send {i : Slot} {c : MsgCell} {s₁ : Server} {str : CStr} (hstr : T str)
    (h : s.IoGetSendMsgCell i = (some c, s₁)) :
    Deeds T s ((s₁.pushString c str).IoPutSendMsgCell c) := by
  have hanswer := deeds_answer hstr i s
  rwa [answer_of_some (c := c) (by rw [h]), h] at hanswer

/-! ## The loops -/

theorem deeds_dropHookers {d : DogPtr} {message : CStr} (hmessage : T message) {turns : Nat}
    {pos : HookNode} {next : Option HookNode} {b : Bool}
    (h : dropHookers d message turns pos next s = some (b, s')) : Deeds T s s' := by
  induction turns generalizing pos next s with
  | zero => cases h
  | succ turns ih =>
      unfold dropHookers at h
      split at h
      · cases h
        exact .refl
      · split at h
        · cases h
        · split at h
          · next heq =>
              cases h
              exact deeds_of_answer hmessage heq
          · next s₁ heq =>
              simp only [Option.bind_eq_bind, Option.bind_eq_some_iff] at h
              obtain ⟨links, -, pos', -, l, -, h⟩ := h
              exact ((deeds_of_answer hmessage heq).trans (deeds_links links s₁)).trans (ih h)

theorem deeds_fanOut {d : DogPtr} {message : CStr} (hmessage : T message) {turns : Nat} {pos : HookNode}
    {b : Bool} (h : fanOut d message turns pos s = some (b, s')) : Deeds T s s' := by
  induction turns generalizing pos s with
  | zero => cases h
  | succ turns ih =>
      unfold fanOut at h
      split at h
      · cases h
        exact .refl
      · split at h
        · cases h
        · split at h
          · next heq =>
              cases h
              exact deeds_of_answer hmessage heq
          · next s₁ heq =>
              simp only [Option.bind_eq_bind, Option.bind_eq_some_iff] at h
              obtain ⟨l, -, pos', -, h⟩ := h
              exact (deeds_of_answer hmessage heq).trans (ih h)

theorem deeds_broadcastTo {Body : CStr} (hBody : T Body) (l : List Slot) (s : Server) :
    Deeds T s (broadcastTo Body l s) := by
  induction l generalizing s with
  | nil => exact .refl
  | cons i rest ih =>
      have hget : Deeds T s (s.IoGetSendMsgCell i).2 := .single (.obtain i)
      rw [broadcastTo]
      split
      · next heq => rwa [heq] at hget
      · next heq =>
          rw [heq] at hget
          split
          · next heq' => exact hget.trans (deeds_of_answer hBody heq')
          · next heq' => exact (hget.trans (deeds_of_answer hBody heq')).trans (ih _)

end Deeds

/-! ## The functions -/

section Functions

variable {P : CStr → CStr → Prop} {Q : Packet → Prop} {s s' : Server}

theorem deeds_sendToHookers {T : CStr → Prop} {i : Slot} {message : CStr} (hmessage : T message)
    {b : Bool} (h : s.sendToHookers i message = some (b, s')) : Deeds T s s' := by
  unfold sendToHookers at h
  simp only [Option.bind_eq_bind, Option.bind_eq_some_iff] at h
  obtain ⟨d, -, head, -, notempty, -, h⟩ := h
  split at h
  · simp only [Option.bind_eq_some_iff] at h
    obtain ⟨pos, -, h⟩ := h
    exact deeds_fanOut hmessage h
  · cases h
    exact .refl

theorem deeds_SendTcp2Cats {p : Packet} (hp : Q p) {i : Slot} {b : Bool}
    (h : s.SendTcp2Cats p i = some (b, s')) : Deeds (ServerText P Q) s s' := by
  rw [SendTcp2Cats_eq] at h
  split at h
  · next hget =>
      cases h
      rw [IoGetSendMsgCell_none hget]
  · next c s₁ hget =>
      obtain ⟨message, hmessage, h⟩ := Option.bind_eq_some_iff.mp h
      have htext : ServerText P Q message := by
        refine .packet p (UInt32.ofNat (((s₁.ClientInfo i).iMsgNumID + 1) % 4294967296)) message hp ?_
        rw [UInt32.toNat_ofNat_of_lt' (Nat.mod_lt _ (by decide))]
        exact hmessage
      -- counting the message first or last makes no difference
      have hcount : Deeds (ServerText P Q) s (((s₁.setClient i fun ci =>
          { ci with iMsgNumID := (ci.iMsgNumID + 1) % 4294967296 }).pushString c message).IoPutSendMsgCell
            c) :=
        (deeds_send htext hget).tail (.aside (aside_setClient _ i (f := fun ci =>
          { ci with iMsgNumID := (ci.iMsgNumID + 1) % 4294967296 }) fun _ => rfl))
      exact hcount.trans (deeds_sendToHookers htext h)

theorem deeds_DelHookersWithCuteDog (hdogs : s.DogsHave P) {d : DogPtr} {b : Bool}
    (h : s.DelHookersWithCuteDog d = some (b, s')) : Deeds (ServerText P Q) s s' := by
  unfold DelHookersWithCuteDog at h
  simp only [Option.bind_eq_bind, Option.bind_eq_some_iff] at h
  obtain ⟨dog, hdog, head, -, notempty, -, h⟩ := h
  split at h
  · simp only [Option.bind_eq_some_iff] at h
    obtain ⟨pos, -, l, -, h⟩ := h
    exact deeds_dropHookers (.lose dog (hdogs d dog hdog)) h
  · cases h
    exact .refl

theorem deeds_DelCuteDogInList (hdogs : s.DogsHave P) {i : Slot} {b : Bool}
    (h : s.DelCuteDogInList i = some (b, s')) : Deeds (ServerText P Q) s s' := by
  unfold DelCuteDogInList at h
  split at h
  · cases h
    exact .refl
  · next d _ =>
      simp only [Option.bind_eq_bind, Option.bind_eq_some_iff] at h
      obtain ⟨⟨b', s₁⟩, hdrop, h⟩ := h
      split at h
      · cases h
        refine ((deeds_DelHookersWithCuteDog hdogs hdrop).trans (deeds_aside (aside_world s₁
          (Function.update s₁.links (.ListHooker d) none) (s₁.CuteDogList.erase d)
          (Function.update s₁.dogs d none) s₁.FunCallBack s₁.pcap_handle s₁.tidp s₁.threads
          s₁.opened))).trans ?_
        exact deeds_setCuteDog i none _
      · cases h

theorem deeds_DelHookerInCuteDog {T : CStr → Prop} {i : Slot} {b : Bool}
    (h : s.DelHookerInCuteDog i = some (b, s')) : Deeds T s s' := by
  obtain ⟨-, -, rfl⟩ | ⟨links, -, -, -, rfl⟩ := DelHookerInCuteDog_eq_some h
  · exact .refl
  · exact deeds_links links s

theorem text_stopAnswer (Ret : Int) : ServerText P Q (stopAnswer Ret) := by
  by_cases hRet : Ret ≠ 0
  · have htext : stopAnswer Ret = (CatAnswer.cancel false).text := by
      rw [stopAnswer, if_pos hRet]
      exact CStr.snprintf_of_fits (by decide +kernel)
    rw [htext]
    exact .answer _ rfl
  · have htext : stopAnswer Ret = (CatAnswer.cancel true).text := by
      rw [stopAnswer, if_neg hRet]
      exact CStr.snprintf_of_fits (by decide +kernel)
    rw [htext]
    exact .answer _ rfl

theorem aside_stopCapture (s : Server) (k : PcapHandle) (d : DogPtr) (dog : CUTEDOG)
    (Thid : PthreadPtr) (Ret : Int) :
    Aside s ({ s with opened := s.opened.erase k }.stopCapture d dog Thid Ret) := by
  cases Thid
  unfold stopCapture pthread_cancel
  dsimp only
  split
  · exact aside_world s _ _ _ _ _ _ _ _
  · split
    · exact aside_world s _ _ _ _ _ _ _ _
    · exact aside_world s _ _ _ _ _ _ _ _

theorem deeds_StopDogNose {i : Slot} {o : Outcome} {Ret : Int}
    (h : s.StopDogNose i o = some (Ret, s')) : Deeds (ServerText P Q) s s' := by
  obtain ⟨-, rfl⟩ | ⟨d, dog, -, -, ⟨-, rfl⟩ | ⟨k, Thid, -, -, rfl⟩⟩ := StopDogNose_eq_some h
  · exact .refl
  · exact .refl
  · exact (deeds_aside (aside_stopCapture s k d dog Thid o.pthread_cancel)).trans
      (deeds_answer (text_stopAnswer _) i _)

/-- The dogs keep their names and their filters when a capture is stopped. -/
theorem dogsHave_StopDogNose (hdogs : s.DogsHave P) {i : Slot} {o : Outcome} {Ret : Int}
    (h : s.StopDogNose i o = some (Ret, s')) : s'.DogsHave P := by
  obtain ⟨-, rfl⟩ | ⟨d, dog, -, hd, ⟨-, rfl⟩ | ⟨k, Thid, -, -, rfl⟩⟩ := StopDogNose_eq_some h
  · exact hdogs
  · exact hdogs
  · intro e dog' he
    rw [(talks_answer i (stopAnswer o.pthread_cancel) _).dogs] at he
    -- only the handle of `d` is cleared
    have hcleared : s.dogs e = some dog' ∨
        Function.update s.dogs d (some { dog with Handle := none }) e = some dog' := by
      cases Thid
      unfold stopCapture pthread_cancel at he
      dsimp only at he
      split at he
      · exact Or.inl he
      · next hRet =>
          rw [if_pos (not_not.mp hRet)] at he
          exact Or.inr he
    obtain hold | hcleared := hcleared
    · exact hdogs e dog' hold
    · by_cases hed : e = d
      · rw [hed, Function.update_self] at hcleared
        cases hcleared
        exact hdogs d dog hd
      · rw [Function.update_of_ne hed] at hcleared
        exact hdogs e dog' hcleared

theorem text_createAnswer (o : Outcome) : ServerText P Q (createAnswer o) := by
  rw [createAnswer]
  split
  · exact .answer (.create true) rfl
  · exact .answer (.create false) rfl

theorem deeds_SetCapFilter (Handle : Option PcapHandle) (i : Slot) (o : Outcome) (s : Server) :
    Deeds (ServerText P Q) s (s.SetCapFilter Handle i o).2 := by
  have htext : ServerText P Q (createAnswer o) := text_createAnswer o
  rw [createAnswer] at htext
  unfold SetCapFilter
  split
  · exact .refl
  · split
    · next hset =>
        rw [if_pos hset] at htext
        exact deeds_answer htext i s
    · next hset =>
        rw [if_neg hset] at htext
        exact deeds_answer htext i s

theorem aside_setCallBack (F : CStr) (s : Server) : Aside s (s.setCallBack F) := by
  unfold setCallBack
  dsimp only
  split
  · exact aside_world s _ _ _ _ _ _ _ _
  · exact aside_world s _ _ _ _ _ _ _ _

theorem deeds_withHandle {T : CStr → Prop} (s : Server) (F : CStr) (k : PcapHandle) :
    Deeds T s (s.withHandle F k) :=
  (deeds_aside (aside_setCallBack F s)).tail (.aside (aside_world _ _ _ _ _ (some k) _ _ (k :: s.opened)))

theorem deeds_listDog {T : CStr → Prop} (s : Server) (d : DogPtr) (dog : CUTEDOG) (i : Slot) :
    Deeds T s (s.listDog d dog i) :=
  (deeds_setCuteDog i (some d) s).tail (.aside (aside_world _ (INIT_LIST_HEAD s.links (.ListHooker d))
    (d :: s.CuteDogList) (Function.update s.dogs d (some dog)) s.FunCallBack s.pcap_handle s.tidp
    s.threads s.opened))

theorem deeds_StartDogNose {F : CStr} {N : Option CStr} {i : Slot} {m : Nat} {o : Outcome}
    {ret : Int} (h : s.StartDogNose F N i m o = some (ret, s')) : Deeds (ServerText P Q) s s' := by
  have hset : ∀ {k : PcapHandle} {b : Bool} {s₂ : Server},
      (s.withHandle F k).SetCapFilter (some k) i o = (b, s₂) → Deeds (ServerText P Q) s s₂ := by
    intro k b s₂ heq
    have hdeeds : Deeds (ServerText P Q) _ _ := deeds_SetCapFilter (some k) i o (s.withHandle F k)
    rw [heq] at hdeeds
    exact (deeds_withHandle s F k).trans hdeeds
  cases StartDogNose_eq_some h with
  | notOpened _ =>
      exact (deeds_aside (aside_setCallBack F s)).tail (.aside (aside_world _ _ _ _ _ none _ _ _))
  | refused _ _ heq _ => exact hset heq
  | noThread _ _ heq _ _ _ _ => exact (hset heq).trans (deeds_listDog _ _ _ i)
  | started _ _ heq _ _ _ _ _ =>
      exact ((hset heq).trans (deeds_listDog _ _ _ i)).tail (.aside (aside_world _ _ _ _ _ _ _ _ _))

/-! ## The lists of filters -/

/-- The rows are none, or the row of a dog. -/
theorem rows_of_dog (hdogs : s.DogsHave P) {l : List DogPtr} {str Rows : CStr}
    (hstr : str = CStr.lit "" ∨ ∃ dog, P dog.Name dog.Filter ∧ str = CStr.snprintf 1024 (filterRow dog))
    (h : l.foldlM (fun _ d => (s.dogs d).map fun pCuteDog =>
      CStr.snprintf 1024 (filterRow pCuteDog)) str = some Rows) :
    Rows = CStr.lit "" ∨ ∃ dog, P dog.Name dog.Filter ∧ Rows = CStr.snprintf 1024 (filterRow dog) := by
  induction l generalizing str with
  | nil =>
      cases h
      exact hstr
  | cons d rest ih =>
      rw [List.foldlM_cons] at h
      obtain ⟨row, hrow, hrest⟩ := Option.bind_eq_some_iff.mp h
      obtain ⟨dog, hdog, rfl⟩ := Option.map_eq_some_iff.mp hrow
      exact ih (Or.inr ⟨dog, hdogs d dog hdog, rfl⟩) hrest

/-- What `filter:show` is answered with. -/
theorem text_showReply (hdogs : s.DogsHave P) {Filter : CStr}
    (h : s.GetAllCuteDogsFilterString 1024 = some Filter) (hne : Filter.chars ≠ []) :
    ServerText P Q (CStr.snprintf 1152 (CStr.lit "<iq type='result'><query xmlns='filter:show' >" ++
      Filter ++ CStr.lit "</query></iq>")) := by
  obtain rfl | ⟨dog, hdog, rfl⟩ := rows_of_dog hdogs (Or.inl rfl) h
  · exact absurd rfl hne
  · exact .filters true dog hdog

theorem text_filterShow (hdogs : s.DogsHave P) {Body : CStr} (h : s.filterShow = some Body) :
    ServerText P Q Body := by
  obtain ⟨Rows, hRows, rfl⟩ := Option.map_eq_some_iff.mp h
  split
  · next hne =>
      obtain rfl | ⟨dog, hdog, rfl⟩ := rows_of_dog hdogs (Or.inl rfl) hRows
      · exact absurd rfl hne
      · exact .filters false dog hdog
  · exact .noFilters

end Functions

/-! ## Requests -/

section Handlers

variable {ι : Type} [Iksemel ι] {P : CStr → CStr → Prop} {Q : Packet → Prop} {s s' : Server}

theorem deeds_CuteDogBroadCast (hdogs : s.DogsHave P) (h : s.CuteDogBroadCast = some s') :
    Deeds (ServerText P Q) s s' := by
  rw [CuteDogBroadCast_eq] at h
  obtain ⟨Body, hBody, rfl⟩ := Option.map_eq_some_iff.mp h
  exact deeds_broadcastTo (text_filterShow hdogs hBody) _ s

theorem deeds_RespCatLogin0 {x : Option ι} {i : Slot} {b : Bool}
    (h : s.RespCatLogin0 x i = some (b, s')) : Deeds (ServerText P Q) s s' := by
  unfold RespCatLogin0 at h
  dsimp only at h
  split at h
  · next hget =>
      cases h
      rw [IoGetSendMsgCell_none hget]
  · next c s₁ hget =>
      split at h
      · cases h
        have hobtain : Deeds (ServerText P Q) s (s.IoGetSendMsgCell i).2 := .single (.obtain i)
        rwa [hget] at hobtain
      · simp only [Option.bind_eq_bind, Option.bind_eq_some_iff] at h
        obtain ⟨inList, -, h⟩ := h
        cases h
        cases inList with
        | true => exact deeds_send (.answer (.login false) rfl) hget
        | false => exact deeds_send (.answer (.login true) rfl) hget

theorem deeds_RespCatAllFilters (hdogs : s.DogsHave P) {x : Option ι} {i : Slot}
    (h : s.RespCatAllFilters x i = some s') : Deeds (ServerText P Q) s s' := by
  unfold RespCatAllFilters at h
  simp only [Option.bind_eq_bind, Option.bind_eq_some_iff] at h
  obtain ⟨show', -, h⟩ := h
  split at h
  · simp only [Option.bind_eq_some_iff] at h
    obtain ⟨Filter, hFilter, h⟩ := h
    split at h
    · next hne =>
        cases h
        exact deeds_answer (text_showReply hdogs hFilter hne) i s
    · cases h
      exact .refl
  · cases h
    exact .refl

/-- The answers to a hook request. -/
theorem text_hookAnswer (a : CatAnswer) (ha : a.ok?.isSome = true) :
    ServerText P Q (CStr.snprintf 512 a.text) := by
  have hfits : a.text.chars.length < 512 := by
    cases a with
    | login ok | hook ok | unhook ok | create ok | cancel ok => cases ok <;> decide +kernel
    | filters blank row => cases ha
    | lose Name => cases ha
  rw [CStr.snprintf_of_fits hfits]
  exact .answer a ha

theorem deeds_RespCatSetHooker {x : Option ι} {i : Slot} (h : s.RespCatSetHooker x i = some s') :
    Deeds (ServerText P Q) s s' := by
  unfold RespCatSetHooker at h
  dsimp only at h
  split at h
  · simp only [Option.bind_eq_bind, Option.bind_eq_some_iff] at h
    obtain ⟨⟨b, s₁⟩, hadd, h⟩ := h
    obtain ⟨rfl, rfl, -⟩ | ⟨Name, d, links, rfl, -, -, -, rfl⟩ := AddHooker2CuteDog_eq_some hadd
    · cases h
      exact deeds_answer (text_hookAnswer (.hook false) rfl) i s₁
    · cases h
      have hhook : Deeds (ServerText P Q) s ({ s with links := links }.setCuteDog i (some d)) :=
        (deeds_links links s).trans (deeds_setCuteDog i (some d) _)
      exact (hhook.trans (deeds_setType i .CLIENT_USER_HOOKER _)).trans
        (deeds_answer (text_hookAnswer (.hook true) rfl) i _)
  · split at h
    · simp only [Option.bind_eq_bind, Option.bind_eq_some_iff] at h
      obtain ⟨⟨b, s₁⟩, hdel, h⟩ := h
      have hdeeds : Deeds (ServerText P Q) s s₁ := deeds_DelHookerInCuteDog hdel
      cases b with
      | true =>
          cases h
          exact hdeeds.trans (deeds_answer (text_hookAnswer (.unhook true) rfl) i s₁)
      | false =>
          cases h
          exact hdeeds.trans (deeds_answer (text_hookAnswer (.unhook false) rfl) i s₁)
    · cases h
      exact .refl

/-- A create or a cancel up to its broadcast. -/
theorem deeds_createOrCancel (hdogs : s.DogsHave P) {x : Option ι} {i : Slot} {o : Outcome} {b : Bool}
    (h : s.createOrCancel x i o = some (b, s')) : Deeds (ServerText P Q) s s' := by
  unfold createOrCancel at h
  dsimp only at h
  split at h
  · split at h
    · cases h
      exact .refl
    · simp only [Option.bind_eq_bind, Option.bind_eq_some_iff] at h
      obtain ⟨⟨ret, s₁⟩, hstart, h⟩ := h
      have hdeeds : Deeds (ServerText P Q) s s₁ := deeds_StartDogNose hstart
      split at h
      · next heq =>
          cases h
          cases heq
          exact hdeeds
      · next heq =>
          cases h
          cases heq
          exact hdeeds.trans (deeds_setType i _ _)
  · split at h
    · simp only [Option.bind_eq_bind, Option.bind_eq_some_iff] at h
      obtain ⟨⟨Ret, s₁⟩, hstop, ⟨b', s₂⟩, hdel, h⟩ := h
      cases h
      exact (deeds_StopDogNose hstop).trans
        (deeds_DelCuteDogInList (dogsHave_StopDogNose hdogs hstop) hdel)
    · cases h
      exact .refl

end Handlers

end Server

/-! ## Runs -/

section Runs

variable {ι : Type} [Iksemel ι] {P : CStr → CStr → Prop} {Q : Packet → Prop} {s s' : Server}

/-- The name and the filter of a create request have `P` as they are stored, and a packet has `Q`. -/
def Worded (P : CStr → CStr → Prop) (Q : Packet → Prop) (_s : Server) : ServerAction ι → Prop
  | .stanza _ type node _ => ∀ F N m, requestOf type node = .create (some F) (some N) m →
      P (CStr.strncpy 32 N) (CStr.strncpy 256 F)
  | .packet _ p => Q p
  | _ => True

/-- A stanza is a run of deeds. -/
theorem deeds_IOProcessCatMsg {i : Slot} {type : IksNodeType} {node : ι} {o : Outcome}
    (hdogs : s.DogsHave P) (hdogs' : s'.DogsHave P) (h : s.IOProcessCatMsg i type node o = some s') :
    Server.Deeds (ServerText P Q) s s' := by
  obtain ⟨-, -, rfl | rfl⟩ | ⟨handler, x, hof, h⟩ := IOProcessCatMsg_eq_some h
  · exact .refl
  · exact Server.deeds_answer .handShake i s
  · cases handler with
    | RespCatLogin0 =>
        simp only [Server.runHandler, Option.map_eq_some_iff] at h
        obtain ⟨⟨b, s₁⟩, hlogin, rfl⟩ := h
        exact Server.deeds_RespCatLogin0 hlogin
    | RespCatAllFilters => exact Server.deeds_RespCatAllFilters hdogs h
    | RespCatSetHooker => exact Server.deeds_RespCatSetHooker h
    | RespCatCreateFilter =>
        simp only [Server.runHandler, Server.RespCatCreateFilter, Option.bind_eq_bind,
          Option.bind_eq_some_iff] at h
        obtain ⟨⟨b, s₁⟩, hfirst, h⟩ := h
        have hdeeds : Server.Deeds (ServerText P Q) s s₁ := Server.deeds_createOrCancel hdogs hfirst
        cases b with
        | true =>
            -- the broadcast changes no dog, so the list is that of the dogs at the end
            have hdogs₁ : s₁.DogsHave P := by
              intro d dog hdog
              rw [← (Server.talks_CuteDogBroadCast h).dogs] at hdog
              exact hdogs' d dog hdog
            exact hdeeds.trans (Server.deeds_CuteDogBroadCast hdogs₁ h)
        | false =>
            cases h
            exact hdeeds

/-- The end of a session is a run of deeds. -/
theorem deeds_shutdown {i : Slot} {o : Outcome} (hdogs : s.DogsHave P)
    (h : s.shutdown i o = some s') : Server.Deeds (ServerText P Q) s s' := by
  have hclosed : Server.Deeds (ServerText P Q) s
      ((s.ioClosed i).setClient i fun ci => { ci with Prs := false }) :=
    (Server.deeds_aside (Server.aside_setClient s i (f := fun ci =>
      { ci with lStatus := .STATUS_IOCLOSEED }) fun _ => rfl)).trans
        (Server.deeds_aside (Server.aside_setClient _ i fun _ => rfl))
  have hdogs₁ : ((s.ioClosed i).setClient i fun ci => { ci with Prs := false }).DogsHave P := hdogs
  unfold Server.shutdown Server.FreeObj at h
  simp only [Option.bind_eq_bind] at h
  split at h
  · simp only [Option.bind_eq_some_iff] at h
    obtain ⟨⟨Ret, s₁⟩, hstop, ⟨b, s₂⟩, hdel, h⟩ := h
    cases h
    exact (hclosed.trans (Server.deeds_StopDogNose hstop)).trans
      (Server.deeds_DelCuteDogInList (Server.dogsHave_StopDogNose hdogs₁ hstop) hdel)
  · simp only [Option.bind_eq_some_iff] at h
    obtain ⟨⟨b, s₁⟩, hdel, h⟩ := h
    cases h
    exact hclosed.trans (Server.deeds_DelHookerInCuteDog hdel)
  · cases h
    exact hclosed

theorem dogsHave_serverStep {a : ServerAction ι} (hdogs : s.DogsHave P) (ha : Worded P Q s a)
    (h : serverStep s a = some s') : s'.DogsHave P := by
  intro d dog hdog
  obtain hold | ⟨i, type, node, o, k, F, N, m, rfl, hcreate, rfl⟩ := (serverStep_follows h).named hdog
  · exact hdogs d dog hold
  · exact ha F N m hcreate

/-! ## The messages that are put -/

/-- What the deeds put. -/
theorem Server.Deeds.put {T : CStr → Prop} (h : Server.Deeds T s s') :
    ∃ ms, s'.hist.put = s.hist.put ++ ms ∧ ∀ m ∈ ms, T m.text := by
  induction h with
  | refl => exact ⟨[], (List.append_nil _).symm, nofun⟩
  | @tail s₁ s₂ _ hdeed ih =>
      obtain ⟨ms, hput, htexts⟩ := ih
      cases hdeed with
      | answer i str hstr =>
          obtain ⟨heq, -⟩ | ⟨s₂, heq, -⟩ := Server.answer_spec i str s₁
          · rw [heq]
            exact ⟨ms, hput, htexts⟩
          · obtain ⟨m, hm, -, htext⟩ := Server.put_answer heq
            refine ⟨ms ++ [m], ?_, ?_⟩
            · rw [heq, ← List.append_assoc, ← hput]
              exact hm
            · intro m' hm'
              rcases List.mem_append.mp hm' with hm' | hm'
              · exact htexts m' hm'
              · rw [List.mem_singleton.mp hm', htext]
                exact hstr
      | obtain i =>
          refine ⟨ms, ?_, htexts⟩
          obtain ⟨heq, -⟩ | ⟨c, ring, heq⟩ := Server.IoGetSendMsgCell_cases i s₁
          · rw [heq]
            exact hput
          · rw [heq]
            exact hput
      | aside haside => exact ⟨ms, haside.hist ▸ hput, htexts⟩

namespace Server

/-! The receive thread puts nothing. -/

theorem put_pickUp (s : Server) (i : Slot) : (s.pickUp i).hist.put = s.hist.put := by
  unfold pickUp
  split
  · rfl
  · rfl

theorem put_firstPass (s : Server) (i : Slot) : (s.firstPass i).hist.put = s.hist.put := by
  unfold firstPass
  dsimp only
  split
  · rfl
  · split
    · rfl
    · exact put_pickUp s i

theorem put_sendPump (s : Server) (i : Slot) (sn : Nat) :
    (s.sendPump i sn).hist.put = s.hist.put := by
  by_cases hlt : sn < (s.ClientInfo i).iCurSendLen
  · rw [sendPump_of_lt hlt]
    rfl
  · obtain ⟨ring, pushed, -, heq⟩ := sendPump_of_le (Nat.le_of_not_lt hlt)
    rw [heq]
    split
    · rw [put_pickUp]
      rfl
    · split
      · rfl
      · rfl

theorem put_popDogMsg {s s' : Server} (h : s.popDogMsg = some s') : s'.hist.put = s.hist.put := by
  unfold popDogMsg at h
  split at h
  · cases h
  · dsimp only at h
    split at h
    · cases h
      rfl
    · cases h
      rfl

theorem put_recycle (s : Server) (i : Slot) : (s.recycle i).hist.put = s.hist.put := by
  obtain ⟨ring, pushed, -, heq⟩ := recycle_spec i s
  rw [heq]

theorem put_acceptClient (s : Server) (sd : Nat) : (s.acceptClient sd).hist.put = s.hist.put := by
  unfold acceptClient
  split
  · rfl
  · rfl

end Server

/-- **What the server says**: every message that is put has one of its texts. -/
theorem texts_serverStep {a : ServerAction ι} (hdogs : s.DogsHave P) (ha : Worded P Q s a)
    (h : serverStep s a = some s') :
    ∃ ms, s'.hist.put = s.hist.put ++ ms ∧ ∀ m ∈ ms, ServerText P Q m.text := by
  have hdogs' := dogsHave_serverStep hdogs ha h
  have hnone : s'.hist.put = s.hist.put →
      ∃ ms, s'.hist.put = s.hist.put ++ ms ∧ ∀ m ∈ ms, ServerText P Q m.text :=
    fun heq => ⟨[], by rw [heq, List.append_nil], nofun⟩
  cases serverStep_eq_some h with
  | stanza i type node o _ _ _ hmsg => exact (deeds_IOProcessCatMsg hdogs hdogs' hmsg).put
  | shutdown i o _ _ hclose => exact (deeds_shutdown hdogs hclose).put
  | packet t p _ hsend => exact (Server.deeds_SendTcp2Cats ha hsend).put
  | accept sd => exact hnone (Server.put_acceptClient s sd)
  | loopReturns t _ => exact hnone rfl
  | drain hpop => exact hnone (Server.put_popDogMsg hpop)
  | pickUp i _ _ => exact hnone (Server.put_firstPass s i)
  | send i sn _ _ _ => exact hnone (Server.put_sendPump s i sn)
  | toEnd i _ => exact hnone rfl
  | recycle i _ _ => exact hnone (Server.put_recycle s i)
  | allocator answer => exact hnone rfl

/-- **In every run the messages that are put have the texts of the server.** -/
theorem texts_reach {align : MsgCell → Nat}
    (h : Reach serverStep (Worded (ι := ι) P Q) (InitServer align) s) :
    s.DogsHave P ∧ ∀ m ∈ s.hist.put, ServerText P Q m.text := by
  refine h.invariant (P := fun s => s.DogsHave P ∧ ∀ m ∈ s.hist.put, ServerText P Q m.text)
    ⟨nofun, nofun⟩ ?_
  rintro s a s' ⟨hdogs, htexts⟩ ha hstep
  obtain ⟨ms, hput, hms⟩ := texts_serverStep hdogs ha hstep
  refine ⟨dogsHave_serverStep hdogs ha hstep, fun m hm => ?_⟩
  rw [hput] at hm
  exact (List.mem_append.mp hm).elim (htexts m) (hms m)

end Runs

end Netflow
