import Netflow.CuteCat.Requests
import Netflow.Cat2Dog.Heard

set_option autoImplicit false

/-! # From the client to the server

The send buffer of a client, its connection, and the two threads of the server that receive and parse,
as one system. The connection carries bytes in their order: what the server receives on it is at all
times the beginning of what was sent. The connections of the other clients may bring anything.
-/

namespace Netflow

open IksParser Cat2Dog

/-- `asked` is a history: the requests that the dialog handed to `PushSendStream`. -/
structure Upstream where
  cat : CuteCat.Cat
  dog : Listening
  asked : List CleanRequest

def upInit (align : Cell → Nat) : Upstream where
  cat := CuteCat.InitCat
  dog := listenInit align
  asked := []

/-- The steps: a request of the dialog, the other operations of the client's threads, and those of the
threads of the server. -/
inductive UpAction where
  | ask (r : CleanRequest)
  | cat (a : CuteCat.CatAction)
  | dog (a : WatchAction)

/-- `n` is the number the server gives the connection of the client. -/
def upStep (n : Nat) (u : Upstream) : UpAction → Option Upstream
  | .ask r => (CuteCat.catStep u.cat (.push r.1.text 0)).map fun cat =>
      { u with cat := cat, asked := u.asked ++ [r] }
  | .cat (.push _ _) => none
  | .cat a => (CuteCat.catStep u.cat a).map fun cat => { u with cat := cat }
  | .dog (.input (.recv i buf)) =>
      if u.dog.io.recv.conn i = n → u.dog.io.recv.received n ++ buf <+: u.cat.sent then
        (listenStep u.dog (.input (.recv i buf))).map fun dog => { u with dog := dog }
      else none
  | .dog a => (listenStep u.dog a).map fun dog => { u with dog := dog }

/-- The guard: texts are put into the send buffer in turn, the handshake first and once, and the server
is undisturbed. -/
def UpTurn (u : Upstream) : UpAction → Prop
  | .ask r => CuteCat.InTurn u.cat (.push r.1.text 0) ∧ u.cat.pushed ≠ []
  | .cat a => CuteCat.InTurn u.cat a ∧ (a = .handShake → u.cat.pushed = [])
  | .dog a => Undisturbed u.dog a

/-- What holds between the steps. -/
structure UpInv (n : Nat) (u : Upstream) : Prop where
  faithful : CuteCat.Faithful u.cat
  pushed : u.cat.pushed = [] ∧ u.asked = [] ∨
    u.cat.pushed = CuteCat.HANDSHAKE_STREAM.chars :: u.asked.map CleanRequest.text
  carried : u.dog.io.recv.received n <+: u.cat.sent

theorem upInv_init (n : Nat) (align : Cell → Nat) : UpInv n (upInit align) :=
  ⟨CuteCat.faithful_InitCat, Or.inl ⟨rfl, rfl⟩, List.nil_prefix⟩

section Runs

variable {n : Nat} {u u' : Upstream}

/-- What the client sent stays sent. -/
theorem sent_catStep {c c' : CuteCat.Cat} {a : CuteCat.CatAction} (h : CuteCat.catStep c a = some c') :
    c.sent <+: c'.sent := by
  cases a with
  | connect | push s len | status Status =>
      cases h
      exact List.prefix_refl _
  | handShake =>
      cases h
      unfold CuteCat.Cat.HandShake
      split <;> exact List.prefix_refl _
  | send sn =>
      simp only [CuteCat.catStep, Option.ite_none_right_eq_some] at h
      obtain ⟨-, h⟩ := h
      simp only [CuteCat.Cat.send, Option.ite_none_right_eq_some] at h
      obtain ⟨-, ⟨⟩⟩ := h
      exact List.prefix_append _ _

/-- Only a push pushes, and the handshake. -/
theorem pushed_catStep {c c' : CuteCat.Cat} {a : CuteCat.CatAction} (h : CuteCat.catStep c a = some c')
    (ha : ∀ s len, a ≠ .push s len) : c'.pushed = c.pushed ∨
      a = .handShake ∧ c'.pushed = c.pushed ++ [CuteCat.HANDSHAKE_STREAM.chars] := by
  cases a with
  | push s len => exact absurd rfl (ha s len)
  | connect | status Status =>
      cases h
      exact Or.inl rfl
  | handShake =>
      cases h
      unfold CuteCat.Cat.HandShake
      split
      · exact Or.inr ⟨rfl, rfl⟩
      · exact Or.inl rfl
  | send sn =>
      simp only [CuteCat.catStep, Option.ite_none_right_eq_some] at h
      obtain ⟨-, h⟩ := h
      simp only [CuteCat.Cat.send, Option.ite_none_right_eq_some] at h
      obtain ⟨-, ⟨⟩⟩ := h
      exact Or.inl rfl

/-- Only `recv` receives. -/
theorem received_inputStep {r r' : Receiver} {a : InputAction} (h : inputStep r a = some r')
    (ha : ∀ i buf, a ≠ .recv i buf) : r'.received = r.received := by
  cases a with
  | recv i buf => exact absurd rfl (ha i buf)
  | accept i | recycle i | toEnd i =>
      simp only [inputStep, Option.ite_none_right_eq_some] at h
      obtain ⟨-, ⟨⟩⟩ := h
      rfl
  | ioTest | ioRead | ioAdvance =>
      obtain ⟨ring, -, rfl⟩ := ringStep_eq_some h
      rfl
  | take =>
      obtain ⟨i, c, ring, -, -, rfl⟩ := inputStep_take h
      rfl
  | store =>
      obtain ⟨i, c, ring, st, job, -, -, -, rfl⟩ := inputStep_store h
      rfl
  | test =>
      obtain ⟨i, ring, -, -, -, -, hafter⟩ := inputStep_test h
      obtain ⟨-, rfl⟩ | ⟨-, -, rfl⟩ := hafter
      · obtain ⟨dropped, heq, -⟩ := leave_eq { r with ring := ring }
        rw [heq]
      · rfl
  | publish =>
      obtain ⟨c, ring, -, -, rfl⟩ := inputStep_publish h
      unfold Receiver.publish
      cases r.job with
      | _ => rfl

/-- What a step of the server leaves of what was received, or adds to it. -/
theorem received_listenStep {dog dog' : Listening} {a : WatchAction} (h : listenStep dog a = some dog') :
    (∃ i buf, a = .input (.recv i buf) ∧ dog'.io.recv.received = Function.update dog.io.recv.received
      (dog.io.recv.conn i) (dog.io.recv.received (dog.io.recv.conn i) ++ buf)) ∨
    (∀ i buf, a ≠ .input (.recv i buf)) ∧ dog'.io.recv.received = dog.io.recv.received := by
  have hio := listenStep_io h
  cases a with
  | ioSession =>
      refine Or.inr ⟨(fun i buf heq => by cases heq), ?_⟩
      simp only [watchStep] at hio
      split at hio
      · rw [← Option.some.inj hio, recv_session]
      · cases hio
  | ioText =>
      refine Or.inr ⟨(fun i buf heq => by cases heq), ?_⟩
      simp only [watchStep] at hio
      split at hio
      · rw [← Option.some.inj hio, recv_text]
      · cases hio
  | input a =>
      obtain ⟨hinput, -⟩ := watch_input hio
      cases a with
      | recv i buf =>
          refine Or.inl ⟨i, buf, rfl, ?_⟩
          simp only [inputStep, Option.ite_none_right_eq_some] at hinput
          obtain ⟨-, hinput⟩ := hinput
          rw [← Option.some.inj hinput]
      | _ =>
          exact Or.inr ⟨(fun i buf heq => by cases heq),
            received_inputStep hinput fun i buf heq => by cases heq⟩

/-- A step of the client. -/
theorem UpInv.cat (h : UpInv n u) {a : CuteCat.CatAction} {cat : CuteCat.Cat}
    (hturn : CuteCat.InTurn u.cat a) (hstep : CuteCat.catStep u.cat a = some cat)
    {asked : List CleanRequest} (hpushed : cat.pushed = [] ∧ asked = [] ∨
      cat.pushed = CuteCat.HANDSHAKE_STREAM.chars :: asked.map CleanRequest.text) :
    UpInv n { u with cat := cat, asked := asked } :=
  ⟨h.faithful.step hturn hstep, hpushed, h.carried.trans (sent_catStep hstep)⟩

/-- A step of the server. -/
theorem UpInv.dog (h : UpInv n u) {a : WatchAction} {dog : Listening}
    (hstep : listenStep u.dog a = some dog)
    (hrecv : ∀ i buf, a = .input (.recv i buf) → u.dog.io.recv.conn i = n →
      u.dog.io.recv.received n ++ buf <+: u.cat.sent) : UpInv n { u with dog := dog } := by
  refine ⟨h.faithful, h.pushed, ?_⟩
  show dog.io.recv.received n <+: u.cat.sent
  obtain ⟨i, buf, ha, hreceived⟩ | ⟨-, hreceived⟩ := received_listenStep hstep
  · rw [hreceived]
    by_cases hn : n = u.dog.io.recv.conn i
    · rw [hn, Function.update_self, ← hn]
      exact hrecv i buf ha hn.symm
    · rw [Function.update_of_ne hn]
      exact h.carried
  · rw [hreceived]
    exact h.carried

/-- What the steps do. -/
inductive UpStepped (n : Nat) (u : Upstream) : UpAction → Upstream → Prop where
  | ask (r : CleanRequest) (cat : CuteCat.Cat) :
      CuteCat.catStep u.cat (.push r.1.text 0) = some cat →
      UpStepped n u (.ask r) { u with cat := cat, asked := u.asked ++ [r] }
  | cat (a : CuteCat.CatAction) (cat : CuteCat.Cat) : (∀ s len, a ≠ .push s len) →
      CuteCat.catStep u.cat a = some cat → UpStepped n u (.cat a) { u with cat := cat }
  | dog (a : WatchAction) (dog : Listening) : listenStep u.dog a = some dog →
      (∀ i buf, a = .input (.recv i buf) → u.dog.io.recv.conn i = n →
        u.dog.io.recv.received n ++ buf <+: u.cat.sent) →
      UpStepped n u (.dog a) { u with dog := dog }

theorem upStep_eq_some {a : UpAction} (h : upStep n u a = some u') : UpStepped n u a u' := by
  cases a with
  | ask r =>
      simp only [upStep, Option.map_eq_some_iff] at h
      obtain ⟨cat, hcat, rfl⟩ := h
      exact .ask r cat hcat
  | cat a =>
      cases a with
      | push s len => cases h
      | _ =>
          simp only [upStep, Option.map_eq_some_iff] at h
          obtain ⟨cat, hcat, rfl⟩ := h
          exact .cat _ cat nofun hcat
  | dog a =>
      have hdog : (∀ i buf, a ≠ .input (.recv i buf)) →
          (listenStep u.dog a).map (fun dog => { u with dog := dog }) = some u' →
          UpStepped n u (.dog a) u' := by
        intro hrecv hstep
        obtain ⟨dog, hdog, rfl⟩ := Option.map_eq_some_iff.mp hstep
        exact .dog a dog hdog fun i buf heq => absurd heq (hrecv i buf)
      cases a with
      | ioSession | ioText => exact hdog nofun h
      | input a =>
          cases a with
          | recv i buf =>
              simp only [upStep, Option.ite_none_right_eq_some, Option.map_eq_some_iff] at h
              obtain ⟨hcarried, dog, hdog', rfl⟩ := h
              refine .dog _ dog hdog' fun j buf' heq => ?_
              cases heq
              exact hcarried
          | _ => exact hdog nofun h

theorem UpInv.step (h : UpInv n u) {a : UpAction} (ha : UpTurn u a) (hstep : upStep n u a = some u') :
    UpInv n u' := by
  cases upStep_eq_some hstep with
  | ask r cat hcat =>
      obtain ⟨hturn, hstarted⟩ := ha
      refine h.cat hturn hcat (Or.inr ?_)
      cases hcat
      show u.cat.pushed ++ [_] = _
      obtain ⟨hnone, -⟩ | hpushed := h.pushed
      · exact absurd hnone hstarted
      · rw [hpushed, List.map_append]
        rfl
  | cat a cat hpush hcat =>
      obtain ⟨hturn, honce⟩ := ha
      refine h.cat hturn hcat ?_
      obtain hsame | ⟨hshake, hpushed⟩ := pushed_catStep hcat hpush
      · rw [hsame]
        exact h.pushed
      · -- the handshake is the first text
        rw [honce hshake] at hpushed
        obtain ⟨-, hnone⟩ | hpushed' := h.pushed
        · rw [hnone]
          exact Or.inr hpushed
        · rw [honce hshake] at hpushed'
          cases hpushed'
  | dog a dog hdog hrecv => exact h.dog hdog hrecv

variable {align : Cell → Nat}

/-- The steps of the server are steps of `Listening`. -/
theorem listening_of_upstream (hrun : Reach (upStep n) UpTurn (upInit align) u) :
    Reach listenStep Undisturbed (listenInit align) u.dog := by
  refine hrun.image Upstream.dog fun u a u' ha hstep => ?_
  cases upStep_eq_some hstep with
  | ask r cat _ => exact Or.inl rfl
  | cat a cat _ _ => exact Or.inl rfl
  | dog a dog hdog _ => exact Or.inr ⟨a, ha, hdog⟩

/-- What was received stays received. -/
theorem received_mono {dog dog' : Listening} {a : WatchAction} (h : listenStep dog a = some dog')
    (n : Nat) :
    dog.io.recv.received n <+: dog'.io.recv.received n := by
  obtain ⟨i, buf, -, hreceived⟩ | ⟨-, hreceived⟩ := received_listenStep h
  · rw [hreceived]
    by_cases hn : n = dog.io.recv.conn i
    · rw [hn, Function.update_self]
      exact List.prefix_append _ _
    · rw [Function.update_of_ne hn]
  · rw [hreceived]

/-- Whatever the server does with bytes that were sent is a run of the two. -/
theorem upstream_of_listening {cat : CuteCat.Cat} {asked : List CleanRequest} {dog₀ dog : Listening}
    (hrun : Reach listenStep Undisturbed dog₀ dog) (hcarried : dog.io.recv.received n <+: cat.sent) :
    Reach (upStep n) UpTurn ⟨cat, dog₀, asked⟩ ⟨cat, dog, asked⟩ := by
  induction hrun with
  | start => exact Reach.start
  | next hrun ha hstep ih =>
      rename_i dog₁ dog₂ a
      refine (ih ((received_mono hstep n).trans hcarried)).next
        (show UpTurn ⟨cat, dog₁, asked⟩ (.dog a) from ha) ?_
      have hdog : (listenStep dog₁ a).map (fun dog => (⟨cat, dog, asked⟩ : Upstream)) =
          some ⟨cat, dog₂, asked⟩ := by
        rw [hstep, Option.map_some]
      cases a with
      | ioSession | ioText => exact hdog
      | input a =>
          cases a with
          | recv i buf =>
              refine (if_pos fun hn => ?_).trans hdog
              obtain ⟨j, buf', heq, hreceived⟩ | ⟨hother, -⟩ := received_listenStep hstep
              · cases heq
                rw [hreceived, hn, Function.update_self] at hcarried
                exact hcarried
              · exact absurd rfl (hother i buf)
          | _ => exact hdog

/-- **What is asked for is what the server is told**: in every run of the client, its connection and the
two threads of the server, the parser of the client has reported the start of the stream once it has
read it, and then the requests of the dialog it has read whole, in their order and each one once, and
each of them means to the server what the dialog asked for. -/
theorem requests_heard (hrun : Reach (upStep n) UpTurn (upInit align) u) {i : Slot}
    (hi : u.dog.Prs i = true) (hconn : u.dog.io.recv.conn i = n) :
    let heard := (u.dog.heardBy n).flatMap CStr.chars
    ∃ (prs : IksParser StreamData) (nodes : List Iks),
      (u.dog.heardBy n).foldlM iks_parse (new ⟨[], []⟩) = some prs ∧
      prs.user_data.reported = (if CuteCat.HANDSHAKE_STREAM.chars.length ≤ heard.length then
        handShakeNode :: nodes.map (fun node => (.IKS_NODE_NORMAL, some node)) else []) ∧
      List.Forall₂ (fun r node => CatRequest.Means r.1 node)
        (CleanRequest.arrived heard.length u.asked) nodes := by
  intro heard
  have h : UpInv n u := hrun.invariant (upInv_init n align) fun _ _ _ hu ha hs => hu.step ha hs
  -- what the parser read was received, sent and pushed
  have hpushed : heard <+: u.cat.pushed.flatten := by
    have hread := heardBy_received (listening_of_upstream hrun) hi
    rw [hconn] at hread
    exact (hread.trans h.carried).trans ⟨_, h.faithful.pending⟩
  refine requests_of_pieces (hpushed.trans ?_)
  obtain ⟨hnone, -⟩ | hall := h.pushed
  · rw [hnone]
    exact List.nil_prefix
  · rw [hall, List.flatten_cons, List.flatMap_def]

end Runs

/-- A client sends its handshake and asks for the filters, and the server is told so. -/
theorem requests_heard_filterShow : ∃ (u : Upstream) (prs : IksParser StreamData) (node : Iks),
    u.asked = [⟨.filterShow, trivial⟩] ∧
    (u.dog.heardBy 1).foldlM iks_parse (new ⟨[], []⟩) = some prs ∧
    prs.user_data.reported = [handShakeNode, (.IKS_NODE_NORMAL, some node)] ∧
    CatRequest.filterShow.Means node := by
  let r : CleanRequest := ⟨.filterShow, trivial⟩
  let bytes := CuteCat.HANDSHAKE_STREAM.chars ++ FILTER_SHOW.chars
  let dog := listenInit fun _ => 0
  -- the client
  let c₁ := CuteCat.InitCat.CnnDOG.HandShake
  have hclient : ((CuteCat.catStep c₁ (.send 129)).bind fun c₂ =>
      (CuteCat.catStep (c₂.PushSendStream FILTER_SHOW 0) (.send 70)).map fun c₄ =>
        (c₂.iCurSendLen, c₂.pSndData, c₂.pushed.length, c₄.sent)) = some (0, 0, 1, bytes) := by
    decide +kernel
  obtain ⟨c₂, hc₂, hrest⟩ := Option.bind_eq_some_iff.mp hclient
  obtain ⟨c₄, hc₄, hafter⟩ := Option.map_eq_some_iff.mp hrest
  rw [Prod.mk.injEq, Prod.mk.injEq, Prod.mk.injEq] at hafter
  obtain ⟨hlen, hsnd, hpushed, hsent⟩ := hafter
  have hconnected : Reach (upStep 1) UpTurn (upInit fun _ => 0) ⟨CuteCat.InitCat.CnnDOG, dog, []⟩ :=
    Reach.start.next (a := .cat .connect) ⟨⟨trivial, trivial⟩, nofun⟩ rfl
  have hshaken : Reach (upStep 1) UpTurn (upInit fun _ => 0) ⟨c₁, dog, []⟩ :=
    hconnected.next (a := .cat .handShake) ⟨⟨trivial, fun _ => ⟨rfl, Or.inl rfl⟩⟩, fun _ => rfl⟩ rfl
  have hfree : Reach (upStep 1) UpTurn (upInit fun _ => 0) ⟨c₂, dog, []⟩ :=
    hshaken.next (a := .cat (.send 129)) ⟨⟨trivial, trivial⟩, nofun⟩ (by
      simp only [upStep, hc₂, Option.map_some])
  have hasked : Reach (upStep 1) UpTurn (upInit fun _ => 0)
      ⟨c₂.PushSendStream FILTER_SHOW 0, dog, [r]⟩ := by
    refine hfree.next (a := .ask r) ⟨⟨⟨by decide +kernel, Nat.zero_le _⟩, hlen, Or.inl hsnd⟩, ?_⟩ rfl
    intro hnone
    change c₂.pushed = [] at hnone
    rw [hnone] at hpushed
    cases hpushed
  have hgone : Reach (upStep 1) UpTurn (upInit fun _ => 0) ⟨c₄, dog, [r]⟩ :=
    hasked.next (a := .cat (.send 70)) ⟨⟨trivial, trivial⟩, nofun⟩ (by
      simp only [upStep, hc₄, Option.map_some])
  -- the server
  have hserver : ((listenStep dog (.input (.accept 0))).bind fun d₁ =>
      (listenStep d₁ (.input (.recv 0 bytes))).bind fun d₂ =>
      (listenStep d₂ (.input .test)).bind fun d₃ =>
      (listenStep d₃ (.input .take)).bind fun d₄ =>
      (listenStep d₄ (.input .store)).bind fun d₅ =>
      (execAll listenStep [.input .publish, .input .ioTest, .input .ioRead, .ioSession, .ioText] d₅).map
        fun d => decide ((d₂.io.recv.job = .data 0 bytes ∧ d₂.io.recv.conn 0 = 1 ∧
            d₂.io.recv.dropped 1 = false) ∧
          (d₄.io.recv.job = .data 0 bytes ∧ d₄.io.recv.pCurCat2DogIOMsg 0 = some ⟨0, by decide⟩ ∧
            (d₄.io.recv.cells ⟨0, by decide⟩).hStream.buffer[199]? = some 0) ∧
          d.Prs 0 = true ∧ d.io.recv.conn 0 = 1 ∧ (d.heardBy 1).map CStr.chars = [bytes] ∧
            d.io.recv.received 1 = bytes)) = some true := by
    decide +kernel
  simp only [Option.bind_eq_some_iff, Option.map_eq_some_iff, decide_eq_true_eq] at hserver
  obtain ⟨d₁, haccept, d₂, hrecv, d₃, htest, d₄, htake, d₅, hstore, d, hrest,
    ⟨hjob₂, hconn₂, hdropped⟩, ⟨hjob₄, hcur, hbehind⟩, hPrs, hconn, hheard, hreceived⟩ := hserver
  have hreceive : Reach listenStep Undisturbed dog d₂ :=
    (Reach.start.next (show Undisturbed dog (.input (.accept 0)) from (by decide : 0 + 1 < 4294967296))
      haccept).next
      (show Undisturbed d₁ (.input (.recv 0 bytes)) from trivial) hrecv
  have hgap : NothingBehindGap d₂.io.recv .test := by
    intro i lpBuf hjob hgone
    rw [hjob₂] at hjob
    cases hjob
    rw [hconn₂, hdropped] at hgone
    cases hgone
  have hnul : 0 ∉ bytes := by decide +kernel
  have hlength : (bytes.take MSGINITSIZE).length = 199 := by decide +kernel
  have hclean : CleanCopy d₄.io.recv := by
    intro i lpBuf c hjob hcur'
    rw [hjob₄] at hjob
    cases hjob
    rw [hcur] at hcur'
    cases hcur'
    refine ⟨hnul, ?_⟩
    rw [hlength]
    exact hbehind
  have hd : Reach listenStep Undisturbed dog d := by
    refine (((hreceive.next (show Undisturbed d₂ (.input .test) from hgap) htest).next
      (show Undisturbed d₃ (.input .take) from trivial) htake).next
      (show Undisturbed d₄ (.input .store) from hclean) hstore).trans (reach_of_execAll_of ?_ hrest)
    simp only [List.forall_mem_cons]
    exact ⟨fun _ => trivial, fun _ => trivial, fun _ => trivial, fun _ => trivial, fun _ => trivial, nofun⟩
  have hu : Reach (upStep 1) UpTurn (upInit fun _ => 0) ⟨c₄, d, [r]⟩ :=
    hgone.trans (upstream_of_listening hd (by rw [hreceived, hsent]))
  obtain ⟨prs, nodes, hparse, hreported, hmeans⟩ := requests_heard hu hPrs hconn
  have hbytes : (d.heardBy 1).flatMap CStr.chars = bytes := by
    rw [List.flatMap_def, hheard, List.flatten_singleton]
  have harrived : CleanRequest.arrived bytes.length [r] = [r] := by decide +kernel
  have hlen' : CuteCat.HANDSHAKE_STREAM.chars.length ≤ bytes.length := by decide +kernel
  rw [hbytes, if_pos hlen'] at hreported
  rw [hbytes, harrived, List.forall₂_cons_left_iff] at hmeans
  obtain ⟨node, rest, hmeans, hnil, rfl⟩ := hmeans
  rw [List.forall₂_nil_left_iff] at hnil
  rw [hnil] at hreported
  exact ⟨⟨c₄, d, [r]⟩, prs, node, rfl, hparse, hreported, hmeans⟩

end Netflow
