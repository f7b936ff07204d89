import Netflow.Registry.Moves
import Netflow.Registry.Shared

set_option autoImplicit false

/-! # Telling the clients of a new list of dogs

`CuteDogBroadCast` puts the list of dogs for every connected client. It is called when a filter was
created with its thread and when one was cancelled, but neither when the session of a pioneer ends nor
when a dog was listed and its thread could not be created.
-/

namespace Netflow

open Iksemel Relation

namespace Server

/-- `Body` of `CuteDogBroadCast`. -/
def filterShow (s : Server) : Option CStr :=
  (s.GetAllCuteDogsFilterString 1024).map fun Rows =>
    if Rows.chars ≠ [] then
      CStr.snprintf 1152 (CStr.lit "<iq type='result'><query xmlns='filter:show'>" ++ Rows ++
        CStr.lit "</query></iq>")
    else
      CStr.snprintf 1152 (CStr.lit "<iq type='result'><query xmlns='filter:show' ></query></iq>")

variable {s s' : Server}

theorem CuteDogBroadCast_eq (s : Server) :
    s.CuteDogBroadCast = s.filterShow.map fun Body => broadcastTo Body s.WorkClientList s := by
  unfold CuteDogBroadCast filterShow
  cases s.GetAllCuteDogsFilterString 1024 with
  | none => rfl
  | some Rows => rfl

theorem Talks.filterShow (h : Talks s s') : s'.filterShow = s.filterShow := by
  obtain ⟨_, _, _, _, rfl⟩ := h
  rfl

/-- What `SetCapFilter` answers. -/
def createAnswer (o : Outcome) : CStr :=
  if o.pcap_setfilter = 0 then CStr.lit
    "<iq type='result'><query xmlns='filter:new' action='create'><error id='OK' content=''/></query></iq>"
  else CStr.lit
    "<iq type='result'><query xmlns='filter:new' action='create'><error id='401' content='set failed'/></query></iq>"

theorem hist_withHandle (s : Server) (F : CStr) (k : PcapHandle) :
    (s.withHandle F k).hist = s.hist := by
  unfold withHandle setCallBack
  dsimp only
  split
  · rfl
  · rfl

/-- Once a capture was opened, only its client was answered. -/
theorem put_withCapture {F : CStr} {k : PcapHandle} {i : Slot} {o : Outcome}
    (hcell : Registry.CellFree s) :
    ∃ m, (s.withCapture F k i o).hist.put = s.hist.put ++ [m] ∧ Tells i (createAnswer o) m := by
  have hset : s.withCapture F k i o = ((s.withHandle F k).answer i (createAnswer o)).2 := by
    simp only [withCapture, SetCapFilter, createAnswer]
    split
    · rfl
    · rfl
  have htrue : ((s.withHandle F k).answer i (createAnswer o)).1 = true := by
    rw [answer_fst, pFifoDogMsgFree_withHandle]
    exact hcell
  obtain ⟨m, hput, htells⟩ := put_answer (Prod.ext htrue rfl)
  rw [hist_withHandle] at hput
  exact ⟨m, hset ▸ hput, htells⟩

/-- The messages are only added to. -/
theorem Move.put (h : Move s s') : s.hist.put <+: s'.hist.put := by
  cases h with
  | answer i str =>
      cases hanswer : s.answer i str with
      | mk b s₁ =>
          cases b with
          | true =>
              obtain ⟨m, hput, -⟩ := put_answer hanswer
              exact hput ▸ List.prefix_append _ _
          | false =>
              obtain ⟨heq, -⟩ | ⟨s₂, heq, -⟩ := answer_spec i str s
              · rw [hanswer] at heq
                rw [(Prod.mk.inj heq).2]
              · rw [hanswer] at heq
                cases heq
  | client i f _ => exact List.prefix_refl _
  | world _ _ _ _ _ _ _ _ => exact List.prefix_refl _

theorem Moves.put (h : Moves s s') : s.hist.put <+: s'.hist.put := by
  induction h with
  | refl => exact List.prefix_refl _
  | tail _ hmove ih => exact ih.trans hmove.put

/-- The broadcast only puts its text, and when a cell is still free at its end, it told every client. -/
theorem put_broadcastTo (Body : CStr) (l : List Slot) (s : Server) :
    ∃ new, (broadcastTo Body l s).hist.put = s.hist.put ++ new ∧ (∀ m ∈ new, m.text = Body) ∧
      (Registry.CellFree (broadcastTo Body l s) → ∀ i ∈ l, ∃ m ∈ new, Tells i Body m) := by
  induction l generalizing s with
  | nil => exact ⟨[], (List.append_nil _).symm, nofun, fun _ => nofun⟩
  | cons i rest ih =>
      obtain ⟨hget, hnone⟩ | ⟨c, ring, hget⟩ := IoGetSendMsgCell_cases i s
      · -- no cell for the client: none is left
        rw [broadcastTo, hget]
        exact ⟨[], (List.append_nil _).symm, nofun, fun hcell => absurd hnone hcell⟩
      · have hsame : (s.stampCell i c ring).hist.put = s.hist.put := rfl
        obtain ⟨hanswer, hnone⟩ | ⟨s₂, hanswer, -⟩ := answer_spec i Body (s.stampCell i c ring)
        · simp only [broadcastTo, hget, hanswer]
          exact ⟨[], (List.append_nil _).symm, nofun, fun hcell => absurd hnone hcell⟩
        · have hturn : broadcastTo Body (i :: rest) s = broadcastTo Body rest s₂ := by
            simp only [broadcastTo, hget, hanswer]
          rw [hturn]
          obtain ⟨m, hput, htells⟩ := put_answer hanswer
          obtain ⟨new, hnew, htexts, hall⟩ := ih s₂
          refine ⟨m :: new, ?_, fun m' hm' => ?_, fun hcell j hj => ?_⟩
          · rw [hnew, hput, hsame, List.append_assoc, List.singleton_append]
          · rcases List.mem_cons.mp hm' with rfl | hm'
            · exact htells.2
            · exact htexts m' hm'
          · rcases List.mem_cons.mp hj with rfl | hj
            · exact ⟨m, List.mem_cons_self, htells⟩
            · obtain ⟨m', hm', htells'⟩ := hall hcell j hj
              exact ⟨m', List.mem_cons_of_mem m hm', htells'⟩

/-- A create or a cancel that is not followed by a broadcast left the list of dogs alone, or it
listed a dog whose thread could not be created. -/
theorem createOrCancel_silent {ι : Type} [Iksemel ι] {x : Option ι} {i : Slot} {o : Outcome}
    (h : s.createOrCancel x i o = some (false, s')) :
    s'.CuteDogList = s.CuteDogList ∨
      ∃ F N k, filterRequest x = .create (some F) (some N) (modelOf x) ∧
        o.captures (modelOf x) k ∧ o.pthread_create = none := by
  unfold createOrCancel at h
  dsimp only at h
  split at h
  · next hcreate =>
      split at h
      · cases h
        exact Or.inl rfl
      · next F hF =>
          simp only [Option.bind_eq_bind, Option.bind_eq_some_iff] at h
          obtain ⟨⟨ret, s₁⟩, hstart, h⟩ := h
          split at h
          · next heq =>
              cases h
              cases heq
              -- setting the filter and answering leave the list alone
              have hlist : ∀ {k : PcapHandle} {b : Bool} {s₂ : Server},
                  (s.withHandle F k).SetCapFilter (some k) i o = (b, s₂) →
                  s₂.CuteDogList = s.CuteDogList := by
                intro k b s₂ hset
                have htalks := talks_SetCapFilter (some k) i o (s.withHandle F k)
                rw [hset] at htalks
                rw [htalks.CuteDogList]
                exact congrArg Registry.CuteDogList (registry_withHandle s F k)
              cases StartDogNose_eq_some hstart with
              | notOpened _ =>
                  left
                  exact congrArg Registry.CuteDogList (registry_setCallBack s F)
              | refused _ _ hset _ => exact Or.inl (hlist hset)
              | @noThread k n s₂ hlive _ hset hlink hN _ hthread =>
                  right
                  refine ⟨F, n, k, ?_, ⟨hlive, ?_, hlink⟩, hthread⟩
                  · simp only [filterRequest, hcreate, if_true, hF, hN]
                  · have hfst := (SetCapFilter_fst k i o (s.withHandle F k)).mp (by rw [hset])
                    exact hfst.1
          · next heq => cases h
  · split at h
    · simp only [Option.bind_eq_bind, Option.bind_eq_some_iff] at h
      obtain ⟨_, -, _, -, h⟩ := h
      cases h
    · cases h
      exact Or.inl rfl

end Server

/-- The messages put on the way from `s` to `s'`. -/
def newMessages (s s' : Server) : List Msg := s'.hist.put.drop s.hist.put.length

/-- The list of dogs was put for every connected client. -/
def ShownToAll (s s' : Server) : Prop :=
  ∃ Body, s'.filterShow = some Body ∧
    ∀ i ∈ s'.WorkClientList, ∃ m ∈ newMessages s s', Server.Tells i Body m

/-- Which dogs are listed is not the same. -/
def DogsChanged (s s' : Server) : Prop := ∃ d, ¬(d ∈ s.CuteDogList ↔ d ∈ s'.CuteDogList)

theorem not_changed {s s' : Server} (h : s'.CuteDogList = s.CuteDogList) : ¬DogsChanged s s' := by
  rintro ⟨d, hd⟩
  rw [h] at hd
  exact hd Iff.rfl

/-- A broadcast in which no client was left out, after moves. -/
theorem shownToAll_of_broadcast {s s₁ s' : Server} (hmoves : Server.Moves s s₁)
    (h : s₁.CuteDogBroadCast = some s') (hcell : Registry.CellFree s') : ShownToAll s s' := by
  have htalks := Server.talks_CuteDogBroadCast h
  rw [Server.CuteDogBroadCast_eq, Option.map_eq_some_iff] at h
  obtain ⟨Body, hBody, rfl⟩ := h
  obtain ⟨new, hnew, -, hall⟩ := Server.put_broadcastTo Body s₁.WorkClientList s₁
  obtain ⟨before, hbefore⟩ := Server.Moves.put hmoves
  refine ⟨Body, htalks.filterShow.trans hBody, fun i hi => ?_⟩
  rw [htalks.WorkClientList] at hi
  obtain ⟨m, hm, htells⟩ := hall hcell i hi
  refine ⟨m, ?_, htells⟩
  rw [newMessages, hnew, ← hbefore, List.append_assoc, List.drop_left]
  exact List.mem_append_right before hm

/-! ## The events that tell the clients -/

section Events

variable {ι : Type} [Iksemel ι]

/-- The events after which the clients are told what changed: no filter is created whose thread
cannot be created, and no pioneer that points to a dog ends its session. -/
def Announces (s : Server) : ServerAction ι → Prop
  | .stanza _ type node o => ∀ F N m, requestOf type node = .create (some F) (some N) m →
      (∃ h, o.captures m h) → o.pthread_create ≠ none
  | .shutdown i _ =>
      (s.ClientInfo i).lType = .CLIENT_USER_PIONEER → (s.ClientInfo i).CuteDog = none
  | _ => True

variable {s s' : Server}

theorem requestOf_of_handler {type : IksNodeType} {node : ι} {x : Option ι}
    (h : handlerOf type node = (some .RespCatCreateFilter, x)) :
    requestOf type node = filterRequest x := by
  rw [requestOf, h]

omit [Iksemel ι] in
/-- Only a create and a cancel change the list of dogs. -/
theorem Registry.Changed.CuteDogList_eq {i : Slot} {o : Outcome} {cell : Prop} {q : Request}
    {r r' : Registry} (h : Changed i o cell q r r') (hcreate : ∀ F N m, q ≠ .create F N m)
    (hcancel : q ≠ .cancel) : r'.CuteDogList = r.CuteDogList := by
  cases h with
  | kept _ => rfl
  | hooked _ _ _ => rfl
  | opened _ _ => exact absurd rfl (hcreate _ _ _)
  | listed _ _ _ _ _ => exact absurd rfl (hcreate _ _ _)
  | started _ _ _ _ _ _ => exact absurd rfl (hcreate _ _ _)
  | cancelled _ _ _ _ => exact absurd rfl hcancel

/-- A stanza that changes the list of dogs is a create or a cancel, and both broadcast. -/
theorem shown_stanza {i : Slot} {type : IksNodeType} {node : ι} {o : Outcome}
    (ha : Announces s (.stanza i type node o)) (h : s.IOProcessCatMsg i type node o = some s')
    (hcell : Registry.CellFree s') (hchange : DogsChanged s s') : ShownToAll s s' := by
  have hchanged := Server.changed_IOProcessCatMsg h
  -- the other requests list no dog and free none
  have hsame : (∀ F N m, requestOf type node ≠ .create F N m) → requestOf type node ≠ .cancel →
      False := fun hcreate hcancel =>
    not_changed (hchanged.CuteDogList_eq hcreate hcancel) hchange
  obtain ⟨hreq, -, -⟩ | ⟨handler, x, hof, h⟩ := IOProcessCatMsg_eq_some h
  · rw [hreq] at hsame
    exact (hsame (fun F N m hreq => by cases hreq) fun hreq => by cases hreq).elim
  · cases handler with
    | RespCatLogin0 =>
        rw [requestOf, hof] at hsame
        exact (hsame (fun F N m hreq => by cases hreq) fun hreq => by cases hreq).elim
    | RespCatAllFilters =>
        rw [requestOf, hof] at hsame
        exact (hsame (fun F N m hreq => by cases hreq) fun hreq => by cases hreq).elim
    | RespCatSetHooker =>
        rw [requestOf, hof] at hsame
        exact (hsame (fun F N m => hookRequest_ne.1)
          (hookRequest_ne (F := none) (N := none) (m := 0)).2).elim
    | RespCatCreateFilter =>
        simp only [Server.runHandler, Server.RespCatCreateFilter, Option.bind_eq_bind,
          Option.bind_eq_some_iff] at h
        obtain ⟨⟨b, s₁⟩, hfirst, h⟩ := h
        cases b with
        | true => exact shownToAll_of_broadcast (Server.moves_createOrCancel hfirst) h hcell
        | false =>
            cases h
            obtain hlist | ⟨F, N, k, hreq, hcap, hthread⟩ := Server.createOrCancel_silent hfirst
            · exact absurd hchange (not_changed hlist)
            · rw [← requestOf_of_handler hof] at hreq
              exact absurd hthread (ha F N _ hreq ⟨k, hcap⟩)

/-- One operation. -/
theorem shown_step {a : ServerAction ι} (ha : Announces s a) (hstep : serverStep s a = some s')
    (hcell : Registry.CellFree s') (hchange : DogsChanged s s') : ShownToAll s s' := by
  have hkept : s'.registry.CuteDogList = s.registry.CuteDogList → ShownToAll s s' :=
    fun h => absurd hchange (not_changed h)
  have hfollows := serverStep_follows hstep
  cases a with
  | stanza i type node o =>
      have hmsg : s.IOProcessCatMsg i type node o = some s' := by
        simp only [serverStep] at hstep
        split at hstep
        · exact hstep
        · cases hstep
      exact shown_stanza ha hmsg hcell hchange
  | shutdown i o =>
      obtain ⟨-, r₁, hclose, hchanged⟩ := hfollows
      refine hkept ?_
      rw [hclose]
      show r₁.CuteDogList = s.registry.CuteDogList
      split at hchanged
      · next hpioneer =>
          -- by the guard the pioneer that leaves has no dog to free
          have hnone : (s.registry.seat i).CuteDog = none := ha hpioneer
          generalize hq : Request.cancel = q at hchanged
          cases hchanged with
          | kept _ => rfl
          | cancelled hd _ _ _ =>
              rw [hnone] at hd
              cases hd
          | _ => cases hq
      · rw [hchanged]
  | accept sd =>
      obtain ⟨-, heq⟩ | ⟨i, rest, -, heq⟩ := hfollows
      · exact hkept (by rw [heq])
      · exact hkept (by rw [heq]; rfl)
  | send i sn =>
      obtain heq | heq := hfollows
      · exact hkept (by rw [heq])
      · exact hkept (by rw [heq]; rfl)
  | recycle i => exact hkept (by rw [hfollows.2.2]; rfl)
  | loopReturns t => exact hkept (by rw [hfollows])
  | toEnd i => exact hkept (by rw [hfollows]; rfl)
  | packet t p => exact hkept (by rw [hfollows])
  | drain => exact hkept (by rw [hfollows])
  | pickUp i => exact hkept (by rw [hfollows])
  | allocator answer => exact hkept (by rw [hfollows])

/-- A message cell is still free after the event, so that every cell it asked for was there. -/
def CellsLast (s : Server) (a : ServerAction ι) : Prop :=
  ∀ s', serverStep s a = some s' → Registry.CellFree s'

/-- The guard: the event tells the clients what it changed, and the cells for it are there. -/
def Announced (s : Server) (a : ServerAction ι) : Prop := Announces s a ∧ CellsLast s a

/-- **The clients are shown the list of dogs**: whenever an event of a run changes which dogs are
listed, the new list was put for every connected client. -/
theorem dog_list_shown {align : MsgCell → Nat} {steps : List (Server × ServerAction ι × Server)}
    {s : Server} (hrun : Run serverStep Announced (InitServer align) steps s) :
    ∀ s₁ a s₂, (s₁, a, s₂) ∈ steps → DogsChanged s₁ s₂ → ShownToAll s₁ s₂ := by
  intro s₁ a s₂ hmem hchange
  obtain ⟨-, ⟨ha, hcell⟩, hstep⟩ := hrun.of_mem hmem
  exact shown_step ha hstep (hcell s₂ hstep) hchange

end Events

/-! ## A dog that is shown and one that is not -/

/-- Connections are accepted while message cells are free. -/
theorem announced_accept {s : Server} (hpos : 0 < s.pFifoDogMsgFree.count) (sd : Nat) :
    Announced (ι := Iks) s (.accept sd) := by
  refine ⟨trivial, fun s' hs' => ?_⟩
  cases hs'
  refine cellFree_of_count ?_
  rwa [pFifoDogMsgFree_acceptClient]

/-- A run that connects two clients. -/
theorem run_twoClients (align : MsgCell → Nat) :
    ∃ steps, Run (serverStep (ι := Iks)) Announced (InitServer align) steps (twoClients align) := by
  have hpos : 0 < (InitServer align).pFifoDogMsgFree.count := by
    rw [count_InitServer]
    exact Nat.zero_lt_succ _
  have hpos' : 0 < ((InitServer align).acceptClient 7).pFifoDogMsgFree.count := by
    rwa [pFifoDogMsgFree_acceptClient]
  exact ⟨_, (Run.start.next (announced_accept hpos 7) rfl).next (announced_accept hpos' 8) rfl⟩

/-- The dog that is listed was not. -/
theorem dogsChanged_of_list {s s' : Server} {d : DogPtr} (h : s.CuteDogList = [])
    (h' : s'.CuteDogList = [d]) : DogsChanged s s' := by
  refine ⟨d, ?_⟩
  rw [h, h']
  exact fun hiff => List.not_mem_nil (hiff.mpr (List.mem_singleton_self d))

/-- A filter that is created with its thread is shown to both clients. -/
theorem dog_list_shown_created : ∃ steps s₁ a s₂,
    (∃ s, Run (serverStep (ι := Iks)) Announced (InitServer fun _ => 0) steps s) ∧
      (s₁, a, s₂) ∈ steps ∧ DogsChanged s₁ s₂ ∧ ShownToAll s₁ s₂ := by
  obtain ⟨steps, hrun⟩ := run_twoClients fun _ => 0
  obtain ⟨s, hs⟩ := owned_dog (fun _ => 0) (o := Outcome.allSucceed) (h := 0) ⟨rfl, rfl, rfl⟩
    (show Outcome.allSucceed.pthread_create = some 1 from rfl)
  have hann : Announced (twoClients fun _ => 0)
      (.stanza 15 .IKS_NODE_NORMAL (createFilter "a" "tcp") Outcome.allSucceed) := by
    refine ⟨fun _ _ _ _ _ => nofun, fun s' hs' => ?_⟩
    rw [hs.step] at hs'
    cases hs'
    exact cellFree_of_count (Nat.lt_of_lt_of_le (by decide) hs.cells)
  have hnext := hrun.next hann hs.step
  have hmem := List.mem_append_right steps (List.mem_singleton_self
    (twoClients fun _ => 0,
      ServerAction.stanza 15 .IKS_NODE_NORMAL (createFilter "a" "tcp") Outcome.allSucceed, s))
  have hchange := dogsChanged_of_list (onlyTwo fun _ => 0).list hs.list
  exact ⟨_, _, _, _, ⟨s, hnext⟩, hmem, hchange, dog_list_shown hnext _ _ _ hmem hchange⟩

/-- Every call succeeds but `pthread_create`. -/
def Outcome.noThread : Outcome := { Outcome.allSucceed with pthread_create := none }

/-- With two clients connected a dog without a thread is listed, and the other client gets no
message. -/
theorem lists_silently {s : Server} (h2 : OnlyTwo s) (hcount : 1 < s.pFifoDogMsgFree.count) :
    ∃ s', serverStep s (.stanza 15 .IKS_NODE_NORMAL (createFilter "a" "tcp") Outcome.noThread) =
        some s' ∧ Registry.CellFree s' ∧ DogsChanged s s' ∧ ¬ShownToAll s s' := by
  have hfree : Registry.CellFree s := cellFree_of_count (by omega)
  have hstep := create_lists (o := Outcome.noThread) (h := 0)
    (ready_of_seat (by rw [h2.work]; decide) (h2.seat 15 (by decide))) (requestOf_createFilter "a" "tcp")
    ⟨rfl, rfl, rfl⟩ hfree (by rw [h2.opened]; exact List.not_mem_nil) (by rw [h2.dogs]) rfl
  obtain ⟨m, hput, hslot, -⟩ := Server.put_withCapture (F := CStr.lit "tcp") (k := 0) (i := 15)
    (o := Outcome.noThread) hfree
  have hreg := Server.registry_withCapture (s := s) (CStr.lit "tcp") 0 15 Outcome.noThread
  have hspends := Server.spends_withCapture (s := s) (CStr.lit "tcp") 0 15 Outcome.noThread
  refine ⟨_, hstep, cellFree_of_count ?_, dogsChanged_of_list (d := Outcome.noThread.malloc)
    h2.list ?_, ?_⟩
  · show 0 < (s.withCapture (CStr.lit "tcp") 0 15 Outcome.noThread).pFifoDogMsgFree.count
    rw [Server.Spends] at hspends
    omega
  · show _ :: (s.withCapture (CStr.lit "tcp") 0 15 Outcome.noThread).CuteDogList = _
    rw [show Server.CuteDogList _ = [] from (congrArg Registry.CuteDogList hreg).trans h2.list]
  · rintro ⟨Body, -, hall⟩
    have hwork : (s.withCapture (CStr.lit "tcp") 0 15 Outcome.noThread).WorkClientList = [14, 15] :=
      (congrArg Registry.WorkClientList hreg).trans h2.work
    obtain ⟨m', hm', hslot', -⟩ := hall 14 (by
      show 14 ∈ (s.withCapture (CStr.lit "tcp") 0 15 Outcome.noThread).WorkClientList
      rw [hwork]
      decide)
    have hnew : m' ∈ (s.withCapture (CStr.lit "tcp") 0 15 Outcome.noThread).hist.put.drop
        s.hist.put.length := hm'
    rw [hput, List.drop_left, List.mem_singleton] at hnew
    rw [hnew, hslot] at hslot'
    exact absurd hslot' (by decide)

/-- **A dog is listed and nobody is told**: the thread for the filter of the client 15 cannot be
created. -/
theorem dog_listed_silently : ∃ steps s₁ a s₂,
    (∃ s, Run (serverStep (ι := Iks)) CellsLast (InitServer fun _ => 0) steps s) ∧
      (s₁, a, s₂) ∈ steps ∧ DogsChanged s₁ s₂ ∧ ¬ShownToAll s₁ s₂ := by
  obtain ⟨steps, hrun⟩ := run_twoClients fun _ => 0
  have hcount := count_twoClients fun _ => 0
  obtain ⟨s', hstep, hcell, hchange, hsilent⟩ := lists_silently (onlyTwo fun _ => 0)
    (by rw [hcount]; decide)
  have hlast : CellsLast (twoClients fun _ => 0) (.stanza 15 .IKS_NODE_NORMAL
      (createFilter "a" "tcp") Outcome.noThread) := by
    intro s₁ hs₁
    rw [hstep] at hs₁
    cases hs₁
    exact hcell
  exact ⟨_, _, _, _, ⟨s', (hrun.mono fun _ _ h => h.2).next hlast hstep⟩,
    List.mem_append_right steps (List.mem_singleton_self _), hchange, hsilent⟩

end Netflow
