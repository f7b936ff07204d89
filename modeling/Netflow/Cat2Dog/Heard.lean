import Netflow.Cat2Dog.Shutdown

set_option autoImplicit false

/-! # What the parsers are given

`processIOThread` hands the text of each cell whose session number is that of its client to the parser
of the client. `Listening` adds to `Watched` the parsers and what they were given. A parser is given
the chunks of its own connection in their order, none twice and none left out: the cells of an earlier
connection of its slot are passed over, and behind a shutdown text it is gone.
-/

namespace Netflow

namespace Cat2Dog

/-- What a cell was published with: a connection, and the chunk or (`none`) the shutdown text. -/
abbrev Post := Nat × Option (List Byte)

/-- `Prs` says which clients have their parser. `posted` and `heard` are histories: what the cells were
published with, and what `iks_parse` was given, with the connection its client served. -/
structure Listening where
  io : Watched
  Prs : Slot → Bool
  posted : List Post
  heard : List (Nat × CStr)

def listenInit (align : Cell → Nat) : Listening where
  io := watchInit align
  Prs _ := false
  posted := []
  heard := []

/-- What the next `publish` publishes the stored cell with. -/
def Receiver.post (r : Receiver) : List Post :=
  match r.ring.recv, r.job with
  | .stored (some c), .data i _ => [(r.conn i, some (chunkOf (r.cells c).hStream))]
  | .stored (some _), .toEnd i => [(r.conn i, none)]
  | _, _ => []

namespace Listening

/-- `IOProcessParser`; it returns when the client has no parser. -/
def IOProcessParser (i : Slot) (text : CStr) (s : Listening) : Listening :=
  if s.Prs i then { s with heard := s.heard ++ [(s.io.recv.conn i, text)] } else s

/-- The branch of `processIOThread` for a cell of the session; `FunFreeObj` deletes the parser. -/
def text (i : Slot) (c : Cell) (s : Listening) : Listening :=
  let text := (s.io.recv.cells c).hStream.text
  { s.IOProcessParser i text with
    io := s.io.text i c
    Prs := if text = SOCKETSHUTDOWN then Function.update s.Prs i false else s.Prs }

end Listening

def listenStep (s : Listening) : WatchAction → Option Listening
  | .ioText =>
      match s.io.recv.ring.io, s.io.check with
      | .processing (some c), .text i => some (s.text i c)
      | _, _ => none
  | .input (.accept i) =>
      (watchStep s.io (.input (.accept i))).map fun io =>
        { s with io := io, Prs := Function.update s.Prs i true }
  | .input .publish =>
      (watchStep s.io (.input .publish)).map fun io =>
        { s with io := io, posted := s.posted ++ s.io.recv.post }
  | a => (watchStep s.io a).map fun io => { s with io := io }

/-- A chunk that is copied into a cell has no NUL and comes to lie in front of one. -/
def CleanCopy (r : Receiver) : Prop :=
  ∀ i lpBuf c, r.job = .data i lpBuf → r.pCurCat2DogIOMsg i = some c →
    0 ∉ lpBuf ∧ (r.cells c).hStream.buffer[(lpBuf.take MSGINITSIZE).length]? = some 0

/-- The guard: session numbers do not wrap, chunks are copied cleanly, nothing is published behind a
gap, and no slot is recycled between the two tests of the IO thread on a cell of it. -/
def Undisturbed (s : Listening) : WatchAction → Prop
  | .input (.accept _) => s.io.recv.accepted + 1 < 4294967296
  | .input (.recycle i) => s.io.check ≠ .text i
  | .input .store => CleanCopy s.io.recv
  | .input a => NothingBehindGap s.io.recv a
  | _ => True

/-! ## What the cells were published with -/

/-- A cell carries what it was published with. -/
structure Posts (r : Receiver) (c : Cell) (p : Post) : Prop where
  session : (r.cells c).iSessionID = p.1
  slot : ∀ i, r.conn i = p.1 → (r.cells c).pClientInfo = i
  pos : p.1 ≠ 0
  le : p.1 ≤ r.accepted
  text : (r.cells c).hStream.text.chars = p.2.getD SOCKETSHUTDOWN.chars

/-- The chunk of a post, with its connection. -/
def Post.chunk (p : Post) : Option (Nat × List Byte) := p.2.map fun chunk => (p.1, chunk)

/-- What holds between the steps of the receiver. The IO thread has decided on the first `H` cells that
were published; the others carry what they were published with. -/
structure Mailed (r : Receiver) (posted : List Post) (H : Nat) : Prop where
  lt : r.accepted < 4294967296
  conn_le : ∀ i, r.conn i ≤ r.accepted
  conn_inj : ∀ i j, r.conn i ≠ 0 → r.conn i = r.conn j → i = j
  busy : ∀ i, r.job.slot = some i → r.conn i ≠ 0
  hand : ∀ i c, r.pCurCat2DogIOMsg i = some c →
    (r.cells c).iSessionID = r.conn i ∧ (r.cells c).pClientInfo = i
  stored : ∀ c, r.ring.recv = .stored (some c) → ∃ p, r.post = [p] ∧ Posts r c p
  length : posted.length = r.ring.published.length
  published : posted.filterMap Post.chunk = r.published
  queued : ∀ k c, H ≤ k → r.ring.published[k]? = some (some c) →
    ∃ p, posted[k]? = some p ∧ Posts r c p
  posted_le : ∀ p ∈ posted, p.1 ≤ r.accepted

theorem mailed_init (align : Cell → Nat) : Mailed (inputInit align) [] 0 where
  lt := show 0 < 4294967296 by decide
  conn_le _ := Nat.le_refl _
  conn_inj _ _ h := absurd rfl h
  busy _ h := by cases h
  hand _ _ h := by cases h
  stored _ h := by cases h
  length := rfl
  published := rfl
  queued _ _ _ h := by cases h
  posted_le _ h := by cases h

section Mail

variable {r r' : Receiver} {posted : List Post} {H : Nat} {G P T : Nat} {done : List Ptr}

theorem Posts.congr {c : Cell} {p : Post} (h : Posts r c p) (hcell : r'.cells c = r.cells c)
    (hconn : r'.conn = r.conn) (haccepted : r'.accepted = r.accepted) : Posts r' c p := by
  refine ⟨?_, fun i hi => ?_, h.pos, ?_, ?_⟩
  · rw [hcell]
    exact h.session
  · rw [hconn] at hi
    rw [hcell]
    exact h.slot i hi
  · rw [haccepted]
    exact h.le
  · rw [hcell]
    exact h.text

/-- The decisions of the IO thread change none of it. -/
theorem Mailed.decide (h : Mailed r posted H) : Mailed r posted (H + 1) :=
  { h with queued := fun k c hk => h.queued k c (Nat.le_of_succ_le hk) }

/-- A step that leaves the cells and the connections alone and publishes nothing. -/
theorem Mailed.same (h : Mailed r posted H) (hconn : r'.conn = r.conn)
    (haccepted : r'.accepted = r.accepted) (hcells : r'.cells = r.cells)
    (hcur : r'.pCurCat2DogIOMsg = r.pCurCat2DogIOMsg)
    (hring : r'.ring.published = r.ring.published) (hpublished : r'.published = r.published)
    (hbusy : ∀ i, r'.job.slot = some i → r.conn i ≠ 0)
    (hstored : ∀ c, r'.ring.recv = .stored (some c) →
      r.ring.recv = .stored (some c) ∧ r'.post = r.post) : Mailed r' posted H := by
  have hposts : ∀ c p, Posts r c p → Posts r' c p := fun c p hp =>
    hp.congr (by rw [hcells]) hconn haccepted
  refine ⟨by rw [haccepted]; exact h.lt, ?_, ?_, ?_, ?_, ?_, ?_, ?_, ?_, ?_⟩
  · rw [hconn, haccepted]
    exact h.conn_le
  · rw [hconn]
    exact h.conn_inj
  · rw [hconn]
    exact hbusy
  · rw [hconn, hcells, hcur]
    exact h.hand
  · intro c hc
    obtain ⟨hrecv, hpost⟩ := hstored c hc
    obtain ⟨p, hp, hposts'⟩ := h.stored c hrecv
    exact ⟨p, hpost.trans hp, hposts c p hposts'⟩
  · rw [hring]
    exact h.length
  · rw [hpublished]
    exact h.published
  · intro k c hk hc
    rw [hring] at hc
    obtain ⟨p, hp, hposts'⟩ := h.queued k c hk hc
    exact ⟨p, hp, hposts c p hposts'⟩
  · rw [haccepted]
    exact h.posted_le

/-- Between two jobs a slot gets a connection or loses it. -/
theorem Mailed.setConn (h : Mailed r posted H) (hcells : CellsInv r) (hjob : r.job = .idle) {i : Slot}
    {n m : Nat} (hm : r.accepted ≤ m) (hlt : m < 4294967296) (hn : n = 0 ∨ n = r.accepted + 1 ∧ n = m) :
    Mailed { r with conn := Function.update r.conn i n, accepted := m } posted H := by
  obtain ⟨hidle, hnone⟩ := hcells.idle hjob
  have hle := h.conn_le
  refine ⟨hlt, fun j => ?_, fun j k hj hjk => ?_, fun j hj => ?_, fun j c hc => ?_, fun c hc => ?_,
    h.length, h.published, fun k c hk hc => ?_, fun p hp => (h.posted_le p hp).trans hm⟩
  · show Function.update r.conn i n j ≤ m
    by_cases hji : j = i
    · rw [hji, Function.update_self]
      omega
    · rw [Function.update_of_ne hji]
      exact (hle j).trans hm
  · -- a new connection is none of the others
    change Function.update r.conn i n j ≠ 0 at hj
    change Function.update r.conn i n j = Function.update r.conn i n k at hjk
    have hj' := hle j
    have hk' := hle k
    by_cases hji : j = i
    · by_cases hki : k = i
      · rw [hji, hki]
      · rw [hji, Function.update_self, Function.update_of_ne hki] at hjk
        rw [hji, Function.update_self] at hj
        omega
    · rw [Function.update_of_ne hji] at hj hjk
      by_cases hki : k = i
      · rw [hki, Function.update_self] at hjk
        omega
      · rw [Function.update_of_ne hki] at hjk
        exact h.conn_inj j k hj hjk
  · have hj' : r.job.slot = some j := hj
    rw [hjob] at hj'
    cases hj'
  · have hc' : r.pCurCat2DogIOMsg j = some c := hc
    rw [hnone j] at hc'
    cases hc'
  · have hc' : r.ring.recv = .stored (some c) := hc
    rw [hidle] at hc'
    cases hc'
  · obtain ⟨p, hp, hposts⟩ := h.queued k c hk hc
    refine ⟨p, hp, hposts.session, fun j hj => ?_, hposts.pos, hposts.le.trans hm, hposts.text⟩
    change Function.update r.conn i n j = p.1 at hj
    have hle' := hposts.le
    have hpos := hposts.pos
    by_cases hji : j = i
    · rw [hji, Function.update_self] at hj
      omega
    · rw [Function.update_of_ne hji] at hj
      exact hposts.slot j hj

/-- A step on a cell that is not in the queue. -/
theorem Mailed.setCell (h : Mailed r posted H) (hring : RingInv r.ring G P T done) (hH : done.length ≤ H)
    {c : Cell} (hc : some c ∉ r.ring.queued) (hconn : r'.conn = r.conn)
    (haccepted : r'.accepted = r.accepted) (hcells : ∀ d, d ≠ c → r'.cells d = r.cells d)
    (hpub : r'.ring.published = r.ring.published) (hpublished : r'.published = r.published)
    (hslot : r'.job.slot = r.job.slot)
    (hhand : ∀ i d, r'.pCurCat2DogIOMsg i = some d →
      (r'.cells d).iSessionID = r.conn i ∧ (r'.cells d).pClientInfo = i)
    (hstored : ∀ d, r'.ring.recv = .stored (some d) → ∃ p, r'.post = [p] ∧ Posts r' d p) :
    Mailed r' posted H := by
  refine ⟨by rw [haccepted]; exact h.lt, ?_, ?_, ?_, ?_, hstored, ?_, ?_, ?_, ?_⟩
  · rw [hconn, haccepted]
    exact h.conn_le
  · rw [hconn]
    exact h.conn_inj
  · rw [hconn, hslot]
    exact h.busy
  · rw [hconn]
    exact hhand
  · rw [hpub]
    exact h.length
  · rw [hpublished]
    exact h.published
  · intro k d hk hd
    rw [hpub] at hd
    obtain ⟨p, hp, hposts⟩ := h.queued k d hk hd
    refine ⟨p, hp, hposts.congr (hcells d ?_) hconn haccepted⟩
    rintro rfl
    rw [hring.published_eq, ← hring.queued_eq, List.getElem?_append_right (hH.trans hk)] at hd
    exact hc (List.mem_of_getElem? hd)
  · rw [haccepted]
    exact h.posted_le

/-- The session number of a connection is its number. -/
theorem Mailed.session (h : Mailed r posted H) (i : Slot) : r.conn i % 4294967296 = r.conn i :=
  Nat.mod_eq_of_lt ((h.conn_le i).trans_lt h.lt)

/-- A chunk in front of a NUL is the text of its cell. -/
theorem text_copied {st : Stream} (h : CellOk st) {lpBuf : List Byte} (hnul : 0 ∉ lpBuf)
    (hbehind : st.buffer[(lpBuf.take MSGINITSIZE).length]? = some 0) :
    (copy_stream lpBuf (reset_stream st)).2.text.chars = lpBuf.take MSGINITSIZE := by
  have hclean : 0 ∉ lpBuf.take MSGINITSIZE := fun hmem => hnul (List.mem_of_mem_take hmem)
  obtain ⟨hlt, hzero⟩ := List.getElem?_eq_some_iff.mp hbehind
  have hbuffer : (copy_stream lpBuf (reset_stream st)).2.buffer =
      (⟨lpBuf.take MSGINITSIZE, hclean⟩ : CStr).chars ++
        0 :: st.buffer.drop ((lpBuf.take MSGINITSIZE).length + 1) := by
    rw [buffer_copy_stream h, List.drop_eq_getElem_cons hlt, hzero]
  show (CStr.ofChars (copy_stream lpBuf (reset_stream st)).2.buffer).chars = _
  rw [hbuffer, CStr.ofChars_nul]

/-- A cell that is taken was free. -/
theorem taken_free (hring : RingInv r.ring G P T done) (hstep : inputStep r .take = some r') :
    ∃ i c ring, r.job.slot = some i ∧ step r.ring .take = some ring ∧ some c ∉ r.ring.queued ∧
      r' = Receiver.stamp i c { r with ring := ring } := by
  simp only [inputStep, Option.bind_eq_bind, Option.bind_eq_some_iff] at hstep
  obtain ⟨i, hslot, c, hc, r₁, htaking, hstep⟩ := hstep
  obtain ⟨ring, htake, rfl⟩ := ringStep_eq_some htaking
  cases hstep
  obtain ⟨d, htaken, hqueued, -⟩ := hring.take_fresh htake
  have hall : ring.taken = r.ring.Cat2DogIOMsg r.ring.uiCliGetMsgIndex :: r.ring.taken := by
    unfold step at htake
    dsimp only at htake
    split at htake
    · cases htake
      rfl
    · cases htake
  rw [htaken, hc] at hall
  rw [(List.cons_eq_cons.mp hall).1] at hqueued
  exact ⟨i, c, ring, hslot, htake, hqueued, rfl⟩

theorem Mailed.take (h : Mailed r posted H) (hring : RingInv r.ring G P T done) (hH : done.length ≤ H)
    (hcells : CellsInv r) (hstep : inputStep r .take = some r') : Mailed r' posted H := by
  obtain ⟨i, c, ring, hslot, htake, hqueued, rfl⟩ := taken_free hring hstep
  obtain ⟨hroom, hidle⟩ := take_eq_some htake
  have hnone := hcells.no_hand (by rw [hroom]; exact nofun)
  refine h.setCell hring hH hqueued rfl rfl (fun d hd => Function.update_of_ne hd ..)
    (published_of_step htake nofun) rfl rfl (fun j d hd => ?_) fun d hd => ?_
  · -- no other client has a cell in hand
    change Function.update r.pCurCat2DogIOMsg i (some c) j = some d at hd
    by_cases hji : j = i
    · rw [hji, Function.update_self] at hd
      cases hd
      show (Function.update r.cells c _ c).iSessionID = _ ∧ (Function.update r.cells c _ c).pClientInfo = _
      rw [Function.update_self, hji]
      exact ⟨h.session i, rfl⟩
    · rw [Function.update_of_ne hji, hnone j] at hd
      cases hd
  · have hd' : ring.recv = .stored (some d) := hd
    rw [hidle] at hd'
    cases hd'

theorem Mailed.store (h : Mailed r posted H) (hring : RingInv r.ring G P T done) (hH : done.length ≤ H)
    (hcells : CellsInv r) (hclean : CleanCopy r) (hstep : inputStep r .store = some r') :
    Mailed r' posted H := by
  obtain ⟨i, c, ring, st, job, hcur, hstore, hfill, rfl⟩ := inputStep_store hstep
  obtain ⟨hslot, hidle, old, hold, hreset⟩ := hcells.hand i c hcur
  obtain ⟨hsession, hclient⟩ := h.hand i c hcur
  have hqueued : some c ∉ r.ring.queued := by
    refine hring.not_queued ?_
    rw [State.inHand, hidle]
    exact taken_of_store hstore
  have hrecv := (store_eq_some hstore).2
  have hslot' : job.slot = some i := by
    obtain ⟨hjob, rfl, -⟩ | ⟨lpBuf, hjob, rfl, -⟩ := hfill
    · rw [hjob, Job.slot]
    · rfl
  refine h.setCell hring hH hqueued rfl rfl (fun d hd => Function.update_of_ne hd ..)
    (published_of_step hstore fun heq => by cases heq) rfl (hslot'.trans hslot.symm) (fun j d hd => ?_)
    fun d hd => ?_
  · -- the one cell in hand is stored
    change Function.update r.pCurCat2DogIOMsg i none j = some d at hd
    by_cases hji : j = i
    · rw [hji, Function.update_self] at hd
      cases hd
    · rw [Function.update_of_ne hji] at hd
      obtain ⟨hslot'', -, -⟩ := hcells.hand j d hd
      exact absurd (Option.some.inj (hslot''.symm.trans hslot)) hji
  · have hd' : ring.recv = .stored (some d) := hd
    rw [hrecv] at hd'
    cases hd'
    have hcell : Function.update r.cells c { r.cells c with hStream := st } c =
        { r.cells c with hStream := st } := Function.update_self ..
    have hposts : ∀ o, st.text.chars = o.getD SOCKETSHUTDOWN.chars → Posts
        { r.setStream c st with
          ring := ring, job := job
          pCurCat2DogIOMsg := Function.update r.pCurCat2DogIOMsg i none } c (r.conn i, o) := by
      intro o ho
      refine ⟨?_, fun j hj => ?_, h.busy i hslot, h.conn_le i, ?_⟩
      · show (Function.update r.cells c _ c).iSessionID = _
        rw [hcell]
        exact hsession
      · show (Function.update r.cells c _ c).pClientInfo = _
        rw [hcell]
        exact hclient.trans (h.conn_inj i j (h.busy i hslot) hj.symm)
      · show (Function.update r.cells c _ c).hStream.text.chars = _
        rw [hcell]
        exact ho
    obtain ⟨hjob, rfl, hst⟩ | ⟨lpBuf, hjob, rfl, hst⟩ := hfill
    · have htext : st.text = SOCKETSHUTDOWN := by
        refine (text_filled hcells hcur (Or.inl ⟨hjob, hst⟩)).mpr (Or.inl ?_)
        rw [Receiver.origin, hjob]
      refine ⟨(r.conn i, none), ?_, hposts none (congrArg CStr.chars htext)⟩
      simp only [Receiver.post, Receiver.setStream, hrecv, hjob]
    · obtain ⟨hnul, hbehind⟩ := hclean i lpBuf c hjob hcur
      rw [hreset] at hst hbehind
      obtain ⟨-, hchunk, -⟩ := copy_stream_chunk hold lpBuf
      rw [← hst] at hchunk
      have htext : st.text.chars = chunkOf st := by
        rw [hchunk, hst]
        exact text_copied hold hnul hbehind
      refine ⟨(r.conn i, some (chunkOf st)), ?_, hposts (some (chunkOf st)) htext⟩
      simp only [Receiver.post, Receiver.setStream, hrecv, hcell]

theorem Mailed.publish (h : Mailed r posted H) (hstep : inputStep r .publish = some r') :
    Mailed r' (posted ++ r.post) H := by
  obtain ⟨c, ring, hstored, hadvance, rfl⟩ := inputStep_publish hstep
  obtain ⟨p, hpost, hposts⟩ := h.stored c hstored
  have hidle := advancePut_eq_some hadvance
  have hpublished : ring.published = r.ring.published ++ [some c] := by
    simp only [step, hstored] at hadvance
    cases hadvance
    rfl
  -- the last post is that of the stored cell, the others are as they were
  have hqueued : ∀ k d, H ≤ k → ring.published[k]? = some (some d) →
      ∃ p', (posted ++ [p])[k]? = some p' ∧ Posts r d p' := by
    intro k d hk hd
    rw [hpublished] at hd
    by_cases hlt : k < r.ring.published.length
    · rw [List.getElem?_append_left hlt] at hd
      obtain ⟨p', hp', hposts'⟩ := h.queued k d hk hd
      refine ⟨p', ?_, hposts'⟩
      rw [List.getElem?_append_left (by rw [h.length]; exact hlt)]
      exact hp'
    · rw [List.getElem?_append_right (Nat.le_of_not_lt hlt), List.getElem?_singleton] at hd
      split at hd
      · next hlast =>
          cases hd
          refine ⟨p, ?_, hposts⟩
          rw [List.getElem?_append_right (by rw [h.length]; omega), h.length, hlast]
          rfl
      · cases hd
  have hposted_le : ∀ p' ∈ posted ++ [p], p'.1 ≤ r.accepted := by
    intro p' hp'
    rcases List.mem_append.mp hp' with hp' | hp'
    · exact h.posted_le p' hp'
    · rw [List.mem_singleton.mp hp']
      exact hposts.le
  have hlength : (posted ++ [p]).length = ring.published.length := by
    rw [hpublished, List.length_append, List.length_append, h.length]
    rfl
  rw [hpost]
  cases hjob : r.job with
  | idle =>
      rw [Receiver.post, hstored, hjob] at hpost
      cases hpost
  | toEnd i =>
      rw [Receiver.post, hstored, hjob] at hpost
      cases hpost
      simp only [Receiver.publish]
      refine ⟨h.lt, h.conn_le, h.conn_inj, (fun j hj => by cases hj), h.hand, fun d hd => ?_, hlength, ?_,
        fun k d hk hd => ?_, hposted_le⟩
      · have hd' : ring.recv = .stored (some d) := hd
        rw [hidle] at hd'
        cases hd'
      · show (posted ++ [_]).filterMap Post.chunk = r.published
        rw [List.filterMap_append, h.published]
        exact List.append_nil _
      · obtain ⟨p', hp', hposts'⟩ := hqueued k d hk hd
        exact ⟨p', hp', hposts'.congr rfl rfl rfl⟩
  | data i lpBuf =>
      have hconn : r.conn i ≠ 0 := h.busy i (by rw [hjob, Job.slot])
      rw [Receiver.post, hstored, hjob] at hpost
      cases hpost
      simp only [Receiver.publish]
      refine ⟨h.lt, h.conn_le, h.conn_inj, fun j hj => ?_, h.hand, fun d hd => ?_, hlength, ?_,
        fun k d hk hd => ?_, hposted_le⟩
      · have hj' : (if lpBuf = [] then Job.idle else .data i lpBuf).slot = some j := hj
        split at hj'
        · cases hj'
        · cases hj'
          exact hconn
      · have hd' : ring.recv = .stored (some d) := hd
        rw [hidle] at hd'
        cases hd'
      · show (posted ++ [_]).filterMap Post.chunk = r.published ++ [_]
        rw [List.filterMap_append, h.published]
        rfl
      · obtain ⟨p', hp', hposts'⟩ := hqueued k d hk hd
        exact ⟨p', hp', hposts'.congr rfl rfl rfl⟩

/-- A step of the receiver. -/
theorem Mailed.step (h : Mailed r posted H) (hring : RingInv r.ring G P T done) (hH : done.length ≤ H)
    (hcells : CellsInv r) {a : InputAction} (haccept : ∀ i, a = .accept i → r.accepted + 1 < 4294967296)
    (hstore : a = .store → CleanCopy r) (hpublish : a ≠ .publish) (hstep : inputStep r a = some r') :
    Mailed r' posted H := by
  have hio : ∀ a, (a = .ioTest ∨ a = .ioRead ∨ a = .ioAdvance) → r.ringStep a = some r' →
      Mailed r' posted H := by
    intro a ha hstep
    obtain ⟨ring, hring', rfl⟩ := ringStep_eq_some hstep
    have hrecv := recv_io ha hring'
    refine h.same rfl rfl rfl rfl (published_of_step hring' ?_) rfl h.busy fun c hc => ?_
    · rcases ha with rfl | rfl | rfl <;> exact nofun
    · have hc' : r.ring.recv = .stored (some c) := hrecv.symm.trans hc
      refine ⟨hc', ?_⟩
      simp only [Receiver.post, hrecv]
  cases a with
  | publish => exact absurd rfl hpublish
  | take => exact h.take hring hH hcells hstep
  | store => exact h.store hring hH hcells (hstore rfl) hstep
  | ioTest => exact hio _ (Or.inl rfl) hstep
  | ioRead => exact hio _ (Or.inr (Or.inl rfl)) hstep
  | ioAdvance => exact hio _ (Or.inr (Or.inr rfl)) hstep
  | test =>
      obtain ⟨i, ring, -, -, htest, -, hafter⟩ := inputStep_test hstep
      have hpub := published_of_step htest nofun
      obtain ⟨hfull, rfl⟩ | ⟨-, hroom, rfl⟩ := hafter
      · obtain ⟨dropped, heq, -⟩ := leave_eq { r with ring := ring }
        rw [heq]
        refine h.same rfl rfl rfl rfl hpub rfl nofun fun c hc => ?_
        have hc' : ring.recv = .stored (some c) := hc
        rw [hfull] at hc'
        cases hc'
      · refine h.same rfl rfl rfl rfl hpub rfl h.busy fun c hc => ?_
        have hc' : ring.recv = .stored (some c) := hc
        rw [hroom] at hc'
        cases hc'
  | accept i =>
      simp only [inputStep, Option.ite_none_right_eq_some] at hstep
      obtain ⟨⟨hjob, -⟩, ⟨⟩⟩ := hstep
      exact h.setConn hcells hjob (Nat.le_succ _) (haccept i rfl) (Or.inr ⟨rfl, rfl⟩)
  | recycle i =>
      simp only [inputStep, Option.ite_none_right_eq_some] at hstep
      obtain ⟨hjob, ⟨⟩⟩ := hstep
      exact h.setConn hcells hjob (Nat.le_refl _) h.lt (Or.inl rfl)
  | recv i buf =>
      simp only [inputStep, Option.ite_none_right_eq_some] at hstep
      obtain ⟨⟨hjob, hconn, -⟩, ⟨⟩⟩ := hstep
      refine h.same rfl rfl rfl rfl rfl rfl (fun j hj => ?_) fun c hc => ?_
      · cases hj
        exact hconn
      · have hc' : r.ring.recv = .stored (some c) := hc
        rw [(hcells.idle hjob).1] at hc'
        cases hc'
  | toEnd i =>
      simp only [inputStep, Option.ite_none_right_eq_some] at hstep
      obtain ⟨⟨hjob, hconn⟩, ⟨⟩⟩ := hstep
      refine h.same rfl rfl rfl rfl rfl rfl (fun j hj => ?_) fun c hc => ?_
      · cases hj
        exact hconn
      · have hc' : r.ring.recv = .stored (some c) := hc
        rw [(hcells.idle hjob).1] at hc'
        cases hc'

end Mail

/-! ## What the parsers were given -/

namespace Listening

/-- What the parser of connection `n` was given. -/
def heardBy (s : Listening) (n : Nat) : List CStr :=
  (s.heard.filter fun e => decide (e.1 = n)).map Prod.snd

/-- The posts of connection `n` among the first `H`. -/
def postedFor (s : Listening) (H n : Nat) : List (Option (List Byte)) :=
  ((s.posted.take H).filter fun p => decide (p.1 = n)).map Prod.snd

end Listening

/-- The chunks that were published for a connection. -/
def Receiver.chunksFor (r : Receiver) (n : Nat) : List (List Byte) :=
  (r.published.filter fun p => decide (p.1 = n)).map Prod.snd

/-- What holds of the parsers: that of a connection was given the posts of its connection the IO thread
has decided on, and they are chunks. `text` is about a cell behind the test of its session. -/
structure Hears (s : Listening) : Prop where
  heard_le : ∀ e ∈ s.heard, e.1 ≤ s.io.recv.accepted
  closed : ∀ i, s.io.lStatus i = .STATUS_IOCLOSEED → s.Prs i = false
  alive : ∀ i, s.Prs i = true → s.io.recv.conn i ≠ 0
  flow : ∀ i, s.Prs i = true → s.postedFor s.io.decisions.length (s.io.recv.conn i) =
    (s.heardBy (s.io.recv.conn i)).map fun text => some text.chars
  text : ∀ i, s.io.check = .text i → s.io.recv.conn i ≠ 0 ∧
    ∃ o, s.posted[s.io.decisions.length]? = some (s.io.recv.conn i, o)

theorem hears_init (align : Cell → Nat) : Hears (listenInit align) where
  heard_le _ h := by cases h
  closed _ _ := rfl
  alive _ h := by cases h
  flow _ h := by cases h
  text _ h := by cases h

section Parsers

variable {s s' : Listening} {G P T : Nat} {done : List Ptr}

/-- The cell in the hands of the IO thread is the first one it has not decided on. -/
theorem published_at {s : Watched} (hring : RingInv s.recv.ring G P T done) (hcounted : Counted s)
    {c : Cell} (hio : s.recv.ring.io = .processing (some c)) (hpending : s.check.pending = true) :
    s.recv.ring.published[s.decisions.length]? = some (some c) := by
  have hlength := hcounted.length
  rw [hpending, Bool.toNat_true] at hlength
  have hprocessed : s.recv.ring.processed = done ++ [some c] := by
    rw [hring.processed_eq, State.beingProcessed, hio]
  have hplace : s.decisions.length = done.length := by
    rw [hprocessed, List.length_append, List.length_singleton] at hlength
    omega
  rw [hplace, hring.published_eq_append, hprocessed, List.append_assoc,
    List.getElem?_append_right (Nat.le_refl _), Nat.sub_self]
  rfl

/-- The cells it has advanced over are among those it has decided on. -/
theorem done_le {s : Watched} (hring : RingInv s.recv.ring G P T done) (hcounted : Counted s) :
    done.length ≤ s.decisions.length := by
  have hlength := hcounted.length
  rw [hring.processed_eq, List.length_append] at hlength
  cases hpending : s.check.pending with
  | false =>
      rw [hpending, Bool.toNat_false] at hlength
      omega
  | true =>
      obtain ⟨c, hc⟩ := hcounted.reading hpending
      rw [hpending, Bool.toNat_true, State.beingProcessed, hc, List.length_singleton] at hlength
      omega

/-- A step of the receiver in `Watched`. -/
theorem watch_input {s s' : Watched} {a : InputAction} (h : watchStep s (.input a) = some s') :
    inputStep s.recv a = some s'.recv ∧ s'.decisions = s.decisions ∧
      (∀ i, s'.check = .text i → s.check = .text i) ∧
      (∀ i, s'.lStatus i = .STATUS_IOCLOSEED → s.lStatus i = .STATUS_IOCLOSEED) ∧
      ∀ i, a = .recycle i → s.lStatus i = .STATUS_IOCLOSEED := by
  have hupdate : ∀ i j : Slot, Function.update s.lStatus i .STATUS_UNKNOWN j = .STATUS_IOCLOSEED →
      s.lStatus j = .STATUS_IOCLOSEED := by
    intro i j hj
    by_cases hji : j = i
    · rw [hji, Function.update_self] at hj
      cases hj
    · rwa [Function.update_of_ne hji] at hj
  cases a with
  | accept i | toEnd i =>
      simp only [watchStep, Option.map_eq_some_iff] at h
      obtain ⟨t, ht, rfl⟩ := h
      obtain ⟨r, hr, rfl⟩ := inputStep_eq_some ht
      exact ⟨hr, rfl, fun _ hc => hc, hupdate i, fun j hj => by cases hj⟩
  | recycle i =>
      simp only [watchStep] at h
      split at h
      · next hclosed =>
          obtain ⟨t, ht, rfl⟩ := Option.map_eq_some_iff.mp h
          obtain ⟨r, hr, rfl⟩ := inputStep_eq_some ht
          refine ⟨hr, rfl, fun _ hc => hc, hupdate i, fun j hj => ?_⟩
          cases hj
          exact hclosed
      · cases h
  | store | publish =>
      simp only [watchStep, Option.map_eq_some_iff] at h
      obtain ⟨t, ht, rfl⟩ := h
      obtain ⟨r, hr, rfl⟩ := inputStep_eq_some ht
      exact ⟨hr, rfl, fun _ hc => hc, fun _ hi => hi, fun j hj => by cases hj⟩
  | ioRead =>
      simp only [watchStep, Option.map_eq_some_iff] at h
      obtain ⟨t, ht, rfl⟩ := h
      obtain ⟨r, hr, rfl⟩ := inputStep_eq_some ht
      exact ⟨hr, rfl, (fun j hj => by cases hj), fun _ hi => hi, fun j hj => by cases hj⟩
  | ioAdvance =>
      simp only [watchStep] at h
      split at h
      · obtain ⟨t, ht, rfl⟩ := Option.map_eq_some_iff.mp h
        obtain ⟨r, hr, rfl⟩ := inputStep_eq_some ht
        exact ⟨hr, rfl, (fun j hj => by cases hj), fun _ hi => hi, fun j hj => by cases hj⟩
      · cases h
  | recv i buf | test | take | ioTest =>
      obtain ⟨r, hr, rfl⟩ := inputStep_eq_some h
      exact ⟨hr, rfl, fun _ hc => hc, fun _ hi => hi, fun j hj => by cases hj⟩

/-- The connections change at an accept and at a recycle. -/
theorem conn_of_inputStep {r r' : Receiver} {a : InputAction} (h : inputStep r a = some r') :
    (∃ i, a = .accept i ∧ r.conn i = 0 ∧ r'.conn = Function.update r.conn i (r.accepted + 1) ∧
        r'.accepted = r.accepted + 1) ∨
      (∃ i, a = .recycle i ∧ r'.conn = Function.update r.conn i 0 ∧ r'.accepted = r.accepted) ∨
      r'.conn = r.conn ∧ r'.accepted = r.accepted := by
  cases a with
  | accept i =>
      simp only [inputStep, Option.ite_none_right_eq_some] at h
      obtain ⟨⟨-, hconn⟩, ⟨⟩⟩ := h
      exact Or.inl ⟨i, rfl, hconn, rfl, rfl⟩
  | recycle i =>
      simp only [inputStep, Option.ite_none_right_eq_some] at h
      obtain ⟨-, ⟨⟩⟩ := h
      exact Or.inr (Or.inl ⟨i, rfl, rfl, rfl⟩)
  | recv i buf | toEnd i =>
      simp only [inputStep, Option.ite_none_right_eq_some] at h
      obtain ⟨-, ⟨⟩⟩ := h
      exact Or.inr (Or.inr ⟨rfl, rfl⟩)
  | ioTest | ioRead | ioAdvance =>
      obtain ⟨ring, -, rfl⟩ := ringStep_eq_some h
      exact Or.inr (Or.inr ⟨rfl, rfl⟩)
  | take =>
      obtain ⟨i, c, ring, -, -, rfl⟩ := inputStep_take h
      exact Or.inr (Or.inr ⟨rfl, rfl⟩)
  | store =>
      obtain ⟨i, c, ring, st, job, -, -, -, rfl⟩ := inputStep_store h
      exact Or.inr (Or.inr ⟨rfl, rfl⟩)
  | test =>
      obtain ⟨i, ring, -, -, -, -, hafter⟩ := inputStep_test h
      obtain ⟨-, rfl⟩ | ⟨-, -, rfl⟩ := hafter
      · obtain ⟨dropped, heq, -⟩ := leave_eq { r with ring := ring }
        rw [heq]
        exact Or.inr (Or.inr ⟨rfl, rfl⟩)
      · exact Or.inr (Or.inr ⟨rfl, rfl⟩)
  | publish =>
      obtain ⟨c, ring, -, -, rfl⟩ := inputStep_publish h
      unfold Receiver.publish
      cases r.job with
      | _ => exact Or.inr (Or.inr ⟨rfl, rfl⟩)

theorem postedFor_append {H n : Nat} {posted : List Post} (hH : H ≤ s.posted.length)
    (hposted : s'.posted = s.posted ++ posted) : s'.postedFor H n = s.postedFor H n := by
  rw [Listening.postedFor, hposted, List.take_append_of_le_length hH]
  rfl

theorem heardBy_eq_nil {n : Nat} (h : ∀ e ∈ s.heard, e.1 ≠ n) : s.heardBy n = [] := by
  rw [Listening.heardBy, List.filter_eq_nil_iff.mpr, List.map_nil]
  intro e he
  rw [decide_eq_true_eq]
  exact h e he

theorem postedFor_eq_nil {H n : Nat} (h : ∀ p ∈ s.posted, p.1 ≠ n) : s.postedFor H n = [] := by
  rw [Listening.postedFor, List.filter_eq_nil_iff.mpr, List.map_nil]
  intro p hp
  rw [decide_eq_true_eq]
  exact h p (List.mem_of_mem_take hp)

/-- A step of the receive thread, or of the IO thread in the ring: `Prs` and `posted` are what the
accept and the publication make of them. -/
theorem Hears.input (h : Hears s) (hmail : Mailed s.io.recv s.posted s.io.decisions.length)
    (hH : s.io.decisions.length ≤ s.posted.length) {a : InputAction} {io : Watched} {Prs : Slot → Bool}
    {posted : List Post} (hwatch : watchStep s.io (.input a) = some io)
    (hrecycle : ∀ i, a = .recycle i → s.io.check ≠ .text i)
    (hPrs : (∃ i, a = .accept i ∧ Prs = Function.update s.Prs i true) ∨
      (∀ i, a ≠ .accept i) ∧ Prs = s.Prs) :
    Hears { s with io := io, Prs := Prs, posted := s.posted ++ posted } := by
  obtain ⟨hstep, hdecisions, hcheck, hstatus, hclosing⟩ := watch_input hwatch
  have hmore : ∀ (k : Nat) (p : Post), s.posted[k]? = some p → (s.posted ++ posted)[k]? = some p := by
    intro k p hk
    rw [List.getElem?_append_left (List.getElem?_eq_some_iff.mp hk).1]
    exact hk
  -- the parsers of the connections that stay as they are
  have hkept : ∀ i, s.Prs i = true → io.recv.conn i = s.io.recv.conn i →
      io.recv.conn i ≠ 0 ∧
      Listening.postedFor { s with io := io, Prs := Prs, posted := s.posted ++ posted }
          io.decisions.length (io.recv.conn i) =
        (s.heardBy (io.recv.conn i)).map fun text => some text.chars := by
    intro i hi hconn
    rw [hconn, hdecisions]
    refine ⟨h.alive i hi, ?_⟩
    rw [postedFor_append hH rfl]
    exact h.flow i hi
  have htext : ∀ i, io.check = .text i → io.recv.conn i = s.io.recv.conn i →
      io.recv.conn i ≠ 0 ∧ ∃ o, (s.posted ++ posted)[io.decisions.length]? = some (io.recv.conn i, o) := by
    intro i hi hconn
    obtain ⟨hne, o, ho⟩ := h.text i (hcheck i hi)
    rw [hconn, hdecisions]
    exact ⟨hne, o, hmore _ _ ho⟩
  obtain ⟨i, rfl, hfree, hconn, haccepted⟩ | ⟨i, rfl, hconn, haccepted⟩ | ⟨hconn, haccepted⟩ :=
    conn_of_inputStep hstep
  · -- a new connection: nothing was posted for it, and its parser was given nothing
    obtain ⟨j, hj, rfl⟩ | ⟨hnot, -⟩ := hPrs
    · cases hj
      have hother : ∀ j, j ≠ i → io.recv.conn j = s.io.recv.conn j := fun j hj => by
        rw [hconn, Function.update_of_ne hj]
      have hself : io.recv.conn i = s.io.recv.accepted + 1 := by rw [hconn, Function.update_self]
      have hclosed : io.lStatus i ≠ .STATUS_IOCLOSEED := by
        simp only [watchStep, Option.map_eq_some_iff] at hwatch
        obtain ⟨t, -, rfl⟩ := hwatch
        show Function.update t.lStatus i _ i ≠ _
        rw [Function.update_self]
        exact fun heq => by cases heq
      refine ⟨fun e he => ?_, fun j hj => ?_, fun j hj => ?_, fun j hj => ?_, fun j hj => ?_⟩
      · show e.1 ≤ io.recv.accepted
        rw [haccepted]
        exact Nat.le_succ_of_le (h.heard_le e he)
      · show Function.update s.Prs i true j = false
        have hji : j ≠ i := by
          rintro rfl
          exact hclosed hj
        rw [Function.update_of_ne hji]
        exact h.closed j (hstatus j hj)
      · change Function.update s.Prs i true j = true at hj
        by_cases hji : j = i
        · show io.recv.conn j ≠ 0
          rw [hji, hself]
          exact Nat.succ_ne_zero _
        · rw [Function.update_of_ne hji] at hj
          exact (hkept j hj (hother j hji)).1
      · change Function.update s.Prs i true j = true at hj
        show Listening.postedFor _ io.decisions.length (io.recv.conn j) = _
        by_cases hji : j = i
        · rw [hdecisions, postedFor_append hH rfl, hji, hself]
          show _ = (s.heardBy (s.io.recv.accepted + 1)).map _
          rw [heardBy_eq_nil fun e he => Nat.ne_of_lt (Nat.lt_succ_of_le (h.heard_le e he)),
            postedFor_eq_nil fun p hp => Nat.ne_of_lt (Nat.lt_succ_of_le (hmail.posted_le p hp))]
          rfl
        · rw [Function.update_of_ne hji] at hj
          exact (hkept j hj (hother j hji)).2
      · have hji : j ≠ i := by
          rintro rfl
          exact (h.text j (hcheck j hj)).1 hfree
        exact htext j hj (hother j hji)
    · exact absurd rfl (hnot i)
  · -- a slot that is recycled lost its parser when it was closed
    obtain ⟨j, hj, -⟩ | ⟨-, rfl⟩ := hPrs
    · cases hj
    · have hgone : s.Prs i = false := h.closed i (hclosing i rfl)
      have hne : ∀ j, s.Prs j = true → j ≠ i := by
        rintro j hj rfl
        rw [hgone] at hj
        cases hj
      have hother : ∀ j, j ≠ i → io.recv.conn j = s.io.recv.conn j := fun j hj => by
        rw [hconn, Function.update_of_ne hj]
      refine ⟨fun e he => ?_, fun j hj => h.closed j (hstatus j hj),
        fun j hj => (hkept j hj (hother j (hne j hj))).1, fun j hj => (hkept j hj (hother j (hne j hj))).2,
        fun j hj => htext j hj (hother j ?_)⟩
      · show e.1 ≤ io.recv.accepted
        rw [haccepted]
        exact h.heard_le e he
      · rintro rfl
        exact hrecycle j rfl (hcheck j hj)
  · obtain ⟨j, rfl, -⟩ | ⟨-, rfl⟩ := hPrs
    · -- an accept that changes no connection is none
      simp only [inputStep, Option.ite_none_right_eq_some] at hstep
      obtain ⟨-, heq⟩ := hstep
      have hsame : s.io.recv.accepted + 1 = io.recv.accepted :=
        congrArg Receiver.accepted (Option.some.inj heq)
      omega
    · have hall : ∀ j, io.recv.conn j = s.io.recv.conn j := fun j => by rw [hconn]
      refine ⟨fun e he => ?_, fun j hj => h.closed j (hstatus j hj),
        fun j hj => (hkept j hj (hall j)).1, fun j hj => (hkept j hj (hall j)).2,
        fun j hj => htext j hj (hall j)⟩
      show e.1 ≤ io.recv.accepted
      rw [haccepted]
      exact h.heard_le e he

/-- The posts of a connection once the IO thread has decided on one more cell. -/
theorem postedFor_succ {H n m : Nat} {o : Option (List Byte)} (h : s.posted[H]? = some (m, o)) :
    s.postedFor (H + 1) n = s.postedFor H n ++ if m = n then [o] else [] := by
  rw [Listening.postedFor, List.take_add_one, h, List.filter_append, List.map_append]
  congr 1
  by_cases hm : m = n
  · simp [hm]
  · simp [hm]

/-- The test of the session: a cell that is passed over is none of a connection with a parser. -/
theorem Hears.session (h : Hears s) (hmail : Mailed s.io.recv s.posted s.io.decisions.length)
    {c : Cell} (hpublished : s.io.recv.ring.published[s.io.decisions.length]? = some (some c))
    (hopen : ∀ i, s.io.lStatus i ≠ .STATUS_IOCMDCLOSE) : Hears { s with io := s.io.session c } := by
  obtain ⟨⟨m, o⟩, hpost, hposts⟩ := hmail.queued _ c (Nat.le_refl _) hpublished
  unfold Watched.session
  dsimp only
  split
  · next hdiffers =>
      refine ⟨h.heard_le, h.closed, h.alive, fun i hi => ?_, nofun⟩
      have hne : m ≠ s.io.recv.conn i := by
        rintro rfl
        apply hdiffers
        rw [hposts.slot i rfl, hmail.session, hposts.session]
      show Listening.postedFor _ (s.io.decisions ++ [_]).length _ = _
      rw [List.length_append, List.length_singleton]
      refine (postedFor_succ hpost).trans ?_
      show _ ++ (if m = s.io.recv.conn i then [o] else []) = _
      rw [if_neg hne, List.append_nil]
      exact h.flow i hi
  · next hsame =>
      split
      · next hcmd => exact absurd hcmd (hopen _)
      · refine ⟨h.heard_le, h.closed, h.alive, h.flow, fun i hi => ?_⟩
        cases hi
        have hconn : s.io.recv.conn (s.io.recv.cells c).pClientInfo = m := by
          rw [not_not, hmail.session, hposts.session] at hsame
          exact hsame.symm
        rw [hconn]
        exact ⟨hposts.pos, o, hpost⟩

theorem Listening.heardBy_IOProcessParser (i : Slot) (text : CStr) (n : Nat) :
    (s.IOProcessParser i text).heardBy n =
      s.heardBy n ++ if s.Prs i = true ∧ s.io.recv.conn i = n then [text] else [] := by
  unfold IOProcessParser
  split
  · next hPrs =>
      show (List.filter _ (s.heard ++ [_])).map Prod.snd = _
      rw [List.filter_append, List.map_append]
      congr 1
      by_cases hn : s.io.recv.conn i = n
      · simp [hn, hPrs]
      · simp [hn]
  · next hPrs => rw [if_neg fun hboth => hPrs hboth.1, List.append_nil]

theorem recv_session (c : Cell) (s : Watched) : (s.session c).recv = s.recv := by
  unfold Watched.session
  dsimp only
  split
  · rfl
  · split <;> rfl

theorem recv_text (i : Slot) (c : Cell) (s : Watched) : (s.text i c).recv = s.recv := by
  unfold Watched.text
  split <;> rfl

/-- The cell of a live connection is handed to its parser. -/
theorem Hears.textStep (h : Hears s) (hmail : Mailed s.io.recv s.posted s.io.decisions.length)
    {i : Slot} {c : Cell} (hcheck : s.io.check = .text i)
    (hpublished : s.io.recv.ring.published[s.io.decisions.length]? = some (some c)) :
    Hears (s.text i c) := by
  obtain ⟨hconn, o, hpost⟩ := h.text i hcheck
  obtain ⟨p, hp, hposts⟩ := hmail.queued _ c (Nat.le_refl _) hpublished
  rw [hpost] at hp
  cases hp
  set text := (s.io.recv.cells c).hStream.text with htext
  -- what the IO thread concludes
  have hrecv := recv_text i c s.io
  have hdecisions : (s.io.text i c).decisions.length = s.io.decisions.length + 1 := by
    unfold Watched.text
    split <;> exact List.length_append
  have hover : (s.io.text i c).check = .over := by
    unfold Watched.text
    split <;> rfl
  have hheard : ∀ n, (s.text i c).heardBy n =
      s.heardBy n ++ if s.Prs i = true ∧ s.io.recv.conn i = n then [text] else [] :=
    fun n => Listening.heardBy_IOProcessParser i text n
  have hPrs : ∀ j, (s.text i c).Prs j = true →
      s.Prs j = true ∧ (j = i → text ≠ SOCKETSHUTDOWN) := by
    intro j hj
    have hj' : (if text = SOCKETSHUTDOWN then Function.update s.Prs i false else s.Prs) j = true := hj
    split at hj'
    · by_cases hji : j = i
      · rw [hji, Function.update_self] at hj'
        cases hj'
      · rw [Function.update_of_ne hji] at hj'
        exact ⟨hj', fun heq => absurd heq hji⟩
    · next hne => exact ⟨hj', fun _ => hne⟩
  refine ⟨fun e he => ?_, fun j hj => ?_, fun j hj => ?_, fun j hj => ?_, fun j hj => ?_⟩
  · show e.1 ≤ (s.io.text i c).recv.accepted
    rw [hrecv]
    have he' : e ∈ (s.IOProcessParser i text).heard := he
    unfold Listening.IOProcessParser at he'
    split at he'
    · rcases List.mem_append.mp he' with he' | he'
      · exact h.heard_le e he'
      · rw [List.mem_singleton.mp he']
        exact hmail.conn_le i
    · exact h.heard_le e he'
  · show (if text = SOCKETSHUTDOWN then Function.update s.Prs i false else s.Prs) j = false
    have hj' : (s.io.text i c).lStatus j = .STATUS_IOCLOSEED := hj
    unfold Watched.text at hj'
    rw [← htext] at hj'
    split at hj'
    · next hend =>
        rw [if_pos hend]
        by_cases hji : j = i
        · rw [hji, Function.update_self]
        · rw [Function.update_of_ne hji]
          refine h.closed j ?_
          change Function.update s.io.lStatus i _ j = _ at hj'
          rwa [Function.update_of_ne hji] at hj'
    · next hdata =>
        rw [if_neg hdata]
        exact h.closed j hj'
  · show (s.io.text i c).recv.conn j ≠ 0
    rw [hrecv]
    exact h.alive j (hPrs j hj).1
  · obtain ⟨hlive, hdata⟩ := hPrs j hj
    show (s.text i c).postedFor (s.io.text i c).decisions.length ((s.io.text i c).recv.conn j) =
      ((s.text i c).heardBy ((s.io.text i c).recv.conn j)).map _
    have hposted : (s.text i c).posted = s.posted := by
      show (s.IOProcessParser i text).posted = _
      unfold Listening.IOProcessParser
      split <;> rfl
    have hmore : (s.text i c).postedFor (s.io.decisions.length + 1) (s.io.recv.conn j) =
        s.postedFor (s.io.decisions.length + 1) (s.io.recv.conn j) := by
      rw [Listening.postedFor, hposted]
      rfl
    rw [hdecisions, hrecv, hheard, hmore, postedFor_succ hpost, h.flow j hlive, List.map_append]
    congr 1
    by_cases hji : j = i
    · subst hji
      -- the post of a live connection is a chunk
      rw [if_pos rfl, if_pos ⟨hlive, rfl⟩, List.map_singleton]
      cases o with
      | none => exact absurd (CStr.ext hposts.text) (hdata rfl)
      | some chunk =>
          rw [hposts.text]
          rfl
    · have hne : s.io.recv.conn i ≠ s.io.recv.conn j := fun heq =>
        hji (hmail.conn_inj i j hconn heq).symm
      rw [if_neg hne, if_neg fun hboth => hne hboth.2]
      rfl
  · have hj' : (s.io.text i c).check = .text j := hj
    rw [hover] at hj'
    cases hj'

/-- What holds in every run. -/
structure ListenInv (s : Listening) : Prop where
  mail : Mailed s.io.recv s.posted s.io.decisions.length
  hears : Hears s

theorem listenInv_init (align : Cell → Nat) : ListenInv (listenInit align) :=
  ⟨mailed_init align, hears_init align⟩

/-- A step of `Listening` is one of `Watched`. -/
theorem listenStep_io {a : WatchAction} (h : listenStep s a = some s') :
    watchStep s.io a = some s'.io := by
  cases a with
  | ioSession =>
      obtain ⟨io, hio, rfl⟩ := Option.map_eq_some_iff.mp h
      exact hio
  | ioText =>
      simp only [listenStep] at h
      split at h
      · next c i hio hcheck =>
          have hwatch : watchStep s.io .ioText = some (s.io.text i c) := by
            simp only [watchStep, hio, hcheck]
          rw [hwatch, ← Option.some.inj h]
          rfl
      · cases h
  | input a =>
      cases a with
      | _ =>
          obtain ⟨io, hio, rfl⟩ := Option.map_eq_some_iff.mp h
          exact hio

theorem ListenInv.step (h : ListenInv s) {a : WatchAction} (hwatch : ∃ G P T done, WatchInv s.io G P T done)
    (hcounted : Counted s.io) (ha : Undisturbed s a) (hstep : listenStep s a = some s') :
    ListenInv s' := by
  obtain ⟨G, P, T, done, hinv⟩ := hwatch
  have hdone := done_le hinv.ring hcounted
  have hio := listenStep_io hstep
  -- the IO thread has decided on published cells only
  have hH : s.io.decisions.length ≤ s.posted.length := by
    have hlength := hcounted.length
    rw [h.mail.length, hinv.ring.published_eq_append, List.length_append]
    omega
  cases a with
  | ioSession =>
      simp only [listenStep, watchStep, Option.map_eq_some_iff] at hstep
      obtain ⟨io, hsession, rfl⟩ := hstep
      split at hsession
      · next c hc hcheck =>
          cases hsession
          have hpublished := published_at hinv.ring hcounted hc (by rw [hcheck]; rfl)
          refine ⟨?_, h.hears.session h.mail hpublished hinv.opened⟩
          show Mailed (s.io.session c).recv s.posted (s.io.session c).decisions.length
          unfold Watched.session
          dsimp only
          split
          · show Mailed s.io.recv s.posted (s.io.decisions ++ [_]).length
            rw [List.length_append]
            exact h.mail.decide
          · split
            · show Mailed s.io.recv s.posted (s.io.decisions ++ [_]).length
              rw [List.length_append]
              exact h.mail.decide
            · exact h.mail
      · cases hsession
  | ioText =>
      simp only [listenStep] at hstep
      split at hstep
      · next c i hc hcheck =>
          cases hstep
          have hpublished := published_at hinv.ring hcounted hc (by rw [hcheck]; rfl)
          refine ⟨?_, h.hears.textStep h.mail hcheck hpublished⟩
          have hposted : (s.text i c).posted = s.posted := by
            show (s.IOProcessParser i _).posted = _
            unfold Listening.IOProcessParser
            split <;> rfl
          rw [hposted]
          show Mailed (s.io.text i c).recv s.posted (s.io.text i c).decisions.length
          unfold Watched.text
          split
          · show Mailed s.io.recv s.posted (s.io.decisions ++ [_]).length
            rw [List.length_append]
            exact h.mail.decide
          · show Mailed s.io.recv s.posted (s.io.decisions ++ [_]).length
            rw [List.length_append]
            exact h.mail.decide
      · cases hstep
  | input a =>
      obtain ⟨hrecv, hdecisions, -⟩ := watch_input hio
      -- a step that neither connects a client nor publishes a cell
      have hother : (watchStep s.io (.input a)).map (fun io => { s with io := io }) = some s' →
          (∀ i, a ≠ .accept i) → a ≠ .publish → (a = .store → CleanCopy s.io.recv) →
          (∀ i, a = .recycle i → s.io.check ≠ .text i) → ListenInv s' := by
        intro hstep haccept hpublish hstore hrecycle
        obtain ⟨io, hwatch, rfl⟩ := Option.map_eq_some_iff.mp hstep
        have hhears : Hears { s with io := io, posted := s.posted ++ [] } :=
          h.hears.input h.mail hH hwatch hrecycle (Or.inr ⟨haccept, rfl⟩)
        rw [List.append_nil] at hhears
        refine ⟨?_, hhears⟩
        show Mailed io.recv s.posted io.decisions.length
        rw [show io.decisions = s.io.decisions from hdecisions]
        exact h.mail.step hinv.ring hdone hinv.cells (fun i hi => absurd hi (haccept i)) hstore
          hpublish hrecv
      cases a with
      | publish =>
          simp only [listenStep, Option.map_eq_some_iff] at hstep
          obtain ⟨io, hpublish, rfl⟩ := hstep
          refine ⟨?_, h.hears.input h.mail hH hpublish (fun j hj => by cases hj)
            (Or.inr ⟨(fun j hj => by cases hj), rfl⟩)⟩
          show Mailed io.recv (s.posted ++ s.io.recv.post) io.decisions.length
          rw [show io.decisions = s.io.decisions from hdecisions]
          exact h.mail.publish hrecv
      | accept i =>
          simp only [listenStep, Option.map_eq_some_iff] at hstep
          obtain ⟨io, haccept, rfl⟩ := hstep
          have hhears : Hears { s with
              io := io, posted := s.posted ++ [], Prs := Function.update s.Prs i true } :=
            h.hears.input h.mail hH haccept (fun j hj => by cases hj) (Or.inl ⟨i, rfl, rfl⟩)
          rw [List.append_nil] at hhears
          refine ⟨?_, hhears⟩
          show Mailed io.recv s.posted io.decisions.length
          rw [show io.decisions = s.io.decisions from hdecisions]
          exact h.mail.step (a := .accept i) hinv.ring hdone hinv.cells (fun _ _ => ha)
            (fun heq => by cases heq) (fun heq => by cases heq) hrecv
      | recycle i =>
          refine hother hstep (fun j hj => by cases hj) (fun heq => by cases heq) (fun heq => by cases heq)
            fun j hj => ?_
          cases hj
          exact ha
      | store =>
          exact hother hstep (fun j hj => by cases hj) (fun heq => by cases heq) (fun _ => ha)
            fun j hj => by cases hj
      | recv i buf | toEnd i | test | take | ioTest | ioRead | ioAdvance =>
          exact hother hstep (fun j hj => by cases hj) (fun heq => by cases heq) (fun heq => by cases heq)
            fun j hj => by cases hj

end Parsers

section Runs

variable {align : Cell → Nat} {s : Listening}

/-- The steps of `Listening` are steps of `Watched`. -/
theorem watched_of_listening {C : Listening → WatchAction → Prop}
    (hrun : Reach listenStep C (listenInit align) s) :
    Reach watchStep AnyStep (watchInit align) s.io :=
  hrun.image Listening.io fun _ a _ _ hstep => Or.inr ⟨a, trivial, listenStep_io hstep⟩

theorem watchInv_reach {s : Watched} (hrun : Reach watchStep AnyStep (watchInit align) s) :
    ∃ G P T done, WatchInv s G P T done := by
  refine hrun.invariant (P := fun s => ∃ G P T done, WatchInv s G P T done)
    ⟨0, 0, 1, [], watchInv_init align⟩ ?_
  rintro s a s' ⟨G, P, T, done, h⟩ - hstep
  exact h.step hstep

theorem listenInv_reach (hrun : Reach listenStep Undisturbed (listenInit align) s) : ListenInv s := by
  have hall := hrun.strengthen (P := fun s => (∃ G P T done, WatchInv s.io G P T done) ∧ Counted s.io)
    fun s hs => ⟨watchInv_reach (watched_of_listening hs), decided_once (watched_of_listening hs)⟩
  exact hall.invariant (listenInv_init align) fun s a s' h ⟨ha, hwatch, hcounted⟩ hstep =>
    h.step hwatch hcounted ha hstep

/-- The steps of the receiver in `Listening` publish nothing behind a gap. -/
theorem receiver_of_listening (hrun : Reach listenStep Undisturbed (listenInit align) s) :
    Reach inputStep NothingBehindGap (inputInit align) s.io.recv := by
  refine hrun.image (fun s => s.io.recv) fun s a s' ha hstep => ?_
  have hio := listenStep_io hstep
  cases a with
  | input a =>
      obtain ⟨hrecv, -⟩ := watch_input hio
      refine Or.inr ⟨a, ?_, hrecv⟩
      cases a with
      | test => exact ha
      | _ => trivial
  | ioSession =>
      left
      simp only [watchStep] at hio
      split at hio
      · rw [← Option.some.inj hio]
        exact recv_session _ _
      · cases hio
  | ioText =>
      left
      simp only [watchStep] at hio
      split at hio
      · rw [← Option.some.inj hio]
        exact recv_text _ _ _
      · cases hio

/-- The chunks of the posts of a connection. -/
theorem chunksFor_posted {r : Receiver} {posted : List Post} (h : posted.filterMap Post.chunk = r.published)
    (n : Nat) :
    r.chunksFor n = ((posted.filter fun p => decide (p.1 = n)).map Prod.snd).filterMap id := by
  rw [Receiver.chunksFor, ← h]
  clear h
  induction posted with
  | nil => rfl
  | cons p rest ih =>
      obtain ⟨m, o⟩ := p
      cases o with
      | none =>
          rw [List.filterMap_cons_none rfl, ih]
          by_cases hm : m = n
          · simp [hm]
          · simp [hm]
      | some chunk =>
          rw [List.filterMap_cons_some (show Post.chunk (m, some chunk) = some (m, chunk) from rfl)]
          by_cases hm : m = n
          · simp [hm, ih]
          · simp [hm, ih]

/-- What the parser of a connected client was given are the chunks the IO thread has decided on. -/
theorem heardBy_posted (h : ListenInv s) {i : Slot} (hi : s.Prs i = true) :
    (s.heardBy (s.io.recv.conn i)).map CStr.chars =
      (s.postedFor s.io.decisions.length (s.io.recv.conn i)).filterMap id := by
  have heq := congrArg (List.filterMap id) (h.hears.flow i hi)
  rw [List.filterMap_map] at heq
  refine Eq.trans ?_ heq.symm
  rw [← List.filterMap_eq_map]
  rfl

theorem heardBy_chunks (h : ListenInv s) {i : Slot} (hi : s.Prs i = true) :
    (s.heardBy (s.io.recv.conn i)).map CStr.chars <+: s.io.recv.chunksFor (s.io.recv.conn i) := by
  rw [heardBy_posted h hi, chunksFor_posted h.mail.published]
  exact (((List.take_prefix _ _).filter _).map _).filterMap _

/-- The bytes it was given are the first of those received. -/
theorem heardBy_received (hrun : Reach listenStep Undisturbed (listenInit align) s) {i : Slot}
    (hi : s.Prs i = true) :
    (s.heardBy (s.io.recv.conn i)).flatMap CStr.chars <+: s.io.recv.received (s.io.recv.conn i) := by
  have hbytes : (s.heardBy (s.io.recv.conn i)).flatMap CStr.chars <+:
      s.io.recv.publishedFor (s.io.recv.conn i) := by
    rw [List.flatMap_def, Receiver.publishedFor]
    exact (heardBy_chunks (listenInv_reach hrun) hi).flatten
  exact hbytes.trans (no_gap (receiver_of_listening hrun) _)

/-- **A parser is given what its client sent**: in every run, whatever the two threads do, the texts the
parser of a connected client was given are the first of the chunks published for its connection, all of
them once the IO thread has decided on all cells; so the bytes it read are the first of those received. -/
theorem heard_of_published (hrun : Reach listenStep Undisturbed (listenInit align) s) {i : Slot}
    (hi : s.Prs i = true) :
    let n := s.io.recv.conn i
    (s.heardBy n).map CStr.chars <+: s.io.recv.chunksFor n ∧
      (s.io.decisions.length = s.io.recv.ring.published.length →
        (s.heardBy n).map CStr.chars = s.io.recv.chunksFor n) ∧
      (s.heardBy n).flatMap CStr.chars <+: s.io.recv.received n := by
  intro n
  have h := listenInv_reach hrun
  refine ⟨heardBy_chunks h hi, fun hall => ?_, heardBy_received hrun hi⟩
  rw [heardBy_posted h hi, chunksFor_posted h.mail.published, hall, ← h.mail.length, Listening.postedFor,
    List.take_length]

end Runs

/-- A client sends two bytes, and its parser is given them. -/
theorem heard_of_published_two : ∃ s : Listening, s.Prs 0 = true ∧
    (s.heardBy 1).map CStr.chars = [[97, 98]] ∧
    (s.heardBy (s.io.recv.conn 0)).map CStr.chars = s.io.recv.chunksFor (s.io.recv.conn 0) := by
  -- up to the copy of the chunk
  have htaken : ∃ s, Reach listenStep Undisturbed (listenInit fun _ => 0) s ∧
      execAll listenStep [.input (.accept 0), .input (.recv 0 [97, 98]), .input .test, .input .take]
        (listenInit fun _ => 0) = some s := by
    refine ⟨_, ((((Reach.start.next (a := .input (.accept 0))
      (show 0 + 1 < 4294967296 by decide) rfl).next (a := .input (.recv 0 [97, 98])) trivial rfl).next
      (a := .input .test) ?_ rfl).next (a := .input .take) trivial rfl), rfl⟩
    intro i lpBuf _ hdropped
    cases hdropped
  obtain ⟨s₁, hreach₁, hexec₁⟩ := htaken
  have hcell : (execAll listenStep [.input (.accept 0), .input (.recv 0 [97, 98]), .input .test,
      .input .take] (listenInit fun _ => 0)).map (fun s => (s.io.recv.job, s.io.recv.pCurCat2DogIOMsg 0,
        (s.io.recv.cells ⟨0, by decide⟩).hStream.buffer[2]?)) =
      some (.data 0 [97, 98], some ⟨0, by decide⟩, some 0) := by
    decide +kernel
  rw [hexec₁, Option.map_some, Option.some.injEq, Prod.mk.injEq, Prod.mk.injEq] at hcell
  obtain ⟨hjob, hcur, hbehind⟩ := hcell
  have hclean : CleanCopy s₁.io.recv := by
    intro i lpBuf c hjob' hcur'
    rw [hjob] at hjob'
    cases hjob'
    rw [hcur] at hcur'
    cases hcur'
    exact ⟨by decide, hbehind⟩
  -- the copy, and what comes after it
  have hend : ((execAll listenStep [.input (.accept 0), .input (.recv 0 [97, 98]), .input .test,
      .input .take] (listenInit fun _ => 0)).bind (execAll listenStep [.input .store, .input .publish,
        .input .ioTest, .input .ioRead, .ioSession, .ioText])).map (fun s => (s.Prs 0,
        (s.heardBy 1).map CStr.chars, s.io.decisions.length, s.io.recv.ring.published.length)) =
      some (true, [[97, 98]], 1, 1) := by
    decide +kernel
  rw [hexec₁, Option.bind_some] at hend
  obtain ⟨s, hexec, hafter⟩ := Option.map_eq_some_iff.mp hend
  obtain ⟨s₂, hstore, hrest⟩ := Option.bind_eq_some_iff.mp
    (show (listenStep s₁ (.input .store)).bind (execAll listenStep [.input .publish, .input .ioTest,
      .input .ioRead, .ioSession, .ioText]) = some s from hexec)
  have hreach : Reach listenStep Undisturbed (listenInit fun _ => 0) s := by
    refine (hreach₁.next (show Undisturbed s₁ (.input .store) from hclean) hstore).trans
      (reach_of_execAll_of ?_ hrest)
    simp only [List.forall_mem_cons]
    exact ⟨fun _ => trivial, fun _ => trivial, fun _ => trivial, fun _ => trivial, fun _ => trivial, nofun⟩
  rw [Prod.mk.injEq, Prod.mk.injEq, Prod.mk.injEq] at hafter
  obtain ⟨hPrs, hheard, hdecided, hpublished⟩ := hafter
  obtain ⟨-, hall, -⟩ := heard_of_published hreach hPrs
  exact ⟨s, hPrs, hheard, hall (hdecided.trans hpublished.symm)⟩

end Cat2Dog

end Netflow
