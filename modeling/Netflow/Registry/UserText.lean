import Netflow.Iksemel.Verbatim
import Netflow.Registry.Broadcast

set_option autoImplicit false

/-! # The texts of the users in the messages of the server

The name and the filter of a dog come from a client, with the entities of their characters decoded.
`filterRow` and `loseNotice` write them between two tags as they are, in buffers of fixed size. What
the receiver's parser makes of the message is compared with what the templates stand for.

Of the rows of the list only the last one is in the message (`GetAllCuteDogsFilterString`).
-/

namespace Netflow

open Iksemel Server

/-- The dogs of the list, in its order. -/
def Server.listed (s : Server) : Option (List CUTEDOG) := s.CuteDogList.mapM s.dogs

/-- `Body` of `RespCatAllFilters`; there is none when no dog is listed. -/
def Server.showReply (s : Server) : Option CStr :=
  (s.GetAllCuteDogsFilterString 1024).bind fun Filter =>
    if Filter.chars ≠ [] then
      some (CStr.snprintf 1152 (CStr.lit "<iq type='result'><query xmlns='filter:show' >" ++ Filter ++
        CStr.lit "</query></iq>"))
    else none

/-! ## What the templates stand for -/

/-- The start tags of the list, with its `query` open. -/
def showHead : List SaxEvent :=
  [.tag (CStr.lit "iq") [(CStr.lit "type", CStr.lit "result")] .IKS_OPEN,
    .tag (CStr.lit "query") [(CStr.lit "xmlns", CStr.lit "filter:show")] .IKS_OPEN]

/-- The end tags of `query` and `iq`. -/
def queryEnd : List SaxEvent :=
  [.tag (CStr.lit "query") [] .IKS_CLOSE, .tag (CStr.lit "iq") [] .IKS_CLOSE]

/-- An element with a text. -/
def textCalls (name : String) (text : CStr) : List SaxEvent :=
  .tag (CStr.lit name) [] .IKS_OPEN :: text.chars.map .char ++ [.tag (CStr.lit name) [] .IKS_CLOSE]

/-- The list with the row of a dog. -/
def showCalls (dog : CUTEDOG) : List SaxEvent :=
  showHead ++ textCalls "name" dog.Name ++ textCalls "filterstring" dog.Filter ++ queryEnd

/-- The notice that a dog is lost. -/
def noticeCalls (dog : CUTEDOG) : List SaxEvent :=
  [.tag (CStr.lit "iq") [(CStr.lit "type", CStr.lit "set")] .IKS_OPEN,
    .tag (CStr.lit "query") [(CStr.lit "xmlns", CStr.lit "filter:notice"),
      (CStr.lit "action", CStr.lit "lose")] .IKS_OPEN] ++
    textCalls "username" dog.Name ++ queryEnd

/-- The messages the server composes of the dogs of its list, each with what it stands for. -/
inductive Server.Composes (s : Server) : CStr → List SaxEvent → Prop where
  | broadcast {dogs : List CUTEDOG} {dog : CUTEDOG} {Body : CStr} : s.listed = some dogs →
      dogs.getLast? = some dog → s.filterShow = some Body → s.Composes Body (showCalls dog)
  | broadcastEmpty {Body : CStr} : s.listed = some [] → s.filterShow = some Body →
      s.Composes Body (showHead ++ queryEnd)
  | reply {dogs : List CUTEDOG} {dog : CUTEDOG} {Body : CStr} : s.listed = some dogs →
      dogs.getLast? = some dog → s.showReply = some Body → s.Composes Body (showCalls dog)
  | notice {dogs : List CUTEDOG} {dog : CUTEDOG} : s.listed = some dogs → dog ∈ dogs →
      s.Composes (loseNotice dog) (noticeCalls dog)

/-- **The texts of the users break no message**: the parser is led to what the templates stand for. -/
def Server.TextsCarried (s : Server) : Prop :=
  ∀ M calls, s.Composes M calls → saxEvents M = some calls

/-- The names, and the filter of the dog whose row is shown, can stand between two tags, and they
fit into the buffers. -/
structure TextsFit (dogs : List CUTEDOG) : Prop where
  names : ∀ dog ∈ dogs, dog.Name.Verbatim ∧ dog.Name.chars.length ≤ 419
  row : ∀ dog, dogs.getLast? = some dog →
    dog.Filter.Verbatim ∧ dog.Name.chars.length + dog.Filter.chars.length ≤ 85

/-! ## The list -/

section List

variable {s : Server} {dogs : List CUTEDOG}

theorem foldlM_rows {f : CUTEDOG → CStr} {l : List DogPtr} (h : l.mapM s.dogs = some dogs)
    (str : CStr) : l.foldlM (fun _ d => (s.dogs d).map f) str =
      some ((dogs.getLast?.map f).getD str) := by
  induction l generalizing dogs str with
  | nil =>
      cases h
      rfl
  | cons d rest ih =>
      rw [List.mapM_cons] at h
      obtain ⟨dog, hdog, h⟩ := Option.bind_eq_some_iff.mp h
      obtain ⟨others, hothers, h⟩ := Option.bind_eq_some_iff.mp h
      cases h
      rw [List.foldlM_cons, hdog, List.getLast?_cons]
      -- the row of `dog` is what the rest of the list is written over
      show rest.foldlM (fun _ d => (s.dogs d).map f) (f dog) = _
      rw [ih hothers]
      cases others.getLast? with
      | none => rfl
      | some e => rfl

theorem GetAllCuteDogsFilterString_eq (h : s.listed = some dogs) (size : Nat) :
    s.GetAllCuteDogsFilterString size =
      some ((dogs.getLast?.map fun dog => CStr.snprintf size (filterRow dog)).getD (CStr.lit "")) :=
  foldlM_rows h _

end List

/-! ## The messages -/

/-- What follows `<name>` in the list. -/
def rowTags (dog : CUTEDOG) : List TextTag :=
  [⟨dog.Name, true, CStr.lit "name"⟩, ⟨CStr.lit "", false, CStr.lit "filterstring"⟩,
    ⟨dog.Filter, true, CStr.lit "filterstring"⟩, ⟨CStr.lit "", true, CStr.lit "query"⟩,
    ⟨CStr.lit "", true, CStr.lit "iq"⟩]

/-- What follows `<username>` in the notice. -/
def noticeTags (dog : CUTEDOG) : List TextTag :=
  [⟨dog.Name, true, CStr.lit "username"⟩, ⟨CStr.lit "", true, CStr.lit "query"⟩,
    ⟨CStr.lit "", true, CStr.lit "iq"⟩]

/-- What follows `<name>` in the row of a dog, when the row is not cut. -/
def rowText (dog : CUTEDOG) : List Byte :=
  dog.Name.chars ++ ((CStr.lit "</name><filterstring>").chars ++
    (dog.Filter.chars ++ (CStr.lit "</filterstring>").chars))

theorem length_rowText (dog : CUTEDOG) :
    (rowText dog).length = dog.Name.chars.length + dog.Filter.chars.length + 36 := by
  have hmid : (CStr.lit "</name><filterstring>").chars.length = 21 := rfl
  have hclose : (CStr.lit "</filterstring>").chars.length = 15 := rfl
  rw [rowText, List.length_append, List.length_append, List.length_append, hmid, hclose]
  omega

/-- Of the 127 characters of a row the first 6 are those of `<name>`. -/
theorem chars_filterRow (dog : CUTEDOG) :
    (filterRow dog).chars = (CStr.lit "<name>").chars ++ (rowText dog).take 121 := by
  show ((((CStr.lit "<name>").chars ++ dog.Name.chars ++ (CStr.lit "</name><filterstring>").chars ++
    dog.Filter.chars ++ (CStr.lit "</filterstring>").chars)).take 127) = _
  rw [rowText]
  simp only [List.append_assoc]
  rfl

theorem raw_rowTags (dog : CUTEDOG) : (rowTags dog).flatMap TextTag.raw =
    rowText dog ++ (CStr.lit "</query></iq>").chars := by
  simp only [rowTags, rowText, TextTag.raw, List.flatMap_cons, List.flatMap_nil, List.append_assoc]
  rfl

theorem raw_noticeTags (dog : CUTEDOG) : (noticeTags dog).flatMap TextTag.raw =
    dog.Name.chars ++ (CStr.lit "</username></query></iq>").chars := by
  simp only [noticeTags, TextTag.raw, List.flatMap_cons, List.flatMap_nil, List.append_assoc]
  rfl

theorem showCalls_eq (dog : CUTEDOG) : showCalls dog =
    (showHead ++ [.tag (CStr.lit "name") [] .IKS_OPEN]) ++ (rowTags dog).flatMap TextTag.events := by
  simp only [showCalls, textCalls, rowTags, queryEnd, TextTag.events, List.flatMap_cons,
    List.flatMap_nil, List.append_assoc]
  rfl

theorem noticeCalls_eq (dog : CUTEDOG) : noticeCalls dog =
    [.tag (CStr.lit "iq") [(CStr.lit "type", CStr.lit "set")] .IKS_OPEN,
      .tag (CStr.lit "query") [(CStr.lit "xmlns", CStr.lit "filter:notice"),
        (CStr.lit "action", CStr.lit "lose")] .IKS_OPEN,
      .tag (CStr.lit "username") [] .IKS_OPEN] ++ (noticeTags dog).flatMap TextTag.events := by
  simp only [noticeCalls, textCalls, noticeTags, queryEnd, TextTag.events, List.flatMap_cons,
    List.flatMap_nil, List.append_assoc]
  rfl

theorem names_rowTags (dog : CUTEDOG) : ∀ x ∈ rowTags dog, x.name.Name := by
  have hall : ∀ name ∈ ["name", "filterstring", "query", "iq"], (CStr.lit name).Name := by
    decide +kernel
  simp only [rowTags, List.forall_mem_cons]
  exact ⟨hall _ (by decide), hall _ (by decide), hall _ (by decide), hall _ (by decide),
    hall _ (by decide), nofun⟩

theorem names_noticeTags (dog : CUTEDOG) : ∀ x ∈ noticeTags dog, x.name.Name := by
  have hall : ∀ name ∈ ["username", "query", "iq"], (CStr.lit name).Name := by
    decide +kernel
  simp only [noticeTags, List.forall_mem_cons]
  exact ⟨hall _ (by decide), hall _ (by decide), hall _ (by decide), nofun⟩

theorem verbatim_empty : (CStr.lit "").Verbatim := by decide +kernel

theorem verbatim_rowTags (dog : CUTEDOG) :
    (∀ x ∈ rowTags dog, x.text.Verbatim) ↔ dog.Name.Verbatim ∧ dog.Filter.Verbatim := by
  simp only [rowTags, List.forall_mem_cons]
  exact ⟨fun h => ⟨h.1, h.2.2.1⟩,
    fun h => ⟨h.1, verbatim_empty, h.2, verbatim_empty, verbatim_empty, nofun⟩⟩

theorem verbatim_noticeTags (dog : CUTEDOG) :
    (∀ x ∈ noticeTags dog, x.text.Verbatim) ↔ dog.Name.Verbatim := by
  simp only [noticeTags, List.forall_mem_cons]
  exact ⟨fun h => h.1, fun h => ⟨h, verbatim_empty, verbatim_empty, nofun⟩⟩

/-- The list with one row, behind a start tag of any length up to 46. -/
theorem saxEvents_show {start : CStr} (hstart : start.chars.length ≤ 46)
    (hpre : Heads (start.chars ++ (CStr.lit "<name>").chars)
      (showHead ++ [.tag (CStr.lit "name") [] .IKS_OPEN])) (dog : CUTEDOG) :
    saxEvents (CStr.snprintf 1152 (start ++ CStr.snprintf 1024 (filterRow dog) ++
        CStr.lit "</query></iq>")) = some (showCalls dog) ↔
      (dog.Name.Verbatim ∧ dog.Filter.Verbatim) ∧
        dog.Name.chars.length + dog.Filter.chars.length ≤ 85 := by
  have hrow : (filterRow dog).chars.length ≤ 127 := List.length_take_le _ _
  have hend : (CStr.lit "</query></iq>").chars.length = 13 := rfl
  -- the two larger buffers cut nothing
  have hbody : (start ++ filterRow dog ++ CStr.lit "</query></iq>").chars.length < 1152 := by
    rw [CStr.chars_append, CStr.chars_append, List.length_append, List.length_append, hend]
    omega
  rw [CStr.snprintf_of_fits (Nat.lt_of_le_of_lt hrow (by decide)), CStr.snprintf_of_fits hbody,
    showCalls_eq]
  have hlen := length_rowText dog
  have hdata : (start ++ filterRow dog ++ CStr.lit "</query></iq>").chars =
      (start.chars ++ (CStr.lit "<name>").chars) ++
        ((rowText dog).take 121 ++ (CStr.lit "</query></iq>").chars) := by
    rw [CStr.chars_append, CStr.chars_append, chars_filterRow]
    simp only [List.append_assoc]
  by_cases hfit : dog.Name.chars.length + dog.Filter.chars.length ≤ 85
  · rw [and_iff_left hfit, ← verbatim_rowTags]
    refine saxEvents_iff hpre ?_ (names_rowTags dog) ?_
    · exact (unmarked_tag _ _ _).append ((unmarked_tag _ _ _).append (unmarked_tag _ _ _))
    · rw [hdata, raw_rowTags, List.take_of_length_le (by omega)]
  · -- the row was cut, and its last tags with it
    refine iff_of_false ?_ fun h => hfit h.2
    refine saxEvents_ne_of_cut hpre hdata ?_
    rw [raw_rowTags, List.length_append, List.length_append, List.length_take, hend]
    omega

/-- The notice of a lost dog. -/
theorem saxEvents_notice (dog : CUTEDOG) : saxEvents (loseNotice dog) = some (noticeCalls dog) ↔
    dog.Name.Verbatim ∧ dog.Name.chars.length ≤ 419 := by
  have hpre : Heads (CStr.lit
      "<iq type='set'><query xmlns='filter:notice' action='lose'><username>").chars
      [.tag (CStr.lit "iq") [(CStr.lit "type", CStr.lit "set")] .IKS_OPEN,
        .tag (CStr.lit "query") [(CStr.lit "xmlns", CStr.lit "filter:notice"),
          (CStr.lit "action", CStr.lit "lose")] .IKS_OPEN,
        .tag (CStr.lit "username") [] .IKS_OPEN] := heads_of_run (by decide +kernel)
  set start := CStr.lit "<iq type='set'><query xmlns='filter:notice' action='lose'><username>"
    with hstart
  have hdata : (loseNotice dog).chars = start.chars ++
      (dog.Name.chars ++ (CStr.lit "</username></query></iq>").chars).take 443 := by
    have hlen : start.chars.length = 68 := by rw [hstart]; rfl
    show (start.chars ++ dog.Name.chars ++ (CStr.lit "</username></query></iq>").chars).take 511 = _
    rw [List.append_assoc, List.take_append, List.take_of_length_le (by omega), hlen]
  have hend : (CStr.lit "</username></query></iq>").chars.length = 24 := rfl
  rw [noticeCalls_eq]
  by_cases hfit : dog.Name.chars.length ≤ 419
  · rw [and_iff_left hfit, ← verbatim_noticeTags]
    refine saxEvents_iff hpre ?_ (names_noticeTags dog) ?_
    · exact (unmarked_tag _ _ _).append ((unmarked_tag _ _ _).append (unmarked_tag _ _ _))
    · rw [hdata, raw_noticeTags, List.take_of_length_le]
      rw [List.length_append, hend]
      omega
  · -- the notice was cut
    refine iff_of_false ?_ fun h => hfit h.2
    refine saxEvents_ne_of_cut hpre hdata ?_
    rw [raw_noticeTags, List.length_take, List.length_append, hend]
    omega

/-! ## The state of the list -/

section State

variable {s : Server} {dogs : List CUTEDOG}

theorem filterRow_ne_nil (dog : CUTEDOG) :
    (CStr.snprintf 1024 (filterRow dog)).chars ≠ [] := nofun

theorem filterShow_eq (h : s.listed = some dogs) : s.filterShow = some
    (match dogs.getLast? with
      | some dog => CStr.snprintf 1152 (CStr.lit "<iq type='result'><query xmlns='filter:show'>" ++
          CStr.snprintf 1024 (filterRow dog) ++ CStr.lit "</query></iq>")
      | none => CStr.snprintf 1152
          (CStr.lit "<iq type='result'><query xmlns='filter:show' ></query></iq>")) := by
  rw [Server.filterShow, GetAllCuteDogsFilterString_eq h, Option.map_some]
  cases dogs.getLast? with
  | none => rfl
  | some dog => exact congrArg some (if_pos (filterRow_ne_nil dog))

theorem showReply_eq (h : s.listed = some dogs) : s.showReply = dogs.getLast?.map fun dog =>
    CStr.snprintf 1152 (CStr.lit "<iq type='result'><query xmlns='filter:show' >" ++
      CStr.snprintf 1024 (filterRow dog) ++ CStr.lit "</query></iq>") := by
  rw [Server.showReply, GetAllCuteDogsFilterString_eq h, Option.bind_some]
  cases dogs.getLast? with
  | none => rfl
  | some dog => exact if_pos (filterRow_ne_nil dog)

/-- The list starts like this when it is broadcast, and with a blank more when it is asked for. -/
theorem heads_show {start : CStr}
    (hstart : start ∈ [CStr.lit "<iq type='result'><query xmlns='filter:show'>",
      CStr.lit "<iq type='result'><query xmlns='filter:show' >"]) :
    Heads (start.chars ++ (CStr.lit "<name>").chars)
      (showHead ++ [.tag (CStr.lit "name") [] .IKS_OPEN]) := by
  rw [List.mem_pair] at hstart
  obtain rfl | rfl := hstart
  · exact heads_of_run (by decide +kernel)
  · exact heads_of_run (by decide +kernel)

theorem textsFit_of_carried (h : s.listed = some dogs) (hall : s.TextsCarried) : TextsFit dogs := by
  refine ⟨fun dog hdog => ?_, fun dog hlast => ?_⟩
  · exact (saxEvents_notice dog).mp (hall _ _ (.notice h hdog))
  · have hbody := filterShow_eq h
    rw [hlast] at hbody
    obtain ⟨hverb, hlen⟩ := (saxEvents_show (by decide) (heads_show List.mem_cons_self) dog).mp
      (hall _ _ (.broadcast h hlast hbody))
    exact ⟨hverb.2, hlen⟩

theorem TextsFit.carried (hfit : TextsFit dogs) (h : s.listed = some dogs) : s.TextsCarried := by
  intro M calls hM
  have hrow : ∀ {dog}, dogs.getLast? = some dog → (dog.Name.Verbatim ∧ dog.Filter.Verbatim) ∧
      dog.Name.chars.length + dog.Filter.chars.length ≤ 85 := fun {dog} hlast =>
    ⟨⟨(hfit.names dog (List.mem_of_getLast? hlast)).1, (hfit.row dog hlast).1⟩,
      (hfit.row dog hlast).2⟩
  cases hM with
  | broadcast hl hlast hbody =>
      cases h.symm.trans hl
      have heq := filterShow_eq h
      rw [hlast, hbody] at heq
      rw [Option.some.inj heq]
      exact (saxEvents_show (by decide) (heads_show List.mem_cons_self) _).mpr (hrow hlast)
  | broadcastEmpty hl hbody =>
      -- a fixed text
      have heq := filterShow_eq hl
      rw [hbody] at heq
      rw [Option.some.inj heq]
      decide +kernel
  | reply hl hlast hbody =>
      cases h.symm.trans hl
      rw [showReply_eq h, hlast] at hbody
      rw [← Option.some.inj hbody]
      have hheads := heads_show (List.mem_cons_of_mem _ List.mem_cons_self)
      exact (saxEvents_show (by decide) hheads _).mpr (hrow hlast)
  | notice hl hdog =>
      cases h.symm.trans hl
      exact (saxEvents_notice _).mpr (hfit.names _ hdog)

/-- **The texts of the users break no message exactly when they fit.** -/
theorem texts_carried_iff (h : s.listed = some dogs) : s.TextsCarried ↔ TextsFit dogs :=
  ⟨textsFit_of_carried h, fun hfit => hfit.carried h⟩

end State

/-! ## Runs -/

namespace Registry

variable {r r' : Registry} {d : DogPtr} {dog : CUTEDOG}

/-- A dog is an old one, or it was filled in with the texts of a create request. -/
theorem Changed.named {i : Slot} {o : Outcome} {cell : Prop} {q : Request}
    (h : Changed i o cell q r r') (hdog : r'.dogs d = some dog) :
    r.dogs d = some dog ∨ ∃ k F N m, q = .create (some F) (some N) m ∧ dog = newDog k .tidp N F i := by
  cases h with
  | kept _ => exact Or.inl hdog
  | hooked _ _ _ => exact Or.inl hdog
  | opened _ _ => exact Or.inl hdog
  | @listed _ F N m k _ _ _ _ _ =>
      obtain ⟨-, rfl⟩ | ⟨-, hdog⟩ := dogs_list hdog
      · exact Or.inr ⟨k, F, N, m, rfl, rfl⟩
      · exact Or.inl hdog
  | @started _ F N m k tid _ _ _ _ _ _ =>
      obtain ⟨-, rfl⟩ | ⟨-, hdog⟩ := dogs_list (i := i) hdog
      · exact Or.inr ⟨k, F, N, m, rfl, rfl⟩
      · exact Or.inl hdog
  | cancelled _ _ _ _ =>
      have hold := (dogs_free hdog).2
      rw [dogs_stop] at hold
      exact Or.inl hold

/-- Only a create request brings a dog. -/
theorem Follows.named {ι : Type} [Iksemel ι] {s : Server} {a : ServerAction ι} (h : Follows s r' a)
    (hdog : r'.dogs d = some dog) :
    s.dogs d = some dog ∨ ∃ i type node o k F N m, a = .stanza i type node o ∧
      requestOf type node = .create (some F) (some N) m ∧ dog = newDog k .tidp N F i := by
  cases a with
  | accept sd =>
      obtain ⟨-, rfl⟩ | ⟨i, rest, -, rfl⟩ := h
      · exact Or.inl hdog
      · exact Or.inl hdog
  | stanza i type node o =>
      obtain hold | ⟨k, F, N, m, hcreate, rfl⟩ := h.2.2.named hdog
      · exact Or.inl hold
      · exact Or.inr ⟨i, type, node, o, k, F, N, m, rfl, hcreate, rfl⟩
  | shutdown i o =>
      obtain ⟨-, r₁, rfl, hr₁⟩ := h
      split at hr₁
      · obtain hold | ⟨k, F, N, m, hcreate, -⟩ := hr₁.named hdog
        · exact Or.inl hold
        · cases hcreate
      · rw [hr₁] at hdog
        exact Or.inl hdog
  | send i sn =>
      obtain rfl | rfl := h
      · exact Or.inl hdog
      · exact Or.inl hdog
  | recycle i =>
      rw [h.2.2] at hdog
      exact Or.inl hdog
  | loopReturns _ | toEnd _ | packet _ _ | drain | pickUp _ | allocator _ =>
      rw [h] at hdog
      exact Or.inl hdog

/-- The texts of the dogs are cut to their fields. -/
def TextsCut (r : Registry) : Prop :=
  ∀ d dog, r.dogs d = some dog → dog.Name.chars.length ≤ 31 ∧ dog.Filter.chars.length ≤ 255

end Registry

section Runs

variable {ι : Type} [Iksemel ι] {align : MsgCell → Nat} {C : Server → ServerAction ι → Prop}
  {s : Server}

theorem textsCut_reach (h : Reach serverStep C (InitServer align) s) : s.registry.TextsCut := by
  refine h.invariant (P := fun s => s.registry.TextsCut) (fun d dog hdog => by cases hdog) ?_
  intro s a s' hs _ hstep d dog hdog
  obtain hold | ⟨i, type, node, o, k, F, N, m, -, -, rfl⟩ := (serverStep_follows hstep).named hdog
  · exact hs d dog hold
  · exact ⟨List.length_take_le _ _, List.length_take_le _ _⟩

theorem mapM_isSome {f : DogPtr → Option CUTEDOG} {l : List DogPtr}
    (h : ∀ d ∈ l, (f d).isSome = true) : ∃ dogs, l.mapM f = some dogs := by
  induction l with
  | nil => exact ⟨[], rfl⟩
  | cons d rest ih =>
      obtain ⟨dog, hdog⟩ := Option.isSome_iff_exists.mp (h d List.mem_cons_self)
      obtain ⟨dogs, hdogs⟩ := ih fun e he => h e (List.mem_cons_of_mem d he)
      refine ⟨dog :: dogs, ?_⟩
      rw [List.mapM_cons, hdog, hdogs]
      rfl

theorem mem_of_mapM {f : DogPtr → Option CUTEDOG} {l : List DogPtr} {dogs : List CUTEDOG}
    (h : l.mapM f = some dogs) {dog : CUTEDOG} (hdog : dog ∈ dogs) : ∃ d ∈ l, f d = some dog := by
  induction l generalizing dogs with
  | nil =>
      cases h
      cases hdog
  | cons d rest ih =>
      rw [List.mapM_cons] at h
      obtain ⟨first, hfirst, h⟩ := Option.bind_eq_some_iff.mp h
      obtain ⟨others, hothers, h⟩ := Option.bind_eq_some_iff.mp h
      cases h
      rcases List.mem_cons.mp hdog with rfl | hdog
      · exact ⟨d, List.mem_cons_self, hfirst⟩
      · obtain ⟨e, he, heq⟩ := ih hothers hdog
        exact ⟨e, List.mem_cons_of_mem d he, heq⟩

/-- In a run the names always fit into the notice, and the list can be read. -/
theorem texts_carried_reach (h : Reach serverStep C (InitServer align) s) : ∃ dogs,
    s.listed = some dogs ∧ (s.TextsCarried ↔ (∀ dog ∈ dogs, dog.Name.Verbatim) ∧
      ∀ dog, dogs.getLast? = some dog →
        dog.Filter.Verbatim ∧ dog.Name.chars.length + dog.Filter.chars.length ≤ 85) := by
  obtain ⟨dogs, hdogs⟩ : ∃ dogs, s.listed = some dogs :=
    mapM_isSome fun d hd => ((sound_reach h).listed d).mpr hd
  refine ⟨dogs, hdogs, fun hall => ?_, fun ⟨hnames, hrow⟩ => ?_⟩
  · have hfit := textsFit_of_carried hdogs hall
    exact ⟨fun dog hdog => (hfit.names dog hdog).1, hfit.row⟩
  · -- a name is cut to 31 bytes when it is stored
    refine TextsFit.carried ⟨fun dog hdog => ?_, hrow⟩ hdogs
    obtain ⟨d, -, hd⟩ := mem_of_mapM hdogs hdog
    exact ⟨hnames dog hdog, Nat.le_trans (textsCut_reach h d dog hd).1 (by decide)⟩

end Runs

/-! ## Two texts -/

/-- The first of two clients lists a dog with its texts. -/
theorem first_listed (name filter : String) :
    ∃ s, Reach (serverStep (ι := Iks)) Succeeding (InitServer fun _ => 0) s ∧
      s.listed = some [newDog 0 .tidp (CStr.lit name) (CStr.lit filter) 15] := by
  obtain ⟨s, hstep, hreg, -, hcells⟩ := first_create (fun _ => 0) name filter (o := .allSucceed)
    (h := 0) ⟨rfl, rfl, rfl⟩ (show Outcome.allSucceed.pthread_create = some 1 from rfl)
  refine ⟨s, (reach_twoClients _).stanza Outcome.allSucceed_succeeds hstep (by omega), ?_⟩
  have hlist : s.CuteDogList = 0 :: (twoClients fun _ => 0).CuteDogList :=
    congrArg Registry.CuteDogList hreg
  have hall : s.dogs = Function.update (twoClients fun _ => 0).dogs 0
      (some (newDog 0 .tidp (CStr.lit name) (CStr.lit filter) 15)) := congrArg Registry.dogs hreg
  have hdogs : s.dogs 0 = some (newDog 0 .tidp (CStr.lit name) (CStr.lit filter) 15) := by
    rw [hall, Function.update_self]
  rw [(onlyTwo fun _ => 0).list] at hlist
  rw [Server.listed, hlist, List.mapM_cons, hdogs]
  rfl

theorem texts_carried_a : ∃ s : Server,
    s.listed = some [newDog 0 .tidp (CStr.lit "a") (CStr.lit "tcp") 15] ∧ s.TextsCarried := by
  obtain ⟨s, -, hs⟩ := first_listed "a" "tcp"
  refine ⟨s, hs, (texts_carried_iff hs).mpr ⟨fun dog hdog => ?_, fun dog hdog => ?_⟩⟩
  · rw [List.mem_singleton.mp hdog]
    decide +kernel
  · rw [← Option.some.inj hdog]
    decide +kernel

set_option maxRecDepth 20000 in
/-- A client that sends `&lt;` as its name asks for a dog of the name `<`. -/
example : ((IksParser.new (⟨[], []⟩ : StreamData)).iks_parse
      (CStr.lit "<iq type='set'><query xmlns='filter:new' action='create'>" ++
        CStr.lit "<username>&lt;</username><filterstring>tcp</filterstring></query></iq>")).map
      (fun p => p.user_data.reported) =
    some [(.IKS_NODE_NORMAL, some (createFilter "<" "tcp"))] := (rfl)

/-- **A name that breaks the notice**: with the name `<` its end tag is none. -/
theorem lt_breaks : ∃ s : Server,
    Reach (serverStep (ι := Iks)) Succeeding (InitServer fun _ => 0) s ∧
    s.listed = some [newDog 0 .tidp (CStr.lit "<") (CStr.lit "tcp") 15] ∧ ¬s.TextsCarried := by
  obtain ⟨s, hreach, hs⟩ := first_listed "<" "tcp"
  refine ⟨s, hreach, hs, fun hall => ?_⟩
  have hbroken : saxEvents (loseNotice (newDog 0 .tidp (CStr.lit "<") (CStr.lit "tcp") 15)) ≠
      some (noticeCalls (newDog 0 .tidp (CStr.lit "<") (CStr.lit "tcp") 15)) := by decide +kernel
  exact hbroken (hall _ _ (.notice hs List.mem_cons_self))

end Netflow
