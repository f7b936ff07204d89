import Netflow.Server.Io

set_option autoImplicit false

/-! # The list of filters at the client (`CuteCatDlg.cpp`)

`RespAllFilters` fills the list view from the answer to `filter:show`. It starts at the `query` element
itself and goes on to what follows that element, while the rows of the server are its children.

A pointer to an element among its siblings is the list of this element and those after it; NULL is `[]`.
-/

namespace Netflow

open Iks

/-- A row of the list view; a NULL text shows nothing. -/
structure FilterItem where
  Name : Option CStr
  option : Option CStr
deriving DecidableEq

/-- What a row shows. -/
def FilterItem.texts (item : FilterItem) : CStr × CStr :=
  (item.Name.getD (CStr.lit ""), item.option.getD (CStr.lit ""))

/-- `iks_find` with the siblings of the element it finds. -/
def findSiblings (x : Iks) (name : CStr) : List Iks := x.children.dropWhile fun y => !named name y

/-- A turn of the loop of `RespAllFilters`. -/
def showChild (m_ListView : List FilterItem) (Child : Iks) : List FilterItem :=
  let Name := findCdata (some Child) (CStr.lit "name")
  let option := findCdata (some Child) (CStr.lit "filterstring")
  if Name ≠ none ∨ option ≠ none then m_ListView ++ [{ Name := Name, option := option }]
  else m_ListView

/-- The loop: `Child = iks_next(Child)`. -/
def showChildren (m_ListView : List FilterItem) : List Iks → List FilterItem
  | [] => m_ListView
  | Child :: next => showChildren (showChild m_ListView Child) next

/-- The rows that were there are deleted first. -/
def RespAllFilters (x : List Iks) (_m_ListView : List FilterItem) : List FilterItem :=
  showChildren [] x

/-- The handlers `IOXMLIQ` of the client calls. -/
inductive CatIqHandler where
  | RespLogin
  | RespAllFilters
  | RespCatSetHooker
  | RespFilterNew
  | RespFilterNotice
deriving DecidableEq

/-- The tests of `IOXMLIQ`, in order. -/
def catIqHandler (type xmlns : Option CStr) : Option (Option CatIqHandler) := do
  let is (t x : CStr) : Option Bool := do
    if ← strEq type t then strEq xmlns x else some false
  if ← is (CStr.lit "result") (CStr.lit "jabber:iq:auth") then some (some .RespLogin)
  else if ← is (CStr.lit "result") (CStr.lit "filter:show") then some (some .RespAllFilters)
  else if ← is (CStr.lit "result") (CStr.lit "filter:hook") then some (some .RespCatSetHooker)
  else if ← is (CStr.lit "result") (CStr.lit "filter:new") then some (some .RespFilterNew)
  else if ← is (CStr.lit "set") (CStr.lit "filter:notice") then some (some .RespFilterNotice)
  else some none

/-- `IOXMLIQ` as far as the list of filters goes: only `RespAllFilters` touches it. -/
def IOXMLIQ (node : Iks) (m_ListView : List FilterItem) : Option (List FilterItem) := do
  let type := findAttrib (some node) (CStr.lit "type")
  let xmlns := findAttrib (find (some node) (CStr.lit "query")) (CStr.lit "xmlns")
  match ← catIqHandler type xmlns with
  | some .RespAllFilters =>
      some (RespAllFilters (findSiblings node (CStr.lit "query")) m_ListView)
  | _ => some m_ListView

/-! ## What the server sends -/

/-- An element with a text; the parser keeps no empty text. -/
def ofText (name text : CStr) : Iks := .tag name [] (if text.chars = [] then [] else [.cdata text])

/-- The two elements of a row, `<name>N</name><filterstring>F</filterstring>`. -/
def rowElements (row : CStr × CStr) : List Iks :=
  [ofText (CStr.lit "name") row.1, ofText (CStr.lit "filterstring") row.2]

/-- The `query` element with the rows of a list of filters. -/
def filterQuery (attribs : List (CStr × CStr)) (rows : List (CStr × CStr)) : Iks :=
  .tag (CStr.lit "query") attribs (rows.flatMap rowElements)

/-! ## The loop -/

/-- The row an element brings. -/
def rowOf (Child : Iks) : Option FilterItem :=
  let Name := findCdata (some Child) (CStr.lit "name")
  let option := findCdata (some Child) (CStr.lit "filterstring")
  if Name ≠ none ∨ option ≠ none then some { Name := Name, option := option } else none

/-- What a list of elements shows. -/
def shownBy (x : List Iks) : List (CStr × CStr) := (x.filterMap rowOf).map FilterItem.texts

theorem showChild_eq (m_ListView : List FilterItem) (Child : Iks) :
    showChild m_ListView Child = m_ListView ++ (rowOf Child).toList := by
  unfold showChild rowOf
  dsimp only
  split
  · rfl
  · exact (List.append_nil _).symm

/-- **The loop** appends the row of each element it meets. -/
theorem showChildren_eq (m_ListView : List FilterItem) (x : List Iks) :
    showChildren m_ListView x = m_ListView ++ x.filterMap rowOf := by
  induction x generalizing m_ListView with
  | nil => exact (List.append_nil _).symm
  | cons Child next ih =>
      rw [showChildren, ih, showChild_eq, List.append_assoc]
      cases hrow : rowOf Child with
      | none => rw [List.filterMap_cons_none hrow, Option.toList_none, List.nil_append]
      | some item => rw [List.filterMap_cons_some hrow, Option.toList_some, List.singleton_append]

theorem RespAllFilters_eq_shown (x : List Iks) (m_ListView : List FilterItem) :
    (RespAllFilters x m_ListView).map FilterItem.texts = shownBy x := by
  rw [RespAllFilters, showChildren_eq, List.nil_append, shownBy]

/-- The found element stands first among its siblings. -/
theorem find_eq_head? (x : Iks) (name : CStr) :
    find (some x) name = (findSiblings x name).head? := by
  rw [find, findSiblings, Option.bind_some]
  induction x.children with
  | nil => rfl
  | cons y rest ih =>
      cases hnamed : named name y with
      | true => simp [hnamed]
      | false => simp [hnamed, ih]

/-! ## The rows of a query -/

/-- The text of an element; an empty one is NULL. -/
def textOf (text : CStr) : Option CStr := if text.chars = [] then none else some text

theorem textOf_getD (text : CStr) : (textOf text).getD (CStr.lit "") = text := by
  unfold textOf
  split
  · next hempty => exact (CStr.ext hempty).symm
  · rfl

theorem name_ne_filterstring : CStr.lit "name" ≠ CStr.lit "filterstring" := by decide +kernel

/-- The first child of the name is found. -/
theorem findCdata_ofText (tag name text : CStr) (attribs : List (CStr × CStr)) (rest : List Iks) :
    findCdata (some (.tag tag attribs (ofText name text :: rest))) name = textOf text := by
  have hnamed : named name (ofText name text) = true := decide_eq_true rfl
  rw [findCdata, find, Option.bind_some, Iks.children, List.find?_cons_of_pos hnamed,
    Option.bind_some, ofText, textOf]
  by_cases hempty : text.chars = []
  · simp only [Iks.children, if_pos hempty]
  · simp only [Iks.children, if_neg hempty]

/-- A child of another name is passed. -/
theorem findCdata_ofText_of_ne (tag text : CStr) (attribs : List (CStr × CStr)) (rest : List Iks)
    {name name' : CStr} (h : name' ≠ name) :
    findCdata (some (.tag tag attribs (ofText name' text :: rest))) name =
      findCdata (some (.tag tag attribs rest)) name := by
  have hnamed : ¬named name (ofText name' text) = true := fun heq => h (of_decide_eq_true heq)
  rw [findCdata, find, Option.bind_some, Iks.children, List.find?_cons_of_neg hnamed]
  rfl

/-- A query brings the row of its first pair; a blank pair makes none. -/
theorem rowOf_filterQuery (attribs : List (CStr × CStr)) (row : CStr × CStr)
    (rows : List (CStr × CStr)) :
    rowOf (filterQuery attribs (row :: rows)) =
      if row = (CStr.lit "", CStr.lit "") then none
      else some { Name := textOf row.1, option := textOf row.2 } := by
  obtain ⟨name, filter⟩ := row
  have hquery : filterQuery attribs ((name, filter) :: rows) = .tag (CStr.lit "query") attribs
      (ofText (CStr.lit "name") name :: ofText (CStr.lit "filterstring") filter ::
        rows.flatMap rowElements) := rfl
  rw [rowOf, hquery, findCdata_ofText, findCdata_ofText_of_ne _ _ _ _ name_ne_filterstring,
    findCdata_ofText]
  -- `iks_cdata` of an element without text is null
  have hnull : ∀ text, textOf text = none ↔ text = CStr.lit "" := by
    intro text
    rw [textOf, CStr.ext_iff]
    split
    · next hempty => exact iff_of_true rfl hempty
    · next hempty => exact iff_of_false nofun hempty
  by_cases hblank : (name, filter) = (CStr.lit "", CStr.lit "")
  · obtain ⟨hname, hfilter⟩ := Prod.mk.inj hblank
    rw [if_pos hblank, (hnull name).mpr hname, (hnull filter).mpr hfilter]
    rfl
  · rw [if_neg hblank]
    refine if_pos ?_
    rw [ne_eq, ne_eq, hnull, hnull, ← not_and_or]
    exact fun hboth => hblank (Prod.ext hboth.1 hboth.2)

theorem rowOf_filterQuery_nil (attribs : List (CStr × CStr)) :
    rowOf (filterQuery attribs []) = none := rfl

/-- The pairs of a query that it shows no row for: all but the first, and a blank first one too. -/
def notShown : List (CStr × CStr) → List (CStr × CStr)
  | [] => []
  | row :: rows => if row = (CStr.lit "", CStr.lit "") then row :: rows else rows

theorem shownBy_query (attribs : List (CStr × CStr)) (rows : List (CStr × CStr)) (rest : List Iks) :
    shownBy (filterQuery attribs rows :: rest) = rows ↔ shownBy rest = notShown rows := by
  cases rows with
  | nil =>
      rw [shownBy, List.filterMap_cons_none (rowOf_filterQuery_nil attribs)]
      rfl
  | cons row rows =>
      have hrow := rowOf_filterQuery attribs row rows
      rw [notShown]
      by_cases hblank : row = (CStr.lit "", CStr.lit "")
      · -- a blank first pair makes no row and is still to be shown
        rw [if_pos hblank] at hrow ⊢
        rw [shownBy, List.filterMap_cons_none hrow]
        rfl
      · rw [if_neg hblank] at hrow ⊢
        -- the row of the first pair has its two texts, so the rest brings the rest
        have htexts : FilterItem.texts { Name := textOf row.1, option := textOf row.2 } = row := by
          rw [FilterItem.texts, textOf_getD, textOf_getD]
        rw [shownBy, List.filterMap_cons_some hrow, List.map_cons, htexts, List.cons.injEq,
          and_iff_right rfl]
        rfl

theorem notShown_eq_nil {rows : List (CStr × CStr)} :
    notShown rows = [] ↔ rows.length ≤ 1 ∧ (CStr.lit "", CStr.lit "") ∉ rows := by
  cases rows with
  | nil => exact iff_of_true rfl ⟨Nat.zero_le 1, nofun⟩
  | cons row rows =>
      rw [notShown, List.mem_cons, List.length_cons]
      by_cases hblank : row = (CStr.lit "", CStr.lit "")
      · rw [if_pos hblank]
        exact iff_of_false nofun fun h => h.2 (Or.inl hblank.symm)
      · rw [if_neg hblank]
        constructor
        · rintro rfl
          exact ⟨Nat.le_refl 1, fun h => h.elim (fun heq => hblank heq.symm) nofun⟩
        · rintro ⟨hle, -⟩
          exact List.length_eq_zero_iff.mp (Nat.le_zero.mp (Nat.le_of_succ_le_succ hle))

/-! ## The answer of the server -/

/-- **From the stanza to the list view**: an answer to `filter:show` is handed to `RespAllFilters` with
its query and what follows it. -/
theorem IOXMLIQ_show {node : Iks} {m_ListView : List FilterItem}
    (htype : findAttrib (some node) (CStr.lit "type") = some (CStr.lit "result"))
    (hxmlns : findAttrib (find (some node) (CStr.lit "query")) (CStr.lit "xmlns") =
      some (CStr.lit "filter:show")) :
    IOXMLIQ node m_ListView =
      some (RespAllFilters (findSiblings node (CStr.lit "query")) m_ListView) := by
  have hhandler : catIqHandler (some (CStr.lit "result")) (some (CStr.lit "filter:show")) =
      some (some .RespAllFilters) := by decide +kernel
  simp only [IOXMLIQ, htype, hxmlns, hhandler, Option.bind_eq_bind, Option.bind_some]

/-- `<iq type='result'><query xmlns='filter:show'>…</query></iq>`. -/
def showAnswer (rows : List (CStr × CStr)) : Iks :=
  .tag (CStr.lit "iq") [(CStr.lit "type", CStr.lit "result")]
    [filterQuery [(CStr.lit "xmlns", CStr.lit "filter:show")] rows]

theorem IOXMLIQ_showAnswer (rows : List (CStr × CStr)) (m_ListView : List FilterItem) :
    IOXMLIQ (showAnswer rows) m_ListView = some (RespAllFilters
      [filterQuery [(CStr.lit "xmlns", CStr.lit "filter:show")] rows] m_ListView) := by
  have hsiblings : findSiblings (showAnswer rows) (CStr.lit "query") =
      [filterQuery [(CStr.lit "xmlns", CStr.lit "filter:show")] rows] := by
    have hnamed : named (CStr.lit "query")
        (filterQuery [(CStr.lit "xmlns", CStr.lit "filter:show")] rows) = true := by
      show decide (CStr.lit "query" = CStr.lit "query") = true
      exact decide_eq_true rfl
    simp [findSiblings, showAnswer, Iks.children, hnamed]
  rw [← hsiblings]
  refine IOXMLIQ_show ?_ ?_
  · simp [findAttrib, showAnswer]
  · rw [find_eq_head?, hsiblings]
    simp [findAttrib, filterQuery]

/-- The list view shows the pairs of the query, in order, exactly when the elements that follow the
query bring the rows of the pairs after the first, and the first one is not blank. In the answer of the
server nothing follows the query: it is shown when it has one pair at most, and no blank one. -/
theorem all_filters_shown (rows : List (CStr × CStr)) (m_ListView : List FilterItem) :
    (∀ attribs rest,
      (RespAllFilters (filterQuery attribs rows :: rest) m_ListView).map FilterItem.texts = rows ↔
        shownBy rest = notShown rows) ∧
    ((IOXMLIQ (showAnswer rows) m_ListView).map (List.map FilterItem.texts) = some rows ↔
      rows.length ≤ 1 ∧ (CStr.lit "", CStr.lit "") ∉ rows) := by
  have hshown : ∀ attribs rest,
      (RespAllFilters (filterQuery attribs rows :: rest) m_ListView).map FilterItem.texts = rows ↔
        shownBy rest = notShown rows := by
    intro attribs rest
    rw [RespAllFilters_eq_shown]
    exact shownBy_query attribs rows rest
  refine ⟨hshown, ?_⟩
  rw [IOXMLIQ_showAnswer, Option.map_some, Option.some_inj, hshown, ← notShown_eq_nil]
  exact eq_comm

/-- **Two filters, one row.** -/
theorem second_filter_hidden : ¬∀ (rows : List (CStr × CStr)) (m_ListView : List FilterItem),
    (IOXMLIQ (showAnswer rows) m_ListView).map (List.map FilterItem.texts) = some rows := by
  intro hall
  have hrun := hall [(CStr.lit "a", CStr.lit "tcp"), (CStr.lit "b", CStr.lit "udp")] []
  rw [IOXMLIQ_showAnswer, Option.map_some, Option.some_inj, RespAllFilters_eq_shown,
    shownBy_query] at hrun
  exact absurd hrun (by decide +kernel)

end Netflow
