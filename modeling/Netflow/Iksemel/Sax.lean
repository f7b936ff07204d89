import Netflow.Server.Iks

set_option autoImplicit false

/-! # The parser (`iksemel/sax.c`)

`sax_core` goes through a text byte by byte. `IksParser` holds what it keeps between two bytes: the
context, the name and the attributes read so far, and the part of the text that is not handed over
yet, which the code keeps as offsets into the buffer (`old`, `stack_old`) and on its stack. The hooks
are a parameter. Memory is taken to be there, and an error of the text gives `none`.
-/

namespace Netflow

/-- `enum cons_e`. -/
inductive IksContext where
  | C_CDATA
  | C_TAG_START
  | C_TAG
  | C_TAG_END
  | C_ATTRIBUTE
  | C_ATTRIBUTE_1
  | C_ATTRIBUTE_2
  | C_VALUE
  | C_VALUE_APOS
  | C_VALUE_QUOT
  | C_WHITESPACE
  | C_ENTITY
  | C_COMMENT
  | C_COMMENT_1
  | C_COMMENT_2
  | C_COMMENT_3
  | C_MARKUP
  | C_MARKUP_1
  | C_SECT
  | C_SECT_CDATA
  | C_SECT_CDATA_1
  | C_SECT_CDATA_2
  | C_SECT_CDATA_3
  | C_SECT_CDATA_4
  | C_SECT_CDATA_C
  | C_SECT_CDATA_E
  | C_SECT_CDATA_E2
  | C_PI
deriving DecidableEq

/-- The contexts in which the characters of a name or a value are collected. -/
def IksContext.collects : IksContext → Bool
  | .C_TAG | .C_ATTRIBUTE_1 | .C_VALUE_APOS | .C_VALUE_QUOT => true
  | _ => false

/-- `enum ikstagtype`. -/
inductive IksTagType where
  | IKS_OPEN
  | IKS_CLOSE
  | IKS_SINGLE
deriving DecidableEq

/-- The hooks a parser calls, on data of type `σ`; `none` where a hook returns an error. -/
class IksHooks (σ : Type) where
  tagHook : σ → CStr → List (CStr × CStr) → IksTagType → Option σ
  cdataHook : σ → List Byte → Option σ

/-- `iksparser`. `cdata` is the text from `old` on, `text` what was read of a name or a value, and
`att` the name of the attribute whose value is read. `stack_old` says that `sax_core` has marked where
the part of the buffer begins that goes to the stack (`stack_old != -1`): what it reads of a name or a
value before it has is lost. -/
structure IksParser (σ : Type) where
  user_data : σ
  context : IksContext
  oldcontext : IksContext
  tag_name : List Byte
  tagtype : IksTagType
  atts : List (CStr × CStr)
  attmax : Nat
  att : List Byte
  text : List Byte
  cdata : List Byte
  stack_old : Bool
  entity : List Byte
  uni_max : Nat
  uni_len : Nat

/-- The code of an ASCII character. -/
def ascii (c : Char) : Byte := UInt8.ofNat c.toNat

/-- `IS_WHITESPACE`. -/
def isWhitespace (c : Byte) : Bool :=
  c = ascii ' ' || c = ascii '\t' || c = ascii '\r' || c = ascii '\n'

/-- The length of a sequence that starts with a byte beyond ASCII; `none` for a byte that starts
none. -/
def uniLength (c : Byte) : Option Nat :=
  let long (max : Nat) (mask : Byte) := if c &&& mask = 0 then none else some max
  if c &&& 0x60 = 0x40 then long 2 0x1F
  else if c &&& 0x70 = 0x60 then long 3 0x0F
  else if c &&& 0x78 = 0x70 then long 4 0x07
  else if c &&& 0x7C = 0x78 then long 5 0x03
  else if c &&& 0x7E = 0x7C then long 6 0x01
  else none

/-- The character an entity stands for. -/
def entityChar (entity : List Byte) : Byte :=
  if entity = (CStr.lit "amp").chars then ascii '&'
  else if entity = (CStr.lit "quot").chars then ascii '"'
  else if entity = (CStr.lit "apos").chars then ascii '\''
  else if entity = (CStr.lit "lt").chars then ascii '<'
  else if entity = (CStr.lit "gt").chars then ascii '>'
  else ascii '?'

namespace IksParser

variable {σ : Type} [IksHooks σ]

/-- The parser as `iks_sax_extend` makes it. -/
def new (user_data : σ) : IksParser σ where
  user_data := user_data
  context := .C_CDATA
  oldcontext := .C_CDATA
  tag_name := []
  tagtype := .IKS_OPEN
  atts := []
  attmax := 0
  att := []
  text := []
  cdata := []
  stack_old := false
  entity := []
  uni_max := 0
  uni_len := 0

/-- The first byte of a sequence beyond ASCII is marked in a name or a value. -/
def mark (p : IksParser σ) : IksParser σ :=
  if p.context.collects then { p with stack_old := true } else p

/-- A byte of a sequence beyond ASCII stays in what is read, in a name or a value behind a mark only;
the other contexts skip it. -/
def keep (c : Byte) (p : IksParser σ) : IksParser σ :=
  match p.context with
  | .C_CDATA | .C_SECT_CDATA_C => { p with cdata := p.cdata ++ [c] }
  | .C_TAG | .C_ATTRIBUTE_1 | .C_VALUE_APOS | .C_VALUE_QUOT =>
      if p.stack_old then { p with text := p.text ++ [c] } else p
  | _ => p

/-- An ASCII character of a name or a value is marked if none before it is. -/
def collect (c : Byte) (p : IksParser σ) : IksParser σ :=
  { p with text := p.text ++ [c], stack_old := true }

/-- The call of `cdataHook` on a text. -/
def callCdata (text : List Byte) (p : IksParser σ) : Option (IksParser σ) :=
  (IksHooks.cdataHook p.user_data text).map fun d => { p with user_data := d }

/-- The text from `old` on is handed over when there is some. -/
def flush (p : IksParser σ) : Option (IksParser σ) :=
  if p.cdata = [] then some p else (p.callCdata p.cdata).map fun p => { p with cdata := [] }

/-- `C_TAG_END`. -/
def tagEnd (c : Byte) (p : IksParser σ) : Option (IksParser σ) :=
  if c ≠ ascii '>' then none
  else (IksHooks.tagHook p.user_data (CStr.ofChars p.tag_name) p.atts p.tagtype).map fun d =>
    { p with user_data := d, atts := [], stack_old := false, context := .C_CDATA, cdata := [] }

/-- `C_ATTRIBUTE`. -/
def attribName (c : Byte) (p : IksParser σ) : Option (IksParser σ) :=
  if c = ascii '/' then some { p with tagtype := .IKS_SINGLE, context := .C_TAG_END }
  else if c = ascii '>' then { p with context := .C_TAG_END }.tagEnd c
  else some { p with
    attmax := if p.attmax = 0 then 12 else if p.attmax ≤ p.atts.length then p.attmax + 12 else p.attmax
    text := [c]
    stack_old := true
    context := .C_ATTRIBUTE_1 }

/-- `C_ATTRIBUTE_2`. The end of the array is marked behind the attributes, which needs room. -/
def attribEnd (c : Byte) (p : IksParser σ) : Option (IksParser σ) :=
  if c = ascii '/' then
    if p.atts.length < p.attmax then some { p with tagtype := .IKS_SINGLE, context := .C_TAG_END }
    else none
  else if c = ascii '>' then
    if p.atts.length < p.attmax then { p with context := .C_TAG_END }.tagEnd c else none
  else { p with context := .C_ATTRIBUTE }.attribName c

/-- `C_WHITESPACE`; `oldcontext` is one of the three in which white space is skipped. -/
def whitespace (c : Byte) (p : IksParser σ) : Option (IksParser σ) :=
  if isWhitespace c then some p
  else match p.oldcontext with
    | .C_TAG_END => { p with context := .C_TAG_END }.tagEnd c
    | .C_ATTRIBUTE => { p with context := .C_ATTRIBUTE }.attribName c
    | .C_ATTRIBUTE_2 => { p with context := .C_ATTRIBUTE_2 }.attribEnd c
    | _ => none

/-- `C_TAG`. -/
def tag (c : Byte) (p : IksParser σ) : Option (IksParser σ) :=
  if isWhitespace c then
    some { p with
      oldcontext := if p.tagtype = .IKS_CLOSE then .C_TAG_END else .C_ATTRIBUTE
      context := .C_WHITESPACE
      tag_name := p.text
      stack_old := false }
  else if c = ascii '/' then
    if p.tagtype = .IKS_CLOSE then none
    else some { p with
      tagtype := .IKS_SINGLE, context := .C_TAG_END, tag_name := p.text, stack_old := false }
  else if c = ascii '>' then
    { p with context := .C_TAG_END, tag_name := p.text, stack_old := false }.tagEnd c
  else some (p.collect c)

/-- `C_TAG_START`. -/
def tagStart (c : Byte) (p : IksParser σ) : IksParser σ :=
  if c = ascii '/' then { p with context := .C_TAG, tagtype := .IKS_CLOSE, text := [] }
  else if c = ascii '?' then { p with context := .C_PI }
  else if c = ascii '!' then { p with context := .C_MARKUP }
  else { p with context := .C_TAG, tagtype := .IKS_OPEN, text := [c], stack_old := true }

/-- The end of a value; `quote` is the character that ends it. The code marks the quote, too, when the
value is on the stack. -/
def value (quote c : Byte) (p : IksParser σ) : IksParser σ :=
  if c = quote then { p with
    atts := p.atts ++ [(CStr.ofChars p.att, CStr.ofChars p.text)]
    oldcontext := .C_ATTRIBUTE_2
    context := .C_WHITESPACE
    stack_old := true }
  else p.collect c

/-- A context that is left for another one by one character only. -/
def expect (c expected : Byte) (context : IksContext) (p : IksParser σ) : Option (IksParser σ) :=
  if c = expected then some { p with context := context } else none

/-- The contexts, on an ASCII character. -/
def onContext (c : Byte) (p : IksParser σ) : Option (IksParser σ) :=
  match p.context with
  | .C_CDATA =>
      if c = ascii '&' then p.flush.map fun p => { p with context := .C_ENTITY, entity := [] }
      else if c = ascii '<' then p.flush.map fun p => { p with context := .C_TAG_START }
      else some { p with cdata := p.cdata ++ [c] }
  | .C_TAG_START => some (p.tagStart c)
  | .C_TAG => p.tag c
  | .C_TAG_END => p.tagEnd c
  | .C_ATTRIBUTE => p.attribName c
  | .C_ATTRIBUTE_1 =>
      if c = ascii '=' then
        some { p with att := p.text, text := [], stack_old := false, context := .C_VALUE }
      else some (p.collect c)
  | .C_ATTRIBUTE_2 => p.attribEnd c
  | .C_VALUE =>
      if c = ascii '\'' then some { p with context := .C_VALUE_APOS }
      else if c = ascii '"' then some { p with context := .C_VALUE_QUOT }
      else none
  | .C_VALUE_APOS => some (p.value (ascii '\'') c)
  | .C_VALUE_QUOT => some (p.value (ascii '"') c)
  | .C_WHITESPACE => p.whitespace c
  | .C_ENTITY =>
      if c = ascii ';' then
        (p.callCdata [entityChar p.entity]).map fun p => { p with context := .C_CDATA, cdata := [] }
      else if 7 < p.entity.length + 1 then none
      else some { p with entity := p.entity ++ [c] }
  | .C_COMMENT => p.expect c (ascii '-') .C_COMMENT_1
  | .C_COMMENT_1 => some (if c = ascii '-' then { p with context := .C_COMMENT_2 } else p)
  | .C_COMMENT_2 =>
      some { p with context := if c = ascii '-' then .C_COMMENT_3 else .C_COMMENT_1 }
  | .C_COMMENT_3 => (p.expect c (ascii '>') .C_CDATA).map fun p => { p with cdata := [] }
  | .C_MARKUP =>
      if c = ascii '[' then some { p with context := .C_SECT }
      else if c = ascii '-' then some { p with context := .C_COMMENT }
      else if c = ascii '>' then some { p with context := .C_CDATA, cdata := [] }
      else some { p with context := .C_MARKUP_1 }
  | .C_MARKUP_1 =>
      some (if c = ascii '>' then { p with context := .C_CDATA, cdata := [] } else p)
  | .C_SECT => p.expect c (ascii 'C') .C_SECT_CDATA
  | .C_SECT_CDATA => p.expect c (ascii 'D') .C_SECT_CDATA_1
  | .C_SECT_CDATA_1 => p.expect c (ascii 'A') .C_SECT_CDATA_2
  | .C_SECT_CDATA_2 => p.expect c (ascii 'T') .C_SECT_CDATA_3
  | .C_SECT_CDATA_3 => p.expect c (ascii 'A') .C_SECT_CDATA_4
  | .C_SECT_CDATA_4 => (p.expect c (ascii '[') .C_SECT_CDATA_C).map fun p => { p with cdata := [] }
  | .C_SECT_CDATA_C =>
      if c = ascii ']' then p.flush.map fun p => { p with context := .C_SECT_CDATA_E }
      else some { p with cdata := p.cdata ++ [c] }
  | .C_SECT_CDATA_E =>
      if c = ascii ']' then some { p with context := .C_SECT_CDATA_E2 }
      else (p.callCdata [ascii ']']).map fun p => { p with cdata := [c], context := .C_SECT_CDATA_C }
  | .C_SECT_CDATA_E2 =>
      if c = ascii '>' then some { p with cdata := [], context := .C_CDATA }
      else (p.callCdata [ascii ']', ascii ']']).map fun p =>
        { p with cdata := [c], context := .C_SECT_CDATA_C }
  | .C_PI => some (if c = ascii '>' then { p with context := .C_CDATA, cdata := [] } else p)

/-- A turn of the loop of `sax_core`. -/
def step (p : IksParser σ) (c : Byte) : Option (IksParser σ) :=
  if c = 0 ∨ c = 0xFE ∨ c = 0xFF then none
  else if p.uni_max ≠ 0 then
    if c &&& 0xC0 ≠ 0x80 then none
    else
      let len := p.uni_len + 1
      -- the last byte of the sequence ends it
      some { p.keep c with uni_len := len, uni_max := if len = p.uni_max then 0 else p.uni_max }
  else if c &&& 0x80 ≠ 0 then
    (uniLength c).map fun max => { p.mark.keep c with uni_max := max, uni_len := 1 }
  else p.onContext c

/-- The end of `sax_core`: the text at the end of the buffer is handed over. -/
def handOver (p : IksParser σ) : Option (IksParser σ) :=
  match p.context with
  | .C_CDATA | .C_SECT_CDATA_C => p.flush
  | _ => some p

/-- The mark is a local variable of `sax_core`. -/
def unmark (p : IksParser σ) : IksParser σ := { p with stack_old := false }

/-- What a call of `sax_core` leaves behind. -/
def finish (p : IksParser σ) : Option (IksParser σ) := p.handOver.map unmark

/-- `iks_parse` on a string. -/
def iks_parse (p : IksParser σ) (data : CStr) : Option (IksParser σ) :=
  (data.chars.foldlM step p).bind finish

end IksParser

end Netflow
