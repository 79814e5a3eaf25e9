import WeaveGate.Lib.Run
import WeaveGate.Lib.Text

/-!
# Markup

HTML text as it is written, with its texts and attributes escaped, and what a reader makes of it.
-/

namespace Html

/-! ## Writing -/

def escapeChar (c : Char) : Str :=
  if c = '&' then "&amp;".toList
  else if c = '<' then "&lt;".toList
  else if c = '>' then "&gt;".toList
  else if c = '"' then "&quot;".toList
  else [c]

def escape (s : Str) : Str := s.flatMap escapeChar

abbrev Attrs := List (Str × Str)

inductive Token where
  | doctype
  | startTag (tag : Str) (attrs : Attrs)
  | endTag (tag : Str)
  | text (content : Str)
deriving DecidableEq

def writeAttr (attr : Str × Str) : Str := [' '] ++ attr.1 ++ ['=', '"'] ++ escape attr.2 ++ ['"']

def Token.write : Token → Str
  | .doctype => "<!DOCTYPE html>".toList
  | .startTag tag attrs => ['<'] ++ tag ++ (attrs.flatMap writeAttr ++ ['>'])
  | .endTag tag => ['<', '/'] ++ tag ++ ['>']
  | .text content => escape content

def write (tokens : List Token) : Str := tokens.flatMap Token.write

def element (tag : Str) (attrs : Attrs) (children : List Token) : List Token :=
  .startTag tag attrs :: children ++ [.endTag tag]

/-- An element without an end tag. -/
def void (tag : Str) (attrs : Attrs) : List Token := [.startTag tag attrs]

/-! ## Reading -/

inductive State where
  | data (text : Str)
  | dataReference (text ref : Str)
  | tagOpen
  | markupDeclaration (name : Str)
  | tagName (tag : Str)
  | endTagName (tag : Str)
  | attributeName (tag : Str) (attrs : Attrs) (name : Str)
  | beforeValue (tag : Str) (attrs : Attrs) (name : Str)
  | value (tag : Str) (attrs : Attrs) (name value : Str)
  | valueReference (tag : Str) (attrs : Attrs) (name value ref : Str)
  | afterValue (tag : Str) (attrs : Attrs)
  | malformed

structure Reader where
  tokens : List Token
  state : State

/-- The character that a reference between `&` and `;` names. -/
def reference (ref : Str) : Option Char :=
  if ref = "amp".toList then some '&'
  else if ref = "lt".toList then some '<'
  else if ref = "gt".toList then some '>'
  else if ref = "quot".toList then some '"'
  else none

/-- No text is no token. -/
def flush (tokens : List Token) (text : Str) : List Token :=
  if text = [] then tokens else tokens ++ [.text text]

def step (r : Reader) (c : Char) : Reader :=
  match r.state with
  | .data text =>
      if c = '<' then ⟨flush r.tokens text, .tagOpen⟩
      else if c = '&' then ⟨r.tokens, .dataReference text []⟩
      else ⟨r.tokens, .data (text ++ [c])⟩
  | .dataReference text ref =>
      if c = ';' then ⟨r.tokens, (reference ref).elim .malformed fun d => .data (text ++ [d])⟩
      else ⟨r.tokens, .dataReference text (ref ++ [c])⟩
  | .tagOpen =>
      if c = '!' then ⟨r.tokens, .markupDeclaration []⟩
      else if c = '/' then ⟨r.tokens, .endTagName []⟩
      else if c.isAlpha then ⟨r.tokens, .tagName [c]⟩
      else ⟨r.tokens, .malformed⟩
  | .markupDeclaration name =>
      if c = '>' then
        if name = "DOCTYPE html".toList then ⟨r.tokens ++ [.doctype], .data []⟩ else ⟨r.tokens, .malformed⟩
      else ⟨r.tokens, .markupDeclaration (name ++ [c])⟩
  | .tagName tag =>
      if c = '>' then ⟨r.tokens ++ [.startTag tag []], .data []⟩
      else if c = ' ' then ⟨r.tokens, .attributeName tag [] []⟩
      else ⟨r.tokens, .tagName (tag ++ [c])⟩
  | .endTagName tag =>
      if c = '>' then ⟨r.tokens ++ [.endTag tag], .data []⟩ else ⟨r.tokens, .endTagName (tag ++ [c])⟩
  | .attributeName tag attrs name =>
      if c = '=' then ⟨r.tokens, .beforeValue tag attrs name⟩
      else ⟨r.tokens, .attributeName tag attrs (name ++ [c])⟩
  | .beforeValue tag attrs name =>
      if c = '"' then ⟨r.tokens, .value tag attrs name []⟩ else ⟨r.tokens, .malformed⟩
  | .value tag attrs name value =>
      if c = '"' then ⟨r.tokens, .afterValue tag (attrs ++ [(name, value)])⟩
      else if c = '&' then ⟨r.tokens, .valueReference tag attrs name value []⟩
      else ⟨r.tokens, .value tag attrs name (value ++ [c])⟩
  | .valueReference tag attrs name value ref =>
      if c = ';' then
        ⟨r.tokens, (reference ref).elim .malformed fun d => .value tag attrs name (value ++ [d])⟩
      else ⟨r.tokens, .valueReference tag attrs name value (ref ++ [c])⟩
  | .afterValue tag attrs =>
      if c = '>' then ⟨r.tokens ++ [.startTag tag attrs], .data []⟩
      else if c = ' ' then ⟨r.tokens, .attributeName tag attrs []⟩
      else ⟨r.tokens, .malformed⟩
  | .malformed => r

/-- The tokens of a text. A text that ends inside a tag, or is not of this form, has none. -/
def read (s : Str) : Option (List Token) :=
  match Run.final step ⟨[], .data []⟩ s with
  | ⟨tokens, .data text⟩ => some (flush tokens text)
  | _ => none

/-! ## What is written is read back -/

/-- A letter, and letters and digits. -/
def isName (s : Str) : Bool := s.head?.any Char.isAlpha && s.all Char.isAlphanum

/-- Tags and names of attributes are names. -/
def Token.Legal : Token → Prop
  | .startTag tag attrs => isName tag = true ∧ ∀ attr ∈ attrs, isName attr.1 = true
  | .endTag tag => isName tag = true
  | _ => True

instance : (token : Token) → Decidable token.Legal
  | .doctype => isTrue trivial
  | .startTag _ _ => inferInstanceAs (Decidable (_ ∧ _))
  | .endTag _ => inferInstanceAs (Decidable (_ = _))
  | .text _ => isTrue trivial

/-- Tokens and the text after them, when one more token follows. -/
def after (p : List Token × Str) : Token → List Token × Str
  | .text content => (p.1, p.2 ++ content)
  | token => (flush p.1 p.2 ++ [token], [])

/-- Adjacent texts are one. -/
def join (tokens : List Token) : List Token :=
  let p := tokens.foldl after ([], [])
  flush p.1 p.2

section

variable {tokens : List Token} {text tag name s : Str} {attrs : Attrs}

theorem isAlphanum_ne {c d : Char} (h : c.isAlphanum = true) (hd : d.isAlphanum = false) : c ≠ d := by
  rintro rfl
  rw [h] at hd
  cases hd

theorem isName_chars (h : isName s = true) : ∀ c ∈ s, c.isAlphanum = true :=
  List.all_eq_true.mp (Bool.and_eq_true .. ▸ h).2

theorem exists_cons_of_isName (h : isName s = true) :
    ∃ c cs, s = c :: cs ∧ c.isAlpha = true ∧ ∀ d ∈ cs, d.isAlphanum = true := by
  cases s with
  | nil => exact absurd h (by decide)
  | cons c cs =>
      have hchars := isName_chars h
      simp only [isName, List.head?_cons, Option.any_some, Bool.and_eq_true] at h
      exact ⟨c, cs, rfl, h.1, fun d hd => hchars d (List.mem_cons_of_mem c hd)⟩

/-- A state that grows by one character for each of the pieces grows by the whole text. -/
theorem final_flatMap (grow : Str → State) {f : Char → Str} {s : Str}
    (h : ∀ acc, ∀ c ∈ s, Run.final step ⟨tokens, grow acc⟩ (f c) = ⟨tokens, grow (acc ++ [c])⟩) (acc : Str) :
    Run.final step ⟨tokens, grow acc⟩ (s.flatMap f) = ⟨tokens, grow (acc ++ s)⟩ := by
  induction s generalizing acc with
  | nil => simp [Run.final]
  | cons c s ih =>
      rw [List.flatMap_cons, Run.final_append, h acc c List.mem_cons_self,
        ih (fun acc d hd => h acc d (List.mem_cons_of_mem c hd)), List.append_assoc, List.singleton_append]

theorem final_chars (grow : Str → State) {s : Str}
    (h : ∀ acc, ∀ c ∈ s, step ⟨tokens, grow acc⟩ c = ⟨tokens, grow (acc ++ [c])⟩) (acc : Str) :
    Run.final step ⟨tokens, grow acc⟩ s = ⟨tokens, grow (acc ++ s)⟩ := by
  have hpieces := final_flatMap grow (f := fun c => [c]) h acc
  rwa [List.flatMap_singleton'] at hpieces

theorem final_escape (text s : Str) :
    Run.final step ⟨tokens, .data text⟩ (escape s) = ⟨tokens, .data (text ++ s)⟩ := by
  refine final_flatMap .data (fun acc c _ => ?_) text
  unfold escapeChar
  split_ifs with hamp hlt hgt hquot
  · rw [hamp]
    rfl
  · rw [hlt]
    rfl
  · rw [hgt]
    rfl
  · rw [hquot]
    rfl
  · simp [Run.final, step, hamp, hlt]

theorem final_value_escape (value s : Str) : Run.final step ⟨tokens, .value tag attrs name value⟩ (escape s) =
    ⟨tokens, .value tag attrs name (value ++ s)⟩ := by
  refine final_flatMap (.value tag attrs name) (fun acc c _ => ?_) value
  unfold escapeChar
  split_ifs with hamp hlt hgt hquot
  · rw [hamp]
    rfl
  · rw [hlt]
    rfl
  · rw [hgt]
    rfl
  · rw [hquot]
    rfl
  · simp [Run.final, step, hamp, hquot]

theorem final_tagName (h : ∀ c ∈ s, c.isAlphanum = true) (tag : Str) :
    Run.final step ⟨tokens, .tagName tag⟩ s = ⟨tokens, .tagName (tag ++ s)⟩ := by
  refine final_chars .tagName (fun acc c hc => ?_) tag
  simp [step, isAlphanum_ne (h c hc) (show '>'.isAlphanum = false by decide),
    isAlphanum_ne (h c hc) (show ' '.isAlphanum = false by decide)]

theorem final_endTagName (h : ∀ c ∈ s, c.isAlphanum = true) (tag : Str) :
    Run.final step ⟨tokens, .endTagName tag⟩ s = ⟨tokens, .endTagName (tag ++ s)⟩ := by
  refine final_chars .endTagName (fun acc c hc => ?_) tag
  simp [step, isAlphanum_ne (h c hc) (show '>'.isAlphanum = false by decide)]

theorem final_attributeName (h : ∀ c ∈ s, c.isAlphanum = true) (name : Str) :
    Run.final step ⟨tokens, .attributeName tag attrs name⟩ s = ⟨tokens, .attributeName tag attrs (name ++ s)⟩ := by
  refine final_chars (.attributeName tag attrs) (fun acc c hc => ?_) name
  simp [step, isAlphanum_ne (h c hc) (show '='.isAlphanum = false by decide)]

/-- From behind the name of the tag, or a value, to behind the next value. -/
theorem final_writeAttr {r : Reader} (hr : step r ' ' = ⟨tokens, .attributeName tag attrs []⟩) {attr : Str × Str}
    (hname : isName attr.1 = true) :
    Run.final step r (writeAttr attr) = ⟨tokens, .afterValue tag (attrs ++ [attr])⟩ := by
  have hblank : Run.final step r [' '] = ⟨tokens, .attributeName tag attrs []⟩ := hr
  have hequals : Run.final step ⟨tokens, .attributeName tag attrs attr.1⟩ ['=', '"'] =
      ⟨tokens, .value tag attrs attr.1 []⟩ := rfl
  have hquote : Run.final step ⟨tokens, .value tag attrs attr.1 attr.2⟩ ['"'] =
      ⟨tokens, .afterValue tag (attrs ++ [attr])⟩ := rfl
  rw [writeAttr, Run.final_append, Run.final_append, Run.final_append, Run.final_append, hblank,
    final_attributeName (isName_chars hname), List.nil_append, hequals, final_value_escape, List.nil_append, hquote]

theorem final_writeAttrs (h : ∀ attr ∈ attrs, isName attr.1 = true) (seen : Attrs) :
    Run.final step ⟨tokens, .afterValue tag seen⟩ (attrs.flatMap writeAttr ++ ['>']) =
      ⟨tokens ++ [.startTag tag (seen ++ attrs)], .data []⟩ := by
  induction attrs generalizing seen with
  | nil => simp [Run.final, step]
  | cons attr attrs ih =>
      obtain ⟨hname, hattrs⟩ := List.forall_mem_cons.mp h
      rw [List.flatMap_cons, List.append_assoc, Run.final_append, final_writeAttr rfl hname, ih hattrs,
        List.append_assoc, List.singleton_append]

theorem final_startTag (htag : isName tag = true) (h : ∀ attr ∈ attrs, isName attr.1 = true) :
    Run.final step ⟨tokens, .data text⟩ (Token.startTag tag attrs).write =
      ⟨flush tokens text ++ [.startTag tag attrs], .data []⟩ := by
  obtain ⟨c, cs, rfl, hc, hcs⟩ := exists_cons_of_isName htag
  have halnum : c.isAlphanum = true := by rw [Char.isAlphanum, hc, Bool.true_or]
  have hopen : Run.final step ⟨tokens, .data text⟩ ['<', c] = ⟨flush tokens text, .tagName [c]⟩ := by
    simp [Run.final, step, hc, isAlphanum_ne halnum (show '!'.isAlphanum = false by decide),
      isAlphanum_ne halnum (show '/'.isAlphanum = false by decide)]
  change Run.final step _ (['<', c] ++ cs ++ (attrs.flatMap writeAttr ++ ['>'])) = _
  rw [Run.final_append _ (['<', c] ++ cs), Run.final_append _ ['<', c], hopen, final_tagName hcs, List.singleton_append]
  cases attrs with
  | nil => rfl
  | cons attr attrs =>
      obtain ⟨hname, hattrs⟩ := List.forall_mem_cons.mp h
      rw [List.flatMap_cons, List.append_assoc, Run.final_append, final_writeAttr rfl hname, final_writeAttrs hattrs]
      rfl

theorem final_endTag (htag : isName tag = true) : Run.final step ⟨tokens, .data text⟩ (Token.endTag tag).write =
    ⟨flush tokens text ++ [.endTag tag], .data []⟩ := by
  have hopen : Run.final step ⟨tokens, .data text⟩ ['<', '/'] = ⟨flush tokens text, .endTagName []⟩ := by
    simp [Run.final, step]
  change Run.final step _ (['<', '/'] ++ tag ++ ['>']) = _
  rw [Run.final_append, Run.final_append, hopen, final_endTagName (isName_chars htag), List.nil_append]
  simp [Run.final, step]

/-- A token is read from the text that it is written as. -/
theorem final_write (p : List Token × Str) {token : Token} (h : token.Legal) :
    Run.final step ⟨p.1, .data p.2⟩ token.write = ⟨(after p token).1, .data (after p token).2⟩ := by
  cases token with
  | doctype => rfl
  | startTag tag attrs => exact final_startTag h.1 h.2
  | endTag tag => exact final_endTag h
  | text content => exact final_escape p.2 content

theorem read_write (h : ∀ token ∈ tokens, token.Legal) : read (write tokens) = some (join tokens) := by
  have hfinal : ∀ p : List Token × Str, Run.final step ⟨p.1, .data p.2⟩ (write tokens) =
      ⟨(tokens.foldl after p).1, .data (tokens.foldl after p).2⟩ := by
    induction tokens with
    | nil => exact fun p => rfl
    | cons token tokens ih =>
        intro p
        obtain ⟨htoken, htokens⟩ := List.forall_mem_cons.mp h
        change Run.final step _ (token.write ++ write tokens) = _
        rw [Run.final_append, final_write p htoken, ih htokens, List.foldl_cons]
  rw [read, hfinal ([], [])]
  rfl

end

theorem forall_mem_element {P : Token → Prop} {tag : Str} {attrs : Attrs} {children : List Token} :
    (∀ token ∈ element tag attrs children, P token) ↔
      P (.startTag tag attrs) ∧ (∀ token ∈ children, P token) ∧ P (.endTag tag) := by
  simp only [element, List.cons_append, List.forall_mem_cons, List.forall_mem_append, List.not_mem_nil,
    IsEmpty.forall_iff, implies_true, and_true]

/-! ## Elements -/

/-- The elements with a tag that are complete, and the one that is open. -/
structure Elements where
  complete : List (Attrs × Str)
  current : Option (Attrs × Str)

def Elements.next (tag : Str) (e : Elements) : Token → Elements
  | .doctype => e
  | .startTag t attrs => if t = tag then { e with current := some (attrs, []) } else e
  | .endTag t => if t = tag then ⟨e.complete ++ e.current.toList, none⟩ else e
  | .text content => { e with current := e.current.map fun c => (c.1, c.2 ++ content) }

/-- The attributes and the text of each element with the tag. -/
def elements (tag : Str) (tokens : List Token) : List (Attrs × Str) :=
  (tokens.foldl (Elements.next tag) ⟨[], none⟩).complete

section

variable {tag : Str}

theorem Elements.next_text_nil (e : Elements) : e.next tag (.text []) = e := by
  obtain ⟨complete, current⟩ := e
  cases current <;> simp [Elements.next]

theorem Elements.next_text (e : Elements) (s s' : Str) :
    (e.next tag (.text s)).next tag (.text s') = e.next tag (.text (s ++ s')) := by
  cases hcurrent : e.current <;> simp [Elements.next, hcurrent]

theorem foldl_flush (e : Elements) (tokens : List Token) (text : Str) :
    (flush tokens text).foldl (Elements.next tag) e = (tokens.foldl (Elements.next tag) e).next tag (.text text) := by
  unfold flush
  split
  · rename_i hempty
    rw [hempty, Elements.next_text_nil]
  · rw [List.foldl_append]
    rfl

theorem foldl_after (e : Elements) (tokens : List Token) (p : List Token × Str) :
    (flush (tokens.foldl after p).1 (tokens.foldl after p).2).foldl (Elements.next tag) e =
      tokens.foldl (Elements.next tag) ((flush p.1 p.2).foldl (Elements.next tag) e) := by
  induction tokens generalizing p with
  | nil => rfl
  | cons token tokens ih =>
      rw [List.foldl_cons, List.foldl_cons, ih]
      congr 1
      cases token with
      | text content => rw [foldl_flush, foldl_flush, Elements.next_text]; rfl
      | doctype | startTag | endTag =>
          simp only [after, foldl_flush, List.foldl_append, List.foldl_cons, List.foldl_nil, Elements.next_text_nil]

/-- The elements do not depend on how the text is cut. -/
theorem elements_join (tag : Str) (tokens : List Token) : elements tag (join tokens) = elements tag tokens :=
  congrArg Elements.complete (foldl_after _ tokens ([], []))

theorem mem_flush {token : Token} (h : ∀ content, token ≠ .text content) {tokens : List Token} {text : Str} :
    token ∈ flush tokens text ↔ token ∈ tokens := by
  unfold flush
  split
  · rfl
  · simp [h text]

theorem mem_join {token : Token} (h : ∀ content, token ≠ .text content) {tokens : List Token} :
    token ∈ join tokens ↔ token ∈ tokens := by
  have hafter : ∀ p : List Token × Str, token ∈ (tokens.foldl after p).1 ↔ token ∈ p.1 ∨ token ∈ tokens := by
    induction tokens with
    | nil => simp
    | cons first tokens ih =>
        intro p
        rw [List.foldl_cons, ih, List.mem_cons, ← or_assoc]
        refine or_congr_left ?_
        cases first with
        | text content => simp [after, h content]
        | doctype | startTag | endTag => simp [after, mem_flush h]
  rw [join, mem_flush h, hafter]
  simp

/-- Tokens that leave no element with the tag open. -/
def Closed (tag : Str) (tokens : List Token) (found : List (Attrs × Str)) : Prop :=
  ∀ complete, tokens.foldl (Elements.next tag) ⟨complete, none⟩ = ⟨complete ++ found, none⟩

theorem Closed.nil : Closed tag [] [] := fun complete => by rw [List.append_nil]; rfl

theorem Closed.append {tokens tokens' : List Token} {found found' : List (Attrs × Str)} (h : Closed tag tokens found)
    (h' : Closed tag tokens' found') : Closed tag (tokens ++ tokens') (found ++ found') := fun complete => by
  rw [List.foldl_append, h, h', List.append_assoc]

theorem Closed.flatMap {α : Type} {rows : List α} {tokens : α → List Token} {found : α → List (Attrs × Str)}
    (h : ∀ row ∈ rows, Closed tag (tokens row) (found row)) :
    Closed tag (rows.flatMap tokens) (rows.flatMap found) := by
  induction rows with
  | nil => exact Closed.nil
  | cons row rows ih =>
      rw [List.flatMap_cons, List.flatMap_cons]
      exact (h row List.mem_cons_self).append (ih fun r hr => h r (List.mem_cons_of_mem row hr))

end

end Html
