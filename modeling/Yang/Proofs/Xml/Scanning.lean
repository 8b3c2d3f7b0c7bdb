import Yang.Proofs.Folding
import Yang.Proofs.Xml.Text
import Yang.Xml.Markup
import Yang.Xml.Node

/-!
# Reading markup that was written

Each tag and each text is read back from its characters, and so a document is cut into
the tokens of its parts. The reader has to tell the parts apart: names are identifiers,
texts and namespaces hold only characters that documents may hold, and the reader must
not change their white space.
-/

namespace Yang.Xml

section Names

/-- What follows does not continue a name. -/
def EndsName (cs : List Char) : Prop := ∀ c, cs.head? = some c → isNamePart c = false

theorem EndsName.cons {c : Char} (h : isNamePart c = false) (cs : List Char) :
    EndsName (c :: cs) := by
  intro d hd
  obtain rfl := Option.some.inj hd
  exact h

theorem isNamePart_of_isPart {c : Char} (h : Name.isPart c = true) :
    isNamePart c = true ∧ isAllowed c = true ∧ c ≠ ':' := by
  have hc := Name.toNat_lt_of_isPart h
  revert h
  exact Name.of_ascii
    (p := fun c => Name.isPart c = true → isNamePart c = true ∧ isAllowed c = true ∧ c ≠ ':')
    (by decide) hc

theorem isNameStart_of_isStart {c : Char} (h : Name.isStart c = true) : isNameStart c = true := by
  have hc := Name.toNat_lt_of_isPart (Name.isPart_of_isStart h)
  revert h
  exact Name.of_ascii (p := fun c => Name.isStart c = true → isNameStart c = true) (by decide) hc

theorem exists_cons_of_isIdentifier {name : String} (h : Name.isIdentifier name = true) :
    ∃ c cs, name.toList = c :: cs ∧ isNameStart c = true := by
  rw [Name.isIdentifier] at h
  cases hname : name.toList with
  | nil => simp [hname] at h
  | cons c cs =>
      rw [hname, Bool.and_eq_true] at h
      exact ⟨c, cs, rfl, isNameStart_of_isStart h.1⟩

/-- A run of name characters at the front is taken as a name without qualifier. -/
theorem QualifiedName.read?_append (name : List Char) {rest : List Char}
    (hpart : ∀ c ∈ name, isNamePart c = true) (hcolon : ':' ∉ name)
    (hbegins : beginsName name = true) (hrest : EndsName rest) :
    QualifiedName.read? (name ++ rest) = some (⟨[], name⟩, rest) := by
  have hfront : rest.takeWhile isNamePart = [] ∧ rest.dropWhile isNamePart = rest := by
    cases rest with
    | nil => exact ⟨rfl, rfl⟩
    | cons c cs => simp [hrest c rfl]
  have htake : (name ++ rest).takeWhile isNamePart = name := by
    rw [List.takeWhile_append_of_pos hpart, hfront.1, List.append_nil]
  have hdrop : (name ++ rest).dropWhile isNamePart = rest := by
    rw [List.dropWhile_append_of_pos hpart, hfront.2]
  have hsplit : name.splitOn ':' = [name] := by
    have happend := splitOn_append hcolon []
    rw [List.append_nil] at happend
    exact happend.trans (by simp)
  have hrun : QualifiedName.ofRun? name = some ⟨[], name⟩ := by
    simp only [QualifiedName.ofRun?, hsplit, if_pos hbegins]
  rw [QualifiedName.read?, htake, hdrop, hrun, Option.map_some]

theorem QualifiedName.read?_identifier {name : String} (h : Name.isIdentifier name = true)
    (rest : List Char) (hrest : EndsName rest) :
    QualifiedName.read? (name.toList ++ rest) = some (⟨[], name.toList⟩, rest) := by
  have hpart := Name.isPart_of_isIdentifier h
  obtain ⟨c, cs, hname, hstart⟩ := exists_cons_of_isIdentifier h
  refine QualifiedName.read?_append _ ?_ ?_ ?_ hrest
  · exact fun d hd => (isNamePart_of_isPart (hpart d hd)).1
  · exact fun hmem => (isNamePart_of_isPart (hpart ':' hmem)).2.2 rfl
  · rw [beginsName, hname, List.head?_cons, Option.any_some, hstart]

end Names

section Tags

def declaration (uri : String) : Attribute := ⟨⟨[], ['x', 'm', 'l', 'n', 's']⟩, escape uri⟩

/-- An escaped value is read up to the closing quote. -/
theorem quoted?_escape (uri : String) (rest : List Char) :
    quoted? ('"' :: (escape uri ++ '"' :: rest)) = some (escape uri, rest) := by
  have hstays : ∀ c ∈ escape uri, (c != '"' && c != '<') = true := by
    intro c hc
    have hquote : c ≠ '"' := fun heq => notMem_escape (by decide) uri (heq ▸ hc)
    have htag : c ≠ '<' := fun heq => notMem_escape (by decide) uri (heq ▸ hc)
    simp [hquote, htag]
  have htake : (escape uri ++ '"' :: rest).takeWhile (fun c => c != '"' && c != '<') =
      escape uri := by
    rw [List.takeWhile_append_of_pos hstays]
    simp
  have hdrop : (escape uri ++ '"' :: rest).dropWhile (fun c => c != '"' && c != '<') =
      '"' :: rest := by
    rw [List.dropWhile_append_of_pos hstays]
    simp
  rw [quoted?, if_pos (.inl rfl), hdrop, htake]
  exact if_pos rfl

theorem Attribute.read?_declaration (uri : String) (rest : List Char) :
    Attribute.read? ("xmlns=\"".toList ++ escape uri ++ '"' :: rest) =
      some (declaration uri, rest) := by
  have hname : QualifiedName.read? ("xmlns=\"".toList ++ escape uri ++ '"' :: rest) =
      some (⟨[], ['x', 'm', 'l', 'n', 's']⟩, '=' :: '"' :: (escape uri ++ '"' :: rest)) :=
    QualifiedName.read?_append ['x', 'm', 'l', 'n', 's'] (List.all_eq_true.mp rfl) (by decide) rfl
      (.cons (by decide) _)
  have hequals : skipSpace ('=' :: '"' :: (escape uri ++ '"' :: rest)) =
      '=' :: '"' :: (escape uri ++ '"' :: rest) := rfl
  have hquote : skipSpace ('"' :: (escape uri ++ '"' :: rest)) =
      '"' :: (escape uri ++ '"' :: rest) := rfl
  simp only [Attribute.read?, hname, hequals, hquote, quoted?_escape, Option.map_some]
  rfl

theorem TagEnd.read?_open (rest : List Char) :
    TagEnd.read? ('>' :: rest) = some ⟨[], false, rest⟩ := by
  rw [TagEnd.read?]
  rfl

theorem TagEnd.read?_void (rest : List Char) :
    TagEnd.read? ('/' :: '>' :: rest) = some ⟨[], true, rest⟩ := by
  rw [TagEnd.read?]
  rfl

theorem TagEnd.read?_declaration (uri : String) {rest : List Char} {e : TagEnd}
    (hrest : TagEnd.read? rest = some e) :
    TagEnd.read? (" xmlns=\"".toList ++ escape uri ++ '"' :: rest) =
      some { e with attributes := declaration uri :: e.attributes } := by
  have hspace : skipSpace (" xmlns=\"".toList ++ escape uri ++ '"' :: rest) =
      "xmlns=\"".toList ++ escape uri ++ '"' :: rest := rfl
  have hread := Attribute.read?_declaration uri rest
  rw [← hspace] at hread
  rw [TagEnd.read?]
  split
  · rename_i heq
    cases hspace.symm.trans heq
  · rename_i heq
    cases hspace.symm.trans heq
  · rw [if_pos (by rfl)]
    split
    · rename_i hnone
      cases hread.symm.trans hnone
    · rename_i hsome
      obtain ⟨rfl, rfl⟩ := Prod.mk.inj (Option.some.inj (hread.symm.trans hsome))
      rw [hrest, Option.map_some]

def declarations (declared : Option String) : List Attribute :=
  declared.toList.map declaration

/-- A tag is read back from its name, its declaration and its end. -/
theorem start?_tagInside {name : String} (hname : Name.isIdentifier name = true)
    (declared : Option String) {close rest : List Char} {isEmpty : Bool} (hends : EndsName close)
    (hclose : TagEnd.read? close = some ⟨[], isEmpty, rest⟩) :
    start? (tagInside name declared ++ close) =
      some (.start ⟨[], name.toList⟩ (declarations declared) isEmpty, rest) := by
  cases declared with
  | none =>
      have hread := QualifiedName.read?_identifier hname close hends
      simp only [start?, tagInside, hread, hclose]
      rfl
  | some uri =>
      have htag := TagEnd.read?_declaration uri hclose
      have hread := QualifiedName.read?_identifier hname
        (" xmlns=\"".toList ++ escape uri ++ '"' :: close) (.cons (by decide) _)
      have hinside : tagInside name (some uri) ++ close =
          name.toList ++ (" xmlns=\"".toList ++ escape uri ++ '"' :: close) := by
        simp [tagInside]
      simp only [start?, hinside, hread, htag]
      rfl

/-- What begins as a name behind the sign of a tag is a start tag. -/
theorem Token.read?_start {c : Char} (hc : isNameStart c = true) (cs : List Char) :
    Token.read? ('<' :: c :: cs) = start? (c :: cs) := by
  have hbang : c ≠ '!' := by
    rintro rfl
    cases hc
  have hquestion : c ≠ '?' := by
    rintro rfl
    cases hc
  have hslash : c ≠ '/' := by
    rintro rfl
    cases hc
  rw [Token.read?.eq_def]
  split <;> simp_all

theorem exists_cons_tagInside {name : String} (hname : Name.isIdentifier name = true)
    (declared : Option String) :
    ∃ c inside, tagInside name declared = c :: inside ∧ isNameStart c = true := by
  obtain ⟨c, cs, hcs, hc⟩ := exists_cons_of_isIdentifier hname
  cases declared with
  | none | some uri =>
      rw [tagInside, hcs]
      exact ⟨c, _, rfl, hc⟩

/-- A start tag is read back. What closes it tells whether the element is empty. -/
theorem Token.read?_tagInside {name : String} (hname : Name.isIdentifier name = true)
    (declared : Option String) {close rest : List Char} {isEmpty : Bool} (hends : EndsName close)
    (hclose : TagEnd.read? close = some ⟨[], isEmpty, rest⟩) :
    Token.read? ('<' :: (tagInside name declared ++ close)) =
      some (.start ⟨[], name.toList⟩ (declarations declared) isEmpty, rest) := by
  have hstart := start?_tagInside hname declared hends hclose
  obtain ⟨c, inside, hinside, hc⟩ := exists_cons_tagInside hname declared
  rw [hinside, List.cons_append] at hstart ⊢
  rw [Token.read?_start hc, hstart]

theorem Token.read?_finish {name : String} (hname : Name.isIdentifier name = true)
    (rest : List Char) :
    Token.read? ('<' :: '/' :: (name.toList ++ '>' :: rest)) =
      some (.finish ⟨[], name.toList⟩, rest) := by
  have hread := QualifiedName.read?_identifier hname ('>' :: rest) (.cons (by decide) _)
  have hclose : skipSpace ('>' :: rest) = '>' :: rest := rfl
  have hfinish : finish? (name.toList ++ '>' :: rest) = some (.finish ⟨[], name.toList⟩, rest) := by
    simp only [finish?, hread, hclose]
  rw [Token.read?.eq_def]
  exact hfinish

/-- What does not begin with the sign of a tag is text. -/
theorem Token.read?_text {c : Char} (hc : c ≠ '<') (cs : List Char) :
    Token.read? (c :: cs) = text? (c :: cs) := by
  rw [Token.read?.eq_def]
  split <;> simp_all

theorem Token.read?_escape {s : String} (hs : s ≠ "") (rest : List Char) :
    Token.read? (escape s ++ '<' :: rest) = some (.text (escape s), '<' :: rest) := by
  have htag : ∀ c ∈ escape s, c ≠ '<' :=
    fun c hc heq => notMem_escape (by decide) s (heq ▸ hc)
  have hstays : ∀ c ∈ escape s, (c != '<') = true := fun c hc => by simp [htag c hc]
  have hcut : Text.cut? [']', ']', '>'] (escape s) = none := by
    rw [Option.eq_none_iff_forall_ne_some]
    rintro ⟨a, b⟩ hsome
    have hmem : '>' ∈ escape s := by
      rw [Text.eq_of_cut? hsome]
      simp
    exact notMem_escape (by decide) s hmem
  have htext : text? (escape s ++ '<' :: rest) = some (.text (escape s), '<' :: rest) := by
    have htake : (escape s ++ '<' :: rest).takeWhile (· != '<') = escape s := by
      rw [List.takeWhile_append_of_pos hstays]
      simp
    have hdrop : (escape s ++ '<' :: rest).dropWhile (· != '<') = '<' :: rest := by
      rw [List.dropWhile_append_of_pos hstays]
      simp
    rw [text?, htake, hdrop, hcut]
    rfl
  obtain ⟨c, cs, hcs⟩ := List.exists_cons_of_ne_nil (escape_ne_nil hs)
  rw [hcs, List.cons_append] at htext ⊢
  rw [Token.read?_text (htag c (hcs ▸ List.mem_cons_self ..)), htext]

end Tags

section Documents

/-- A text that the reader does not change: it has no characters that documents
may not hold, and no carriage returns. -/
def IsPlainText (s : String) : Prop := ∀ c ∈ s.toList, isAllowed c = true ∧ c ≠ '\r'

/-- A namespace that may be declared, and that the reader does not change. In
attribute values it changes all white space but blanks. -/
structure IsPlainNamespace (uri : String) : Prop where
  allowed : ∀ c ∈ uri.toList, isAllowed c = true
  unchanged : ∀ c ∈ uri.toList, c ∉ ['\t', '\n', '\r']
  notReserved : uri ≠ xmlNamespace ∧ uri ≠ declarationNamespace

theorem isPlainText_iff {s : String} :
    IsPlainText s ↔ (s.toList.all fun c => isAllowed c && c != '\r') = true := by
  simp only [IsPlainText, List.all_eq_true, Bool.and_eq_true, bne_iff_ne]

theorem isPlainNamespace_iff {uri : String} :
    IsPlainNamespace uri ↔
      (uri.toList.all fun c => isAllowed c && !List.contains ['\t', '\n', '\r'] c) = true ∧
        uri ≠ xmlNamespace ∧ uri ≠ declarationNamespace := by
  simp only [List.all_eq_true, Bool.and_eq_true, Bool.not_eq_true', List.contains_eq_mem,
    decide_eq_false_iff_not]
  constructor
  · intro h
    exact ⟨fun c hc => ⟨h.allowed c hc, h.unchanged c hc⟩, h.notReserved⟩
  · rintro ⟨hchars, hreserved⟩
    exact ⟨fun c hc => (hchars c hc).1, fun c hc => (hchars c hc).2, hreserved⟩

instance (s : String) : Decidable (IsPlainText s) := decidable_of_iff _ isPlainText_iff.symm

instance (uri : String) : Decidable (IsPlainNamespace uri) :=
  decidable_of_iff _ isPlainNamespace_iff.symm

/-- An element that the reader can take apart again. Texts stand alone in their
elements, as they do in what data is written as. -/
inductive Markup.IsPlain : Markup → Prop
  | void {name : String} {declared : Option String} (hname : Name.isIdentifier name = true)
      (hdeclared : ∀ uri ∈ declared, IsPlainNamespace uri) : IsPlain (.void name declared)
  | leaf {name : String} {declared : Option String} {s : String}
      (hname : Name.isIdentifier name = true)
      (hdeclared : ∀ uri ∈ declared, IsPlainNamespace uri) (htext : IsPlainText s) :
      IsPlain (.element name declared [.text s])
  | inner {name : String} {declared : Option String} {children : List Markup}
      (hname : Name.isIdentifier name = true)
      (hdeclared : ∀ uri ∈ declared, IsPlainNamespace uri)
      (hchildren : ∀ m ∈ children, IsPlain m) : IsPlain (.element name declared children)

mutual

def Markup.tokens : Markup → List Token
  | .void name declared => [.start ⟨[], name.toList⟩ (declarations declared) true]
  | .element name declared children =>
    .start ⟨[], name.toList⟩ (declarations declared) false ::
      (Markup.tokensOfAll children ++ [.finish ⟨[], name.toList⟩])
  | .text s => if s = "" then [] else [.text (escape s)]

def Markup.tokensOfAll : List Markup → List Token
  | [] => []
  | m :: ms => m.tokens ++ Markup.tokensOfAll ms

end

/-- The tokens of the text are these, and nothing is left over. Tokens that were
found before come before them. -/
def Cuts (cs : List Char) (ts : List Token) : Prop :=
  ∀ seen, tokensFrom? seen cs = some (seen.reverse ++ ts)

theorem Cuts.nil : Cuts [] [] := by
  intro seen
  rw [tokensFrom?, List.append_nil]

theorem Cuts.token {c : Char} {cs rest : List Char} {t : Token} {ts : List Token}
    (ht : Token.read? (c :: cs) = some (t, rest)) (h : Cuts rest ts) :
    Cuts (c :: cs) (t :: ts) := by
  intro seen
  rw [tokensFrom?]
  split
  · rename_i hnone
    cases ht.symm.trans hnone
  · rename_i hsome
    obtain ⟨rfl, rfl⟩ := Prod.mk.inj (Option.some.inj (ht.symm.trans hsome))
    rw [h, List.reverse_cons, List.append_assoc, List.singleton_append]

theorem Cuts.text {rest : List Char} {ts : List Token} (s : String) (h : Cuts ('<' :: rest) ts) :
    Cuts (Markup.chars (.text s) ++ '<' :: rest) (Markup.tokens (.text s) ++ ts) := by
  rw [Markup.chars, Markup.tokens]
  split
  · rename_i hempty
    subst hempty
    exact h
  · rename_i hs
    have hread := Token.read?_escape hs rest
    obtain ⟨c, cs, hcs⟩ := List.exists_cons_of_ne_nil (escape_ne_nil hs)
    rw [hcs, List.cons_append] at hread ⊢
    exact h.token hread

/-- The parts of an element are cut off after its start tag and before its end
tag. -/
theorem Cuts.element {name : String} (hname : Name.isIdentifier name = true)
    (declared : Option String) {children : List Markup}
    (hchildren : ∀ rest ts, Cuts ('<' :: rest) ts →
      Cuts (Markup.charsOfAll children ++ '<' :: rest) (Markup.tokensOfAll children ++ ts))
    {rest : List Char} {ts : List Token} (h : Cuts rest ts) :
    Cuts ((Markup.element name declared children).chars ++ rest)
      ((Markup.element name declared children).tokens ++ ts) := by
  have hfinish := hchildren _ _ (h.token (Token.read?_finish hname rest))
  have hstart := Token.read?_tagInside hname declared (.cons (by decide) _)
    (TagEnd.read?_open (Markup.charsOfAll children ++ '<' :: '/' :: (name.toList ++ '>' :: rest)))
  have hcuts := hfinish.token hstart
  simpa [Markup.chars, Markup.tokens] using hcuts

/-- What holds of all parts holds of the parts together. Each part is cut off
with the parts behind it as what follows. -/
theorem Cuts.all {ms : List Markup}
    (hms : ∀ m ∈ ms, ∀ rest ts, Cuts rest ts → Cuts (m.chars ++ rest) (m.tokens ++ ts))
    {rest : List Char} {ts : List Token} (h : Cuts rest ts) :
    Cuts (Markup.charsOfAll ms ++ rest) (Markup.tokensOfAll ms ++ ts) := by
  induction ms with
  | nil => exact h
  | cons m ms ih =>
      obtain ⟨hm, hms⟩ := List.forall_mem_cons.mp hms
      rw [Markup.charsOfAll, Markup.tokensOfAll, List.append_assoc, List.append_assoc]
      exact hm _ _ (ih hms)

/-- An element is cut into its tokens, whatever follows. The induction is on the
element, with the parts that it holds. -/
theorem Markup.IsPlain.cuts {m : Markup} (h : m.IsPlain) :
    ∀ rest ts, Cuts rest ts → Cuts (m.chars ++ rest) (m.tokens ++ ts) := by
  induction h with
  | @void name declared hname _ =>
      intro rest ts hrest
      have hcuts := hrest.token
        (Token.read?_tagInside hname declared (.cons (by decide) _) (TagEnd.read?_void rest))
      simpa [Markup.chars, Markup.tokens] using hcuts
  | @leaf name declared s hname _ _ =>
      intro rest ts hrest
      refine Cuts.element hname declared ?_ hrest
      intro rest ts hrest
      simpa [Markup.charsOfAll, Markup.tokensOfAll] using hrest.text s
  | @inner name declared children hname _ _ ih =>
      intro rest ts hrest
      refine Cuts.element hname declared ?_ hrest
      intro rest ts hrest
      exact Cuts.all ih hrest

end Documents

section Characters

theorem isAllowed_of_isAlpha {c : Char} (h : c.isAlpha = true) : isAllowed c = true := by
  have hpart : Name.isPart c = true := by simp [Name.isPart, Char.isAlphanum, h]
  exact (isNamePart_of_isPart hpart).2.1

theorem isAllowed_of_isIdentifier {name : String} (h : Name.isIdentifier name = true) :
    ∀ c ∈ name.toList, isAllowed c = true :=
  fun c hc => (isNamePart_of_isPart (Name.isPart_of_isIdentifier h c hc)).2.1

/-- Escaping keeps to the characters that documents may hold. -/
theorem isAllowed_of_mem_escape {s : String} (h : ∀ c ∈ s.toList, isAllowed c = true) :
    ∀ c ∈ escape s, isAllowed c = true := by
  intro d hd
  obtain ⟨c, hc, hd⟩ := List.mem_flatMap.mp hd
  rcases escapeChar_cases c with ⟨heq, -⟩ | ⟨name, heq, halpha, -⟩
  · rw [heq, List.mem_singleton] at hd
    exact hd ▸ h c hc
  · rw [heq, List.mem_cons, List.mem_append, List.mem_singleton] at hd
    rcases hd with rfl | hname | rfl
    · rfl
    · exact isAllowed_of_isAlpha (halpha d hname)
    · rfl

theorem isAllowed_of_mem_tagInside {name : String} (hname : Name.isIdentifier name = true)
    {declared : Option String} (hdeclared : ∀ uri ∈ declared, IsPlainNamespace uri) :
    ∀ c ∈ tagInside name declared, isAllowed c = true := by
  have hchars := isAllowed_of_isIdentifier hname
  cases declared with
  | none => exact hchars
  | some uri =>
      have huri := isAllowed_of_mem_escape (hdeclared uri rfl).allowed
      have hmark : ∀ c ∈ " xmlns=\"".toList, isAllowed c = true := List.all_eq_true.mp rfl
      have hquote : ∀ c ∈ ['"'], isAllowed c = true := List.all_eq_true.mp rfl
      simp only [tagInside, List.forall_mem_append]
      exact ⟨⟨⟨hchars, hmark⟩, huri⟩, hquote⟩

theorem isAllowed_of_mem_element {name : String} (hname : Name.isIdentifier name = true)
    {declared : Option String} (hdeclared : ∀ uri ∈ declared, IsPlainNamespace uri)
    {children : List Markup} (hchildren : ∀ c ∈ Markup.charsOfAll children, isAllowed c = true) :
    ∀ c ∈ (Markup.element name declared children).chars, isAllowed c = true := by
  have hchars := isAllowed_of_isIdentifier hname
  have hinside := isAllowed_of_mem_tagInside hname hdeclared
  simp only [Markup.chars, List.forall_mem_append, List.forall_mem_cons]
  exact ⟨⟨⟨⟨rfl, hinside⟩, rfl, hchildren⟩, rfl, rfl, hchars⟩, rfl, List.forall_mem_nil _⟩

theorem forall_mem_charsOfAll {p : Char → Prop} {ms : List Markup}
    (h : ∀ m ∈ ms, ∀ c ∈ m.chars, p c) : ∀ c ∈ Markup.charsOfAll ms, p c := by
  induction ms with
  | nil => nofun
  | cons m ms ih =>
      obtain ⟨hm, hms⟩ := List.forall_mem_cons.mp h
      rw [Markup.charsOfAll, List.forall_mem_append]
      exact ⟨hm, ih hms⟩

/-- A plain document holds only characters that documents may hold. -/
theorem Markup.IsPlain.allowed {m : Markup} (h : m.IsPlain) :
    ∀ c ∈ m.chars, isAllowed c = true := by
  induction h with
  | @void name declared hname hdeclared =>
      have hinside := isAllowed_of_mem_tagInside hname hdeclared
      simp only [Markup.chars, List.forall_mem_append, List.forall_mem_cons]
      exact ⟨⟨rfl, hinside⟩, rfl, rfl, List.forall_mem_nil _⟩
  | leaf hname hdeclared htext =>
      refine isAllowed_of_mem_element hname hdeclared ?_
      have hallowed := isAllowed_of_mem_escape fun c hc => (htext c hc).1
      simpa [Markup.charsOfAll, Markup.chars] using hallowed
  | inner hname hdeclared _ ih =>
      exact isAllowed_of_mem_element hname hdeclared (forall_mem_charsOfAll ih)

theorem Markup.IsPlain.exists_cons {m : Markup} (h : m.IsPlain) :
    ∃ c cs, m.chars = '<' :: c :: cs ∧ isNameStart c = true := by
  have hbegins : ∀ {name : String}, Name.isIdentifier name = true → ∀ declared rest,
      ∃ c cs, '<' :: (tagInside name declared ++ rest) = '<' :: c :: cs ∧ isNameStart c = true := by
    intro name hname declared rest
    obtain ⟨c, inside, hinside, hc⟩ := exists_cons_tagInside hname declared
    exact ⟨c, inside ++ rest, by rw [hinside, List.cons_append], hc⟩
  cases h with
  | void hname _ => exact hbegins hname _ _
  | leaf hname _ _ =>
      simp only [Markup.chars, List.cons_append, List.append_assoc]
      exact hbegins hname _ _
  | inner hname _ _ =>
      simp only [Markup.chars, List.cons_append, List.append_assoc]
      exact hbegins hname _ _

/-- A plain document is cut into its tokens. -/
theorem Markup.IsPlain.tokens?_written {m : Markup} (h : m.IsPlain) :
    tokens? m.written = some m.tokens := by
  have hall : m.chars.all isAllowed = true := List.all_eq_true.mpr h.allowed
  have hbody : body? m.chars = some m.chars := by
    obtain ⟨c, cs, hcs, hc⟩ := h.exists_cons
    have hquestion : c ≠ '?' := by
      rintro rfl
      cases hc
    have hdeclaration : "<?xml ".toList.isPrefixOf ('<' :: c :: cs) = false := by
      simp [List.isPrefixOf, hquestion.symm]
    have hmark : ('<' :: c :: cs).head? ≠ some '\ufeff' := by simp
    rw [hcs, body?, if_neg hmark, hdeclaration]
    rfl
  have hcuts := h.cuts [] [] .nil
  rw [List.append_nil, List.append_nil] at hcuts
  rw [tokens?, Markup.written, String.toList_ofList, if_pos hall, hbody, Option.bind_some, hcuts]
  rfl

end Characters

end Yang.Xml
