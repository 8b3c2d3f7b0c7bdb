import Yang.Proofs.Xml.Scanning

/-!
# Reading documents that were written

What a document that was written stands for is its element tree: the elements with their
names, the default namespaces in force and their texts, where an empty text leaves nothing
behind. A document is read back if a reader gets this tree from its characters.

The tokens of an element lead the reader from any state to the state with one more
element, which is the one for which the markup stands. The namespace of the element is
the declared one, or else the default namespace that was in force. So a plain document is
read as its element tree.
-/

namespace Yang.Xml

mutual

/-- The nodes that markup stands for inside an element of a namespace. -/
def Markup.trees (around : Option String) : Markup → List Node
  | .void name declared => [.element (declared.or around) name []]
  | .element name declared children =>
    [.element (declared.or around) name (Markup.treesOfAll (declared.or around) children)]
  | .text s => if s = "" then [] else [.text s]

def Markup.treesOfAll (around : Option String) : List Markup → List Node
  | [] => []
  | m :: ms => m.trees around ++ Markup.treesOfAll around ms

end

/-- The characters that are written for a document are read as its element tree.
This is what is asked of the library that reads documents. -/
def Markup.IsReadBack (m : Markup) : Prop :=
  ∃ root, m.trees none = [root] ∧ Node.read? m.written = some root

section Declarations

def scopeOf (declared : Option String) : Scope := declared.toList.map fun uri => ([], uri)

theorem lookup_scopeOf (declared : Option String) (scope : Scope) :
    (scopeOf declared ++ scope).lookup [] = declared.or (scope.lookup []) := by
  cases declared <;> rfl

/-- A namespace may be declared as the default unless it is reserved. -/
theorem declare?_declarations {declared : Option String}
    (h : ∀ uri ∈ declared, IsPlainNamespace uri) :
    declare? [] (declarations declared) = some (scopeOf declared) := by
  cases declared with
  | none => rfl
  | some uri =>
      obtain ⟨-, unchanged, hxml, hdeclaration⟩ := h uri rfl
      have hlegal : isLegalDeclaration [] uri = true := by
        simp [isLegalDeclaration, hdeclaration, hxml, reservedQualifier]
      have hvalue : value? (declaration uri).value = some uri := value?_escape unchanged
      have hqualifier : declaredQualifier? (declaration uri).name = some [] := rfl
      have hreserved : (uri == xmlNamespace) = false := beq_eq_false_iff_ne.mpr hxml
      simp only [declarations, Option.toList_some, List.map_cons, List.map_nil, declare?, hvalue,
        hqualifier, hlegal, hreserved]
      rfl

theorem attributesAreLegal_declarations (scope : Scope) (declared : Option String) :
    attributesAreLegal scope [] (declarations declared) = true := by
  cases declared <;> rfl

theorem elementNamespace?_default (scope : Scope) (name : List Char) :
    elementNamespace? scope ⟨[], name⟩ = some (scope.lookup []) := by
  rw [elementNamespace?]
  cases scope.lookup [] <;> rfl

end Declarations

namespace Reader

/-- A tag opens an element in the namespace that it declares or that is in
force. -/
theorem open?_declarations {r : Reader} (hroot : r.stack = [] → r.root = none) (name : List Char)
    {declared : Option String} (h : ∀ uri ∈ declared, IsPlainNamespace uri) :
    r.open? ⟨[], name⟩ (declarations declared) =
      some ⟨⟨[], name⟩, declared.or (r.scope.lookup []), scopeOf declared ++ r.scope, []⟩ := by
  have hstands : (r.stack.isEmpty && r.root.isSome || decide (([] : List Char) = declarationMark)) =
      false := by
    cases hstack : r.stack with
    | nil =>
        rw [hroot hstack]
        rfl
    | cons e outer => rfl
  simp only [open?, hstands, declare?_declarations h, elementNamespace?_default, lookup_scopeOf,
    attributesAreLegal_declarations, if_true]
  rfl

end Reader

section Adding

/-- The tokens of markup add one element to any state in which one may stand.
The namespace around it is that of the state. -/
def Adds (m : Markup) : Prop :=
  ∀ around, ∃ x, m.trees around = [x] ∧ ∀ r : Reader, r.scope.lookup [] = around →
    (r.stack = [] → r.root = none) →
      m.tokens.foldlM Reader.step r = some (Reader.addElement r.stack r.root x)

/-- The tokens of parts fill an open element with the nodes for which they
stand. Children are gathered in reverse order. -/
def Fills (ms : List Markup) : Prop :=
  ∀ around (e : OpenElement) outer root, e.scope.lookup [] = around → e.children = [] →
    (Markup.tokensOfAll ms).foldlM Reader.step ⟨e :: outer, root⟩ =
      some ⟨{ e with children := (Markup.treesOfAll around ms).reverse } :: outer, root⟩

theorem Adds.void (name : String) {declared : Option String}
    (h : ∀ uri ∈ declared, IsPlainNamespace uri) : Adds (.void name declared) := by
  intro around
  refine ⟨_, rfl, ?_⟩
  rintro r rfl hroot
  have hopen := Reader.open?_declarations hroot name.toList h
  rw [Markup.tokens, List.foldlM_cons, Reader.step, hopen]
  simp [OpenElement.close]

/-- An element is opened, filled and closed. Its namespace is the one that it
declares, or that of the element around it. -/
theorem Adds.element (name : String) {declared : Option String}
    (h : ∀ uri ∈ declared, IsPlainNamespace uri) {children : List Markup}
    (hchildren : Fills children) : Adds (.element name declared children) := by
  intro around
  refine ⟨_, rfl, ?_⟩
  rintro r rfl hroot
  have hopen := Reader.open?_declarations hroot name.toList h
  have hfill := hchildren _
    ⟨⟨[], name.toList⟩, declared.or (r.scope.lookup []), scopeOf declared ++ r.scope, []⟩
    r.stack r.root (lookup_scopeOf declared r.scope) rfl
  rw [Markup.tokens, List.foldlM_cons, Reader.step, hopen]
  change (Markup.tokensOfAll children ++ [Token.finish ⟨[], name.toList⟩]).foldlM Reader.step
    ⟨_ :: r.stack, r.root⟩ = _
  rw [List.foldlM_append, hfill]
  simp [Reader.step, OpenElement.close]

theorem Fills.text {s : String} (h : IsPlainText s) : Fills [.text s] := by
  intro around e outer root hscope hempty
  simp only [Markup.tokensOfAll, Markup.tokens, Markup.treesOfAll, Markup.trees, List.append_nil]
  split
  · rw [List.reverse_nil, ← hempty]
    rfl
  · have hcontent : content? (escape s) = some s :=
      content?_escape fun hmem => (h _ hmem).2 rfl
    obtain ⟨written, ns, scope, children⟩ := e
    obtain rfl : children = [] := hempty
    rw [List.foldlM_cons, Reader.step]
    simp [hcontent, Reader.addText?, Reader.addChild?]

/-- Elements are added one after the other. An open element is filled with them
in this way. -/
theorem Fills.of_adds {ms : List Markup} (h : ∀ m ∈ ms, Adds m) : Fills ms := by
  -- The elements that were added before stand in reverse before the new ones.
  have hfills : ∀ around (e : OpenElement) outer root, e.scope.lookup [] = around →
      (Markup.tokensOfAll ms).foldlM Reader.step ⟨e :: outer, root⟩ =
        some ⟨{ e with children := (Markup.treesOfAll around ms).reverse ++ e.children } :: outer,
          root⟩ := by
    intro around e outer root hscope
    induction ms generalizing e with
    | nil => rfl
    | cons m ms ih =>
        obtain ⟨hm, hms⟩ := List.forall_mem_cons.mp h
        obtain ⟨x, hx, hadds⟩ := hm around
        have hnext := hadds ⟨e :: outer, root⟩ hscope nofun
        rw [Markup.tokensOfAll, List.foldlM_append, hnext]
        refine (ih hms { e with children := x :: e.children } hscope).trans ?_
        simp [Markup.treesOfAll, hx]
  intro around e outer root hscope hempty
  rw [hfills around e outer root hscope, hempty, List.append_nil]

/-- A plain element is added to the reader wherever one may stand. The induction
is on the element. -/
theorem Markup.IsPlain.adds {m : Markup} (h : m.IsPlain) : Adds m := by
  induction h with
  | void _ hdeclared => exact .void _ hdeclared
  | leaf _ hdeclared htext => exact .element _ hdeclared (.text htext)
  | inner _ hdeclared _ ih => exact .element _ hdeclared (.of_adds ih)

end Adding

/-- A plain document is read back as its element tree. It is first cut into its
tokens, which then move the reader. -/
theorem Markup.IsPlain.isReadBack {m : Markup} (h : m.IsPlain) : m.IsReadBack := by
  obtain ⟨x, hx, hadds⟩ := h.adds none
  refine ⟨x, hx, ?_⟩
  have htokens : Node.ofTokens? m.tokens = some x := by
    rw [Node.ofTokens?, hadds {} rfl fun _ => rfl]
    rfl
  rw [Node.read?, h.tokens?_written, Option.bind_some, htokens]

end Yang.Xml
