import Yang.Proofs.Codec.JsonRoundTrip
import Yang.Proofs.Codec.Payload
import Yang.Proofs.Codec.Soundness
import Yang.Proofs.Xml.ReadBack

/-!
# Comments and instructions in documents

Comments and instructions are no data, and neither are the texts between the elements of an
inner node. The literal of a leaf, however, is taken from the first child of its element only. A
comment or an instruction in the text of a leaf ends the text there, and one before the text
hides it. What is left may be a literal of the type as well, so nothing need tell that a part
is missing.

Documents are compared without asides (`Node.stripped`). Two of them that are the same decode to
the same data if in both the first child of every leaf is all of its text.
-/

namespace Yang.Xml

deriving instance DecidableEq for Token

namespace Node

/-- The character data of an element with such children: its own texts, joined,
and nothing from inside the elements among them. -/
def characterData : List Node → String
  | [] => ""
  | .text s :: rest => s ++ characterData rest
  | _ :: rest => characterData rest

/-- Put a text before children, into the text that they begin with if they do. -/
def putText (s : String) : List Node → List Node
  | .text t :: rest => .text (s ++ t) :: rest
  | rest => .text s :: rest

mutual

/-- Put a node without asides before children. -/
def putStripped : Node → List Node → List Node
  | .element ns name children, rest => .element ns name (strippedAll children) :: rest
  | .text s, rest => putText s rest
  | .aside, rest => rest

/-- Children without asides. What the asides separated is one text, as it would
be had they not been written. -/
def strippedAll : List Node → List Node
  | [] => []
  | n :: ns => n.putStripped (strippedAll ns)

end

/-- A document without asides. -/
def stripped : Node → Node
  | .element ns name children => .element ns name (strippedAll children)
  | n => n

/-- No text stands behind the first child. Empty texts are allowed there, since
they add nothing. -/
def TextInFront (children : List Node) : Prop := ∀ s, text s ∈ children.tail → s = ""

theorem leadingText_putText (s : String) (children : List Node) :
    leadingText (putText s children) = s ++ leadingText children := by
  cases children with
  | nil => simp [putText, leadingText]
  | cons n rest => cases n <;> simp [putText, leadingText]

theorem characterData_eq_empty_iff {children : List Node} :
    characterData children = "" ↔ ∀ s, text s ∈ children → s = "" := by
  induction children with
  | nil => simp [characterData]
  | cons n rest ih =>
      cases n with
      | text s => simp [characterData, String.append_eq_empty_iff, ih, or_imp, forall_and]
      | element _ _ _ => simp [characterData, ih]
      | aside => simp [characterData, ih]

/-- The text in front is all the character data exactly if no text stands behind
the first child. Only then does a leaf get all of its text. -/
theorem leadingText_eq_characterData_iff {children : List Node} :
    leadingText children = characterData children ↔ TextInFront children := by
  cases children with
  | nil => simp [leadingText, characterData, TextInFront]
  | cons n rest =>
      rw [TextInFront, List.tail_cons, ← characterData_eq_empty_iff, eq_comm]
      cases n with
      | text s =>
          rw [characterData, leadingText]
          exact String.append_eq_left_iff
      | element _ _ _ => rfl
      | aside => rfl

theorem exists_leadingText_strippedAll (children : List Node) :
    ∃ more, leadingText (strippedAll children) = leadingText children ++ more := by
  cases children with
  | nil => exact ⟨"", rfl⟩
  | cons n rest =>
      cases n with
      | text s => exact ⟨_, leadingText_putText s _⟩
      | element _ _ _ => exact ⟨"", rfl⟩
      | aside => exact ⟨_, String.empty_append.symm⟩

/-- The text in front is never more than the character data, asides or not. -/
theorem exists_characterData (children : List Node) :
    ∃ more, characterData children = leadingText (strippedAll children) ++ more := by
  induction children with
  | nil => exact ⟨"", rfl⟩
  | cons n rest ih =>
      cases n with
      | text s =>
          obtain ⟨more, hmore⟩ := ih
          refine ⟨more, ?_⟩
          rw [characterData, hmore, strippedAll, putStripped, leadingText_putText,
            String.append_assoc]
      | element _ _ _ => exact ⟨_, String.empty_append.symm⟩
      | aside => exact ih

theorem TextInFront.leadingText_strippedAll {children : List Node} (h : TextInFront children) :
    leadingText (strippedAll children) = leadingText children := by
  -- Without asides the text in front lies between what it was and all the character data.
  obtain ⟨more, hmore⟩ := exists_leadingText_strippedAll children
  obtain ⟨others, hothers⟩ := exists_characterData children
  rw [← leadingText_eq_characterData_iff.mpr h, hmore, String.append_assoc] at hothers
  have hempty : more ++ others = "" := String.append_eq_left_iff.mp hothers.symm
  rw [hmore, (String.append_eq_empty_iff.mp hempty).1, String.append_empty]

theorem filter_isElement_putText (s : String) (children : List Node) :
    (putText s children).filter isElement = children.filter isElement := by
  cases children with
  | nil => rfl
  | cons n rest => cases n <;> rfl

theorem filter_isElement_strippedAll (children : List Node) :
    (strippedAll children).filter isElement = (children.filter isElement).map stripped := by
  induction children with
  | nil => rfl
  | cons n rest ih =>
      cases n with
      | text s => exact (filter_isElement_putText s _).trans ih
      | element ns name below => exact congrArg (element ns name (strippedAll below) :: ·) ih
      | aside => exact ih

end Node

end Yang.Xml

namespace Yang.Codec

open Schema Instance

namespace Xml

variable {c : Context} {parent : NodeId}

/-- Of every element below that is read as a leaf the first child is all of its
text. Elements that are not read as leaves, or not at all, may hold texts
anywhere. -/
inductive LeavesWhole (c : Context) : NodeId → Xml.Node → Prop
  | text {parent : NodeId} (s : String) : LeavesWhole c parent (.text s)
  | aside {parent : NodeId} : LeavesWhole c parent .aside
  | unknown {parent : NodeId} {ns : Option String} {name : String} {children : List Xml.Node}
      (he : c.tree.dataChild? parent name ns = none) :
      LeavesWhole c parent (.element ns name children)
  | leaf {parent : NodeId} {ns : Option String} {name : String} {children : List Xml.Node}
      {e : ContextEntry} (he : c.tree.dataChild? parent name ns = some e)
      (hkind : ((c.tree.kind? e.node).map NodeKind.isTerminal).getD false = true)
      (front : Xml.Node.TextInFront children) : LeavesWhole c parent (.element ns name children)
  | inner {parent : NodeId} {ns : Option String} {name : String} {children : List Xml.Node}
      {e : ContextEntry} (he : c.tree.dataChild? parent name ns = some e)
      (hkind : ((c.tree.kind? e.node).map NodeKind.isTerminal).getD false ≠ true)
      (below : ∀ child ∈ children, LeavesWhole c e.node child) :
      LeavesWhole c parent (.element ns name children)

/-- The same for an element at the top level, below the module of its namespace. -/
inductive TopLeavesWhole (c : Context) : Xml.Node → Prop
  | text (s : String) : TopLeavesWhole c (.text s)
  | aside : TopLeavesWhole c .aside
  | noNamespace (name : String) (children : List Xml.Node) :
      TopLeavesWhole c (.element none name children)
  | element {ns name : String} {children : List Xml.Node}
      (below : ∀ root, c.moduleByNamespace? ns = some root →
        LeavesWhole c root (.element (some ns) name children)) :
      TopLeavesWhole c (.element (some ns) name children)

/-- The text of a leaf is the same without asides, if no text stands behind its
first child. An aside in front leaves no text either way. -/
theorem leafText_strippedAll {children : List Xml.Node} (front : Xml.Node.TextInFront children)
    (i : NodeId) : leafText c i (Xml.Node.strippedAll children) = leafText c i children := by
  rw [leafText, front.leadingText_strippedAll, leafText]

/-- Texts and asides among the children of an inner node do not matter, so white
space and comments may stand between elements. -/
theorem decodeNodes_cons {n : Xml.Node} (h : n.isElement = false) (depth : Nat)
    (ns : List Xml.Node) :
    decodeNodes c parent depth (n :: ns) = decodeNodes c parent depth ns := by
  have hnone : decodeNode c parent depth n = .ok none := by
    cases n with
    | element _ _ _ => cases h
    | text s => rfl
    | aside => rfl
  rw [decodeNodes, hnone]
  change (decodeNodes c parent depth ns >>= fun others => pure ([] ++ others)) = _
  cases decodeNodes c parent depth ns <;> rfl

theorem decodeNodes_putText (s : String) (depth : Nat) (ns : List Xml.Node) :
    decodeNodes c parent depth (Xml.Node.putText s ns) = decodeNodes c parent depth ns := by
  cases ns with
  | nil => exact decodeNodes_cons rfl depth []
  | cons n ns =>
      cases n with
      | element _ _ _ => exact decodeNodes_cons rfl depth _
      | text t =>
          rw [Xml.Node.putText, decodeNodes_cons rfl, decodeNodes_cons rfl]
      | aside => exact decodeNodes_cons rfl depth _

/-- A node among children may be replaced by the same one without asides, if it
is decoded alike. Texts that come together are passed over like texts that stand
apart. -/
theorem decodeNodes_putStripped {n : Xml.Node} {depth : Nat}
    (h : decodeNode c parent depth n.stripped = decodeNode c parent depth n)
    (rest : List Xml.Node) :
    decodeNodes c parent depth (n.putStripped rest) =
      decodeNodes c parent depth (n :: rest) := by
  cases n with
  | element ns name children =>
      rw [Xml.Node.stripped] at h
      rw [Xml.Node.putStripped, decodeNodes, h, decodeNodes]
  | text s => rw [Xml.Node.putStripped, decodeNodes_putText, decodeNodes_cons rfl]
  | aside => rw [Xml.Node.putStripped, decodeNodes_cons rfl]

theorem decodeNodes_strippedAll {ns : List Xml.Node} {depth : Nat}
    (h : ∀ n ∈ ns, decodeNode c parent depth n.stripped = decodeNode c parent depth n) :
    decodeNodes c parent depth (Xml.Node.strippedAll ns) = decodeNodes c parent depth ns := by
  induction ns with
  | nil => rfl
  | cons n ns ih =>
      obtain ⟨hn, hns⟩ := List.forall_mem_cons.mp h
      rw [Xml.Node.strippedAll, decodeNodes_putStripped hn, decodeNodes, ih hns, decodeNodes]

/-- A node is decoded as without asides if its leaves are whole. The induction
is on this condition, which has a case for each form of a node. -/
theorem LeavesWhole.decodeNode_stripped {n : Xml.Node} (h : LeavesWhole c parent n) (depth : Nat) :
    decodeNode c parent depth n.stripped = decodeNode c parent depth n := by
  induction h generalizing depth with
  | text s => rfl
  | aside => rfl
  | unknown he => rw [Xml.Node.stripped, decodeNode, he, decodeNode, he]
  | leaf he hkind front =>
      rw [Xml.Node.stripped, decodeNode, he, decodeNode, he]
      simp only [if_pos hkind, leafText_strippedAll front]
  | inner he hkind below ih =>
      rw [Xml.Node.stripped, decodeNode, he, decodeNode, he]
      simp only [if_neg hkind, decodeNodes_strippedAll fun n hn => ih n hn (depth + 1)]

theorem TopLeavesWhole.decodeTop_stripped {n : Xml.Node} (h : TopLeavesWhole c n) :
    decodeTop c n.stripped = decodeTop c n := by
  cases h with
  | text s => rfl
  | aside => rfl
  | noNamespace name children => rfl
  | @element ns name children below =>
      rw [Xml.Node.stripped, decodeTop, decodeTop]
      split
      · rfl
      · rename_i root hroot
        exact (below root hroot).decodeNode_stripped 1

/-- The elements at the top level are the same without asides, be the root a
wrapper or not. -/
theorem topElements_stripped (root : Xml.Node) :
    topElements c root.stripped = (topElements c root).map Xml.Node.stripped := by
  cases root with
  | element ns name children =>
      rw [Xml.Node.stripped, topElements, topElements]
      split
      · exact Xml.Node.filter_isElement_strippedAll children
      · rfl
  | text s => rfl
  | aside => rfl

/-- The elements at the top level have all their leaves whole. -/
def DocumentWhole (c : Context) (root : Xml.Node) : Prop :=
  ∀ x ∈ topElements c root, TopLeavesWhole c x

theorem DocumentWhole.decodeRoot_stripped {root : Xml.Node} (h : DocumentWhole c root) :
    decodeRoot c root.stripped = decodeRoot c root := by
  have htops : ∀ {xs : List Xml.Node}, (∀ x ∈ xs, TopLeavesWhole c x) →
      (xs.map Xml.Node.stripped).mapM (decodeTop c) = xs.mapM (decodeTop c) := by
    intro xs hxs
    induction xs with
    | nil => rfl
    | cons x xs ih =>
        obtain ⟨hx, hrest⟩ := List.forall_mem_cons.mp hxs
        rw [List.map_cons, List.mapM_cons, List.mapM_cons, hx.decodeTop_stripped, ih hrest]
  rw [decodeRoot, topElements_stripped, htops h, decodeRoot]

end Xml

open Codec.Xml

/-- Two documents that are the same without comments and instructions decode to
the same data, provided that in both no text of a leaf stands behind the first
child of its element. The literal of a leaf with its text in front is taken from
all the character data of the element. -/
theorem decode_of_stripped_eq {c : Context} {text text' : String} {root root' : Xml.Node}
    (hroot : Xml.Node.read? text = some root) (hroot' : Xml.Node.read? text' = some root')
    (same : root.stripped = root'.stripped) (whole : DocumentWhole c root)
    (whole' : DocumentWhole c root') :
    xml.decode c (Stream.ofText text none) = xml.decode c (Stream.ofText text' none) ∧
      ∀ i children, Xml.Node.TextInFront children →
        leafText c i children = leafText c i [.text (Xml.Node.characterData children)] := by
  constructor
  · have hdecode : decodeRoot c root = decodeRoot c root' := by
      rw [← whole.decodeRoot_stripped, same, whole'.decodeRoot_stripped]
    rw [decode_xml_ofText, decode_xml_ofText, Xml.decode, hroot, Xml.decode, hroot']
    exact congrArg (ResourceData.mk none <$> ·) hdecode
  · intro i children front
    rw [leafText, Xml.Node.leadingText_eq_characterData_iff.mpr front, leafText]
    rfl

def plainItem : String := "<item xmlns=\"urn:store\"><name>tall vase</name></item>"

/-- The item with comments behind its texts. -/
def remarkedItem : String :=
  "<item xmlns=\"urn:store\"><name>tall vase<!-- blue --></name><!-- new --></item>"

/-- The item with a comment in its name. -/
def brokenItem : String :=
  "<item xmlns=\"urn:store\"><name>tall<!-- blue --> vase</name></item>"

def itemElement (name rest : List Xml.Node) : Xml.Node :=
  .element (some "urn:store") "item" (.element (some "urn:store") "name" name :: rest)

/-- The state of the reader at the beginning of the name of an item. -/
def nameOpen : Yang.Xml.Reader where
  stack := [⟨⟨[], "name".toList⟩, some "urn:store", [([], "urn:store")], []⟩,
    ⟨⟨[], "item".toList⟩, some "urn:store", [([], "urn:store")], []⟩]

section Reading

open Yang.Xml

/-- The tags at the front of an item lead to the beginning of its name. The
state that is reached there is the same for all the items below. -/
theorem read?_of_tokens? {text : String} {rest : List Token}
    (h : tokens? text = some (.start ⟨[], "item".toList⟩ (declarations (some "urn:store")) false ::
      .start ⟨[], "name".toList⟩ (declarations none) false :: rest)) :
    Xml.Node.read? text = (rest.foldlM Reader.step nameOpen).bind Reader.complete? := by
  have hstore : ∀ uri ∈ some "urn:store", IsPlainNamespace uri := by
    intro uri huri
    obtain rfl := Option.some.inj huri
    decide
  have hnone : ∀ uri ∈ (none : Option String), IsPlainNamespace uri := nofun
  have hitem : Reader.step {} (.start ⟨[], "item".toList⟩ (declarations (some "urn:store")) false) =
      some ⟨nameOpen.stack.tail, none⟩ := by
    rw [Reader.step, Reader.open?_declarations (fun _ => rfl) "item".toList hstore]
    rfl
  have hname : Reader.step ⟨nameOpen.stack.tail, none⟩
      (.start ⟨[], "name".toList⟩ (declarations none) false) = some nameOpen := by
    rw [Reader.step, Reader.open?_declarations (fun _ => rfl) "name".toList hnone]
    rfl
  rw [Xml.Node.read?, h, Option.bind_some, Xml.Node.ofTokens?, List.foldlM_cons, hitem,
    Option.bind_eq_bind, Option.bind_some, List.foldlM_cons, hname]
  rfl

theorem read?_plainItem :
    Xml.Node.read? plainItem = some (itemElement [.text "tall vase"] []) := by
  have htokens : tokens? plainItem = some
      [.start ⟨[], "item".toList⟩ (declarations (some "urn:store")) false,
        .start ⟨[], "name".toList⟩ (declarations none) false, .text "tall vase".toList,
        .finish ⟨[], "name".toList⟩, .finish ⟨[], "item".toList⟩] := by
    decide +kernel
  exact (read?_of_tokens? htokens).trans rfl

theorem read?_remarkedItem :
    Xml.Node.read? remarkedItem = some (itemElement [.text "tall vase", .aside] [.aside]) := by
  have htokens : tokens? remarkedItem = some
      [.start ⟨[], "item".toList⟩ (declarations (some "urn:store")) false,
        .start ⟨[], "name".toList⟩ (declarations none) false, .text "tall vase".toList, .aside,
        .finish ⟨[], "name".toList⟩, .aside, .finish ⟨[], "item".toList⟩] := by
    decide +kernel
  exact (read?_of_tokens? htokens).trans rfl

theorem read?_brokenItem :
    Xml.Node.read? brokenItem =
      some (itemElement [.text "tall", .aside, .text " vase"] []) := by
  have htokens : tokens? brokenItem = some
      [.start ⟨[], "item".toList⟩ (declarations (some "urn:store")) false,
        .start ⟨[], "name".toList⟩ (declarations none) false, .text "tall".toList, .aside,
        .text " vase".toList, .finish ⟨[], "name".toList⟩, .finish ⟨[], "item".toList⟩] := by
    decide +kernel
  exact (read?_of_tokens? htokens).trans rfl

end Reading

/-- An item of the inventory has its leaves whole if the text of its name is in
front and there are only asides behind it. -/
theorem documentWhole_itemElement {name rest : List Xml.Node} (front : Xml.Node.TextInFront name)
    (asides : ∀ n ∈ rest, n = .aside) : DocumentWhole inventoryContext (itemElement name rest) := by
  intro x hx
  obtain rfl := List.mem_singleton.mp hx
  refine .element fun root hroot => ?_
  obtain rfl : 0 = root := Option.some.inj hroot
  refine .inner (e := ⟨1, none, false⟩) rfl (by decide) ?_
  refine List.forall_mem_cons.mpr ⟨.leaf (e := ⟨2, none, false⟩) rfl rfl front, ?_⟩
  intro n hn
  rw [asides n hn]
  exact .aside

/-- Comments behind the texts do not change the item. -/
theorem decode_of_stripped_eq_remarkedItem :
    Xml.Node.read? remarkedItem = some (itemElement [.text "tall vase", .aside] [.aside]) ∧
      Xml.Node.read? plainItem = some (itemElement [.text "tall vase"] []) ∧
      DocumentWhole inventoryContext (itemElement [.text "tall vase", .aside] [.aside]) ∧
      DocumentWhole inventoryContext (itemElement [.text "tall vase"] []) ∧
      xml.decode inventoryContext (Stream.ofText remarkedItem none) =
        xml.decode inventoryContext (Stream.ofText plainItem none) := by
  have whole : DocumentWhole inventoryContext
      (itemElement [.text "tall vase", .aside] [.aside]) :=
    documentWhole_itemElement (by simp [Xml.Node.TextInFront]) (by simp)
  have whole' : DocumentWhole inventoryContext (itemElement [.text "tall vase"] []) :=
    documentWhole_itemElement (by simp [Xml.Node.TextInFront]) (by simp)
  have same : (itemElement [.text "tall vase", .aside] [.aside]).stripped =
      (itemElement [.text "tall vase"] []).stripped := rfl
  exact ⟨read?_remarkedItem, read?_plainItem, whole, whole',
    (decode_of_stripped_eq read?_remarkedItem read?_plainItem same whole whole').1⟩

def namedItem (name : String) : DataNode :=
  .inner (.listEntry ⟨"item", "urn:store"⟩ [⟨⟨"name", "urn:store"⟩, .text name⟩])
    [.leaf (.plain ⟨"name", "urn:store"⟩) (.text name)]

/-- A comment in the name of the item changes the name, and with it the key of
the item. -/
theorem comment_cuts_text :
    ¬ ∀ (t : Tree) (limits : Limits) (text text' : String) (root root' : Xml.Node)
        (d : ResourceData), t.Reachable → Xml.Node.read? text = some root →
      Xml.Node.read? text' = some root' → root.stripped = root'.stripped →
      xml.decode (Context.ofTree t limits) (Stream.ofText text none) = .ok d →
      xml.decode (Context.ofTree t limits) (Stream.ofText text' none) = .ok d := by
  intro claim
  have hplain : xml.decode inventoryContext (Stream.ofText plainItem none) =
      .ok { nodes := [namedItem "tall vase"] } := by
    rw [decode_xml_ofText, Xml.decode, read?_plainItem]
    decide +kernel
  have hbroken : xml.decode inventoryContext (Stream.ofText brokenItem none) =
      .ok { nodes := [namedItem "tall"] } := by
    rw [decode_xml_ofText, Xml.decode, read?_brokenItem]
    decide +kernel
  have h := claim inventory {} plainItem brokenItem _ _ { nodes := [namedItem "tall vase"] }
    reachable_inventory read?_plainItem read?_brokenItem rfl
  rw [ofTree_inventory] at h
  have hsame := (h hplain).symm.trans hbroken
  simp [namedItem] at hsame

end Yang.Codec
