import Yang.Proofs.Schema.Completeness

/-!
# Paths through augments

What an augment adds can be named from the module that declares it: the names down to the
target, the name of the augment, and the names from there on. The module itself has no such
node, so the path is followed from an import with the segment before the last one left out.
If a node is written in the augment itself, this segment is the name of the augment and the
node is found. Further down another name is left out, and nothing is found.
-/

namespace Yang

theorem Name.segmentMatches_of_common {segment a b : String}
    (ha : Name.segmentMatches segment a = true) (hb : Name.segmentMatches segment b = true) :
    Name.segmentMatches a b = true := by
  rw [Name.segmentMatches, beq_iff_eq] at *
  exact ha.symm.trans hb

namespace Schema.Tree

variable {t : Tree} {members : Members}

/-- Segments spell nodes: each of them matches the name of its node. -/
def Spells (t : Tree) (segments : List String) (nodes : List NodeId) : Prop :=
  List.Forall₂ (fun segment i => Name.segmentMatches segment (t.name i) = true) segments nodes

/-- No two names in a context fold alike. Then a segment that matches an entry
can mean no other. -/
def FoldsApart (t : Tree) (i : NodeId) : Prop :=
  ∀ e ∈ t.entries i, ∀ e' ∈ t.entries i,
    Name.segmentMatches (t.name e.node) (t.name e'.node) = true → e = e'

section Open

/-- Where names fold apart, an entry that a segment matches is the first one,
since no entry before it can match. -/
theorem FoldsApart.foremost {i : NodeId} (h : t.FoldsApart i) {segment : String}
    {e : ContextEntry} (he : e ∈ t.entries i) (hmatch : t.Matches segment e) :
    t.Foremost segment i e := by
  obtain ⟨before, after, hentries, hnew⟩ := List.eq_append_cons_of_mem he
  refine ⟨hmatch, before, after, hentries, ?_⟩
  intro e' he' hmatch'
  have hmem : e' ∈ t.entries i := by
    rw [hentries]
    exact List.mem_append_left _ he'
  obtain rfl := h e' hmem e he (Name.segmentMatches_of_common hmatch'.2 hmatch.2)
  exact hnew he'

/-- A way whose contexts have names that fold apart is an open chain of its
names. Nothing on it is hidden by an entry before. -/
theorem ContextPath.openChain (sound : t.Sound) {i j : NodeId} {es : List ContextEntry}
    (h : t.ContextPath i es j) {segments : List String}
    (spells : t.Spells segments (es.map ContextEntry.node))
    (apart : ∀ k ∈ (i :: es.map ContextEntry.node).dropLast, t.FoldsApart k) :
    t.OpenChain i segments es := by
  induction h generalizing segments with
  | nil i =>
      obtain rfl := List.forall₂_nil_right_iff.mp spells
      exact .nil i
  | @cons i j id e es he rest ih =>
      obtain ⟨segment, segments, hsegment, hrest, rfl⟩ := List.forall₂_cons_right_iff.mp spells
      rw [List.map_cons, List.dropLast_cons_cons] at apart
      have hmatch : t.Matches segment e := by
        obtain ⟨n, hn, hdata, -⟩ := ((sound.mem_context_iff _ _ _).mp he).data
        exact ⟨⟨n.kind, kind?_of_node? hn, hdata⟩, hsegment⟩
      have hfirst :=
        (apart i (List.mem_cons_self ..)).foremost (mem_entries_iff.mpr ⟨id, he⟩) hmatch
      exact .cons hfirst (ih hrest fun k hk => apart k (List.mem_cons_of_mem _ hk))

theorem Rooted.follow?_eq_none (h : t.Rooted) {i : NodeId} {segments : List String}
    (hnone : ∀ es, ¬t.Chain members i segments es) : t.follow? members i segments = none := by
  rw [Option.eq_none_iff_forall_ne_some]
  intro info hfollow
  obtain ⟨es, hchain, -⟩ := h.chain_of_follow? hfollow
  exact hnone es hchain

end Open

section Augmented

/-- A node below an augment as its path describes it: `module` declares the
augment and imports `base`, from where the entries `above` lead to the target.
The node `child` is written in the augment, and the entries `below` lead from it
to the node. -/
structure Augmented (t : Tree) (module base augment : NodeId) (above : List ContextEntry)
    (child : NodeId) (below : List ContextEntry) (node : NodeId) : Prop where
  declared : t.parent? augment = some module
  imported : base ∈ t.imports module
  target : ∃ n target, t.node? augment = some n ∧ n.target? = some target ∧
    t.ContextPath base above target
  written : t.parent? child = some augment
  data : ∃ k, t.kind? child = some k ∧ k.isData = true
  below : t.ContextPath child below node

/-- What is written in an augment belongs to the context of the target. The
target is a data node, so the search ends there. -/
theorem Rooted.holderOf_augment (h : t.Rooted) {augment target : NodeId} {n : Node}
    (hn : t.node? augment = some n) (htarget : n.target? = some target) :
    t.holderOf augment = (target, some augment) := by
  obtain ⟨-, o, ho, haugmentable⟩ := h.exists_target (outline?_of_node? hn) htarget
  have hkind : t.kind? target = some o.kind := by rw [kind?_eq, ho, Option.map_some]
  have stops : o.kind ≠ .choice ∧ o.kind ≠ .case ∧ o.kind ≠ .augment := by
    refine ⟨?_, ?_, ?_⟩ <;> (intro hk; rw [hk] at haugmentable; cases haugmentable)
  exact h.holderOf_of_heldBy (.augment hn htarget (.here hkind stops))

/-- From the base a way leads through the target to what is written in the
augment. The augment itself is no step on it but the switch of the last one. -/
theorem Augmented.contextPath {module base augment child node : NodeId}
    {above below : List ContextEntry} (h : t.Augmented module base augment above child below node)
    (sound : t.Sound) :
    ∃ e, e.node = child ∧ e.switch = some augment ∧ t.ContextPath base (above ++ [e]) child := by
  obtain ⟨n, target, hn, htarget, habove⟩ := h.target
  obtain ⟨k, hk, hdata⟩ := h.data
  obtain ⟨c, hc, rfl⟩ := Option.map_eq_some_iff.mp hk
  obtain ⟨parent, _, hparent, _, _, hreg⟩ := sound.rooted.registered hc hdata
  obtain rfl : parent = augment := by
    have hwritten := h.written
    rw [parent?_of_node? hc, hparent] at hwritten
    exact Option.some.inj hwritten
  rw [placeOf, sound.rooted.holderOf_augment hn htarget] at hreg
  exact ⟨_, rfl, rfl, habove.append (.cons ((sound.mem_context_iff _ _ _).mpr hreg) (.nil _))⟩

theorem Spells.exists_append {segments : List String} {nodes : List NodeId} {i j : NodeId}
    (h : t.Spells segments (nodes ++ [i, j])) :
    ∃ start a b, segments = start ++ [a, b] ∧ t.Spells start nodes ∧
      Name.segmentMatches b (t.name j) = true := by
  have hstart := List.forall₂_take_append _ _ _ h
  have hend := List.forall₂_drop_append _ _ _ h
  obtain ⟨a, rest, -, hrest, hdrop⟩ := List.forall₂_cons_right_iff.mp hend
  obtain ⟨b, nothing, hb, hnothing, rfl⟩ := List.forall₂_cons_right_iff.mp hrest
  obtain rfl := List.forall₂_nil_right_iff.mp hnothing
  exact ⟨_, a, b, by rw [← hdrop, List.take_append_drop], hstart, hb⟩

/-- Where segments lead anywhere from one import at most, all the imports
together give what this one gives. -/
theorem findSome?_imports_eq {module base : NodeId} {segments : List String}
    (h : base ∈ t.imports module)
    (others : ∀ m ∈ t.imports module, m ≠ base → t.follow? members m segments = none) :
    ((t.imports module).findSome? fun i => t.follow? members i segments) =
      t.follow? members base segments := by
  cases hbase : t.follow? members base segments with
  | none =>
      rw [List.findSome?_eq_none_iff]
      intro m hm
      by_cases hother : m = base
      · rw [hother, hbase]
      · exact others m hm hother
  | some e =>
      obtain ⟨info, hfound⟩ : ∃ info,
          ((t.imports module).findSome? fun i => t.follow? members i segments) = some info := by
        rw [← Option.isSome_iff_exists, List.findSome?_isSome_iff]
        exact ⟨base, h, by rw [hbase]; rfl⟩
      obtain ⟨m, hm, hfollow⟩ := List.exists_of_findSome?_eq_some hfound
      by_cases hother : m = base
      · rw [hfound, ← hfollow, hother, hbase]
      · rw [others m hm hother] at hfollow
        cases hfollow

/-- A path through an augment that nothing else matches, from the module that
declares the augment. A node that is written in the augment itself is found
through the import with the target, and a node further down is not found. -/
theorem resolve_augmented (reachable : t.Reachable) (members : Members) (limits : Limits)
    (path : Path) {module base augment child node : NodeId} {above below : List ContextEntry}
    (h : t.Augmented module base augment above child below node) {collapsed : List String}
    (spells : t.Spells path.segments
      (above.map ContextEntry.node ++ augment :: child :: below.map ContextEntry.node))
    (collapses : Collapses path.segments collapsed)
    (hdepth : path.segments.length ≤ limits.bound .pathDepth)
    (apart : ∀ i ∈ base :: above.map ContextEntry.node, t.FoldsApart i)
    (direct : ∀ es, ¬t.Chain members module path.segments es)
    (others : ∀ m ∈ t.imports module, m ≠ base → ∀ es, ¬t.Chain members m collapsed es) :
    (below = [] → ∃ info, t.resolve members limits path module = .ok info ∧
      info.node = node ∧ info.switch = some augment) ∧
    (below ≠ [] → (∀ es, ¬t.Chain members base collapsed es) →
      t.resolve members limits path module = .error (.path (.noMatch path.text))) := by
  have sound := reachable.sound
  have hne : path.segments ≠ [] := by
    intro hnil
    rw [hnil] at spells
    simpa using spells.length_eq
  have hdirect := sound.rooted.follow?_eq_none direct
  have himports : ((t.imports module).findSome? fun i => t.follow? members i collapsed) =
      t.follow? members base collapsed := by
    refine findSome?_imports_eq h.imported ?_
    intro m hm hother
    exact sound.rooted.follow?_eq_none (others m hm hother)
  rw [resolve_eq module hne hdepth, hdirect, Option.none_or, ← collapses.eq_collapse, himports]
  constructor
  · rintro rfl
    obtain ⟨e, rfl, hswitch, hway⟩ := h.contextPath sound
    obtain ⟨start, a, b, hsegments, hstart, hb⟩ := spells.exists_append
    -- The name of the augment is the one that is left out.
    obtain rfl : collapsed = start ++ [b] := by
      rw [collapses.eq_collapse, hsegments, collapse_append]
    have hopen : t.OpenChain base (start ++ [b]) (above ++ [e]) := by
      refine hway.openChain sound ?_ ?_
      · rw [List.map_append]
        exact List.rel_append hstart (.cons hb .nil)
      · intro i hi
        rw [List.map_append, ← List.cons_append, List.map_singleton, List.dropLast_concat] at hi
        exact apart i hi
    have hbase : t.follow? members base (start ++ [b]) = some e :=
      hopen.follow? sound.rooted List.getLast?_concat
    rw [hbase]
    cases h.below
    exact ⟨e, rfl, rfl, hswitch⟩
  · intro _ hbase
    rw [sound.rooted.follow?_eq_none hbase]

/-- A module that adds labels with a text to the shelves of another one. -/
def storage : Tree :=
  [.module "store" "urn:store" "s" none, .container 0 "shelf",
    .module "labels" "urn:labels" "l" none, .importModule 2 0, .augment 2 "shelf-labels" 1,
    .container 3 "label", .leaf 4 "text" (.builtin .string none)].foldl Tree.after {}

theorem reachable_storage : storage.Reachable := Reachable.empty.foldl_after _

theorem foldsApart_of_singleton {i : NodeId} {e : ContextEntry} (h : t.entries i = [e]) :
    t.FoldsApart i := by
  intro a ha b hb _
  rw [h] at ha hb
  rw [List.mem_singleton.mp ha, List.mem_singleton.mp hb]

theorem foldsApart_storage : ∀ i ∈ [0, 1, 4], storage.FoldsApart i := by
  have hstore : storage.entries 0 = [⟨1, none, false⟩] := by decide +kernel
  have hshelf : storage.entries 1 = [⟨4, some 3, false⟩] := by decide +kernel
  have hlabel : storage.entries 4 = [⟨5, none, false⟩] := by decide +kernel
  simp [foldsApart_of_singleton hstore, foldsApart_of_singleton hshelf,
    foldsApart_of_singleton hlabel]

theorem not_chain_storage (segment : String) (segments : List String)
    (es : List ContextEntry) : ¬storage.Chain members 2 (segment :: segments) es := by
  have hcontext : storage.context 2 = [] := by decide +kernel
  have hkind : storage.kind? 2 = some .module := by decide +kernel
  intro h
  cases h with
  | cons leads _ =>
      cases leads with
      | entry he _ =>
          rw [hcontext] at he
          cases he
      | member hanydata => simp [hkind] at hanydata

theorem augmented_storage {below : List ContextEntry} {node : NodeId}
    (hbelow : storage.ContextPath 4 below node) :
    storage.Augmented 2 0 3 [⟨1, none, false⟩] 4 below node where
  declared := by decide +kernel
  imported := by
    have himports : storage.imports 2 = [0] := by decide +kernel
    simp [himports]
  target := by
    have hshelf : storage.entry? 0 ⟨"shelf", "urn:store"⟩ = some ⟨1, none, false⟩ := by
      decide +kernel
    have htarget : (storage.node? 3).bind Node.target? = some 1 := by decide +kernel
    obtain ⟨n, hn, htarget⟩ := Option.bind_eq_some_iff.mp htarget
    exact ⟨n, 1, hn, htarget, .cons (Tree.mem_context_of_entry? hshelf) (.nil 1)⟩
  written := by decide +kernel
  data := ⟨.container, by decide +kernel, rfl⟩
  below := hbelow

theorem others_storage (segments : List String) :
    ∀ m ∈ storage.imports 2, m ≠ 0 → ∀ es, ¬storage.Chain members m segments es := by
  have himports : storage.imports 2 = [0] := by decide +kernel
  simp [himports]

/-- The text of a label is below the augment, and nothing else could be meant by
its path, but the path is not resolved. -/
theorem storage_unresolved :
    storage.Reachable ∧
      storage.Augmented 2 0 3 [⟨1, none, false⟩] 4 [⟨5, none, false⟩] 5 ∧
      storage.Spells ["shelf", "shelf-labels", "label", "text"] [1, 3, 4, 5] ∧
      Collapses ["shelf", "shelf-labels", "label", "text"] ["shelf", "shelf-labels", "text"] ∧
      ["shelf", "shelf-labels", "label", "text"].length ≤ ({} : Limits).bound .pathDepth ∧
      (∀ i ∈ [0, 1, 4], storage.FoldsApart i) ∧
      (∀ es, ¬storage.Chain (fun _ => []) 2 ["shelf", "shelf-labels", "label", "text"] es) ∧
      (∀ m ∈ storage.imports 2, m ≠ 0 → ∀ segments es,
        ¬storage.Chain (fun _ => []) m segments es) ∧
      storage.resolve (fun _ => []) {}
          ⟨"labels", none, ["shelf", "shelf-labels", "label", "text"]⟩ 2 =
        .error (.path (.noMatch "labels/shelf/shelf-labels/label/text")) := by
  have htext : storage.entry? 4 ⟨"text", "urn:labels"⟩ = some ⟨5, none, false⟩ := by decide +kernel
  have hbelow : storage.ContextPath 4 [⟨5, none, false⟩] 5 :=
    .cons (Tree.mem_context_of_entry? htext) (.nil 5)
  refine ⟨reachable_storage, augmented_storage hbelow, ?_, .last ["shelf", "shelf-labels"] _ _,
    by decide, foldsApart_storage, not_chain_storage _ _, ?_, by decide +kernel⟩
  · refine .cons ?_ (.cons ?_ (.cons ?_ (.cons ?_ .nil))) <;> decide +kernel
  · intro m hm hother segments
    exact others_storage segments m hm hother

/-- A label itself is found through the import. -/
theorem resolve_augmented_storage :
    ∃ info, storage.resolve (fun _ => []) {} ⟨"labels", none, ["Shelf", "ShelfLabels", "Label"]⟩ 2 =
      .ok info ∧ info.node = 4 ∧ info.switch = some 3 := by
  have spells : storage.Spells ["Shelf", "ShelfLabels", "Label"] [1, 3, 4] := by
    refine .cons ?_ (.cons ?_ (.cons ?_ .nil)) <;> decide +kernel
  refine (resolve_augmented reachable_storage (fun _ => []) {}
    ⟨"labels", none, ["Shelf", "ShelfLabels", "Label"]⟩ (augmented_storage (.nil 4)) spells
    (.last ["Shelf"] _ _) (by decide) ?_ (not_chain_storage _ _) (others_storage _)).1 rfl
  intro i hi
  exact foldsApart_storage i (List.mem_append_left [4] hi)

end Augmented

end Schema.Tree

end Yang
