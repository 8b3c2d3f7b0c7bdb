import Yang.Proofs.Schema.Invariant

/-!
# The forest of contexts

The contexts of a tree link its data nodes to a second forest, whose roots are the
modules. `Tree.HeldBy` describes independently of the tree's own search how the place
of a data node in this forest comes from the place where it is written: choices and
cases are skipped, and an augment continues at its target. `Tree.ContextPath` is a way
down in the forest.

`Tree.Forest` gathers what a reader of a schema tree relies on, and it holds after any
statements in any order, whether they fail or not.
-/

namespace Yang.Schema

namespace Tree

/-- The node that is reached by skipping choices, cases and augments, and the
first case or augment that is skipped. It says what the search for a holder
finds without saying in which order numbers go. -/
inductive HeldBy (t : Tree) : NodeId → NodeId → Option NodeId → Prop
  | here {i : NodeId} {k : NodeKind} (hkind : t.kind? i = some k)
      (stops : k ≠ .choice ∧ k ≠ .case ∧ k ≠ .augment) : HeldBy t i i none
  | choice {i parent holder : NodeId} {switch : Option NodeId} (hkind : t.kind? i = some .choice)
      (hparent : t.parent? i = some parent) (above : HeldBy t parent holder switch) :
      HeldBy t i holder switch
  | case {i parent holder : NodeId} {switch : Option NodeId} (hkind : t.kind? i = some .case)
      (hparent : t.parent? i = some parent) (above : HeldBy t parent holder switch) :
      HeldBy t i holder (some i)
  | augment {i target holder : NodeId} {switch : Option NodeId} {n : Node}
      (hn : t.node? i = some n) (htarget : n.target? = some target)
      (above : HeldBy t target holder switch) : HeldBy t i holder (some i)

/-- A way from a node through the contexts, by the entries on it. This is how
instance data meets the schema, without choices, cases and augments. -/
inductive ContextPath (t : Tree) : NodeId → List ContextEntry → NodeId → Prop
  | nil (i : NodeId) : ContextPath t i [] i
  | cons {i j : NodeId} {id : SchemaId} {e : ContextEntry} {es : List ContextEntry}
      (he : (id, e) ∈ t.context i) (rest : ContextPath t e.node es j) : ContextPath t i (e :: es) j

/-- What climbing in a tree and its contexts amount to. The functions that climb
have a guard against endless loops, which never takes effect in such a tree. -/
structure Forest (t : Tree) : Prop where
  /-- A node comes after its parent. -/
  parent_lt : ∀ i parent, t.parent? i = some parent → parent < i
  /-- An augment comes after its target. -/
  target_lt : ∀ i n target, t.node? i = some n → n.target? = some target → target < i
  /-- Climbing to the module follows every parent. -/
  moduleOf_eq : ∀ i, t.moduleOf i = (t.parent? i).elim i t.moduleOf
  lineage_eq : ∀ i, t.lineage i = i :: (t.parent? i).elim [] t.lineage
  /-- Searching the holder follows every choice, case and augment. -/
  holderOf_eq_iff : ∀ i n holder switch, t.node? i = some n →
    (t.holderOf i = (holder, switch) ↔ t.HeldBy i holder switch)
  /-- Climbing ends at a module with the namespace of the node. -/
  module : ∀ i n, t.node? i = some n →
    t.kind? (t.moduleOf i) = some .module ∧ t.ns (t.moduleOf i) = n.id.ns
  /-- Contexts hold data nodes, each under its own identifier. -/
  data : ∀ holder id e, (id, e) ∈ t.context holder →
    ∃ n, t.node? e.node = some n ∧ n.kind.isData = true ∧ n.id = id
  nodup : ∀ holder, ((t.context holder).map Prod.fst).Nodup
  /-- A data node has one entry in the whole tree. It stands in the context of the
  holder of its parent, tells whether this is the parent itself, and whether it is an
  anydata node. -/
  entry : ∀ j n, t.node? j = some n → n.kind.isData = true →
    ∃ parent holder e, n.parent = some parent ∧ t.HeldBy parent holder e.switch ∧
      (n.id, e) ∈ t.context holder ∧ e.node = j ∧ (e.switch = none ↔ parent = holder) ∧
      (e.underAnydata = true ↔ t.kind? holder = some .anydata) ∧
      ∀ holder' id' e', (id', e') ∈ t.context holder' → e'.node = j →
        holder' = holder ∧ id' = n.id ∧ e' = e
  /-- A data node is reached from one module, on one way. -/
  path : ∀ j n, t.node? j = some n → n.kind.isData = true →
    ∃ m es, t.kind? m = some .module ∧ t.ContextPath m es j ∧
      ∀ m' es', t.kind? m' = some .module → t.ContextPath m' es' j → m' = m ∧ es' = es
  /-- Looking up a name in a namespace finds the entry for that identifier. -/
  dataChild?_eq : ∀ i name ns, t.dataChild? i name (some ns) = t.entry? i ⟨name, ns⟩

section Sound

variable {t : Tree}

/-- The search for the holder follows the choices, cases and augments. Its guard
is never met, because each of them has something above it with a lower number. -/
theorem Rooted.heldBy (h : t.Rooted) {i : NodeId} {n : Node} (hn : t.node? i = some n) :
    t.HeldBy i (t.holderOf i).1 (t.holderOf i).2 := by
  induction i using Nat.strongRecOn generalizing n with
  | ind i ih =>
      have ho := outline?_of_node? hn
      have hkind : t.kind? i = some n.kind := kind?_of_node? hn
      have hparent := parent?_of_node? hn
      rw [h.holderOf_eq i]
      cases hnext : t.redirect? i with
      | none => exact .here hkind (h.stops ho hnext)
      | some next =>
          obtain ⟨o, hnode⟩ := h.exists_redirect hnext
          obtain ⟨n', hn', -⟩ := Option.map_eq_some_iff.mp hnode
          have above := ih next (h.redirect?_lt hnext) hn'
          rw [redirect?_of_node? hn, Outline.redirect?_eq_some_iff] at hnext
          rw [Option.elim_some, isSwitch, hkind]
          rcases hnext with ⟨hk, hp⟩ | ⟨hk, hp⟩ | ⟨hk, hp⟩
          · obtain hk : n.kind = .choice := hk
            rw [hk] at hkind ⊢
            exact .choice hkind (hparent.trans hp) above
          · obtain hk : n.kind = .case := hk
            rw [hk] at hkind ⊢
            exact .case hkind (hparent.trans hp) above
          · obtain hk : n.kind = .augment := hk
            rw [hk]
            exact .augment hn hp above

theorem Rooted.holderOf_of_heldBy (h : t.Rooted) {i holder : NodeId} {switch : Option NodeId}
    (hheld : t.HeldBy i holder switch) : t.holderOf i = (holder, switch) := by
  induction hheld with
  | @here i k hkind stops =>
      obtain ⟨o, ho, rfl⟩ := exists_outline_of_kind? hkind
      rw [h.holderOf_eq, redirect?_eq, ho, Option.bind_some, Outline.redirect?]
      split <;> simp_all
  | @choice i parent holder switch hkind hparent _ ih =>
      obtain ⟨n, hn, hk⟩ := Option.map_eq_some_iff.mp hkind
      have hredirect : t.redirect? i = some parent := by
        rw [redirect?_of_node? hn, Outline.redirect?_eq_some_iff]
        exact .inl ⟨hk, (parent?_of_node? hn).symm.trans hparent⟩
      rw [h.holderOf_eq, hredirect, Option.elim_some, ih, isSwitch, hkind]
      rfl
  | @case i parent holder switch hkind hparent _ ih =>
      obtain ⟨n, hn, hk⟩ := Option.map_eq_some_iff.mp hkind
      have hredirect : t.redirect? i = some parent := by
        rw [redirect?_of_node? hn, Outline.redirect?_eq_some_iff]
        exact .inr (.inl ⟨hk, (parent?_of_node? hn).symm.trans hparent⟩)
      rw [h.holderOf_eq, hredirect, Option.elim_some, ih, isSwitch, hkind]
      rfl
  | @augment i target holder switch n hn htarget _ ih =>
      have hk : n.kind = .augment := n.target_outline.mpr ⟨target, htarget⟩
      have hredirect : t.redirect? i = some target := by
        rw [redirect?_of_node? hn, Outline.redirect?_eq_some_iff]
        exact .inr (.inr ⟨hk, htarget⟩)
      rw [h.holderOf_eq, hredirect, Option.elim_some, ih, isSwitch, kind?_of_node? hn, hk]
      rfl

/-- A node in which a data node is written is the holder of its own entries, or
a case or an augment. -/
theorem Rooted.switch_eq_none_iff (h : t.Rooted) {parent : NodeId} {above : Outline} {k : NodeKind}
    (habove : t.outline? parent = some above) (placed : above.kind.mayHold k = true)
    (hdata : k.isData = true) :
    (t.holderOf parent).2 = none ↔ parent = (t.holderOf parent).1 := by
  rw [h.holderOf_eq parent]
  cases hnext : t.redirect? parent with
  | none => simp
  | some next =>
      rw [Option.elim_some]
      have hswitch : t.isSwitch parent = true := by
        rw [redirect?_eq, habove, Option.bind_some, Outline.redirect?_eq_some_iff] at hnext
        rw [isSwitch_eq, habove]
        rcases hnext with ⟨hk, _⟩ | ⟨hk, _⟩ | ⟨hk, _⟩
        · rw [hk] at placed
          cases k <;> simp_all [NodeKind.mayHold, NodeKind.isTerminal, NodeKind.isData]
        · simp [hk]
        · simp [hk]
      have hlt := Nat.lt_of_le_of_lt (holderOf_le t next) (h.redirect?_lt hnext)
      simp [hswitch, Nat.ne_of_gt hlt]

theorem not_mayHold_anydata (k : NodeKind) : NodeKind.anydata.mayHold k = false := by
  cases k <;> rfl

theorem Rooted.underAnydata_iff (h : t.Rooted) {parent : NodeId} {above : Outline} {k : NodeKind}
    (habove : t.outline? parent = some above) (placed : above.kind.mayHold k = true)
    (hdata : k.isData = true) (i : NodeId) :
    (t.placeOf parent i).2.underAnydata = true ↔
      t.kind? (t.placeOf parent i).1 = some .anydata := by
  simp only [placeOf, Bool.and_eq_true, beq_iff_eq, and_iff_right_iff_imp]
  intro hanydata
  rw [Option.isSome_iff_ne_none]
  intro hnone
  rw [← (h.switch_eq_none_iff habove placed hdata).mp hnone, kind?_eq, habove] at hanydata
  obtain hk : above.kind = .anydata := Option.some.inj hanydata
  rw [hk, not_mayHold_anydata] at placed
  cases placed

theorem Registered.data {holder : NodeId} {id : SchemaId} {e : ContextEntry}
    (h : t.Registered holder id e) :
    ∃ n, t.node? e.node = some n ∧ n.kind.isData = true ∧ n.id = id := by
  obtain ⟨o, _, ho, hid, hdata, _⟩ := h
  obtain ⟨n, hn, rfl⟩ := Option.map_eq_some_iff.mp ho
  exact ⟨n, hn, hdata, hid⟩

/-- A data node belongs to one context, with one entry. Both can be told from
the node, by its parent and the holder of this. -/
theorem Registered.unique {holder holder' : NodeId} {id id' : SchemaId} {e e' : ContextEntry}
    (h : t.Registered holder id e) (h' : t.Registered holder' id' e') (hnode : e'.node = e.node) :
    holder' = holder ∧ id' = id ∧ e' = e := by
  obtain ⟨o, parent, ho, rfl, -, hparent, hplace⟩ := h
  obtain ⟨o', parent', ho', rfl, -, hparent', hplace'⟩ := h'
  rw [hnode, ho] at ho'
  obtain rfl := Option.some.inj ho'
  rw [hparent] at hparent'
  obtain rfl := Option.some.inj hparent'
  rw [hnode, hplace] at hplace'
  obtain ⟨rfl, rfl⟩ := Prod.mk.inj hplace'
  exact ⟨rfl, rfl, rfl⟩

/-- A data node stands below the node to whose context it belongs, also in
number. Ways through contexts are therefore finite. -/
theorem Rooted.holder_lt (h : t.Rooted) {holder : NodeId} {id : SchemaId} {e : ContextEntry}
    (he : t.Registered holder id e) : holder < e.node := by
  obtain ⟨o, parent, ho, -, -, hparent, hplace⟩ := he
  have hlt : parent < e.node := h.parent?_lt (by rw [parent?_eq, ho]; exact hparent)
  obtain rfl : (t.holderOf parent).1 = holder := (Prod.mk.inj hplace).1
  exact Nat.lt_of_le_of_lt (holderOf_le t parent) hlt

/-- Every data node belongs to a context, which is found from the parent in
which it is written. -/
theorem Rooted.registered (h : t.Rooted) {j : NodeId} {n : Node} (hn : t.node? j = some n)
    (hdata : n.kind.isData = true) :
    ∃ parent above, n.parent = some parent ∧ t.outline? parent = some above ∧
      above.kind.mayHold n.kind = true ∧
      t.Registered (t.placeOf parent j).1 n.id (t.placeOf parent j).2 := by
  have ho := outline?_of_node? hn
  have hmodule : n.kind ≠ .module := by
    intro hk
    rw [hk] at hdata
    cases hdata
  obtain ⟨parent, above, hparent, habove, placed⟩ := h.exists_above ho hmodule
  exact ⟨parent, above, hparent, habove, placed, n.outline, parent, ho, rfl, hdata, hparent, rfl⟩

end Sound

section Paths

variable {t : Tree}

theorem ContextPath.append {i j k : NodeId} {es es' : List ContextEntry}
    (h : t.ContextPath i es j) (h' : t.ContextPath j es' k) : t.ContextPath i (es ++ es') k := by
  induction h with
  | nil i => exact h'
  | cons he _ ih => exact .cons he (ih h')

theorem ContextPath.last {i j : NodeId} {es : List ContextEntry} (h : t.ContextPath i es j) :
    es = [] ∧ i = j ∨
      ∃ es' holder id e, es = es' ++ [e] ∧ t.ContextPath i es' holder ∧
        (id, e) ∈ t.context holder ∧ e.node = j := by
  induction h with
  | nil i => exact .inl ⟨rfl, rfl⟩
  | @cons i j id e es he rest ih =>
      right
      rcases ih with ⟨rfl, hj⟩ | ⟨es', holder, id', e', rfl, hpath, he', hj⟩
      · exact ⟨[], i, id, e, rfl, .nil i, he, hj⟩
      · exact ⟨e :: es', holder, id', e', rfl, .cons he hpath, he', hj⟩

/-- There is one way from a module to a node, because the last entry on it is
the only one of the node. -/
theorem Sound.path_unique (h : t.Sound) {j m m' : NodeId} {es es' : List ContextEntry}
    (hm : t.kind? m = some .module) (hm' : t.kind? m' = some .module)
    (hpath : t.ContextPath m es j) (hpath' : t.ContextPath m' es' j) : m' = m ∧ es' = es := by
  have not_module : ∀ {holder id e}, (id, e) ∈ t.context holder →
      t.kind? e.node ≠ some .module := by
    intro holder id e he hk
    obtain ⟨n, hn, hdata, _⟩ := ((h.mem_context_iff _ _ _).mp he).data
    rw [kind?_of_node? hn, Option.some.injEq] at hk
    rw [hk] at hdata
    cases hdata
  -- Both ways have the same last step, so the rest of them ends at the same holder.
  induction j using Nat.strongRecOn generalizing es es' with
  | ind j ih =>
      rcases hpath.last with ⟨rfl, rfl⟩ | ⟨es₁, holder, id, e, rfl, hrest, he, rfl⟩
      · rcases hpath'.last with ⟨rfl, rfl⟩ | ⟨_, _, _, e', _, _, he', rfl⟩
        · exact ⟨rfl, rfl⟩
        · exact absurd hm (not_module he')
      · rcases hpath'.last with ⟨_, rfl⟩ | ⟨es₂, holder', id', e', rfl, hrest', he', hnode⟩
        · exact absurd hm' (not_module he)
        · have hreg := (h.mem_context_iff _ _ _).mp he
          obtain ⟨rfl, -, rfl⟩ := hreg.unique ((h.mem_context_iff _ _ _).mp he') hnode
          obtain ⟨rfl, rfl⟩ := ih holder' (h.rooted.holder_lt hreg) hrest hrest'
          exact ⟨rfl, rfl⟩

/-- Every data node is reached from a module. The induction is on the number of
the node, as its holder has a lower one. -/
theorem Sound.exists_path (h : t.Sound) {j : NodeId} {n : Node} (hn : t.node? j = some n)
    (hdata : n.kind.isData = true) :
    ∃ m es, t.kind? m = some .module ∧ t.ContextPath m es j := by
  induction j using Nat.strongRecOn generalizing n with
  | ind j ih =>
      obtain ⟨parent, above, _, habove, _, hreg⟩ := h.rooted.registered hn hdata
      have he := (h.mem_context_iff _ _ _).mpr hreg
      have last : t.ContextPath (t.placeOf parent j).1 [(t.placeOf parent j).2] j :=
        .cons he (.nil _)
      obtain ⟨k, hk, hmodule | hholder⟩ := h.rooted.kind?_holderOf habove
      · rw [hmodule] at hk
        exact ⟨_, _, hk, last⟩
      · obtain ⟨n', hn', rfl⟩ := Option.map_eq_some_iff.mp hk
        obtain ⟨m, es, hm, hpath⟩ := ih _ (h.rooted.holder_lt hreg) hn' hholder
        exact ⟨m, _, hm, hpath.append last⟩

end Paths

section Lookup

variable {t : Tree}

/-- An entry is found by its node as by its identifier, if the two agree in a
context. -/
theorem find?_entries_eq_lookup {context : List (SchemaId × ContextEntry)}
    (h : ∀ id e, (id, e) ∈ context → t.name e.node = id.name ∧ t.ns e.node = id.ns)
    (name ns : String) :
    ((context.map Prod.snd).find? fun e => t.name e.node == name && t.ns e.node == ns) =
      context.lookup ⟨name, ns⟩ := by
  induction context with
  | nil => rfl
  | cons entry rest ih =>
      obtain ⟨id, e⟩ := entry
      obtain ⟨hname, hns⟩ := h id e (List.mem_cons_self ..)
      have hrest := ih fun id' e' he' => h id' e' (List.mem_cons_of_mem _ he')
      rw [List.map_cons, List.find?_cons, hname, hns, hrest, List.lookup_cons]
      by_cases hid : (⟨name, ns⟩ : SchemaId) = id
      · subst hid
        simp
      · have hne : ¬(id.name = name ∧ id.ns = ns) := by
          rintro ⟨rfl, rfl⟩
          exact hid rfl
        have hne' : (id.name == name && id.ns == ns) = false := by
          simpa [Bool.eq_false_iff] using hne
        rw [hne', beq_eq_false_iff_ne.mpr hid]

theorem Sound.name_ns_of_mem (h : t.Sound) {i : NodeId} {id : SchemaId} {e : ContextEntry}
    (he : (id, e) ∈ t.context i) : t.name e.node = id.name ∧ t.ns e.node = id.ns := by
  obtain ⟨n, hn, _, rfl⟩ := ((h.mem_context_iff _ _ _).mp he).data
  exact ⟨by rw [name, hn]; rfl, by rw [ns, hn]; rfl⟩

theorem mem_context_of_entry? {i : NodeId} {id : SchemaId} {e : ContextEntry}
    (h : t.entry? i id = some e) : (id, e) ∈ t.context i := by
  rw [Tree.entry?] at h
  obtain ⟨before, after, hsplit, _⟩ := List.lookup_eq_some_iff.mp h
  rw [hsplit]
  exact List.mem_append_right _ (List.mem_cons_self ..)

theorem Sound.dataChild?_eq (h : t.Sound) (i : NodeId) (name ns : String) :
    t.dataChild? i name (some ns) = t.entry? i ⟨name, ns⟩ :=
  find?_entries_eq_lookup (fun _ _ he => h.name_ns_of_mem he) name ns

end Lookup

theorem Sound.forest {t : Tree} (h : t.Sound) : t.Forest where
  parent_lt _ _ := h.rooted.parent?_lt
  target_lt _ _ _ hn htarget := (h.rooted.exists_target (outline?_of_node? hn) htarget).1
  moduleOf_eq := h.rooted.moduleOf_eq
  lineage_eq := h.rooted.lineage_eq
  holderOf_eq_iff i n holder switch hn := by
    constructor
    · intro heq
      have hheld := h.rooted.heldBy hn
      rwa [heq] at hheld
    · exact h.rooted.holderOf_of_heldBy
  module _ _ hn := h.rooted.ns_moduleOf (outline?_of_node? hn)
  data _ _ _ he := ((h.mem_context_iff _ _ _).mp he).data
  nodup := h.nodup
  entry j n hn hdata := by
    obtain ⟨parent, above, hparent, habove, placed, hreg⟩ := h.rooted.registered hn hdata
    obtain ⟨p, hp, rfl⟩ := Option.map_eq_some_iff.mp habove
    refine ⟨parent, _, _, hparent, h.rooted.heldBy hp, (h.mem_context_iff _ _ _).mpr hreg, rfl,
      h.rooted.switch_eq_none_iff habove placed hdata,
      h.rooted.underAnydata_iff habove placed hdata j, ?_⟩
    intro holder' id' e' he' hnode
    exact hreg.unique ((h.mem_context_iff _ _ _).mp he') hnode
  path j n hn hdata := by
    obtain ⟨m, es, hm, hpath⟩ := h.exists_path hn hdata
    exact ⟨m, es, hm, hpath, fun m' es' hm' hpath' => h.path_unique hm hm' hpath hpath'⟩
  dataChild?_eq := h.dataChild?_eq

/-- Statements in any order, failing or not, make a tree whose contexts are a
forest over its modules. -/
theorem forest_after_statements (statements : List Statement) :
    (statements.foldl Tree.after {}).Forest :=
  (Reachable.empty.foldl_after statements).sound.forest

end Tree

end Yang.Schema
