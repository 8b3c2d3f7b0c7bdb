import Yang.Proofs.Schema.Invariant

/-!
# The modules of a tree

Of the head of a module only the imports change, and they grow by modules. A module is
refused if another one has its name and its revision, so the two together identify a
module in every reachable tree. A revision is refused if it cannot be read, and what stays in
the tree is the canonical form that was read.
-/

namespace Yang.Schema

def Header.withImport (head : Header) (imported : NodeId) : Header :=
  if imported ∈ head.imports then head else { head with imports := head.imports ++ [imported] }

theorem Header.mem_imports_withImport {head : Header} {imported m : NodeId}
    (h : m ∈ (Header.withImport head imported).imports) : m ∈ head.imports ∨ m = imported := by
  rw [Header.withImport] at h
  split at h
  · exact .inl h
  · simpa using h

theorem Header.revision_withImport (head : Header) (imported : NodeId) :
    (Header.withImport head imported).revision = head.revision := by
  rw [Header.withImport]
  split <;> rfl

namespace Tree

variable {t t' : Tree}

theorem mem_modules_iff {i : NodeId} : i ∈ t.modules ↔ t.kind? i = some .module := by
  rw [modules, List.mem_filter, List.mem_range, beq_iff_eq, and_iff_right_iff_imp]
  intro hkind
  obtain ⟨o, ho, _⟩ := exists_outline_of_kind? hkind
  exact lt_size_of_outline? ho

theorem nodup_modules (t : Tree) : t.modules.Nodup := List.nodup_range.filter _

theorem isSome_header?_iff {i : NodeId} : (t.header? i).isSome ↔ t.kind? i = some .module := by
  cases hn : t.node? i with
  | none => simp [header?, kind?, hn]
  | some n =>
      cases hrole : n.role <;>
        simp [header?, kind?, hn, Node.header?, Node.kind, hrole, Role.kind]

section Heads

/-- Changing a node keeps the head of a module if it keeps the role. -/
theorem header?_modify {f : Node → Node} (hf : ∀ n, (f n).role = n.role) (i j : NodeId) :
    (t.modify j f).header? i = t.header? i := by
  have hhead : ∀ n, (f n).header? = n.header? := fun n => by rw [Node.header?, hf]; rfl
  rw [header?, header?, node?_modify]
  split
  · cases t.node? i <;> simp [hhead]
  · rfl

theorem header?_push (n : Node) (i : NodeId) :
    (t.push n).header? i = if i = t.size then n.header? else t.header? i := by
  rw [header?, header?, node?_push]
  split <;> rfl

theorem header?_size : t.header? t.size = none := by
  simp [header?, node?, size]

theorem header?_enter (holder : NodeId) (id : SchemaId) (e : ContextEntry) (i : NodeId) :
    (t.enter holder id e).header? i = t.header? i := by
  apply header?_modify
  exact fun _ => rfl

theorem header?_attach {role : Role} (hrole : role.kind ≠ .module) (parent : NodeId)
    (id : SchemaId) (i : NodeId) : (t.attach parent id role).header? i = t.header? i := by
  have hnone : Node.header? ⟨id, role, some parent, [], []⟩ = none := by
    cases role <;> simp_all [Node.header?, Role.kind]
  rw [attach, header?_push, size_modify, hnone, header?_modify]
  · split
    · rename_i hi
      rw [hi, header?_size]
    · rfl
  · exact fun _ => rfl

theorem header?_withImport (module imported i : NodeId) :
    (t.modify module fun n => { n with role := n.role.withImport imported }).header? i =
      if module = i then (t.header? i).map (Header.withImport · imported) else t.header? i := by
  rw [header?, header?, node?_modify]
  split
  · cases t.node? i with
    | none => rfl
    | some n =>
        cases hrole : n.role <;> simp [Node.header?, hrole, Role.withImport, Header.withImport]
  · rfl

/-- The head of an earlier module stays or gains an import that is a module.
Names, namespaces and revisions never change. -/
theorem Grows.header? (h : t.Grows t') {i : NodeId} (hi : i < t.size) :
    t'.header? i = t.header? i ∨
      ∃ imported, t.kind? imported = some .module ∧
        t'.header? i = (t.header? i).map (Header.withImport · imported) := by
  have hne : i ≠ t.size := Nat.ne_of_lt hi
  cases h with
  | module _ _ => exact .inl (by rw [header?_push, if_neg hne])
  | @imported module imported _ himported _ =>
      rw [header?_withImport]
      split
      · exact .inr ⟨imported, himported, rfl⟩
      · exact .inl rfl
  | attached fitting _ => exact .inl (header?_attach fitting.notModule _ _ _)
  | entered fitting _ _ =>
      exact .inl (by rw [header?_attach fitting.notModule, header?_enter])

/-- A new module has no imports and a canonical revision, and no module has its
name and its revision. -/
theorem Grows.newHeader (h : t.Grows t') {head : Header} (hhead : t'.header? t.size = some head) :
    head.imports = [] ∧ Revision.IsCanonical head.revision ∧
      ∀ i, t.kind? i = some .module → t.name i = t'.name t.size →
        t.revision? i ≠ head.revision := by
  cases h with
  | module _ fresh canonical =>
      rw [header?_push, if_pos rfl] at hhead
      obtain rfl := Option.some.inj hhead
      refine ⟨rfl, canonical, ?_⟩
      intro i hi hname
      refine fresh i (mem_modules_iff.mpr hi) (hname.trans ?_)
      rw [name_eq, outline?_push, if_pos rfl]
      rfl
  | imported _ _ _ =>
      rw [header?_withImport, header?_size] at hhead
      split at hhead <;> cases hhead
  | attached fitting _ =>
      rw [header?_attach fitting.notModule, header?_size] at hhead
      cases hhead
  | entered fitting _ _ =>
      rw [header?_attach fitting.notModule, header?_enter, header?_size] at hhead
      cases hhead

end Heads

section Reachable

/-- What a module imports are modules. -/
def ImportsModules (t : Tree) : Prop :=
  ∀ i head, t.header? i = some head → ∀ m ∈ head.imports, t.kind? m = some .module

/-- A module is identified by its name and its revision. Two modules without
revision cannot have one name either. -/
def Distinct (t : Tree) : Prop :=
  ∀ i j, t.kind? i = some .module → t.kind? j = some .module → t.name i = t.name j →
    t.revision? i = t.revision? j → i = j

def Dated (t : Tree) : Prop := ∀ i, Revision.IsCanonical (t.revision? i)

theorem Grows.kind? (h : t.Grows t') {i : NodeId} {k : NodeKind} (hk : t.kind? i = some k) :
    t'.kind? i = some k := by
  obtain ⟨o, ho, rfl⟩ := exists_outline_of_kind? hk
  rw [kind?_eq, h.outline? ho, Option.map_some]

theorem Grows.name_revision? (h : t.Grows t') {i : NodeId} (hi : i < t.size) :
    t'.name i = t.name i ∧ t'.revision? i = t.revision? i := by
  obtain ⟨o, ho⟩ : ∃ o, t.outline? i = some o := by
    apply Option.ne_none_iff_exists'.mp
    exact fun hnone => Nat.not_lt.mpr (outline?_eq_none_iff.mp hnone) hi
  refine ⟨by rw [name_eq, name_eq, h.outline? ho, ho], ?_⟩
  rw [revision?, revision?]
  rcases h.header? hi with heq | ⟨imported, _, heq⟩
  · rw [heq]
  · rw [heq]
    cases t.header? i with
    | none => rfl
    | some head => exact Header.revision_withImport head imported

theorem Grows.lt_or_eq (h : t.Grows t') {i : NodeId} {k : NodeKind} (hk : t'.kind? i = some k) :
    i < t.size ∨ i = t.size := by
  obtain ⟨o, ho, _⟩ := exists_outline_of_kind? hk
  have hi := lt_size_of_outline? ho
  cases h with
  | imported _ _ _ =>
      rw [size_modify] at hi
      exact .inl hi
  | module _ _ =>
      rw [size_push] at hi
      exact Nat.lt_succ_iff_lt_or_eq.mp hi
  | attached _ _ =>
      rw [size_attach] at hi
      exact Nat.lt_succ_iff_lt_or_eq.mp hi
  | entered _ _ _ =>
      rw [size_attach, size_enter] at hi
      exact Nat.lt_succ_iff_lt_or_eq.mp hi

theorem ImportsModules.grows (h : t.ImportsModules) (hgrows : t.Grows t') :
    t'.ImportsModules := by
  intro i head hhead m hm
  have hkind : t'.kind? i = some .module := isSome_header?_iff.mp (by rw [hhead]; rfl)
  rcases hgrows.lt_or_eq hkind with hi | rfl
  · rcases hgrows.header? hi with heq | ⟨imported, himported, heq⟩
    · exact hgrows.kind? (h i head (heq ▸ hhead) m hm)
    · rw [heq] at hhead
      obtain ⟨old, hold, rfl⟩ := Option.map_eq_some_iff.mp hhead
      rcases Header.mem_imports_withImport hm with hmem | rfl
      · exact hgrows.kind? (h i old hold m hmem)
      · exact hgrows.kind? himported
  · rw [(hgrows.newHeader hhead).1] at hm
    cases hm

theorem Distinct.grows (h : t.Distinct) (hgrows : t.Grows t') : t'.Distinct := by
  have hkeep : ∀ i, i < t.size → t'.kind? i = some .module → t.kind? i = some .module := by
    intro i hi hki
    apply isSome_header?_iff.mp
    have hsome := isSome_header?_iff.mpr hki
    rcases hgrows.header? hi with heq | ⟨_, _, heq⟩
    · rwa [heq] at hsome
    · rwa [heq, Option.isSome_map] at hsome
  -- A new module has another name or another revision than each earlier one.
  have hnew : ∀ i, i < t.size → t'.kind? i = some .module → t'.kind? t.size = some .module →
      t'.name i = t'.name t.size → t'.revision? i ≠ t'.revision? t.size := by
    intro i hi hki hk hname
    obtain ⟨head, hhead⟩ := Option.isSome_iff_exists.mp (isSome_header?_iff.mpr hk)
    obtain ⟨hname', hrevision'⟩ := hgrows.name_revision? hi
    have hfresh := (hgrows.newHeader hhead).2.2 i (hkeep i hi hki) (hname'.symm.trans hname)
    have hnewest : t'.revision? t.size = head.revision := by
      rw [Tree.revision?, hhead, Option.bind_some]
    rwa [hrevision', hnewest]
  intro i j hi hj hname hrevision
  rcases hgrows.lt_or_eq hi with hlti | rfl
  · rcases hgrows.lt_or_eq hj with hltj | rfl
    · obtain ⟨hni, hri⟩ := hgrows.name_revision? hlti
      obtain ⟨hnj, hrj⟩ := hgrows.name_revision? hltj
      exact h i j (hkeep i hlti hi) (hkeep j hltj hj) (by rw [← hni, hname, hnj])
        (by rw [← hri, hrevision, hrj])
    · exact absurd hrevision (hnew i hlti hi hj hname)
  · rcases hgrows.lt_or_eq hj with hltj | rfl
    · exact absurd hrevision.symm (hnew j hltj hj hi hname.symm)
    · rfl

theorem Dated.grows (h : t.Dated) (hgrows : t.Grows t') : t'.Dated := by
  intro i text htext
  obtain ⟨head, hhead, hrevision⟩ := Option.bind_eq_some_iff.mp htext
  have hkind : t'.kind? i = some .module := isSome_header?_iff.mp (by rw [hhead]; rfl)
  rcases hgrows.lt_or_eq hkind with hi | rfl
  · rw [(hgrows.name_revision? hi).2] at htext
    exact h i text htext
  · exact (hgrows.newHeader hhead).2.1 text hrevision

theorem Reachable.importsModules (h : t.Reachable) : t.ImportsModules :=
  h.of_grows nofun fun _ _ => ImportsModules.grows

theorem Reachable.distinct (h : t.Reachable) : t.Distinct :=
  h.of_grows nofun fun _ _ => Distinct.grows

theorem Reachable.dated (h : t.Reachable) : t.Dated :=
  h.of_grows nofun fun _ _ => Dated.grows

/-- What a module imports are modules, in every tree that statements make. So
the resolver starts in modules only. -/
theorem Reachable.kind?_of_mem_imports (h : t.Reachable) {i m : NodeId} (hm : m ∈ t.imports i) :
    t.kind? m = some .module := by
  rw [imports] at hm
  cases hhead : t.header? i with
  | none =>
      rw [hhead] at hm
      cases hm
  | some head =>
      rw [hhead] at hm
      exact h.importsModules i head hhead m hm

end Reachable

end Tree

end Yang.Schema
