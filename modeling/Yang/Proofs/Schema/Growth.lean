import Yang.Proofs.Schema.Outline
import Yang.Proofs.Success

/-!
# How a schema tree grows

`Tree.Grows` says all that a statement can do to a tree, with everything that was
checked before: a module is appended, a module gains an import, or a node is appended
to its parent and, if it is a data node, entered into the context to which it belongs.
A statement that fails leaves the tree as it is. The trees that any statements in any
order make of the empty one are the reachable trees.
-/

namespace Yang

namespace Revision

/-- The revision is missing or one that some text was read as. -/
def IsCanonical (r : Option String) : Prop :=
  ∀ text, r = some text → ∃ raw, parse? raw = some text

theorem validate_eq_ok_iff {raw text : String} :
    validate raw = .ok text ↔ parse? raw = some text := by
  rw [validate]
  cases parse? raw <;> simp

theorem isCanonical_of_validate {given r : Option String} (h : given.mapM validate = .ok r) :
    IsCanonical r := by
  cases given with
  | none =>
      obtain rfl := pure_eq_ok_iff.mp h
      exact nofun
  | some raw =>
      obtain ⟨text, htext, rfl⟩ := map_eq_ok_iff.mp h
      intro canonical hcanonical
      obtain rfl := Option.some.inj hcanonical
      exact ⟨raw, validate_eq_ok_iff.mp htext⟩

end Revision

namespace Schema

namespace Role

def target? : Role → Option NodeId
  | .augment target => some target
  | _ => none

end Role

namespace Tree

section Checks

variable {t : Tree}

theorem kindOf_eq_ok_iff {i : NodeId} {k : NodeKind} :
    t.kindOf i = .ok k ↔ t.kind? i = some k := by
  cases h : t.kind? i <;> simp [kindOf, h]

theorem expectKind_eq_ok_iff {i : NodeId} {k : NodeKind} :
    t.expectKind i k = .ok () ↔ t.kind? i = some k := by
  simp only [expectKind, bind_eq_ok_iff, kindOf_eq_ok_iff]
  constructor
  · rintro ⟨k', hk', h⟩
    split at h
    · rename_i heq
      rwa [← heq]
    · exact absurd h throw_ne_ok
  · intro hk
    exact ⟨k, hk, by simp⟩

theorem checkPlacement_eq_ok_iff {parent : NodeId} {k : NodeKind} :
    t.checkPlacement parent k = .ok () ↔
      ∃ above, t.kind? parent = some above ∧ above.mayHold k = true := by
  simp only [checkPlacement, bind_eq_ok_iff, kindOf_eq_ok_iff]
  refine exists_congr fun above => and_congr_right fun _ => ?_
  split <;> simp_all

theorem checkNewEntry_eq_ok_iff {holder : NodeId} {id : SchemaId} :
    t.checkNewEntry holder id = .ok () ↔ t.entry? holder id = none := by
  rw [checkNewEntry]
  cases t.entry? holder id <;> simp

end Checks

/-- A node of a role may stand in a parent under a name. These are the checks
that adding a node makes, told as what they mean. -/
structure Fitting (t : Tree) (parent : NodeId) (name : String) (role : Role) : Prop where
  named : Name.checkIdentifier name = .ok ()
  notModule : role.kind ≠ .module
  placed : ∃ above, t.kind? parent = some above ∧ above.mayHold role.kind = true
  fresh : t.checkNewChild parent (t.childId parent name) = .ok ()
  augmentable : ∀ target, role.target? = some target →
    ∃ k, t.kind? target = some k ∧ k.isAugmentable = true

/-- The node to whose context a data node with the number `i` belongs that is
written in a parent, and its entry there. -/
def placeOf (t : Tree) (parent i : NodeId) : NodeId × ContextEntry :=
  ((t.holderOf parent).1,
    ⟨i, (t.holderOf parent).2,
      (t.holderOf parent).2.isSome && t.kind? (t.holderOf parent).1 == some .anydata⟩)

/-- What a statement can do to a tree. Invariants of trees are proved for these
cases and not for the statements themselves. -/
inductive Grows (t : Tree) : Tree → Prop
  | module {name ns abbreviation : String} {revision : Option String}
      (named : Name.checkIdentifier name = .ok ())
      (fresh : ∀ i ∈ t.modules, t.name i = name → t.revision? i ≠ revision)
      (canonical : Revision.IsCanonical revision) :
      Grows t (t.push ⟨⟨name, ns⟩, .module ⟨abbreviation, revision, []⟩, none, [], []⟩)
  | imported {module imported : NodeId} (hmodule : t.kind? module = some .module)
      (himported : t.kind? imported = some .module) (hne : module ≠ imported) :
      Grows t (t.modify module fun n => { n with role := n.role.withImport imported })
  | attached {parent : NodeId} {name : String} {role : Role}
      (fitting : t.Fitting parent name role) (hdata : role.kind.isData = false) :
      Grows t (t.attach parent (t.childId parent name) role)
  | entered {parent : NodeId} {name : String} {role : Role}
      (fitting : t.Fitting parent name role) (hdata : role.kind.isData = true)
      (fresh : t.entry? (t.placeOf parent t.size).1 (t.childId parent name) = none) :
      Grows t ((t.enter (t.placeOf parent t.size).1 (t.childId parent name)
        (t.placeOf parent t.size).2).attach parent (t.childId parent name) role)

section Inversion

variable {t t' : Tree}

theorem Grows.of_addNode {parent : NodeId} {name : String} {role : Role}
    (h : t.addNode parent name role = .ok t') (notModule : role.kind ≠ .module)
    (augmentable : ∀ target, role.target? = some target →
      ∃ k, t.kind? target = some k ∧ k.isAugmentable = true) : t.Grows t' := by
  simp only [addNode, bind_eq_ok_iff, exists_unit_iff, checkPlacement_eq_ok_iff] at h
  obtain ⟨named, placed, fresh, h⟩ := h
  have fitting : t.Fitting parent name role := ⟨named, notModule, placed, fresh, augmentable⟩
  split at h
  · rename_i hdata
    rw [bind_eq_ok_iff, exists_unit_iff, checkNewEntry_eq_ok_iff, pure_eq_ok_iff] at h
    obtain ⟨hentry, rfl⟩ := h
    exact .entered fitting hdata hentry
  · rename_i hdata
    obtain rfl := pure_eq_ok_iff.mp h
    exact .attached fitting (Bool.eq_false_iff.mpr hdata)

theorem Grows.of_addNodeIn {expected : NodeKind} {parent : NodeId} {name : String} {role : Role}
    (h : t.addNodeIn expected parent name role = .ok t') (notModule : role.kind ≠ .module)
    (notAugment : role.target? = none) : t.Grows t' := by
  simp only [addNodeIn, bind_eq_ok_iff, exists_unit_iff] at h
  refine .of_addNode h.2 notModule ?_
  intro target htarget
  rw [notAugment] at htarget
  cases htarget

theorem Grows.of_addModule {name ns abbreviation : String} {revision : Option String}
    (h : t.addModule name ns abbreviation revision = .ok t') : t.Grows t' := by
  simp only [addModule, bind_eq_ok_iff, exists_unit_iff] at h
  obtain ⟨named, -, h⟩ := h
  split at h
  · simp at h
  · obtain ⟨canonical, hcanonical, h⟩ := bind_eq_ok_iff.mp h
    split at h
    · simp at h
    · rename_i hnew
      obtain rfl := pure_eq_ok_iff.mp h
      refine .module named ?_ (Revision.isCanonical_of_validate hcanonical)
      intro i hi hname hrevision
      exact hnew (List.any_eq_true.mpr ⟨i, hi, by simp [hname, hrevision]⟩)

theorem Grows.of_addImport {module imported : NodeId} (h : t.addImport module imported = .ok t') :
    t.Grows t' := by
  simp only [addImport, bind_eq_ok_iff, exists_unit_iff, expectKind_eq_ok_iff] at h
  obtain ⟨himported, h⟩ := h
  split at h
  · simp at h
  · rename_i hne
    simp only [bind_eq_ok_iff, exists_unit_iff, expectKind_eq_ok_iff, pure_eq_ok_iff] at h
    obtain ⟨hmodule, rfl⟩ := h
    exact .imported hmodule himported hne

theorem Grows.of_addAugment {module target : NodeId} {name : String}
    (h : t.addAugment module name target = .ok t') : t.Grows t' := by
  simp only [addAugment, bind_eq_ok_iff, exists_unit_iff, kindOf_eq_ok_iff] at h
  obtain ⟨-, k, hk, h⟩ := h
  split at h
  · simp at h
  · rename_i haugmentable
    refine .of_addNode h (by simp [Role.kind]) ?_
    intro target' htarget
    obtain rfl := Option.some.inj htarget
    exact ⟨k, hk, by simpa using haugmentable⟩

/-- All that a statement can do. Statements are taken apart here once, and each
of their checks is kept. -/
theorem Grows.of_add {s : Statement} (h : t.add s = .ok t') : t.Grows t' := by
  cases s with
  | module name ns abbreviation revision => exact .of_addModule h
  | importModule module imported => exact .of_addImport h
  | augment module name target => exact .of_addAugment h
  | notification module name => exact .of_addNodeIn h (by decide) rfl
  | rpc module name => exact .of_addNodeIn h (by decide) rfl
  | input rpc => exact .of_addNodeIn h (by decide) rfl
  | output rpc => exact .of_addNodeIn h (by decide) rfl
  | case choice name => exact .of_addNodeIn h (by decide) rfl
  | container parent name | list parent name keys | leaf parent name type
  | leafList parent name type | anydata parent name | choice parent name =>
      exact .of_addNode h nofun nofun

end Inversion

/-- The tree after a statement. If the statement fails, it is the tree before
it. -/
def after (t : Tree) (s : Statement) : Tree :=
  match t.add s with
  | .ok t' => t'
  | .error _ => t

/-- The trees that are made from the empty one by statements. -/
inductive Reachable : Tree → Prop
  | empty : Reachable {}
  | add {t t' : Tree} {s : Statement} (before : Reachable t) (h : t.add s = .ok t') : Reachable t'

theorem Reachable.after {t : Tree} (h : t.Reachable) (s : Statement) : (t.after s).Reachable := by
  rw [Tree.after]
  split
  · rename_i ht'
    exact h.add ht'
  · exact h

/-- Statements of which some may fail make a reachable tree, since a statement
that fails leaves the tree as it was. -/
theorem Reachable.foldl_after {t : Tree} (h : t.Reachable) (statements : List Statement) :
    (statements.foldl Tree.after t).Reachable := by
  induction statements generalizing t with
  | nil => exact h
  | cons s rest ih => exact ih (h.after s)

theorem Reachable.foldlM_add {t t' : Tree} (h : t.Reachable) {statements : List Statement}
    (ht' : statements.foldlM Tree.add t = .ok t') : t'.Reachable := by
  induction statements generalizing t with
  | nil =>
      obtain rfl := pure_eq_ok_iff.mp ht'
      exact h
  | cons s rest ih =>
      rw [List.foldlM_cons, bind_eq_ok_iff] at ht'
      obtain ⟨next, hnext, ht'⟩ := ht'
      exact ih (h.add hnext) ht'

theorem Reachable.of_ofStatements {t : Tree} {statements : List Statement}
    (h : ofStatements statements = .ok t) : t.Reachable := by
  simp only [ofStatements, bind_eq_ok_iff, exists_unit_iff, pure_eq_ok_iff] at h
  obtain ⟨t', ht', -, rfl⟩ := h
  exact Reachable.empty.foldlM_add ht'

/-- What holds of the empty tree and is kept by every growth holds of every
reachable tree. This is the induction by which invariants of trees are proved. -/
theorem Reachable.of_grows {p : Tree → Prop} (empty : p {})
    (grows : ∀ t t', p t → t.Grows t' → p t') {t : Tree} (h : t.Reachable) : p t := by
  induction h with
  | empty => exact empty
  | @add t t' s _ ht' ih => exact grows t t' ih (.of_add ht')

end Tree

end Schema

end Yang
