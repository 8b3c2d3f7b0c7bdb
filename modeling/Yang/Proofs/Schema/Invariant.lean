import Mathlib.Data.List.Nodup
import Yang.Proofs.Schema.Growth

/-!
# The invariant of schema trees

Two tree structures share the nodes. Nodes are written in each other, and nodes appear
below each other in instance data. The first part of the invariant, `Tree.Rooted`, says
that every node fits where it is written. The second, `Tree.Registered`, says of a
context entry that it is the entry of some data node in the context to which that node
belongs; a tree is sound if its contexts have these entries and no others, and no
context has two entries for an identifier. Every growth keeps both parts, so they hold
of every reachable tree.
-/

namespace Yang.Schema

/-- A node with this outline can have the number `i` in a tree: it is a module,
or it fits into an earlier node, and an augment has an earlier target. So
climbing always goes to lower numbers. -/
inductive Outline.Fits (t : Tree) (i : NodeId) : Outline → Prop
  | module {id : SchemaId} (named : Name.checkIdentifier id.name = .ok ()) :
      Fits t i ⟨id, .module, none, none⟩
  | node {id : SchemaId} {kind : NodeKind} {target : Option NodeId} {parent : NodeId}
      {above : Outline} (named : Name.checkIdentifier id.name = .ok ())
      (notModule : kind ≠ .module) (earlier : parent < i)
      (hparent : t.outline? parent = some above) (placed : above.kind.mayHold kind = true)
      (ns : id.ns = above.id.ns)
      (augments : kind = .augment ↔ ∃ a, target = some a)
      (augmentable : ∀ a, target = some a →
        a < i ∧ ∃ o, t.outline? a = some o ∧ o.kind.isAugmentable = true) :
      Fits t i ⟨id, kind, target, some parent⟩

theorem Outline.Fits.named {t : Tree} {i : NodeId} {o : Outline} (h : o.Fits t i) :
    Name.checkIdentifier o.id.name = .ok () := by
  cases h with
  | module named => exact named
  | node named => exact named

/-- Whether a node fits depends on earlier nodes only. -/
theorem Outline.Fits.congr {t t' : Tree} {i : NodeId} {o : Outline} (h : o.Fits t i)
    (hsame : ∀ j, j < i → t'.outline? j = t.outline? j) : o.Fits t' i := by
  cases h with
  | module named => exact .module named
  | node named notModule earlier hparent placed ns augments augmentable =>
      rw [← hsame _ earlier] at hparent
      refine .node named notModule earlier hparent placed ns augments ?_
      intro a ha
      obtain ⟨hlt, o, ho, haugmentable⟩ := augmentable a ha
      exact ⟨hlt, o, (hsame a hlt).trans ho, haugmentable⟩

namespace Tree

def Rooted (t : Tree) : Prop := ∀ i o, t.outline? i = some o → o.Fits t i

section Rooted

variable {t t' : Tree}

theorem Rooted.congr (h : t.Rooted) (hsame : ∀ i, t'.outline? i = t.outline? i) : t'.Rooted := by
  intro i o ho
  exact (h i o ((hsame i).symm.trans ho)).congr fun j _ => hsame j

/-- A tree is still rooted after a node is appended that fits. Earlier nodes
keep their outlines, whatever is entered in them. -/
theorem Rooted.append (h : t.Rooted) {new : Outline} (hfits : new.Fits t t.size)
    (hnew : ∀ i, t'.outline? i = if i = t.size then some new else t.outline? i) : t'.Rooted := by
  have hold : ∀ i, i < t.size → t'.outline? i = t.outline? i := by
    intro i hi
    rw [hnew, if_neg (Nat.ne_of_lt hi)]
  intro i o ho
  rw [hnew] at ho
  split at ho
  · rename_i hi
    obtain rfl := Option.some.inj ho
    subst hi
    exact hfits.congr hold
  · have hi := lt_size_of_outline? ho
    exact (h i o ho).congr fun j hj => hold j (Nat.lt_trans hj hi)

theorem Rooted.parent?_lt (h : t.Rooted) {i p : NodeId} (hp : t.parent? i = some p) : p < i := by
  rw [parent?_eq, Option.bind_eq_some_iff] at hp
  obtain ⟨o, ho, hp⟩ := hp
  cases h i o ho with
  | module _ => cases hp
  | node _ _ earlier =>
      obtain rfl := Option.some.inj hp
      exact earlier

theorem Rooted.redirect?_lt (h : t.Rooted) {i next : NodeId} (hnext : t.redirect? i = some next) :
    next < i := by
  rw [redirect?_eq, Option.bind_eq_some_iff] at hnext
  obtain ⟨o, ho, hnext⟩ := hnext
  cases h i o ho with
  | module _ => cases hnext
  | node _ _ earlier _ _ _ _ augmentable =>
      rw [Outline.redirect?] at hnext
      split at hnext
      · obtain rfl := Option.some.inj hnext
        exact earlier
      · obtain rfl := Option.some.inj hnext
        exact earlier
      · exact (augmentable next hnext).1
      · cases hnext

theorem Rooted.exists_above (h : t.Rooted) {i : NodeId} {o : Outline} (ho : t.outline? i = some o)
    (hmodule : o.kind ≠ .module) :
    ∃ parent above, o.parent = some parent ∧ t.outline? parent = some above ∧
      above.kind.mayHold o.kind = true := by
  cases h i o ho with
  | module _ => exact absurd rfl hmodule
  | @node _ _ _ parent above _ _ _ hparent placed _ _ _ =>
      exact ⟨parent, above, rfl, hparent, placed⟩

theorem Rooted.exists_target (h : t.Rooted) {i target : NodeId} {o : Outline}
    (ho : t.outline? i = some o) (htarget : o.target = some target) :
    target < i ∧ ∃ p, t.outline? target = some p ∧ p.kind.isAugmentable = true := by
  cases h i o ho with
  | module _ => cases htarget
  | node _ _ _ _ _ _ _ augmentable => exact augmentable target htarget

theorem Rooted.moduleOf_eq (h : t.Rooted) (i : NodeId) :
    t.moduleOf i = (t.parent? i).elim i t.moduleOf := by
  rw [moduleOf]
  cases hp : t.parent? i with
  | none => rfl
  | some p => exact if_pos (h.parent?_lt hp)

theorem Rooted.lineage_eq (h : t.Rooted) (i : NodeId) :
    t.lineage i = i :: (t.parent? i).elim [] t.lineage := by
  rw [lineage]
  cases hp : t.parent? i with
  | none => rfl
  | some p => exact if_pos (h.parent?_lt hp)

theorem Rooted.holderOf_eq (h : t.Rooted) (i : NodeId) :
    t.holderOf i = (t.redirect? i).elim (i, none) fun next =>
      ((t.holderOf next).1, if t.isSwitch i then some i else (t.holderOf next).2) := by
  rw [holderOf]
  cases hnext : t.redirect? i with
  | none => rfl
  | some next => exact if_pos (h.redirect?_lt hnext)

/-- The search for a context ends where nothing is skipped, and then there is no
switch. -/
theorem Rooted.holderOf_of_stop (h : t.Rooted) {i : NodeId} (hstop : t.redirect? i = none) :
    t.holderOf i = (i, none) := by
  rw [h.holderOf_eq, hstop, Option.elim_none]

/-- The way up from a node ends at a module with the namespace of the node. -/
theorem Rooted.kind?_moduleOf (h : t.Rooted) {i : NodeId} {o : Outline}
    (ho : t.outline? i = some o) :
    ∃ m, t.outline? (t.moduleOf i) = some m ∧ m.kind = .module ∧ m.id.ns = o.id.ns := by
  induction i using Nat.strongRecOn generalizing o with
  | ind i ih =>
      have hmodule := h.moduleOf_eq i
      cases h i o ho with
      | module _ =>
          rw [parent?_eq, ho] at hmodule
          exact ⟨_, hmodule ▸ ho, rfl, rfl⟩
      | @node id kind target parent above _ _ earlier hparent _ ns _ _ =>
          rw [parent?_eq, ho] at hmodule
          obtain ⟨m, hm, hkind, hns⟩ := ih parent earlier hparent
          exact ⟨m, hmodule ▸ hm, hkind, hns.trans ns.symm⟩

/-- A node is in the namespace of the module that it is written in. The
namespace is handed down from the parent when the node is added. -/
theorem Rooted.ns_moduleOf (h : t.Rooted) {i : NodeId} {o : Outline} (ho : t.outline? i = some o) :
    t.kind? (t.moduleOf i) = some .module ∧ t.ns (t.moduleOf i) = o.id.ns := by
  obtain ⟨m, hm, hkind, hns⟩ := h.kind?_moduleOf ho
  constructor
  · rw [kind?_eq, hm, Option.map_some, hkind]
  · rw [ns_eq, hm]
    exact hns

/-- The search for a context stops only where nothing is skipped: a choice or
case has its parent and an augment has its target. -/
theorem Rooted.stops (h : t.Rooted) {i : NodeId} {o : Outline} (ho : t.outline? i = some o)
    (hnext : t.redirect? i = none) : o.kind ≠ .choice ∧ o.kind ≠ .case ∧ o.kind ≠ .augment := by
  rw [redirect?_eq, ho, Option.bind_some] at hnext
  cases h i o ho with
  | module _ => simp
  | node _ _ _ _ _ _ augments _ =>
      refine ⟨?_, ?_, ?_⟩
      · rintro rfl
        cases hnext
      · rintro rfl
        cases hnext
      · rintro rfl
        obtain ⟨a, rfl⟩ := augments.mp rfl
        cases hnext

/-- The search for a context goes on at a node of the tree. Parents and targets
are nodes that exist. -/
theorem Rooted.exists_redirect (h : t.Rooted) {i next : NodeId}
    (hnext : t.redirect? i = some next) : ∃ o, t.outline? next = some o := by
  obtain ⟨o, ho, _⟩ := Option.bind_eq_some_iff.mp ((redirect?_eq t i).symm.trans hnext)
  apply Option.ne_none_iff_exists'.mp
  intro hnone
  have hsize := outline?_eq_none_iff.mp hnone
  exact Nat.not_lt.mpr hsize (Nat.lt_trans (h.redirect?_lt hnext) (lt_size_of_outline? ho))

/-- The search for a context ends at a module or at a data node. Choices, cases
and augments have something above them. -/
theorem Rooted.kind?_holderOf (h : t.Rooted) {i : NodeId} {o : Outline}
    (ho : t.outline? i = some o) :
    ∃ k, t.kind? (t.holderOf i).1 = some k ∧ (k = .module ∨ k.isData = true) := by
  induction i using Nat.strongRecOn generalizing o with
  | ind i ih =>
      rw [h.holderOf_eq i]
      cases hnext : t.redirect? i with
      | none =>
          have hstops := h.stops ho hnext
          refine ⟨o.kind, by rw [Option.elim_none, kind?_eq, ho]; rfl, ?_⟩
          cases hk : o.kind <;> simp_all [NodeKind.isData]
      | some next =>
          obtain ⟨o', ho'⟩ := h.exists_redirect hnext
          exact ih next (h.redirect?_lt hnext) ho'

end Rooted

section Growth

variable {t t' : Tree}

theorem exists_outline_of_kind? {i : NodeId} {k : NodeKind} (h : t.kind? i = some k) :
    ∃ o, t.outline? i = some o ∧ o.kind = k := by
  rw [kind?_eq, Option.map_eq_some_iff] at h
  exact h

def childOutline (t : Tree) (parent : NodeId) (name : String) (role : Role) : Outline :=
  ⟨t.childId parent name, role.kind, role.target?, some parent⟩

theorem Rooted.fits_child (h : t.Rooted) {parent : NodeId} {name : String} {role : Role}
    (fitting : t.Fitting parent name role) : (t.childOutline parent name role).Fits t t.size := by
  obtain ⟨k, hk, placed⟩ := fitting.placed
  obtain ⟨above, habove, rfl⟩ := exists_outline_of_kind? hk
  refine .node fitting.named fitting.notModule (lt_size_of_outline? habove) habove placed ?_ ?_ ?_
  · exact (h.ns_moduleOf habove).2
  · cases role <;> simp [Role.kind, Role.target?]
  · intro a ha
    obtain ⟨k', hk', haugmentable⟩ := fitting.augmentable a ha
    obtain ⟨o, ho, rfl⟩ := exists_outline_of_kind? hk'
    exact ⟨lt_size_of_outline? ho, o, ho, haugmentable⟩

theorem outline?_attach_child (parent : NodeId) (name : String) (role : Role) (i : NodeId) :
    (t.attach parent (t.childId parent name) role).outline? i =
      if i = t.size then some (t.childOutline parent name role) else t.outline? i :=
  outline?_attach t i parent (t.childId parent name) role

theorem outline?_enter_attach_child (parent holder : NodeId) (name : String) (role : Role)
    (e : ContextEntry) (i : NodeId) :
    ((t.enter holder (t.childId parent name) e).attach parent (t.childId parent name) role).outline?
        i = if i = t.size then some (t.childOutline parent name role) else t.outline? i := by
  rw [outline?_attach, size_enter, outline?_enter]
  rfl

theorem Rooted.grows (h : t.Rooted) (hgrows : t.Grows t') : t'.Rooted := by
  cases hgrows with
  | module named _ => exact h.append (.module named) (outline?_push t · _)
  | imported _ _ _ =>
      exact h.congr fun i => outline?_modify t i (fun n => Node.outline_withImport n _) _
  | attached fitting _ => exact h.append (h.fits_child fitting) (outline?_attach_child _ _ _)
  | entered fitting _ _ =>
      exact h.append (h.fits_child fitting) (outline?_enter_attach_child _ _ _ _ _)

/-- The outline of a node stays when the tree grows. -/
theorem Grows.outline? (h : t.Grows t') {i : NodeId} {o : Outline} (ho : t.outline? i = some o) :
    t'.outline? i = some o := by
  have hi := outline?_ne_size ho
  cases h with
  | module _ _ => rw [outline?_push, if_neg hi, ho]
  | @imported module imported _ _ _ =>
      rw [outline?_modify t i (fun n => Node.outline_withImport n imported), ho]
  | attached _ _ => rw [outline?_attach, if_neg hi, ho]
  | entered _ _ _ => rw [outline?_attach, size_enter, if_neg hi, outline?_enter, ho]

end Growth

/-- An entry for an identifier in the context of a node belongs there: it is the
entry of a data node with this identifier. Whether it was entered is another
matter. -/
def Registered (t : Tree) (holder : NodeId) (id : SchemaId) (e : ContextEntry) : Prop :=
  ∃ o parent, t.outline? e.node = some o ∧ o.id = id ∧ o.kind.isData = true ∧
    o.parent = some parent ∧ t.placeOf parent e.node = (holder, e)

/-- Every node fits where it is written, and the contexts have the entries that
belong there and no others. With it, what is found in a context can be told by
where nodes are written. -/
structure Sound (t : Tree) : Prop where
  rooted : t.Rooted
  mem_context_iff : ∀ holder id e, (id, e) ∈ t.context holder ↔ t.Registered holder id e
  nodup : ∀ holder, ((t.context holder).map Prod.fst).Nodup

section Sound

variable {t t' : Tree}

theorem placeOf_congr {parent : NodeId} (h : ∀ j, j ≤ parent → t'.outline? j = t.outline? j)
    (i : NodeId) : t'.placeOf parent i = t.placeOf parent i := by
  have hkind : t'.kind? (t.holderOf parent).1 = t.kind? (t.holderOf parent).1 := by
    rw [kind?_eq, kind?_eq, h _ (holderOf_le t parent)]
  rw [placeOf, placeOf, holderOf_congr h, hkind]

theorem node_of_placeOf {parent i holder : NodeId} {e : ContextEntry}
    (h : t.placeOf parent i = (holder, e)) : e.node = i := by
  have he : (t.placeOf parent i).2 = e := congrArg Prod.snd h
  exact congrArg ContextEntry.node he.symm

/-- Entries that belong somewhere belong there in a larger tree too, because
where they belong depends on earlier nodes only. -/
theorem Rooted.registered_iff (h : t.Rooted)
    (hold : ∀ i, i < t.size → t'.outline? i = t.outline? i) {holder : NodeId} {id : SchemaId}
    {e : ContextEntry} (he : e.node < t.size) :
    t'.Registered holder id e ↔ t.Registered holder id e := by
  refine exists_congr fun o => exists_congr fun parent => ?_
  rw [hold e.node he]
  refine and_congr_right fun ho => and_congr_right fun _ => and_congr_right fun _ =>
    and_congr_right fun hparent => ?_
  have hlt : parent < e.node := h.parent?_lt (by rw [parent?_eq, ho]; exact hparent)
  rw [placeOf_congr]
  intro j hj
  exact hold j (Nat.lt_trans (Nat.lt_of_le_of_lt hj hlt) he)

theorem Registered.lt_size {holder : NodeId} {id : SchemaId} {e : ContextEntry}
    (h : t.Registered holder id e) : e.node < t.size := by
  obtain ⟨o, _, ho, _⟩ := h
  exact lt_size_of_outline? ho

/-- Contexts do not change and nothing new belongs to them, so the tree stays
sound. This covers all that does not appear in instance data. -/
theorem Sound.keep (h : t.Sound) (hrooted : t'.Rooted)
    (hold : ∀ i, i < t.size → t'.outline? i = t.outline? i)
    (hnew : ∀ i o, t'.outline? i = some o → o.kind.isData = true → i < t.size)
    (hcontext : ∀ i, t'.context i = t.context i) : t'.Sound := by
  refine ⟨hrooted, ?_, ?_⟩
  · intro holder ident e
    rw [hcontext, h.mem_context_iff]
    constructor
    · exact fun he => (h.rooted.registered_iff hold he.lt_size).mpr he
    · intro he
      obtain ⟨o, parent, ho, _, hdata, _⟩ := id he
      exact (h.rooted.registered_iff hold (hnew _ o ho hdata)).mp he
  · intro holder
    rw [hcontext]
    exact h.nodup holder

theorem notMem_of_entry?_eq_none {holder : NodeId} {id : SchemaId}
    (h : t.entry? holder id = none) : id ∉ (t.context holder).map Prod.fst := by
  intro hmem
  obtain ⟨⟨id', e⟩, he, rfl⟩ := List.mem_map.mp hmem
  have hne := List.lookup_eq_none_iff.mp h _ he
  simp at hne

section Entering

variable {parent : NodeId} {name : String} {role : Role}

private abbrev entered (t : Tree) (parent : NodeId) (name : String) (role : Role) : Tree :=
  (t.enter (t.placeOf parent t.size).1 (t.childId parent name) (t.placeOf parent t.size).2).attach
    parent (t.childId parent name) role

private theorem context_entered (fitting : t.Fitting parent name role) (holder : NodeId) :
    (t.entered parent name role).context holder =
      if holder = (t.placeOf parent t.size).1 then
        t.context holder ++ [(t.childId parent name, (t.placeOf parent t.size).2)]
      else t.context holder := by
  obtain ⟨k, hk, _⟩ := fitting.placed
  obtain ⟨above, habove, _⟩ := exists_outline_of_kind? hk
  have hholder : (t.placeOf parent t.size).1 < t.size :=
    Nat.lt_of_le_of_lt (holderOf_le t parent) (lt_size_of_outline? habove)
  rw [context_attach, context_enter _ _ hholder]

/-- The new node belongs where it is entered, and nowhere else. -/
private theorem registered_new_iff (fitting : t.Fitting parent name role)
    (hdata : role.kind.isData = true) {holder : NodeId} {id : SchemaId} {e : ContextEntry}
    (he : e.node = t.size) :
    (t.entered parent name role).Registered holder id e ↔
      t.childId parent name = id ∧ t.placeOf parent t.size = (holder, e) := by
  have houtline := outline?_enter_attach_child (t := t) parent (t.placeOf parent t.size).1 name role
    (t.placeOf parent t.size).2
  have hparent : parent < t.size := by
    obtain ⟨k, hk, _⟩ := fitting.placed
    obtain ⟨above, habove, _⟩ := exists_outline_of_kind? hk
    exact lt_size_of_outline? habove
  have hplace : (t.entered parent name role).placeOf parent t.size = t.placeOf parent t.size := by
    refine placeOf_congr ?_ _
    intro j hj
    rw [houtline, if_neg (Nat.ne_of_lt (Nat.lt_of_le_of_lt hj hparent))]
  constructor
  · rintro ⟨o, p, ho, rfl, _, hp, hentry⟩
    rw [he, houtline, if_pos rfl] at ho
    obtain rfl := Option.some.inj ho
    obtain rfl := Option.some.inj hp
    rw [he, hplace] at hentry
    exact ⟨rfl, hentry⟩
  · rintro ⟨rfl, hentry⟩
    refine ⟨t.childOutline parent name role, parent, ?_, rfl, hdata, rfl, ?_⟩
    · rw [he, houtline, if_pos rfl]
    · rw [he, hplace]
      exact hentry

theorem Sound.entered (h : t.Sound) (fitting : t.Fitting parent name role)
    (hdata : role.kind.isData = true)
    (fresh : t.entry? (t.placeOf parent t.size).1 (t.childId parent name) = none) :
    (t.entered parent name role).Sound := by
  have hold : ∀ i, i < t.size → (t.entered parent name role).outline? i = t.outline? i := by
    intro i hi
    rw [outline?_enter_attach_child, if_neg (Nat.ne_of_lt hi)]
  refine ⟨h.rooted.grows (.entered fitting hdata fresh), ?_, ?_⟩
  · intro holder id e
    have hmem : (id, e) ∈ (t.entered parent name role).context holder ↔
        (id, e) ∈ t.context holder ∨
          t.childId parent name = id ∧ t.placeOf parent t.size = (holder, e) := by
      rw [context_entered fitting]
      split
      · rename_i hholder
        simp [hholder, Prod.ext_iff, eq_comm]
      · rename_i hholder
        simp [Prod.ext_iff, Ne.symm hholder]
    rw [hmem, h.mem_context_iff]
    -- The new entry has the number of the new node and all others have smaller ones.
    rcases Nat.lt_trichotomy e.node t.size with hlt | heq | hgt
    · rw [h.rooted.registered_iff hold hlt]
      refine or_iff_left ?_
      rintro ⟨_, hentry⟩
      exact Nat.ne_of_lt hlt (node_of_placeOf hentry)
    · rw [registered_new_iff fitting hdata heq]
      refine or_iff_right ?_
      intro he
      exact Nat.ne_of_lt he.lt_size heq
    · constructor
      · rintro (he | ⟨_, hentry⟩)
        · exact absurd he.lt_size (Nat.lt_asymm hgt)
        · exact absurd (node_of_placeOf hentry) (Nat.ne_of_gt hgt)
      · intro he
        have hsize := he.lt_size
        rw [size_attach, size_enter] at hsize
        exact absurd hsize (Nat.not_lt.mpr hgt)
  · intro holder
    rw [context_entered fitting]
    split
    · rename_i hholder
      subst hholder
      rw [List.map_append]
      refine List.nodup_append.mpr ⟨h.nodup _, List.nodup_singleton _, ?_⟩
      rintro id hid id' hid' rfl
      obtain rfl := List.mem_singleton.mp hid'
      exact notMem_of_entry?_eq_none fresh hid
    · exact h.nodup holder

end Entering

theorem Sound.empty : Sound {} := by
  refine ⟨nofun, ?_, fun _ => List.nodup_nil⟩
  intro holder id e
  constructor
  · nofun
  · rintro ⟨_, _, ho, _⟩
    cases ho

theorem Sound.grows (h : t.Sound) (hgrows : t.Grows t') : t'.Sound := by
  have hrooted := h.rooted.grows hgrows
  cases hgrows with
  | module named _ =>
      refine h.keep hrooted ?_ ?_ fun i => context_push t i rfl
      · intro i hi
        rw [outline?_push, if_neg (Nat.ne_of_lt hi)]
      · intro i o ho hdata
        rw [outline?_push] at ho
        split at ho
        · obtain rfl := Option.some.inj ho
          cases hdata
        · exact lt_size_of_outline? ho
  | @imported module imported _ _ _ =>
      have houtline := fun i =>
        outline?_modify t i (fun n => Node.outline_withImport n imported) module
      refine h.keep hrooted (fun i _ => houtline i) ?_ ?_
      · intro i o ho _
        exact lt_size_of_outline? ((houtline i).symm.trans ho)
      · intro i
        exact context_modify t i (f := fun n => { n with role := n.role.withImport imported })
          (fun _ => rfl) module
  | attached fitting hnot =>
      refine h.keep hrooted ?_ ?_ fun i => context_attach t i _ _ _
      · intro i hi
        rw [outline?_attach, if_neg (Nat.ne_of_lt hi)]
      · intro i o ho hdata
        rw [outline?_attach_child] at ho
        split at ho
        · obtain rfl := Option.some.inj ho
          exact absurd hdata (by simp [childOutline, hnot])
        · exact lt_size_of_outline? ho
  | entered fitting hdata fresh => exact h.entered fitting hdata fresh

/-- Statements in any order make sound trees. Each way in which a tree can grow
is one case. -/
theorem Reachable.sound (h : t.Reachable) : t.Sound :=
  h.of_grows .empty fun _ _ => Sound.grows

end Sound

end Tree

end Yang.Schema
