import Yang.Proofs.Registry.Consistency

/-!
# What stays registered below anydata nodes

Nodes that may appear below an anydata node are registered with it, and they may come from
other modules than the anydata node. When a model is removed, its own anydata nodes lose what
is registered below them. Its nodes below the anydata nodes of other models stay. The lemmas
here follow such a node through the calls of a registry: it is there after some calls exactly
if one of them entered it and none of the later ones removed a model that owns the anydata
node.
-/

namespace Yang

open Schema

def Model.Owns (t : Tree) (model : Model) (i : NodeId) : Prop :=
  ∃ m ∈ model.modules, m.root = t.moduleOf i

namespace Registry

variable {r r' : Registry} {model : Model} {i location node : NodeId} {path : Path}
  {paths : List Path} {request : Request}

theorem isWrittenIn_iff : r.isWrittenIn model i = true ↔ model.Owns r.tree i := by
  simp only [isWrittenIn, List.any_eq_true, beq_iff_eq]
  rfl

def Allows (r : Registry) (location node : NodeId) : Prop :=
  ∃ entries, (location, entries) ∈ r.anydata ∧ ∃ e ∈ entries, e.node = node

/-- A registration below an anydata node names the node, be it this anydata node
itself. Both ways count when a model is removed. -/
def Mentions (r : Registry) (i : NodeId) : Prop :=
  (∃ entries, (i, entries) ∈ r.anydata) ∨ ∃ location, r.Allows location i

/-- The call enters the node below the anydata node: it succeeds, and two of its
paths lead to these nodes. The node may have been there before. -/
inductive Enters (r : Registry) : Request → NodeId → NodeId → Prop
  | of {path member : Path} {paths : List Path} {target e : ContextEntry} {after : Registry}
      (ok : r.registerAnydata path paths = .ok after) (htarget : r.resolve path = .ok target)
      (hmember : member ∈ paths) (he : r.resolve member = .ok e) :
      Enters r (.registerAnydata path paths) target.node e.node

def Drops (r : Registry) (location : NodeId) : Request → Prop
  | .unregister id => ∃ model, r.model? id = some model ∧ model.Owns r.tree location
  | _ => False

section Registering

theorem exists_mem_addEntry_iff {entries : List ContextEntry} {e : ContextEntry} :
    (∃ e' ∈ addEntry entries e, e'.node = node) ↔
      (∃ e' ∈ entries, e'.node = node) ∨ e.node = node := by
  rw [addEntry]
  split
  · rename_i hknown
    obtain ⟨known, hmem, hsame⟩ := List.any_eq_true.mp hknown
    refine (or_iff_left_of_imp ?_).symm
    rintro rfl
    exact ⟨known, hmem, beq_iff_eq.mp hsame⟩
  · simp [or_and_right, exists_or]

theorem exists_mem_foldl_addEntry_iff {entries added : List ContextEntry} :
    (∃ e ∈ added.foldl addEntry entries, e.node = node) ↔
      (∃ e ∈ entries, e.node = node) ∨ ∃ e ∈ added, e.node = node := by
  induction added generalizing entries with
  | nil => simp
  | cons e added ih =>
      rw [List.foldl_cons, ih, exists_mem_addEntry_iff, List.exists_mem_cons_iff, or_assoc]

theorem allows_of_mem_members (h : ∃ e ∈ r.members location, e.node = node) :
    r.Allows location node := by
  rw [members] at h
  cases hlookup : r.anydata.lookup location with
  | none => simp [hlookup] at h
  | some entries =>
      rw [hlookup] at h
      exact ⟨entries, Table.mem_of_lookup hlookup, h⟩

/-- A registration enters the nodes of its entries below its anydata node, and
no others. -/
theorem enters_registerAnydata_iff (h : r.registerAnydata path paths = .ok r')
    {target : ContextEntry} {entries : List ContextEntry} (htarget : r.resolve path = .ok target)
    (hentries : List.Forall₂
      (fun p e => ∃ found, r.resolve p = .ok found ∧ found.forAnydata = e) paths entries) :
    r.Enters (.registerAnydata path paths) location node ↔
      location = target.node ∧ ∃ e ∈ entries, e.node = node := by
  constructor
  · rintro ⟨_, htarget', hmember, he⟩
    obtain rfl := Except.ok.inj (htarget.symm.trans htarget')
    obtain ⟨e', he', found, hfound, rfl⟩ := exists_mem_of_forall₂ hentries.flip hmember
    obtain rfl := Except.ok.inj (he.symm.trans hfound)
    exact ⟨rfl, _, he', rfl⟩
  · rintro ⟨rfl, e, he, rfl⟩
    obtain ⟨p, hp, found, hfound, rfl⟩ := exists_mem_of_forall₂ hentries he
    have hentered : r.Enters (.registerAnydata path paths) target.node found.node :=
      .of h htarget hp hfound
    exact hentered

/-- After a registration below an anydata node the nodes are there that were
there before, and those that it entered. -/
theorem allows_registerAnydata_iff (h : r.registerAnydata path paths = .ok r') :
    r'.Allows location node ↔
      r.Allows location node ∨ r.Enters (.registerAnydata path paths) location node := by
  obtain ⟨target, entries, htarget, -, hentries, rfl⟩ := registerAnydata_eq_ok_iff.mp h
  -- The nodes that were found below the anydata node are put back, before the new ones.
  have hkept : ∀ known, r.anydata.lookup target.node = some known →
      (∃ e ∈ known, e.node = node) →
      ∃ e ∈ entries.foldl addEntry (r.members target.node), e.node = node := by
    intro known hknown hnode
    rw [exists_mem_foldl_addEntry_iff, members, hknown]
    exact .inl hnode
  rw [enters_registerAnydata_iff h htarget hentries, Allows, Table.exists_mem_put_iff hkept,
    exists_mem_foldl_addEntry_iff]
  constructor
  · rintro (hold | ⟨rfl, hknown | hnew⟩)
    · exact .inl hold
    · exact .inl (allows_of_mem_members hknown)
    · exact .inr ⟨rfl, hnew⟩
  · rintro (hold | ⟨rfl, hnew⟩)
    · exact .inl hold
    · exact .inr ⟨rfl, .inr hnew⟩

end Registering

section Steps

/-- Only a model that is there is removed, and it is the one with the id. -/
theorem model?_of_unregister {id : String} (h : r.unregister id = (some model, r')) :
    r.model? id = some model := by
  rw [unregister] at h
  split at h
  · cases h
  · rename_i hmodel
    obtain ⟨hsame, -⟩ := Prod.mk.inj h
    rw [hmodel, hsame]

/-- What is below an anydata node stays there while its own model does. To which
models the nodes belong that were registered there is not looked at. -/
theorem mem_anydata_unregister_iff {id : String} (hmodel : r.model? id = some model)
    {entries : List ContextEntry} :
    (location, entries) ∈ (r.unregister id).2.anydata ↔
      (location, entries) ∈ r.anydata ∧ ¬model.Owns r.tree location := by
  rw [unregister, hmodel]
  simp only [List.mem_filter, Bool.not_eq_true', ← Bool.not_eq_true, isWrittenIn_iff]

theorem allows_unregister_iff {id : String} (hmodel : r.model? id = some model) :
    (r.unregister id).2.Allows location node ↔
      r.Allows location node ∧ ¬model.Owns r.tree location := by
  constructor
  · rintro ⟨entries, hmem, hnode⟩
    obtain ⟨hmem, hother⟩ := (mem_anydata_unregister_iff hmodel).mp hmem
    exact ⟨⟨entries, hmem, hnode⟩, hother⟩
  · rintro ⟨⟨entries, hmem, hnode⟩, hother⟩
    exact ⟨entries, (mem_anydata_unregister_iff hmodel).mpr ⟨hmem, hother⟩, hnode⟩

/-- After a call those nodes are below an anydata node that it enters there, and
those that were there before if it does not drop the anydata node. This is the
step of all results about calls in a row. -/
theorem allows_after_iff :
    (r.after request).Allows location node ↔
      r.Enters request location node ∨ r.Allows location node ∧ ¬r.Drops location request := by
  cases request with
  | register p =>
      have henters : ¬r.Enters (.register p) location node := by rintro ⟨⟩
      have hanydata : (r.after (.register p)).anydata = r.anydata := by
        rw [after]
        rcases registering_cases r p with ⟨e, hfails⟩ | ⟨modules, -, hok⟩
        · rw [hfails]
        · rw [hok]
          rfl
      simp only [Allows, hanydata, henters, Drops, not_false_eq_true, and_true, false_or]
  | unregister id =>
      have henters : ¬r.Enters (.unregister id) location node := by rintro ⟨⟩
      cases hmodel : r.model? id with
      | none =>
          have hafter : r.after (.unregister id) = r := by rw [after, unregister, hmodel]
          simp [hafter, henters, Drops, hmodel]
      | some model =>
          simp only [after, allows_unregister_iff hmodel, henters, Drops, hmodel,
            Option.some.injEq, exists_eq_left', false_or]
  | registerAnydata path paths =>
      have hdrops : ¬r.Drops location (.registerAnydata path paths) := id
      cases hcall : r.registerAnydata path paths with
      | error e =>
          have henters : ¬r.Enters (.registerAnydata path paths) location node := by
            rintro ⟨hok⟩
            rw [hcall] at hok
            cases hok
          have hafter : r.after (.registerAnydata path paths) = r := by rw [after, hcall]
          simp [hafter, henters, hdrops]
      | ok r' =>
          have hafter : r.after (.registerAnydata path paths) = r' := by rw [after, hcall]
          rw [hafter, allows_registerAnydata_iff hcall, or_comm, and_iff_left hdrops]

end Steps

section Runs

def Keeps (r : Registry) (location : NodeId) : List Request → Prop
  | [] => True
  | request :: rest => ¬r.Drops location request ∧ (r.after request).Keeps location rest

/-- One of the calls enters the node below the anydata node, and the later ones
keep it. -/
def Leaves (r : Registry) (location node : NodeId) : List Request → Prop
  | [] => False
  | request :: rest =>
    r.Enters request location node ∧ (r.after request).Keeps location rest ∨
      (r.after request).Leaves location node rest

/-- After calls those nodes are below an anydata node that they leave there, and
those that were there before if they keep the anydata node. -/
theorem allows_foldl_iff (requests : List Request) :
    (requests.foldl after r).Allows location node ↔
      r.Leaves location node requests ∨ r.Allows location node ∧ r.Keeps location requests := by
  induction requests generalizing r with
  | nil => simp [Leaves, Keeps]
  | cons request rest ih =>
      rw [List.foldl_cons, ih, allows_after_iff, Leaves, Keeps]
      grind

end Runs

/-- The anydata nodes of a model are gone when it is removed, and what is below
the others is as it was before. No node of the model is mentioned any more
exactly if the calls before left none of its nodes below an anydata node of
others. -/
theorem mentions_after_unregister (t : Tree) (limits : Limits) (requests : List Request)
    {id : String} {model : Model} {before after : Registry}
    (reached : requests.foldl Registry.after { tree := t, limits := limits } = before)
    (removed : before.unregister id = (some model, after)) :
    (∀ location entries, (location, entries) ∈ after.anydata ↔
      (location, entries) ∈ before.anydata ∧ ¬model.Owns t location) ∧
    ((∀ i, after.Mentions i → ¬model.Owns t i) ↔
      ∀ location node, Leaves { tree := t, limits := limits } location node requests →
        model.Owns t node → model.Owns t location) := by
  have htree : before.tree = t := by
    rw [← reached, tree_foldl_after]
  have hmodel : before.model? id = some model := model?_of_unregister removed
  obtain rfl : (before.unregister id).2 = after := by rw [removed]
  have hallows : ∀ location node, (before.unregister id).2.Allows location node ↔
      Leaves { tree := t, limits := limits } location node requests ∧
        ¬model.Owns t location := by
    intro location node
    have hfirst : ¬Allows { tree := t, limits := limits } location node := by simp [Allows]
    rw [allows_unregister_iff hmodel, htree, ← reached, allows_foldl_iff, or_iff_left]
    exact fun h => hfirst h.1
  have hlocations : ∀ location entries, (location, entries) ∈ (before.unregister id).2.anydata ↔
      (location, entries) ∈ before.anydata ∧ ¬model.Owns t location := by
    intro location entries
    rw [mem_anydata_unregister_iff hmodel, htree]
  refine ⟨hlocations, ?_, ?_⟩
  · intro forgotten location node hleaves hnode
    by_contra hlocation
    exact forgotten node (.inr ⟨location, (hallows location node).mpr ⟨hleaves, hlocation⟩⟩) hnode
  · rintro inside i (⟨entries, hmem⟩ | ⟨location, hmem⟩)
    · exact ((hlocations i entries).mp hmem).2
    · obtain ⟨hleaves, hlocation⟩ := (hallows location i).mp hmem
      exact fun hnode => hlocation (inside location i hleaves hnode)

/-- A module with a place for notes, and another one with memos. -/
def bureau : Tree :=
  [.module "store" "urn:store" "s" none, .anydata 0 "notes",
    .module "office" "urn:office" "o" none, .container 2 "memo"].foldl Tree.after {}

/-- Memos are registered below the notes of another model. -/
def filing : List Request :=
  [.register ⟨"shop", [⟨"store", none⟩]⟩, .register ⟨"desk", [⟨"office", none⟩]⟩,
    .registerAnydata ⟨"store", none, ["notes"]⟩ [⟨"office", none, ["memo"]⟩]]

def archive : Registry := filing.foldl after { tree := bureau }

def shop : Model := ⟨"shop", [⟨⟨"store", none⟩, "urn:store", 0⟩]⟩

def desk : Model := ⟨"desk", [⟨⟨"office", none⟩, "urn:office", 2⟩]⟩

theorem unregister_shop : (archive.unregister "shop").1 = some shop := by decide +kernel

theorem unregister_desk : (archive.unregister "desk").1 = some desk := by decide +kernel

theorem anydata_archive : archive.anydata = [(1, [⟨3, none, true⟩])] := by decide +kernel

theorem moduleOf_bureau : bureau.moduleOf 3 = 2 := by decide +kernel

/-- The memos stay below the notes when their own model is removed, and are
found there. -/
theorem memos_left :
    filing.foldl after { tree := bureau } = archive ∧
      (archive.unregister "desk").1 = some desk ∧ desk.Owns bureau 3 ∧
      (archive.unregister "desk").2.Mentions 3 ∧
      (archive.unregister "desk").2.resolve ⟨"store", none, ["notes", "memo"]⟩ =
        .ok ⟨3, none, true⟩ := by
  have hanydata : (archive.unregister "desk").2.anydata = [(1, [⟨3, none, true⟩])] := by
    decide +kernel
  refine ⟨rfl, unregister_desk, ⟨_, List.mem_singleton_self _, moduleOf_bureau.symm⟩,
    .inr ⟨1, [⟨3, none, true⟩], ?_, _, List.mem_singleton_self _, rfl⟩, by decide +kernel⟩
  rw [hanydata]
  exact List.mem_singleton_self _

/-- Nothing of the model of the notes is left when it is removed: what was
registered below its notes is gone with them. -/
theorem mentions_after_unregister_shop :
    (archive.unregister "shop").1 = some shop ∧
      ∀ i, (archive.unregister "shop").2.Mentions i → ¬shop.Owns bureau i := by
  have hmemo : ¬shop.Owns bureau 3 := by
    rintro ⟨m, hm, hroot⟩
    rw [List.mem_singleton.mp hm, moduleOf_bureau] at hroot
    cases hroot
  refine ⟨unregister_shop, (mentions_after_unregister bureau {} filing rfl
    (Prod.ext unregister_shop rfl)).2.mpr ?_⟩
  intro location node hleaves hnode
  obtain ⟨entries, hmem, e, he, rfl⟩ : archive.Allows location node :=
    (allows_foldl_iff filing).mpr (.inl hleaves)
  rw [anydata_archive] at hmem
  obtain ⟨-, rfl⟩ := Prod.mk.inj (List.mem_singleton.mp hmem)
  rw [List.mem_singleton.mp he] at hnode
  exact absurd hnode hmemo

end Registry

end Yang
