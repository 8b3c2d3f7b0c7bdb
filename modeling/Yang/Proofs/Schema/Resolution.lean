import Yang.Proofs.Matching
import Yang.Proofs.Schema.Forest
import Yang.Proofs.Schema.Modules

/-!
# What a resolved path leads to

`Tree.Chain` is a way from a node along the segments of a path. Every entry on it
stands in the context of the node before it or, below an anydata node whose context has
no match, among the members registered for that node. Whatever is resolved is the end
of such a chain, from the module itself or from one of its imports. Without members the
chain is a way in the forest of contexts, and there is one such way only.
-/

namespace Yang.Schema

namespace Tree

/-- A segment matches a data node up to the folding of names. -/
def Matches (t : Tree) (segment : String) (e : ContextEntry) : Prop :=
  (∃ k, t.kind? e.node = some k ∧ k.isData = true) ∧
    Name.segmentMatches segment (t.name e.node) = true

inductive Leads (t : Tree) (members : Members) (segment : String) (i : NodeId) :
    ContextEntry → Prop
  | entry {id : SchemaId} {e : ContextEntry} (he : (id, e) ∈ t.context i)
      (hmatch : t.Matches segment e) : Leads t members segment i e
  | member {e : ContextEntry} (hkind : t.kind? i = some .anydata)
      (unmatched : ∀ id e', (id, e') ∈ t.context i → ¬t.Matches segment e')
      (he : e ∈ members i) (hmatch : t.Matches segment e) : Leads t members segment i e

/-- Segments lead from a node along entries. Each step leads to an entry that
its segment matches, not necessarily the first one of its context. -/
inductive Chain (t : Tree) (members : Members) : NodeId → List String → List ContextEntry → Prop
  | nil (i : NodeId) : Chain t members i [] []
  | cons {i : NodeId} {segment : String} {segments : List String} {e : ContextEntry}
      {es : List ContextEntry} (leads : t.Leads members segment i e)
      (rest : Chain t members e.node segments es) :
      Chain t members i (segment :: segments) (e :: es)

/-- The segments with the last one in place of the one before it. A single
segment has none before it and stays. -/
inductive Collapses : List String → List String → Prop
  | single (a : String) : Collapses [a] [a]
  | last (start : List String) (a b : String) : Collapses (start ++ [a, b]) (start ++ [b])

theorem collapses_collapse {segments : List String} (h : segments ≠ []) :
    Collapses segments (collapse segments) := by
  induction segments with
  | nil => exact absurd rfl h
  | cons a rest ih =>
      match rest with
      | [] => exact .single a
      | [b] => exact .last [] a b
      | b :: c :: rest =>
          rw [collapse]
          generalize hsegments : b :: c :: rest = segments at ih ⊢
          generalize collapse segments = collapsed at ih ⊢
          cases ih (by simp [← hsegments]) with
          | single d => cases hsegments
          | last start d e => exact .last (a :: start) d e

section Walk

variable {t : Tree} {members : Members}

/-- Comparing with attribute names is comparing with names, since the names in a
tree are identifiers and so in ASCII. -/
theorem Rooted.matchesEntry_iff (h : t.Rooted) {segment : String} {e : ContextEntry} :
    t.matchesEntry segment e = true ↔ t.Matches segment e := by
  rw [matchesEntry_iff_kind, Matches]
  refine and_congr_right ?_
  rintro ⟨k, hk, -⟩
  obtain ⟨o, ho, -⟩ := exists_outline_of_kind? hk
  have hname : t.name e.node = o.id.name := by rw [name_eq, ho]; rfl
  have hident : Name.isIdentifier o.id.name = true :=
    Name.checkIdentifier_eq_ok_iff.mp (h e.node o ho).named
  rw [hname, Name.segmentMatches_attributeName (Name.isAscii_of_isIdentifier hident)]

theorem Rooted.leads_of_step? (h : t.Rooted) {i : NodeId} {segment : String} {e : ContextEntry}
    (he : t.step? members i segment = some e) : t.Leads members segment i e := by
  rw [step?] at he
  split at he
  · rename_i e' hfound
    obtain rfl := Option.some.inj he
    obtain ⟨⟨id, _⟩, hentry, rfl⟩ := List.mem_map.mp (List.mem_of_find?_eq_some hfound)
    exact .entry hentry (h.matchesEntry_iff.mp (List.find?_some hfound))
  · rename_i hnone
    split at he
    · rename_i hkind
      refine .member hkind ?_ (List.mem_of_find?_eq_some he)
        (h.matchesEntry_iff.mp (List.find?_some he))
      intro id e' he' hmatch
      have hmem : e' ∈ t.entries i := List.mem_map.mpr ⟨(id, e'), he', rfl⟩
      exact List.find?_eq_none.mp hnone e' hmem (h.matchesEntry_iff.mpr hmatch)
    · cases he

/-- A walk follows a chain to its end. The induction is on the segments, from
every node at once. -/
theorem Rooted.chain_of_walk? (h : t.Rooted) {i : NodeId} {segment : String} {rest : List String}
    {info : ContextEntry} (hwalk : t.walk? members i segment rest = some info) :
    ∃ es, t.Chain members i (segment :: rest) es ∧ es.getLast? = some info := by
  induction rest generalizing i segment with
  | nil => exact ⟨[info], .cons (h.leads_of_step? hwalk) (.nil _), rfl⟩
  | cons next rest ih =>
      rw [walk?] at hwalk
      split at hwalk
      · rename_i e hstep
        obtain ⟨es, hchain, hlast⟩ := ih hwalk
        refine ⟨e :: es, .cons (h.leads_of_step? hstep) hchain, ?_⟩
        rw [List.getLast?_cons, hlast]
        rfl
      · cases hwalk

theorem Rooted.chain_of_follow? (h : t.Rooted) {i : NodeId} {segments : List String}
    {info : ContextEntry} (hfollow : t.follow? members i segments = some info) :
    ∃ es, t.Chain members i segments es ∧ es.getLast? = some info := by
  cases segments with
  | nil => cases hfollow
  | cons segment rest => exact h.chain_of_walk? hfollow

/-- Without members a chain is a way through the contexts. Members are
registered and belong to no context. -/
theorem Chain.contextPath {i : NodeId} {segments : List String} {es : List ContextEntry}
    {info : ContextEntry} (h : t.Chain members i segments es) (hmembers : ∀ i, members i = [])
    (hlast : es.getLast? = some info) : t.ContextPath i es info.node := by
  induction h with
  | nil i => cases hlast
  | @cons i segment segments e es leads rest ih =>
      obtain ⟨id, he⟩ : ∃ id, (id, e) ∈ t.context i := by
        cases leads with
        | entry he _ => exact ⟨_, he⟩
        | member _ _ he _ =>
            rw [hmembers] at he
            cases he
      refine .cons he ?_
      cases es with
      | nil =>
          obtain rfl := Option.some.inj hlast
          exact .nil _
      | cons e' es' => exact ih (by rwa [List.getLast?_cons_cons] at hlast)

/-- The first import from which segments lead anywhere. Those before it lead
nowhere, and those behind it do not count. -/
theorem exists_of_findSome? {modules : List NodeId} {segments : List String} {info : ContextEntry}
    (h : (modules.findSome? fun i => t.follow? members i segments) = some info) :
    ∃ before start after, modules = before ++ start :: after ∧
      (∀ i ∈ before, t.follow? members i segments = none) ∧
      t.follow? members start segments = some info := by
  obtain ⟨before, start, after, rfl, hfound, hnone⟩ := List.findSome?_eq_some_iff.mp h
  exact ⟨before, start, after, rfl, hnone, hfound⟩

/-- A path is resolved directly or else through the first import that leads on. -/
theorem resolve_eq_ok {limits : Limits} {path : Path} {root : NodeId} {info : ContextEntry}
    (h : t.resolve members limits path root = .ok info) :
    t.follow? members root path.segments = some info ∨
      t.follow? members root path.segments = none ∧ path.segments ≠ [] ∧
        ∃ before start after, t.imports root = before ++ start :: after ∧
          (∀ i ∈ before, t.follow? members i (collapse path.segments) = none) ∧
          t.follow? members start (collapse path.segments) = some info := by
  simp only [resolve, bind_eq_ok_iff, exists_unit_iff] at h
  obtain ⟨-, h⟩ := h
  split at h
  · simp at h
  · rename_i hempty
    split at h
    · rename_i e hdirect
      obtain rfl := pure_eq_ok_iff.mp h
      exact .inl hdirect
    · rename_i hdirect
      split at h
      · rename_i e himport
        obtain rfl := pure_eq_ok_iff.mp h
        refine .inr ⟨hdirect, ?_, exists_of_findSome? himport⟩
        intro hnil
        exact hempty (by rw [hnil]; rfl)
      · exact absurd h throw_ne_ok

end Walk

/-- What is resolved is the end of a chain: from the module itself, or, if
nothing is found there, from the first import that leads on without the segment
before the last. Without members the chain is the only way from a module to the
node that is found, and what is returned is the only entry of that node. -/
theorem resolve_sound {t : Tree} (reachable : t.Reachable) (members : Members) (limits : Limits)
    (path : Path) {root : NodeId} (hroot : t.kind? root = some .module) {info : ContextEntry}
    (h : t.resolve members limits path root = .ok info) :
    ∃ start segments es,
      (start = root ∧ segments = path.segments ∨
        t.follow? members root path.segments = none ∧ Collapses path.segments segments ∧
          ∃ before after, t.imports root = before ++ start :: after ∧
            ∀ i ∈ before, t.follow? members i segments = none) ∧
      t.Chain members start segments es ∧ es.getLast? = some info ∧
      ((∀ i, members i = []) →
        t.ContextPath start es info.node ∧
          (∀ m es', t.kind? m = some .module → t.ContextPath m es' info.node →
            m = start ∧ es' = es) ∧
          ∃ holder id, (id, info) ∈ t.context holder ∧
            ∀ holder' id' e, (id', e) ∈ t.context holder' → e.node = info.node →
              holder' = holder ∧ id' = id ∧ e = info) := by
  have sound := reachable.sound
  -- The two ways to resolve differ in where the chain starts.
  obtain ⟨start, segments, hstart, hway, hfollow⟩ : ∃ start segments,
      t.kind? start = some .module ∧
      (start = root ∧ segments = path.segments ∨
        t.follow? members root path.segments = none ∧ Collapses path.segments segments ∧
          ∃ before after, t.imports root = before ++ start :: after ∧
            ∀ i ∈ before, t.follow? members i segments = none) ∧
      t.follow? members start segments = some info := by
    rcases resolve_eq_ok h with
      hdirect | ⟨hnone, hne, before, start, after, himports, hbefore, hfound⟩
    · exact ⟨root, path.segments, hroot, .inl ⟨rfl, rfl⟩, hdirect⟩
    · have hmem : start ∈ t.imports root := by simp [himports]
      exact ⟨start, collapse path.segments, reachable.kind?_of_mem_imports hmem,
        .inr ⟨hnone, collapses_collapse hne, before, after, himports, hbefore⟩, hfound⟩
  obtain ⟨es, hchain, hlast⟩ := sound.rooted.chain_of_follow? hfollow
  refine ⟨start, segments, es, hway, hchain, hlast, ?_⟩
  intro hmembers
  have hpath := hchain.contextPath hmembers hlast
  refine ⟨hpath, ?_, ?_⟩
  · intro m es' hm hpath'
    exact sound.path_unique hstart hm hpath hpath'
  · rcases hpath.last with ⟨rfl, _⟩ | ⟨es', holder, id, e, rfl, _, he, _⟩
    · cases hlast
    · obtain rfl : e = info := by simpa using hlast
      refine ⟨holder, id, he, ?_⟩
      intro holder' id' e' he' hnode
      exact ((sound.mem_context_iff _ _ _).mp he).unique
        ((sound.mem_context_iff _ _ _).mp he') hnode

/-- Two modules of which the second adds notes to a container of the first. -/
def warehouse : Tree :=
  [.module "store" "urn:store" "s" none, .container 0 "large-box",
    .module "notes" "urn:notes" "n" none, .importModule 2 0,
    .augment 2 "boxNotes" 1, .anydata 3 "free-text"].foldl Tree.after {}

/-- The notes are found through the module that is imported. -/
theorem resolve_sound_warehouse :
    ∃ start segments es,
      Chain warehouse (fun _ => []) start segments es ∧ es.getLast? = some ⟨4, some 3, false⟩ ∧
      warehouse.ContextPath start es 4 := by
  have reachable : warehouse.Reachable := Reachable.empty.foldl_after _
  have hroot : warehouse.kind? 2 = some .module := by decide +kernel
  have hresolve : warehouse.resolve (fun _ => []) {}
      ⟨"notes", none, ["LargeBox", "BoxNotes", "FreeText"]⟩ 2 = .ok ⟨4, some 3, false⟩ := by
    decide +kernel
  obtain ⟨start, segments, es, -, hchain, hlast, hpath⟩ :=
    resolve_sound reachable (fun _ => []) {} _ hroot hresolve
  exact ⟨start, segments, es, hchain, hlast, (hpath fun _ => rfl).1⟩

end Tree

end Yang.Schema
